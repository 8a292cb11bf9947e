import LedgerText.Directive
import LedgerText.Interchange.Token

/-!
# The interchange form of directives

Directives as JSON. Numbers and dates are texts there, so that no place of a
number is lost; what is absent is null, and may be left out when it is read.
-/

namespace LedgerText

namespace Date

/-- The interchange form of a date. -/
def toJson (d : Date) : Json := .text d.toText

/-- Reads a date. -/
def ofJson? (json : Json) : Option Date := json.text?.bind ofIso?

end Date

/-! ## Amounts -/

namespace Amount

/-- The interchange form of an amount. -/
def toJson (a : Amount) : Json :=
  .object [("number", a.number.toJson), ("currency", .text a.currency)]

/-- Reads an amount. -/
def ofJson? (json : Json) : Option Amount := do
  let json := json.record ["number", "currency"]
  let number ← json.read "number" Decimal.ofJson?
  let currency ← json.read "currency" Json.text?
  pure ⟨number, currency⟩

end Amount

namespace LotCost

/-- The interchange form of a lot cost. -/
def toJson (c : LotCost) : Json :=
  .object [("cost", c.cost.toJson), ("date", Json.ofOption Date.toJson c.date)]

/-- Reads a lot cost. -/
def ofJson? (json : Json) : Option LotCost := do
  let json := json.record ["cost", "date"]
  let cost ← json.read "cost" Amount.ofJson?
  let date ← json.readOptional "date" Date.ofJson?
  pure ⟨cost, date⟩

end LotCost

namespace Position

/-- The interchange form of a position. -/
def toJson (p : Position) : Json :=
  .object [("units", p.units.toJson), ("cost", Json.ofOption LotCost.toJson p.cost)]

/-- Reads a position. -/
def ofJson? (json : Json) : Option Position := do
  let json := json.record ["units", "cost"]
  let units ← json.read "units" Amount.ofJson?
  let cost ← json.readOptional "cost" LotCost.ofJson?
  pure ⟨units, cost⟩

end Position

namespace Posting

/-- The interchange form of a posting. -/
def toJson (p : Posting) : Json :=
  .object
    [("flag", Json.ofOption (fun flag => .text (String.singleton flag)) p.flag),
     ("account", .text p.account),
     ("position", Json.ofOption Position.toJson p.position),
     ("price", Json.ofOption Amount.toJson p.price),
     ("price_is_total", .bool p.priceIsTotal)]

/-- Reads a posting. -/
def ofJson? (json : Json) : Option Posting := do
  let json := json.record ["flag", "account", "position", "price", "price_is_total"]
  let flag ← json.readOptional "flag" Json.char?
  let account ← json.read "account" Json.text?
  let position ← json.readOptional "position" Position.ofJson?
  let price ← json.readOptional "price" Amount.ofJson?
  let priceIsTotal ← json.read "price_is_total" Json.bool?
  pure { flag, account, position, price, priceIsTotal }

end Posting

/-! ## Statements -/

namespace Location

/-- The interchange form of a location. -/
def toJson (l : Location) : Json :=
  .object [("filename", .text l.filename), ("lineno", .nat l.line)]

/-- Reads a location. -/
def ofJson? (json : Json) : Option Location := do
  let json := json.record ["filename", "lineno"]
  let filename ← json.read "filename" Json.text?
  let line ← json.read "lineno" Json.word?
  pure ⟨filename, line⟩

end Location

/-- The interchange form of a list of texts. -/
def textsToJson (texts : List String) : Json := .list (texts.map .text)

namespace Content

/-- The name of a kind of statement in the interchange form. -/
def identifier : Content → String
  | .balance .. => "balance"
  | content => content.typeName

/-- The fields of a statement, by kind. -/
def fields : Content → List (String × Json)
  | .transaction t =>
      [("date", t.date.toJson), ("flag", .text (String.singleton t.flag)),
       ("payee", Json.ofOption .text t.payee), ("narration", .text t.narration),
       ("tags", textsToJson t.tags), ("links", textsToJson t.links),
       ("postings", .list (t.postings.map Posting.toJson))]
  | .opening date account currencies =>
      [("date", date.toJson), ("account", .text account), ("currencies", textsToJson currencies)]
  | .closing date account => [("date", date.toJson), ("account", .text account)]
  | .pad date account source =>
      [("date", date.toJson), ("account", .text account), ("source_account", .text source)]
  | .balance date account amount =>
      [("date", date.toJson), ("account", .text account), ("amount", amount.toJson)]
  | .price date currency amount =>
      [("date", date.toJson), ("currency", .text currency), ("amount", amount.toJson)]
  | .event date topic description =>
      [("date", date.toJson), ("event_type", .text topic), ("description", .text description)]
  | .note date account comment =>
      [("date", date.toJson), ("account", .text account), ("comment", .text comment)]
  | .document date account path =>
      [("date", date.toJson), ("account", .text account), ("filename", .text path)]
  | .option key value => [("key", .text key), ("value", .text value)]

/-- The names of the fields of a kind of statement. -/
def fieldNames? : String → Option (List String)
  | "transaction" => some ["date", "flag", "payee", "narration", "tags", "links", "postings"]
  | "open" => some ["date", "account", "currencies"]
  | "close" => some ["date", "account"]
  | "pad" => some ["date", "account", "source_account"]
  | "balance" => some ["date", "account", "amount"]
  | "price" => some ["date", "currency", "amount"]
  | "event" => some ["date", "event_type", "description"]
  | "note" => some ["date", "account", "comment"]
  | "document" => some ["date", "account", "filename"]
  | "option" => some ["key", "value"]
  | _ => none

/-- Reads the fields of a kind of statement. -/
def ofFields? (kind : String) (json : Json) : Option Content :=
  let date := json.read "date" Date.ofJson?
  let text name := json.read name Json.text?
  let texts name := json.read name (Json.list? Json.text?)
  let amount := json.read "amount" Amount.ofJson?
  match kind with
  | "transaction" => do
      let flag ← json.read "flag" Json.char?
      let payee ← json.readOptional "payee" Json.text?
      let postings ← json.read "postings" (Json.list? Posting.ofJson?)
      pure <| .transaction
        { date := ← date, flag, payee, narration := ← text "narration", tags := ← texts "tags"
          links := ← texts "links", postings }
  | "open" => return .opening (← date) (← text "account") (← texts "currencies")
  | "close" => return .closing (← date) (← text "account")
  | "pad" => return .pad (← date) (← text "account") (← text "source_account")
  | "balance" => return .balance (← date) (← text "account") (← amount)
  | "price" => return .price (← date) (← text "currency") (← amount)
  | "event" => return .event (← date) (← text "event_type") (← text "description")
  | "note" => return .note (← date) (← text "account") (← text "comment")
  | "document" => return .document (← date) (← text "account") (← text "filename")
  | "option" => return .option (← text "key") (← text "value")
  | _ => none

end Content

namespace Directive

/-- The interchange form of a directive: its kind, its fields, and its location. -/
def toJson (d : Directive) : Json :=
  .object <| ("type", .text d.content.identifier) :: d.content.fields ++
    [("location", d.location.toJson)]

/-- Reads a directive of a known kind. -/
def ofKind? (kind : String) (json : Json) : Option Directive := do
  let json := json.record ((← Content.fieldNames? kind) ++ ["location"])
  let content ← Content.ofFields? kind json
  let location ← json.read "location" Location.ofJson?
  pure ⟨content, location⟩

/-- Reads a directive. In a list of its fields, the kind comes first. -/
def ofJson? : Json → Option Directive
  | .list (kind :: fields) => kind.text?.bind fun kind => ofKind? kind (.list fields)
  | json => (json.read "type" Json.text?).bind fun kind => ofKind? kind json

end Directive

end LedgerText
