import LedgerText.Decimal.Binary
import LedgerText.Json
import LedgerText.Token

/-!
# The interchange form of tokens

Tokens as JSON, to be handed from one program to another. Kinds have names of
their own there, and a span is an object of four numbers.
-/

namespace LedgerText

/-! ## Spans -/

namespace Span

/-- The names of the numbers of a span. -/
def fieldNames : List String := ["first_line", "first_column", "last_line", "last_column"]

/-- The interchange form of a span. -/
def toJson (s : Span) : Json :=
  .object <| fieldNames.zip
    [.nat s.start.line, .nat s.start.column, .nat s.stop.line, .nat s.stop.column]

/-- Reads a span. Its numbers have 32 bits. -/
def ofJson? (json : Json) : Option Span := do
  let json := json.record fieldNames
  let firstLine ← json.read "first_line" Json.word?
  let firstColumn ← json.read "first_column" Json.word?
  let lastLine ← json.read "last_line" Json.word?
  let lastColumn ← json.read "last_column" Json.word?
  pure ⟨⟨firstLine, firstColumn⟩, ⟨lastLine, lastColumn⟩⟩

end Span

/-! ## Kinds -/

namespace TokenKind

/-- All kinds of tokens, with their names. -/
def identifiers : List (TokenKind × String) :=
  [(.endOfInput, "Eof"), (.error, "Error"), (.indent, "Indent"), (.lineEnd, "Eol"),
   (.comment, "Comment"), (.skipped, "Skipped"), (.mark .pipe, "Pipe"),
   (.mark .doubleAt, "AtAt"), (.mark .singleAt, "At"), (.mark .leftBrace, "LCurl"),
   (.mark .rightBrace, "RCurl"), (.mark .comma, "Comma"), (.mark .slash, "Slash"),
   (.flag, "Flag"), (.keyword .txn, "Txn"), (.keyword .check, "Check"),
   (.keyword .opening, "Open"), (.keyword .closing, "Close"), (.keyword .pad, "Pad"),
   (.keyword .event, "Event"), (.keyword .price, "Price"), (.keyword .note, "Note"),
   (.keyword .document, "Document"), (.keyword .pushtag, "Pushtag"),
   (.keyword .poptag, "Poptag"), (.keyword .option, "Option"), (.date, "Date"),
   (.account, "Account"), (.currency, "Currency"), (.string, "String"), (.number, "Number"),
   (.tag, "Tag"), (.link, "Link")]

/-- The name of a kind in the interchange form. -/
def identifier (kind : TokenKind) : String := (identifiers.lookup kind).getD ""

/-- Every kind has a name. -/
theorem lookup_identifiers_isSome (kind : TokenKind) :
    (identifiers.lookup kind).isSome := by
  cases kind with
  | mark m => cases m <;> rfl
  | keyword k => cases k <;> rfl
  | _ => rfl

/-- The kind with a name. -/
def ofIdentifier? (name : String) : Option TokenKind :=
  (identifiers.find? fun entry => entry.2 = name).map Prod.fst

/-- The interchange form of a kind. -/
def toJson (kind : TokenKind) : Json := .text kind.identifier

/-- Reads a kind: its name, or an object with nothing under its name. -/
def ofJson? : Json → Option TokenKind
  | .text name => ofIdentifier? name
  | .object [(name, .null)] => ofIdentifier? name
  | _ => none

end TokenKind

/-! ## Values and tokens -/

namespace Decimal

/-- The interchange form of a decimal: its text. -/
def toJson (d : Decimal) : Json := .text d.toText

/-- The whole number that a JSON number denotes. One that does not fit into 64 bits is known in
binary floating point only, and the shortest digits that identify it there are taken. -/
def wholeNumber (value : Int) : Int :=
  if -(Nat.pow 2 63 : Nat) ≤ value ∧ value < (Nat.pow 2 64 : Nat) then
    value
  else
    value.sign * Binary.shortest (Binary.ofNat value.natAbs)

/-- Reads a decimal: its text, or a whole number. -/
def ofJson? : Json → Option Decimal
  | .text text => ofText? text
  | .int value => ofInt? (wholeNumber value)
  | _ => none

end Decimal

namespace TokenValue

/-- The interchange form of a token's value. -/
def toJson : TokenValue → Json
  | .absent => .text "None"
  | .char c => .object [("Char", .text (String.singleton c))]
  | .text s => .object [("Str", .text s)]
  | .number n => .object [("Number", n.toJson)]

/-- Reads a token's value. -/
def ofJson? : Json → Option TokenValue
  | .text "None" => some .absent
  | .object [("None", .null)] => some .absent
  | .object [("Char", json)] => json.char?.map .char
  | .object [("Str", json)] => json.text?.map .text
  | .object [("Number", json)] => (Decimal.ofJson? json).map .number
  | _ => none

end TokenValue

namespace Token

/-- The interchange form of a token. -/
def toJson (t : Token) : Json :=
  .object [("kind", t.kind.toJson), ("value", t.value.toJson), ("span", t.span.toJson)]

/-- Reads a token. -/
def ofJson? (json : Json) : Option Token := do
  let json := json.record ["kind", "value", "span"]
  let kind ← json.read "kind" TokenKind.ofJson?
  let value ← json.read "value" TokenValue.ofJson?
  let span ← json.read "span" Span.ofJson?
  pure ⟨kind, value, span⟩

end Token

end LedgerText
