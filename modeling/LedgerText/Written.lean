import LedgerText.Directive
import LedgerText.Text.Quoted

/-!
# Writing directives

Writes directives back as ledger text, each on lines of its own. Postings are
indented, and the amounts of a transaction end in one column if there is room
for them. Text goes into string literals, so no payee, narration or file name
can end its literal early.
-/

namespace LedgerText

/-- How postings are laid out. -/
structure Layout where
  /-- The column in which amounts end. -/
  amountColumn : Nat := 60
  /-- What a posting line begins with. -/
  indent : String := "  "
  deriving DecidableEq, Repr

/-- A layout with the indent given as a number of spaces. -/
def Layout.ofWidth (amountColumn width : Nat) : Layout :=
  { amountColumn, indent := String.ofList (List.replicate width ' ') }

/-- A list of texts, each written behind a blank and a sign. -/
def signed (sign : String) (texts : List String) : String :=
  String.join (texts.map fun text => " " ++ sign ++ text)

namespace Posting

/-- The part of a posting line in front of its amount. -/
def accountText (layout : Layout) (p : Posting) : String :=
  layout.indent ++
    (match p.flag with
      | some flag => String.singleton flag ++ " "
      | none => "") ++ p.account

/-- The number of blanks between an account and units: as many as bring the end of the units to the
amount column, but at least two. The units are measured in bytes. -/
def gap (layout : Layout) (account units : String) : Nat :=
  max 2 (layout.amountColumn - units.utf8ByteSize - account.length)

/-- What a posting line says of the price. -/
def priceText (p : Posting) : String :=
  match p.price with
  | some price => (if p.priceIsTotal then " @@ " else " @ ") ++ price.toText
  | none => ""

/-- Writes a posting line, without a line break. A price is written only behind a position. -/
def written (layout : Layout) (p : Posting) : String :=
  let account := p.accountText layout
  match p.position with
  | some position =>
      account ++ String.ofList (List.replicate (gap layout account position.units.toText) ' ') ++
        position.toText ++ p.priceText
  | none => account

end Posting

/-- Writes a transaction: its title line, then a line for each posting. -/
def Transaction.written (layout : Layout) (t : Transaction) : String :=
  t.date.toText ++ " " ++ String.singleton t.flag ++
    (match t.payee with
      | some payee => " " ++ Quoted.literal payee ++ " |"
      | none => "") ++
    " " ++ Quoted.literal t.narration ++ signed "#" t.tags ++ signed "^" t.links ++ "\n" ++
    String.join (t.postings.map fun posting => posting.written layout ++ "\n")

/-- Writes a statement, with a line break at its end. -/
def Content.written (layout : Layout) : Content → String
  | .transaction t => t.written layout
  | .opening date account currencies =>
      date.toText ++ " open " ++ account ++
        (if currencies.isEmpty then "" else " " ++ String.intercalate "," currencies) ++ "\n"
  | .closing date account => date.toText ++ " close " ++ account ++ "\n"
  | .pad date account source => date.toText ++ " pad " ++ account ++ " " ++ source ++ "\n"
  | .balance date account amount =>
      date.toText ++ " check " ++ account ++ " " ++ amount.toText ++ "\n"
  | .price date currency amount =>
      date.toText ++ " price " ++ currency ++ " " ++ amount.toText ++ "\n"
  | .event date topic description =>
      date.toText ++ " event " ++ Quoted.literal topic ++ " " ++ Quoted.literal description ++ "\n"
  | .note date account comment =>
      date.toText ++ " note " ++ account ++ " " ++ Quoted.literal comment ++ "\n"
  | .document date account path =>
      date.toText ++ " document " ++ account ++ " " ++ Quoted.literal path ++ "\n"
  | .option key value => "option " ++ Quoted.literal key ++ " " ++ Quoted.literal value ++ "\n"

/-- Writes a directive, with a line break at its end. -/
def Directive.written (layout : Layout) (d : Directive) : String := d.content.written layout

/-- Writes directives one after the other. -/
def Directive.writtenAll (layout : Layout) (directives : List Directive) : String :=
  String.join (directives.map fun directive => directive.written layout)

end LedgerText
