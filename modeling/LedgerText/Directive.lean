import LedgerText.Amount

/-!
# Directives

The statements of a ledger. Each holds the values written in it and the place
it was written at. All but options are dated, and a transaction also holds its
postings.
-/

namespace LedgerText

/-- Where a statement was written: the name of the text and the statement's first line. -/
structure Location where
  filename : String
  line : Nat
  deriving DecidableEq, Repr

namespace Location

/-- The location of a statement that was not read from a text. -/
def unknown : Location := ⟨"<string>", 0⟩

instance : Inhabited Location := ⟨unknown⟩

/-- Writes a location: `books.ledger:12`. -/
def toText (l : Location) : String := l.filename ++ ":" ++ toString l.line

end Location

/-- One line of a transaction: an account, and what it receives. -/
structure Posting where
  flag : Option Char
  account : String
  /-- Absent if the amount is left to be worked out from the other postings. -/
  position : Option Position
  price : Option Amount
  /-- Whether the price is for all units (`@@`) and not for each (`@`). -/
  priceIsTotal : Bool
  deriving DecidableEq, Repr

namespace Posting

/-- A posting of a position. -/
def ofPosition (account : String) (position : Position) : Posting :=
  { flag := none, account, position := some position, price := none, priceIsTotal := false }

/-- A posting whose amount is left open. -/
def auto (account : String) : Posting :=
  { flag := none, account, position := none, price := none, priceIsTotal := false }

/-- Sets the flag. -/
def withFlag (p : Posting) (flag : Char) : Posting := { p with flag := some flag }

/-- Sets a price for each unit. -/
def withUnitPrice (p : Posting) (price : Amount) : Posting :=
  { p with price := some price, priceIsTotal := false }

/-- Sets a price for all units. -/
def withTotalPrice (p : Posting) (price : Amount) : Posting :=
  { p with price := some price, priceIsTotal := true }

/-- The posting with the trailing zeros of its numbers dropped. -/
def normalized (p : Posting) : Posting :=
  { p with
    position := p.position.map Position.normalized
    price := p.price.map Amount.normalized }

end Posting

/-- A transfer between accounts. -/
structure Transaction where
  date : Date
  flag : Char
  payee : Option String
  narration : String
  tags : List String
  links : List String
  postings : List Posting
  deriving DecidableEq, Repr

namespace Transaction

/-- A transaction with nothing but a date and a narration. -/
def new (date : Date) (narration : String) : Transaction :=
  { date, flag := '*', payee := none, narration, tags := [], links := [], postings := [] }

/-- Sets the flag. -/
def withFlag (t : Transaction) (flag : Char) : Transaction := { t with flag }

/-- Sets the payee. -/
def withPayee (t : Transaction) (payee : String) : Transaction := { t with payee := some payee }

/-- Adds a tag after the others. -/
def withTag (t : Transaction) (tag : String) : Transaction := { t with tags := t.tags ++ [tag] }

/-- Adds a link after the others. -/
def withLink (t : Transaction) (link : String) : Transaction :=
  { t with links := t.links ++ [link] }

/-- Adds a posting after the others. -/
def withPosting (t : Transaction) (posting : Posting) : Transaction :=
  { t with postings := t.postings ++ [posting] }

end Transaction

/-- What a statement says, by kind. -/
inductive Content where
  | transaction (transaction : Transaction)
  /-- Opens an account, restricted to some currencies unless the list is empty. -/
  | opening (date : Date) (account : String) (currencies : List String)
  | closing (date : Date) (account : String)
  /-- Fills an account from another one, up to its next balance. -/
  | pad (date : Date) (account source : String)
  /-- Asserts what an account holds. -/
  | balance (date : Date) (account : String) (amount : Amount)
  /-- Records what one unit of a currency is worth. -/
  | price (date : Date) (currency : String) (amount : Amount)
  | event (date : Date) (topic description : String)
  | note (date : Date) (account comment : String)
  | document (date : Date) (account path : String)
  | option (key value : String)
  deriving DecidableEq, Repr

/-- A statement of a ledger. -/
structure Directive where
  content : Content
  location : Location
  deriving DecidableEq, Repr

namespace Content

/-- The date of a statement. Options have none. -/
def date? : Content → Option Date
  | .transaction t => some t.date
  | .opening date _ _ => some date
  | .closing date _ => some date
  | .pad date _ _ => some date
  | .balance date _ _ => some date
  | .price date _ _ => some date
  | .event date _ _ => some date
  | .note date _ _ => some date
  | .document date _ _ => some date
  | .option _ _ => none

/-- The word that a ledger uses for this kind of statement. -/
def typeName : Content → String
  | .transaction _ => "transaction"
  | .opening .. => "open"
  | .closing .. => "close"
  | .pad .. => "pad"
  | .balance .. => "check"
  | .price .. => "price"
  | .event .. => "event"
  | .note .. => "note"
  | .document .. => "document"
  | .option .. => "option"

/-- The transaction, if the statement is one. -/
def transaction? : Content → Option Transaction
  | .transaction t => some t
  | _ => none

/-- The statement with the trailing zeros of its numbers dropped. -/
def normalized : Content → Content
  | .transaction t => .transaction { t with postings := t.postings.map Posting.normalized }
  | .balance date account amount => .balance date account amount.normalized
  | .price date currency amount => .price date currency amount.normalized
  | content => content

end Content

namespace Directive

/-- A statement that was not read from a text. -/
def ofContent (content : Content) : Directive := ⟨content, .unknown⟩

/-- The key and value of an option. -/
def option? (d : Directive) : Option (String × String) :=
  match d.content with
  | .option key value => some (key, value)
  | _ => none

/-- Whether two statements say the same, wherever they were written. Numbers are compared by what
they denote. -/
def agrees (d e : Directive) : Bool := decide (d.content.normalized = e.content.normalized)

/-- Whether two lists of statements say the same, one by one. -/
def allAgree (ds es : List Directive) : Bool :=
  decide ((ds.map fun d => d.content.normalized) = es.map fun e => e.content.normalized)

end Directive

end LedgerText
