import LedgerText.Written
import LedgerText.Token.Layout

/-!
# Directives that ledger text can say

Not every value of the types of directives can be written down. Names have to
look like names, flags are a few characters, a day needs a year of four digits,
and a price needs something to be the price of. Quoted texts are not restricted
at all, and neither are numbers.
-/

namespace LedgerText

/-! ## Names -/

/-- One of the root words, and at least one part: a colon and a capital letter, then letters,
digits and dashes. -/
def IsAccount (name : String) : Prop :=
  ∃ root ∈ Lexeme.accountRoots, ∃ parts : List (Char × List Char), parts ≠ [] ∧
    (∀ part ∈ parts, part.1.isUpper = true ∧ part.2.all Lexeme.isAccountChar = true) ∧
    name.toList = root.toList ++ parts.flatMap fun part => ':' :: part.1 :: part.2

/-- A capital letter, and at least one more: capital letters, digits, quotes, points, underscores
and dashes. -/
def IsCurrency (name : String) : Prop :=
  ∃ first others, name.toList = first :: others ∧ first.isUpper = true ∧ others ≠ [] ∧
    others.all Lexeme.isCurrencyChar = true

/-- The name of a tag or a link: letters, digits, underscores, slashes, points and dashes. -/
def IsTagName (name : String) : Prop :=
  name.toList ≠ [] ∧ name.toList.all Lexeme.isTagChar = true

instance (name : String) : Decidable (IsTagName name) := by
  unfold IsTagName
  infer_instance

/-! ## Values -/

/-- The year is written with four digits and no sign. -/
def Date.HasPlainYear (d : Date) : Prop := 0 ≤ d.year ∧ d.year ≤ 9999

instance (d : Date) : Decidable d.HasPlainYear := by
  unfold Date.HasPlainYear
  infer_instance

def Amount.IsWellFormed (a : Amount) : Prop := IsCurrency a.currency

structure LotCost.IsWellFormed (c : LotCost) : Prop where
  cost : c.cost.IsWellFormed
  date : ∀ date, c.date = some date → date.HasPlainYear

structure Position.IsWellFormed (p : Position) : Prop where
  units : p.units.IsWellFormed
  cost : ∀ cost, p.cost = some cost → cost.IsWellFormed

structure Posting.IsWellFormed (p : Posting) : Prop where
  flag : ∀ flag, p.flag = some flag → flag ∈ Lexeme.flagChars
  account : IsAccount p.account
  position : ∀ position, p.position = some position → position.IsWellFormed
  price : ∀ price, p.price = some price → price.IsWellFormed
  /-- A price is the price of some units. -/
  priced : p.price.isSome → p.position.isSome
  priceIsTotal : p.price = none → p.priceIsTotal = false

structure Transaction.IsWellFormed (t : Transaction) : Prop where
  date : t.date.HasPlainYear
  flag : t.flag ∈ Lexeme.flagChars
  tags : ∀ tag ∈ t.tags, IsTagName tag
  links : ∀ link ∈ t.links, IsTagName link
  postings : ∀ posting ∈ t.postings, posting.IsWellFormed

def Content.IsWellFormed : Content → Prop
  | .transaction t => t.IsWellFormed
  | .opening date account currencies =>
      date.HasPlainYear ∧ IsAccount account ∧ ∀ currency ∈ currencies, IsCurrency currency
  | .closing date account => date.HasPlainYear ∧ IsAccount account
  | .pad date account source => date.HasPlainYear ∧ IsAccount account ∧ IsAccount source
  | .balance date account amount =>
      date.HasPlainYear ∧ IsAccount account ∧ amount.IsWellFormed
  | .price date currency amount =>
      date.HasPlainYear ∧ IsCurrency currency ∧ amount.IsWellFormed
  | .event date _ _ => date.HasPlainYear
  | .note date account _ => date.HasPlainYear ∧ IsAccount account
  | .document date account _ => date.HasPlainYear ∧ IsAccount account
  | .option _ _ => True

def Directive.IsWellFormed (d : Directive) : Prop := d.content.IsWellFormed

/-- The indent is there, and it is blank. -/
def Layout.IsWellFormed (layout : Layout) : Prop :=
  layout.indent.toList ≠ [] ∧ layout.indent.toList.all isBlank = true

end LedgerText
