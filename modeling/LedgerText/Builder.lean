import LedgerText.Directive
import LedgerText.ParseError
import LedgerText.TagContext

/-!
# Builders

Every value that is read from a ledger passes through a builder before it
becomes part of a larger one. A builder may change the value, keep a state of
its own, or refuse the value, which discards the statement being read.

The standard builder changes nothing but one thing: a transaction gets the
active tags that its own line does not name, behind those that it does.
-/

namespace LedgerText

/-- A builder's answer to a value, and the state it is left in. -/
abbrev Verdict (σ α : Type) : Type := σ → Except Refusal α × σ

/-- Decides what becomes of the values read from a ledger. `σ` is the builder's own state. -/
structure Builder (σ : Type) where
  /-- The day that the text of a date names. -/
  date : String → Verdict σ Date
  amount : Amount → Verdict σ Amount
  lotCost : LotCost → Verdict σ LotCost
  position : Position → Verdict σ Position
  posting : Posting → Verdict σ Posting
  /-- A whole statement. A transaction has the tags of its own line only; those active at this
  point come beside it. -/
  directive : TagContext → Directive → Verdict σ Directive

/-- The day that a text names, refused if there is none. -/
def Date.parse (text : String) : Except Refusal Date :=
  match Date.ofText? text with
  | some date => .ok date
  | none => .error (.invalidDate text)

/-- Adds the active tags that a transaction does not have yet. -/
def Transaction.addTags (t : Transaction) (active : List String) : Transaction :=
  { t with tags := t.tags ++ active.filter fun tag => !t.tags.contains tag }

/-- Adds the active tags to a transaction; other statements have no tags. -/
def Content.addTags (active : TagContext) : Content → Content
  | .transaction t => .transaction (t.addTags active.active)
  | content => content

/-- The builder that accepts every value as it is, and adds active tags. It keeps no state. -/
def Builder.standard : Builder Unit where
  date text state := (Date.parse text, state)
  amount amount state := (.ok amount, state)
  lotCost cost state := (.ok cost, state)
  position position state := (.ok position, state)
  posting posting state := (.ok posting, state)
  directive active directive state :=
    (.ok { directive with content := directive.content.addTags active }, state)

end LedgerText
