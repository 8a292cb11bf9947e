/-!
# Places in a text

A place is a line and a column, both counted from one; columns count
characters. A line ends behind its line feed and nowhere else. A span runs from
a place up to another, which it does not include.
-/

namespace LedgerText

/-- A line and a column, counted from one. -/
structure Place where
  line : Nat
  column : Nat
  deriving DecidableEq, Repr

namespace Place

/-- The place of the first character. -/
def origin : Place := ⟨1, 1⟩

/-- The place behind a character. -/
def after (p : Place) (c : Char) : Place :=
  if c = '\n' then ⟨p.line + 1, 1⟩ else ⟨p.line, p.column + 1⟩

/-- The place behind a text. -/
def advance (p : Place) (text : List Char) : Place := text.foldl after p

/-- Places are ordered by line, and within a line by column. -/
instance : LE Place where
  le p q := p.line < q.line ∨ p.line = q.line ∧ p.column ≤ q.column

instance (p q : Place) : Decidable (p ≤ q) :=
  inferInstanceAs (Decidable (p.line < q.line ∨ p.line = q.line ∧ p.column ≤ q.column))

@[simp] theorem advance_nil (p : Place) : p.advance [] = p := rfl

@[simp] theorem advance_cons (p : Place) (c : Char) (text : List Char) :
    p.advance (c :: text) = (p.after c).advance text := rfl

@[simp] theorem advance_append (p : Place) (front back : List Char) :
    p.advance (front ++ back) = (p.advance front).advance back :=
  List.foldl_append

end Place

/-- The part of a text from one place up to another. -/
structure Span where
  start : Place
  stop : Place
  deriving DecidableEq, Repr

namespace Span

/-- The empty span at a place. -/
def point (p : Place) : Span := ⟨p, p⟩

/-- The empty span at the beginning of a text. -/
def origin : Span := point .origin

/-- The empty span at the end of a span. -/
def endPoint (s : Span) : Span := point s.stop

/-- Whether a span holds no character. -/
def isEmpty (s : Span) : Bool := decide (s.start = s.stop)

/-- From the start of one span to the end of another. -/
def upTo (s t : Span) : Span := ⟨s.start, t.stop⟩

/-- Writes a span: `2:1-2:11`. -/
def toText (s : Span) : String :=
  toString s.start.line ++ ":" ++ toString s.start.column ++ "-" ++
    toString s.stop.line ++ ":" ++ toString s.stop.column

end Span

/-- A value with the part of the text it was read from. -/
structure Spanned (α : Type) where
  value : α
  span : Span
  deriving DecidableEq, Repr

end LedgerText
