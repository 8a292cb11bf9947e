import LedgerText.Place

/-!
# Offsets

A place stands for a character of a text, counted from zero. A place that the
text does not have stands for the character that follows in the order of
places, or for the end of the text.

`Lines.locate` goes the other way, for readers who know of more line ends than
the line feed: where an editor would show the character at an offset.
-/

namespace LedgerText

/-- How many characters of a text come before a place; `here` is where the text begins. -/
def Place.offsetFrom (here p : Place) : List Char → Nat
  | [] => 0
  | c :: rest => if p ≤ here then 0 else offsetFrom (here.after c) p rest + 1

/-- How many characters of a whole text come before a place. -/
def Place.offset (p : Place) (text : List Char) : Nat := offsetFrom .origin p text

/-- The characters of a span, from one offset up to another. -/
structure CharRange where
  start : Nat
  stop : Nat
  start_le_stop : start ≤ stop
  deriving DecidableEq, Repr

/-- The characters of a text that a span covers. A span that ends before it starts covers none. -/
def Span.charRange (s : Span) (text : List Char) : CharRange :=
  ⟨s.start.offset text, max (s.stop.offset text) (s.start.offset text), Nat.le_max_right _ _⟩

/-! ## Lines as they are shown -/

namespace Lines

/-- The characters that end a line: line feed, vertical tab, form feed, carriage return, next line,
line separator and paragraph separator. -/
def isTerminator (c : Char) : Bool :=
  ['\n', '\x0b', '\x0c', '\r', '\u0085', '\u2028', '\u2029'].contains c

/-- Whether a line begins behind a character, in front of `rest`. A carriage return and a line feed
end a line together, and there is no line behind the last terminator. -/
def breaksBefore (c : Char) (rest : List Char) : Bool :=
  isTerminator c && !rest.isEmpty && !(c == '\r' && rest.head? == some '\n')

/-- The place of the character at an offset; `here` is where the text begins. -/
def locateFrom (here : Place) : Nat → List Char → Place
  | 0, _ => here
  | offset + 1, c :: rest =>
      locateFrom (if breaksBefore c rest then ⟨here.line + 1, 1⟩ else ⟨here.line, here.column + 1⟩)
        offset rest
  | offset + 1, [] => ⟨here.line, here.column + offset + 1⟩

/-- The place of the character at an offset of a whole text. -/
def locate (offset : Nat) (text : List Char) : Place := locateFrom .origin offset text

end Lines

end LedgerText
