/-!
# String literals

The body of a string literal, between its quotes. A backslash starts an escape
of two characters: `\n`, `\t` and `\r` stand for the line break, the tab and the
carriage return, and any other character behind a backslash stands for itself.
`escape` uses an escape where a character would end the literal, start an
escape or break the line; `unescape` reads every escape.
-/

namespace LedgerText.Quoted

/-- The character that a letter behind a backslash stands for. -/
def meaning : Char → Char
  | 'n' => '\n'
  | 't' => '\t'
  | 'r' => '\r'
  | c => c

/-- Writes one character of a literal. -/
def escapeChar : Char → List Char
  | '"' => ['\\', '"']
  | '\\' => ['\\', '\\']
  | '\n' => ['\\', 'n']
  | '\t' => ['\\', 't']
  | '\r' => ['\\', 'r']
  | c => [c]

/-- Writes the body of a literal. -/
def escape (text : List Char) : List Char := text.flatMap escapeChar

/-- Reads the body of a literal. A backslash at its end stands for itself. -/
def unescape : List Char → List Char
  | '\\' :: c :: rest => meaning c :: unescape rest
  | c :: rest => c :: unescape rest
  | [] => []

/-- Writes a text as a string literal. -/
def literal (text : String) : String :=
  "\"" ++ String.ofList (escape text.toList) ++ "\""

theorem toList_literal (text : String) :
    (literal text).toList = '"' :: (escape text.toList ++ ['"']) := by
  simp [literal]

theorem literal_ne_nil (text : String) : (literal text).toList ≠ [] := by
  rw [toList_literal]
  exact List.cons_ne_nil _ _

/-- Reading what was written gives the text back. -/
theorem unescape_escape (text : List Char) : unescape (escape text) = text := by
  induction text with
  | nil => rfl
  | cons c rest ih =>
      have hCons : escape (c :: rest) = escapeChar c ++ escape rest := rfl
      rw [hCons]
      unfold escapeChar
      split
      all_goals simp_all [unescape, meaning]

end LedgerText.Quoted
