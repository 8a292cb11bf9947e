import LedgerText.Text.Quoted
import LedgerText.Token.Lexeme

/-!
# The tokens of a text

A text is cut into lexemes, with blanks between them. Lines matter: blanks
before the first lexeme of a line become a token of their own unless a comment
or the line end follows, and a line whose first character is a star is one
token that the grammar passes over. The last line gets a line end even if the
text has none. `tokens` ends with one token for the end of the text.
-/

namespace LedgerText

/-- Whether a character separates lexemes. -/
def isBlank (c : Char) : Bool := c == ' ' || c == '\t'

namespace Token

/-- The number that a lexeme denotes: commas between its digits mean nothing. -/
def number? (text : List Char) : Option Decimal :=
  Decimal.ofText? (String.ofList (text.filter (· != ',')))

/-- The token that a lexeme stands for. A number that is out of bounds is an error, and so is one
that is written in digits other than the ASCII ones. -/
def ofLexeme (shape : Shape) (text : List Char) (span : Span) : Token :=
  match shape with
  | .date => ⟨.date, .text (String.ofList text), span⟩
  | .number =>
      match number? text with
      | some number => ⟨.number, .number number, span⟩
      | none => ⟨.error, .text (String.ofList text), span⟩
  | .string => ⟨.string, .text (String.ofList (Quoted.unescape text.tail.dropLast)), span⟩
  | .account => ⟨.account, .text (String.ofList text), span⟩
  | .currency => ⟨.currency, .text (String.ofList text), span⟩
  | .tag => ⟨.tag, .text (String.ofList text.tail), span⟩
  | .link => ⟨.link, .text (String.ofList text.tail), span⟩
  | .flag => ⟨.flag, .char (text.headD '*'), span⟩
  | .comment => ⟨.comment, .text (String.ofList text), span⟩
  | .newline => bare .lineEnd span
  | .keyword keyword => bare (.keyword keyword) span
  | .mark mark => bare (.mark mark) span
  | .unknown => ⟨.error, .text (String.ofList text), span⟩

/-- The blanks of a line, if a token stands for them. -/
def indent (lineStart : Bool) (shape : Shape) (blanks : List Char) (span : Span) : List Token :=
  if lineStart ∧ blanks ≠ [] ∧ shape ≠ .newline ∧ shape ≠ .comment then
    [bare .indent span]
  else
    []

/--
The tokens of what is left of a text, which begins at `place`. `lineStart` says whether no lexeme
of the line has been read yet, so that the blanks ahead are those the line begins with.
-/
def tokensFrom (lineStart : Bool) (place : Place) (text : List Char) : List Token :=
  let blanks := text.takeWhile isBlank
  let start := place.advance blanks
  match _hRest : text.dropWhile isBlank with
  | [] =>
      (if lineStart then [] else [bare .lineEnd (.point start)]) ++ [endOfInput (.point start)]
  | c :: rest =>
      if lineStart ∧ blanks = [] ∧ c = '*' then
        let heading := c :: rest.takeWhile Lexeme.isLineChar
        let stop := start.advance heading
        ⟨.skipped, .text (String.ofList heading), ⟨start, stop⟩⟩ ::
          tokensFrom false stop (rest.dropWhile Lexeme.isLineChar)
      else
        let (shape, length) := Lexeme.scan (c :: rest)
        let lexeme := c :: rest.take (length - 1)
        let stop := start.advance lexeme
        indent lineStart shape blanks ⟨place, start⟩ ++
          ofLexeme shape lexeme ⟨start, stop⟩ ::
            tokensFrom (shape = .newline) stop (rest.drop (length - 1))
termination_by text.length
decreasing_by
  · have hBlanks := (List.dropWhile_sublist (l := text) isBlank).length_le
    have hLine := (List.dropWhile_sublist (l := rest) Lexeme.isLineChar).length_le
    rw [_hRest, List.length_cons] at hBlanks
    omega
  · have hBlanks := (List.dropWhile_sublist (l := text) isBlank).length_le
    rw [_hRest, List.length_cons] at hBlanks
    rw [List.length_drop]
    omega

/-- The tokens of a text, with one for its end. -/
def tokens (text : String) : List Token := tokensFrom true .origin text.toList

end Token

end LedgerText
