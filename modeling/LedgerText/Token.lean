import LedgerText.Decimal
import LedgerText.Place
import LedgerText.Text.Visible

/-!
# Tokens

The words and signs of ledger text. A token has a kind, which the grammar goes
by, and a value: a flag character, a text or a number. Any kind may come with
any value, or with none; the grammar finds out when it needs the value.
-/

namespace LedgerText

/-- The words with a meaning of their own. -/
inductive Keyword where
  | txn | check | opening | closing | pad | event | price | note | document
  | pushtag | poptag | option
  deriving DecidableEq, Repr

namespace Keyword

/-- The word as it is written. -/
def text : Keyword → String
  | .txn => "txn"
  | .check => "check"
  | .opening => "open"
  | .closing => "close"
  | .pad => "pad"
  | .event => "event"
  | .price => "price"
  | .note => "note"
  | .document => "document"
  | .pushtag => "pushtag"
  | .poptag => "poptag"
  | .option => "option"

/-- All keywords. -/
def all : List Keyword :=
  [.txn, .check, .opening, .closing, .pad, .event, .price, .note, .document, .pushtag, .poptag,
   .option]

end Keyword

/-- The signs with a meaning of their own. -/
inductive Mark where
  | pipe | doubleAt | singleAt | leftBrace | rightBrace | comma | slash
  deriving DecidableEq, Repr

namespace Mark

/-- The sign as it is written. -/
def text : Mark → String
  | .pipe => "|"
  | .doubleAt => "@@"
  | .singleAt => "@"
  | .leftBrace => "\x7b"
  | .rightBrace => "\x7d"
  | .comma => ","
  | .slash => "/"

/-- All marks. A mark that another one begins with comes behind it. -/
def all : List Mark :=
  [.pipe, .doubleAt, .singleAt, .leftBrace, .rightBrace, .comma, .slash]

end Mark

/-- What the grammar tells tokens apart by. -/
inductive TokenKind where
  /-- The end of the text, which has no end itself. -/
  | endOfInput
  /-- Text that is no token. -/
  | error
  /-- The blanks before the first token of a line. -/
  | indent
  | lineEnd
  | comment
  /-- A heading line, which the grammar passes over. -/
  | skipped
  | mark (mark : Mark)
  | flag
  | keyword (keyword : Keyword)
  | date
  | account
  | currency
  | string
  | number
  | tag
  | link
  deriving DecidableEq, Repr

namespace TokenKind

/-- The name of a kind in error messages. -/
def name : TokenKind → String
  | .endOfInput => "end of file"
  | .error => "ERROR"
  | .indent => "INDENT"
  | .lineEnd => "EOL"
  | .comment => "COMMENT"
  | .skipped => "SKIPPED"
  | .mark .pipe => "PIPE"
  | .mark .doubleAt => "ATAT"
  | .mark .singleAt => "AT"
  | .mark .leftBrace => "LCURL"
  | .mark .rightBrace => "RCURL"
  | .mark .comma => "COMMA"
  | .mark .slash => "SLASH"
  | .flag => "FLAG"
  | .keyword k => k.text.toUpper
  | .date => "DATE"
  | .account => "ACCOUNT"
  | .currency => "CURRENCY"
  | .string => "STRING"
  | .number => "NUMBER"
  | .tag => "TAG"
  | .link => "LINK"

/-- Whether a statement may begin with a token of this kind, so that reading can go on there after
an error. At the end of the text there is nothing left to read. -/
def startsStatement : TokenKind → Bool
  | .date => true
  | .keyword .option => true
  | .keyword .pushtag => true
  | .keyword .poptag => true
  | .endOfInput => true
  | _ => false

end TokenKind

/-- What a token carries beside its kind. -/
inductive TokenValue where
  | absent
  | char (c : Char)
  | text (text : String)
  | number (number : Decimal)
  deriving DecidableEq, Repr

/-- The text of a value, if it is one. -/
def TokenValue.text? : TokenValue → Option String
  | .text s => some s
  | _ => none

/-- A word or sign of a text. -/
structure Token where
  kind : TokenKind
  value : TokenValue
  span : Span
  deriving DecidableEq, Repr

namespace Token

/-- A token without a value. -/
def bare (kind : TokenKind) (span : Span) : Token := ⟨kind, .absent, span⟩

/-- The token that stands for the end of the text. -/
def endOfInput (span : Span) : Token := bare .endOfInput span

/-- Writes a token: the name of its kind, and its value in parentheses if it has one. -/
def toText (t : Token) : String :=
  match t.value with
  | .absent => t.kind.name
  | .char c => t.kind.name ++ "(" ++ String.singleton c ++ ")"
  | .text text => t.kind.name ++ "(" ++ Visible.quoted text ++ ")"
  | .number number => t.kind.name ++ "(" ++ number.toText ++ ")"

end Token

/-!
## Supplies

A list of tokens read as a supply that never runs dry. A token for the end of
the text ends it, and is supplied again from then on, without a value. Where
the list just stops, the text ends where its last token does.
-/

/-- The first `count` tokens of a supply; `stop` is where the token before them ended. -/
def Token.supply (stop : Span) : Nat → List Token → List Token
  | 0, _ => []
  | count + 1, [] => Token.endOfInput stop :: Token.supply stop count []
  | count + 1, token :: rest =>
      if token.kind = .endOfInput then
        token :: Token.supply token.span count []
      else
        token :: Token.supply token.span.endPoint count rest

end LedgerText
