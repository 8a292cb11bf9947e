import LedgerText.Text.DecimalDigit
import LedgerText.Token

/-!
# Lexemes

What the characters at one place of a text are read as. Every class of lexemes
has a function that takes the characters from there on and returns how many of
them the longest lexeme of the class has, or nothing if none begins there.
`Lexeme.scan` picks the class; apart from dates, which begin like numbers and
are longer, no two classes of the same length share a text.

A number that is read without a fraction, and in groups of three if it has
commas at all, takes a comma directly behind it along.

Where no class has a lexeme, one character is read as an error. A string
literal that does not end is an error up to the place where it goes wrong: the
end of the text, or a backslash with no character of the same line behind it.
-/

namespace LedgerText

/-- The classes of lexemes. -/
inductive Shape where
  | date | number | string | account | currency | tag | link | flag | comment | newline
  | keyword (keyword : Keyword)
  | mark (mark : Mark)
  /-- Text that is no lexeme. -/
  | unknown
  deriving DecidableEq, Repr

namespace Lexeme

/-! ## Dates and numbers -/

/-- Four digits, two digits and two digits, with a dash or a slash at either place between. -/
def date? : List Char → Option Nat
  | y₁ :: y₂ :: y₃ :: y₄ :: s₁ :: m₁ :: m₂ :: s₂ :: d₁ :: d₂ :: _ =>
      if [y₁, y₂, y₃, y₄, m₁, m₂, d₁, d₂].all isDecimalDigit ∧
          [s₁, s₂].all (fun c => c = '-' ∨ c = '/') then
        some 10
      else
        none
  | _ => none

/-- The number of characters in the leading groups of a comma and three digits. -/
def groups : List Char → Nat
  | ',' :: d₁ :: d₂ :: d₃ :: rest =>
      if [d₁, d₂, d₃].all isDecimalDigit then 4 + groups rest else 0
  | _ => 0

/-- The number of characters in a point and the digits behind it, if there are any. -/
def fraction : List Char → Nat
  | '.' :: rest =>
      let digits := (rest.takeWhile isDecimalDigit).length
      if digits = 0 then 0 else 1 + digits
  | _ => 0

/-- Digits, in groups of three if the first group is short enough, then a fraction. -/
def unsigned? (text : List Char) : Option Nat :=
  let digits := (text.takeWhile isDecimalDigit).length
  if digits = 0 then
    none
  else
    let whole := if digits ≤ 3 then digits + groups (text.drop digits) else digits
    let behind := text.drop whole
    if fraction behind ≠ 0 then
      some (whole + fraction behind)
    else if digits ≤ 3 ∧ behind.head? = some ',' then
      some (whole + 1)
    else
      some whole

/-- A number, with a minus sign or without. -/
def number? : List Char → Option Nat
  | '-' :: rest => (unsigned? rest).map (· + 1)
  | text => unsigned? text

/-! ## Quoted text -/

/-- Reads the rest of a string literal, behind its opening quote: whether it ends, and how many
characters belong to it. -/
def literal : List Char → Bool × Nat
  | '"' :: _ => (true, 1)
  | '\\' :: c :: rest =>
      if c = '\n' then
        (false, 0)
      else
        let (closed, length) := literal rest
        (closed, length + 2)
  | '\\' :: [] => (false, 0)
  | _ :: rest =>
      let (closed, length) := literal rest
      (closed, length + 1)
  | [] => (false, 0)

/-! ## Names -/

/-- The words that an account name may begin with. -/
def accountRoots : List String := ["Assets", "Liabilities", "Equity", "Income", "Expenses"]

/-- The characters of an account name behind the first one of a part. -/
def isAccountChar (c : Char) : Bool := c.isAlphanum || c == '-'

/-- The number of characters in the leading parts of an account name: colons, each with a capital
letter and more characters of a name behind it. -/
def accountParts : List Char → Nat
  | ':' :: c :: rest =>
      if c.isUpper then
        let length := (rest.takeWhile isAccountChar).length
        2 + length + accountParts (rest.drop length)
      else
        0
  | _ => 0
termination_by text => text.length
decreasing_by simp only [List.length_drop, List.length_cons]; omega

/-- One of the root words with at least one part behind it. -/
def account? (text : List Char) : Option Nat :=
  accountRoots.findSome? fun root =>
    if root.toList.isPrefixOf text then
      match accountParts (text.drop root.length) with
      | 0 => none
      | length => some (root.length + length)
    else
      none

/-- The characters of a currency behind its first one. -/
def isCurrencyChar (c : Char) : Bool :=
  c.isUpper || c.isDigit || ['\x27', '.', '_', '-'].contains c

/-- A capital letter and at least one more character of a currency. -/
def currency? : List Char → Option Nat
  | c :: rest =>
      match (rest.takeWhile isCurrencyChar).length with
      | 0 => none
      | length => if c.isUpper then some (1 + length) else none
  | [] => none

/-- The characters of tags and links. -/
def isTagChar (c : Char) : Bool := c.isAlphanum || ['_', '/', '.', '-'].contains c

/-- A sign and at least one character of a tag or link. -/
def tagged? (sign : Char) : List Char → Option Nat
  | c :: rest =>
      match (rest.takeWhile isTagChar).length with
      | 0 => none
      | length => if c = sign then some (1 + length) else none
  | [] => none

/-- The characters that are flags. -/
def flagChars : List Char := ['*', '!', 'P', 'S', 'T', 'C', 'U', 'R', 'M', '?', '%', '&']

/-! ## Line ends and comments -/

/-- A line feed, with a carriage return before it or without. -/
def newline? : List Char → Option Nat
  | '\n' :: _ => some 1
  | '\r' :: '\n' :: _ => some 2
  | _ => none

/-- Whether a character belongs to the rest of a line. -/
def isLineChar (c : Char) : Bool := c != '\n' && c != '\r'

/-- A semicolon and the rest of the line. -/
def comment? : List Char → Option Nat
  | ';' :: rest => some (1 + (rest.takeWhile isLineChar).length)
  | _ => none

/-! ## The longest lexeme -/

/-- The first of some written words that a text begins with. -/
def word? {α : Type} (words : List α) (written : α → String) (text : List Char) :
    Option (α × Nat) :=
  (words.find? fun word => (written word).toList.isPrefixOf text).map fun word =>
    (word, (written word).length)

/-- Reads the lexeme at the head of a text: its class and its length. -/
def scan (text : List Char) : Shape × Nat :=
  if let some length := date? text then
    (.date, length)
  else if let some length := number? text then
    (.number, length)
  else if let some length := account? text then
    (.account, length)
  else if let some length := currency? text then
    (.currency, length)
  else if let some length := tagged? '#' text then
    (.tag, length)
  else if let some length := tagged? '^' text then
    (.link, length)
  else if let some (keyword, length) := word? Keyword.all Keyword.text text then
    (.keyword keyword, length)
  else if let some (mark, length) := word? Mark.all Mark.text text then
    (.mark mark, length)
  else if let some length := newline? text then
    (.newline, length)
  else if let some length := comment? text then
    (.comment, length)
  else
    match text with
    | '"' :: rest =>
        let (closed, length) := literal rest
        (if closed then .string else .unknown, length + 1)
    | c :: _ => (if flagChars.contains c then .flag else .unknown, 1)
    | [] => (.unknown, 1)

end Lexeme

end LedgerText
