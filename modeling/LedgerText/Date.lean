import LedgerText.Text.Digits

/-!
# Calendar dates

A date is a day of the Gregorian calendar, extended to all years from -262143
to 262142. The type holds existing days only.

Two readers accept texts: `Date.ofText?` reads the dates of a ledger, three
fields of digits with a dash or a slash between them, and `Date.ofIso?` reads
the interchange form, which has dashes only and bounds the width of its fields.
`Date.toText` writes the interchange form.
-/

namespace LedgerText

/-- Whether a year has a 29th of February. -/
def Date.isLeapYear (year : Int) : Bool :=
  year % 4 == 0 && (year % 100 != 0 || year % 400 == 0)

/-- The number of days of a month; zero for a month that does not exist. -/
def Date.daysInMonth (year : Int) (month : Nat) : Nat :=
  if month = 2 then
    if Date.isLeapYear year then 29 else 28
  else if month = 4 ∨ month = 6 ∨ month = 9 ∨ month = 11 then
    30
  else if 1 ≤ month ∧ month ≤ 12 then
    31
  else
    0

/-- The days of the calendar. -/
def Date.Exists (year : Int) (month day : Nat) : Prop :=
  -262143 ≤ year ∧ year ≤ 262142 ∧ 1 ≤ day ∧ day ≤ Date.daysInMonth year month

instance (year : Int) (month day : Nat) : Decidable (Date.Exists year month day) := by
  unfold Date.Exists
  infer_instance

/-- A day of the calendar. -/
structure Date where
  year : Int
  month : Nat
  day : Nat
  existing : Date.Exists year month day
  deriving DecidableEq, Repr

namespace Date

/-- The day with the given parts, if there is one. -/
def ofParts? (year : Int) (month day : Nat) : Option Date :=
  if h : Exists year month day then some ⟨year, month, day, h⟩ else none

/-! ## Reading -/

/-- Whether a character separates the fields of a date. -/
def isSeparator (c : Char) : Bool := c == '-' || c == '/'

/-- The fields of a text, cut at every separator. There is always at least one. -/
def fields : List Char → List (List Char)
  | [] => [[]]
  | c :: rest =>
      if isSeparator c then
        [] :: fields rest
      else
        match fields rest with
        | first :: others => (c :: first) :: others
        | [] => [[c]]

/-- Reads year, month and day, with a dash or a slash at either place between them. Each of the
three is a run of digits that may have a plus sign before it. -/
def ofText? (text : String) : Option Date :=
  match fields text.toList with
  | [year, month, day] => do
      let year ← Digits.signedNumber? year
      let month ← Digits.signedNumber? month
      let day ← Digits.signedNumber? day
      ofParts? year month day
  | _ => none

/-! ## Writing -/

/-- Writes the year with at least four digits, and with a sign if it is outside 0 to 9999. -/
def yearText (year : Int) : String :=
  if 0 ≤ year ∧ year ≤ 9999 then
    String.ofList (Digits.padded 4 year.natAbs)
  else
    (if year < 0 then "-" else "+") ++ String.ofList (Digits.padded 4 year.natAbs)

/-- Writes a date as `YYYY-MM-DD`. -/
def toText (d : Date) : String :=
  yearText d.year ++ "-" ++ String.ofList (Digits.padded 2 d.month) ++ "-" ++
    String.ofList (Digits.padded 2 d.day)

instance : ToString Date := ⟨toText⟩

/-! ## The interchange form -/

/-- White space as the interchange form knows it: the characters with that property. -/
def isSpace (c : Char) : Bool :=
  let n := c.toNat
  (0x09 ≤ n && n ≤ 0x0D) || (0x2000 ≤ n && n ≤ 0x200A) ||
    [0x20, 0x85, 0xA0, 0x1680, 0x2028, 0x2029, 0x202F, 0x205F, 0x3000].contains n

/-- Drops leading white space. -/
def skipSpace (text : List Char) : List Char := text.dropWhile isSpace

/-- Reads between one and `width` digits after white space, and returns what follows them. -/
def takeNumber (width : Nat) (text : List Char) : Option (Nat × List Char) :=
  let body := skipSpace text
  let digits := (body.take width).takeWhile Char.isDigit
  (Digits.number? digits).map fun value => (value, body.drop digits.length)

/-- Reads a year after white space: up to four digits, or any number of them behind a sign. -/
def takeYear (text : List Char) : Option (Int × List Char) :=
  match skipSpace text with
  | '-' :: rest =>
      let digits := rest.takeWhile Char.isDigit
      (Digits.number? digits).map fun value => (-(value : Int), rest.drop digits.length)
  | '+' :: rest =>
      let digits := rest.takeWhile Char.isDigit
      (Digits.number? digits).map fun value => ((value : Int), rest.drop digits.length)
  | body => (takeNumber 4 body).map fun (value, rest) => ((value : Int), rest)

/-- Skips white space and the dash behind it. -/
def takeDash (text : List Char) : Option (List Char) :=
  match skipSpace text with
  | '-' :: rest => some rest
  | _ => none

/-- Reads the interchange form of a date. White space may stand before each part and at the end. -/
def ofIso? (text : String) : Option Date := do
  let (year, rest) ← takeYear text.toList
  let (month, rest) ← takeNumber 2 (← takeDash rest)
  let (day, rest) ← takeNumber 2 (← takeDash rest)
  if skipSpace rest = [] then ofParts? year month day else none

end Date

end LedgerText
