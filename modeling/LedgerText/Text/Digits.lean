/-!
# ASCII digits

The number that a run of ASCII digits denotes, and a number written with a
least number of digits. Dates, command-line values and decimals share them.
-/

namespace LedgerText.Digits

/-- The value of an ASCII digit. -/
def value (c : Char) : Nat := c.toNat - '0'.toNat

/-- The number that a non-empty run of ASCII digits denotes. -/
def number? (text : List Char) : Option Nat :=
  if text ≠ [] ∧ text.all Char.isDigit then
    some (text.foldl (fun n c => 10 * n + value c) 0)
  else
    none

/-- The number that digits denote, with an optional plus sign before them. -/
def signedNumber? : List Char → Option Nat
  | '+' :: digits => number? digits
  | digits => number? digits

/-- A number with at least `width` digits. -/
def padded (width n : Nat) : List Char :=
  let digits := Nat.toDigits 10 n
  List.replicate (width - digits.length) '0' ++ digits

end LedgerText.Digits
