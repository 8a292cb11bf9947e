import LedgerText.Text.Digits

/-!
# Decimal numbers

A decimal is a signed mantissa of at most 96 bits, divided by a power of ten
between `10 ^ 0` and `10 ^ 28`. The scale is part of the value: `1.5` and
`1.50` are different decimals that denote the same number, and the printed
form keeps the places that were written.

Reading goes digit by digit and never loses an integer digit: a whole part that
does not fit is refused. A place behind the point that does not fit any more is
rounded away, a five going up, and the places behind it are dropped.

Zero has no sign, which the type enforces together with the two bounds.
-/

namespace LedgerText

/-- The largest mantissa: 96 bits. -/
def Decimal.maxMantissa : Nat := Nat.pow 2 96 - 1

/-- The most places behind the point. -/
def Decimal.maxScale : Nat := 28

/-- The number `± mantissa / 10 ^ scale`, with its number of places. -/
structure Decimal where
  negative : Bool
  mantissa : Nat
  scale : Nat
  mantissa_le : mantissa ≤ Decimal.maxMantissa
  scale_le : scale ≤ Decimal.maxScale
  zero_unsigned : mantissa = 0 → negative = false
  deriving DecidableEq, Repr

namespace Decimal

/-- The decimal with the given parts, if they are within the bounds. The sign of zero is dropped. -/
def ofParts? (negative : Bool) (mantissa scale : Nat) : Option Decimal :=
  if h : mantissa ≤ maxMantissa ∧ scale ≤ maxScale then
    some
      { negative := negative && mantissa != 0
        mantissa := mantissa
        scale := scale
        mantissa_le := h.1
        scale_le := h.2
        zero_unsigned := fun hZero => by simp [hZero] }
  else
    none

/-- A whole number, if it fits. -/
def ofInt? (n : Int) : Option Decimal :=
  ofParts? (decide (n < 0)) n.natAbs 0

/-! ## Reading -/

/-- Rounds away a place that did not fit: a digit from five on raises the last place kept. If that
no longer fits either, one more place is given up. -/
def roundPlace (mantissa scale digit : Nat) : Option (Nat × Nat) :=
  if digit < 5 then
    some (mantissa, scale)
  else if mantissa + 1 ≤ maxMantissa then
    some (mantissa + 1, scale)
  else if scale = 0 then
    none
  else
    some ((mantissa + 5) / 10, scale - 1)

/-- Whether a text may follow the last place that counts: digits and underscores, which are dropped
unread. -/
def droppable (text : List Char) : Bool := text.all fun c => c.isDigit || c = '_'

/-- Mantissas below this limit are short: another digit certainly leaves them within 64 bits. -/
def shortLimit : Nat := (Nat.pow 2 64 - 1) / 10 - 255

/-- Whether a mantissa was short before its last digit was read. -/
def grewFromShort (mantissa : Nat) : Bool := mantissa / 10 < shortLimit

/--
Reads digits with at most one point into a mantissa and a scale. `point` says whether the point has
been read and `digits` whether a digit has. From the first digit on an underscore may stand between
the others and means nothing, with one exception: behind the last place that the scale allows it
ends a mantissa that was short up to there, and no place behind it rounds.
-/
def readDigits (point digits : Bool) (mantissa scale : Nat) : List Char → Option (Nat × Nat)
  | [] => if digits then some (mantissa, scale) else none
  | c :: rest =>
      if c.isDigit then
        let next := 10 * mantissa + Digits.value c
        if point then
          if scale < maxScale ∧ next ≤ maxMantissa then
            readDigits true true next (scale + 1) rest
          else if droppable rest then
            roundPlace mantissa scale (Digits.value c)
          else
            none
        else if next ≤ maxMantissa then
          readDigits false true next scale rest
        else
          none
      else if c = '.' ∧ !point then
        readDigits true digits mantissa scale rest
      else if c = '_' ∧ digits then
        if scale = maxScale ∧ grewFromShort mantissa then
          if droppable rest then some (mantissa, scale) else none
        else
          readDigits point digits mantissa scale rest
      else
        none

/-- Reads a text without its sign. -/
def readUnsigned (negative : Bool) (text : List Char) : Option Decimal :=
  match readDigits false false 0 0 text with
  | some (mantissa, scale) => ofParts? negative mantissa scale
  | none => none

/-- Reads a decimal: an optional sign, then ASCII digits with at most one point. -/
def ofText? (text : String) : Option Decimal :=
  match text.toList with
  | '-' :: rest => readUnsigned true rest
  | '+' :: rest => readUnsigned false rest
  | rest => readUnsigned false rest

/-! ## Writing -/

/-- The digits of the mantissa, with leading zeros where the point would otherwise have no digit
in front of it. -/
def paddedDigits (d : Decimal) : List Char :=
  Digits.padded (d.scale + 1) d.mantissa

/-- The digits in front of the point. -/
def wholeDigits (d : Decimal) : List Char :=
  d.paddedDigits.take (d.paddedDigits.length - d.scale)

/-- The digits behind the point, as many as the scale says. -/
def fractionDigits (d : Decimal) : List Char :=
  d.paddedDigits.drop (d.paddedDigits.length - d.scale)

/-- Writes a decimal with all its places: `1.50`, `-0.05`, `0`. -/
def toText (d : Decimal) : String :=
  (if d.negative then "-" else "") ++ String.ofList d.wholeDigits ++
    (if d.scale = 0 then "" else "." ++ String.ofList d.fractionDigits)

instance : ToString Decimal := ⟨toText⟩

/-! ## Comparing -/

/-- Drops trailing zeros behind the point. -/
def stripZeros (mantissa : Nat) : Nat → Nat × Nat
  | 0 => (mantissa, 0)
  | scale + 1 =>
      if mantissa % 10 = 0 then stripZeros (mantissa / 10) scale else (mantissa, scale + 1)

/-- The mantissa and scale left when trailing zeros are dropped do not grow. -/
theorem stripZeros_le (mantissa scale : Nat) :
    (stripZeros mantissa scale).1 ≤ mantissa ∧ (stripZeros mantissa scale).2 ≤ scale := by
  induction scale generalizing mantissa with
  | zero => simp [stripZeros]
  | succ scale ih =>
      unfold stripZeros
      split
      · have hStep := ih (mantissa / 10)
        omega
      · simp

/-- A mantissa that becomes zero by dropping zeros was zero. -/
theorem stripZeros_eq_zero (mantissa scale : Nat) (h : (stripZeros mantissa scale).1 = 0) :
    mantissa = 0 := by
  induction scale generalizing mantissa with
  | zero => simpa [stripZeros] using h
  | succ scale ih =>
      unfold stripZeros at h
      split at h
      · have hQuotient := ih _ h
        omega
      · simpa using h

/-- The decimal with the fewest places that denotes the same number. -/
def normalized (d : Decimal) : Decimal where
  negative := d.negative
  mantissa := (stripZeros d.mantissa d.scale).1
  scale := (stripZeros d.mantissa d.scale).2
  mantissa_le := Nat.le_trans (stripZeros_le d.mantissa d.scale).1 d.mantissa_le
  scale_le := Nat.le_trans (stripZeros_le d.mantissa d.scale).2 d.scale_le
  zero_unsigned := fun h => d.zero_unsigned (stripZeros_eq_zero d.mantissa d.scale h)

end Decimal

end LedgerText
