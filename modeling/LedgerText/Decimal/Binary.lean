/-!
# Whole numbers in binary floating point

A binary floating-point number keeps 53 significant bits, so most whole numbers
beyond that many bits are known only approximately. `ofNat` is the number that
stands for a whole number there, and `shortest` the whole number with the fewest
significant decimal digits that still identifies it; that it does is
`nearest_shortest`.
-/

namespace LedgerText.Decimal.Binary

/-- The number of significant bits. -/
def precision : Nat := 53

/-- The multiple of `unit` nearest to a number; of two that are equally near, the even
multiple. -/
def nearestMultiple (unit n : Nat) : Nat :=
  let below := n / unit
  let rest := n % unit
  if 2 * rest < unit ∨ (2 * rest = unit ∧ below % 2 = 0) then
    below * unit
  else
    (below + 1) * unit

/-- Rounds a number to its significant bits. -/
def nearest (n : Nat) : Nat := nearestMultiple (Nat.pow 2 (n.log2 + 1 - precision)) n

/-- Numbers with no more than the significant bits stay as they are. -/
theorem nearest_of_lt {n : Nat} (h : n < Nat.pow 2 precision) : nearest n = n := by
  have hLog : n.log2 + 1 - precision = 0 := by
    by_cases hZero : n = 0
    · subst hZero; rfl
    · have hLt : n.log2 < precision := (Nat.log2_lt hZero).2 h
      omega
  simp [nearest, nearestMultiple, hLog, Nat.mod_one]

/-- Splits a number into its first decimal digits, as many as fit into 64 bits, and the count of the
digits behind them. -/
def leading (n : Nat) : Nat × Nat :=
  if n < Nat.pow 2 64 then
    (n, 0)
  else
    let (first, others) := leading (n / 10)
    (first, others + 1)
termination_by n
decreasing_by
  have hLimit : 0 < Nat.pow 2 64 := by decide
  omega

/-- The number that stands for a whole number: its first digits are rounded, then what they make
together with the count of the others. -/
def ofNat (n : Nat) : Nat := nearest (nearest (leading n).1 * Nat.pow 10 (leading n).2)

/-- A multiple of `unit` that rounds to `value`, the nearer one of two. -/
def multipleFor? (value unit : Nat) : Option Nat :=
  let below := value / unit * unit
  let above := below + unit
  if nearest below = value ∧ (value - below < above - value ∨ nearest above ≠ value) then
    some below
  else if nearest above = value then
    some above
  else
    none

/-- A multiple that is found rounds to the value. -/
theorem nearest_of_multipleFor? {value unit n : Nat} (h : multipleFor? value unit = some n) :
    nearest n = value := by
  unfold multipleFor? at h
  dsimp only at h
  split at h
  case isTrue hBelow =>
    cases h
    exact hBelow.1
  case isFalse =>
    split at h
    case isTrue hAbove =>
      cases h
      exact hAbove
    case isFalse => cases h

/-- The whole number with the fewest significant decimal digits that rounds to `value`. -/
def shortest (value : Nat) : Nat :=
  let places := (List.range (Nat.toDigits 10 value).length).reverse
  (places.findSome? fun place => multipleFor? value (Nat.pow 10 place)).getD value

/-- The shortest digits identify the value: they round to it. -/
theorem nearest_shortest {value : Nat} (h : nearest value = value) :
    nearest (shortest value) = value := by
  unfold shortest
  dsimp only
  generalize hFound : List.findSome? _ _ = found
  cases found with
  | none => exact h
  | some n =>
      obtain ⟨place, -, hPlace⟩ := List.exists_of_findSome?_eq_some hFound
      exact nearest_of_multipleFor? hPlace

end LedgerText.Decimal.Binary
