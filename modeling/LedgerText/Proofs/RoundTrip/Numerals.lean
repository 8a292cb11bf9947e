import LedgerText.Date
import LedgerText.Decimal
import Mathlib.Algebra.Group.Nat.Defs

/-!
# Written numbers and days

The texts of decimals and days are read back exactly. `Decimal.ofText?_toText`
keeps the sign, the mantissa and the number of places, so that the places that
were written stay written. `Date.ofText?_toText` needs no bound on the year but
that it is not before zero or so late that it is written with a sign.

Both rest on `Digits.ofDigitChars_padded`: a number written with a least number
of digits is the number that the digits denote.
-/

namespace LedgerText

/-- Characters are different if a class has one of them and not the other. -/
theorem ne_of_class {p : Char → Bool} {c d : Char} (h : p c = true) (hOther : p d = false) :
    c ≠ d :=
  ne_of_apply_ne p (by rw [h, hOther]; decide)

/-! ## Digits -/

namespace Digits

theorem isDigit_of_mem_padded {width n : Nat} {c : Char} (h : c ∈ padded width n) :
    c.isDigit = true := by
  rw [padded, List.mem_append] at h
  cases h with
  | inl hZero =>
      rw [List.eq_of_mem_replicate hZero]
      decide
  | inr hDigit => exact Nat.isDigit_of_mem_toDigits (by decide) (by decide) hDigit

theorem padded_ne_nil (width n : Nat) : padded width n ≠ [] := by
  simp [padded]

theorem le_length_padded (width n : Nat) : width ≤ (padded width n).length := by
  rw [padded, List.length_append, List.length_replicate]
  omega

/-- A number that needs no more digits than asked for has just as many. -/
theorem length_padded {width n : Nat} (h : (Nat.toDigits 10 n).length ≤ width) :
    (padded width n).length = width := by
  rw [padded, List.length_append, List.length_replicate]
  omega

theorem ofDigitChars_padded (width n : Nat) : Nat.ofDigitChars 10 (padded width n) 0 = n := by
  rw [padded, Nat.ofDigitChars_append, Nat.ofDigitChars_replicate_zero, Nat.mul_zero,
    Nat.ofDigitChars_ten_toDigits]

theorem number?_padded (width n : Nat) : number? (padded width n) = some n := by
  have hDigits : padded width n ≠ [] ∧ (padded width n).all Char.isDigit = true := by
    refine ⟨padded_ne_nil width n, ?_⟩
    rw [List.all_eq_true]
    intro c hc
    exact isDigit_of_mem_padded hc
  rw [number?, if_pos hDigits]
  exact congrArg some (ofDigitChars_padded width n)

/-- Written numbers have no sign of their own. -/
theorem signedNumber?_padded (width n : Nat) : signedNumber? (padded width n) = some n := by
  have hNumber := number?_padded width n
  have hDigit : ∀ c ∈ padded width n, c.isDigit = true := fun _ => isDigit_of_mem_padded
  unfold signedNumber?
  split
  · next digits hDigits =>
      rw [hDigits] at hDigit
      exact absurd (hDigit '+' (by simp)) (by decide)
  · exact hNumber

/-- More digits do not make a number smaller. -/
theorem le_ofDigitChars (digits : List Char) (n : Nat) : n ≤ Nat.ofDigitChars 10 digits n := by
  induction digits generalizing n with
  | nil => simp
  | cons c digits ih =>
      rw [Nat.ofDigitChars_cons]
      have hMore := ih (10 * n + (c.toNat - '0'.toNat))
      omega

/-- The value of a digit is less than ten. -/
theorem value_lt {c : Char} (h : c.isDigit = true) : value c < 10 := by
  have hBounds := Char.isDigit_iff_toNat.1 h
  have hZero : '0'.toNat = 48 := rfl
  have hNine : '9'.toNat = 57 := rfl
  unfold value
  omega

/-- A run of digits denotes a number of no more digits. -/
theorem ofDigitChars_lt {digits : List Char} (h : ∀ c ∈ digits, c.isDigit = true) :
    Nat.ofDigitChars 10 digits 0 < 10 ^ digits.length := by
  induction digits with
  | nil => simp
  | cons c digits ih =>
      have hValue : c.toNat - '0'.toNat < 10 := value_lt (h c List.mem_cons_self)
      have hMore := ih fun d hd => h d (List.mem_cons_of_mem c hd)
      have hPower : 10 ^ digits.length * (c.toNat - '0'.toNat) ≤ 10 ^ digits.length * 9 :=
        Nat.mul_le_mul_left _ (by omega)
      rw [Nat.ofDigitChars_cons, Nat.mul_zero, Nat.zero_add, Nat.ofDigitChars_eq_ofDigitChars_zero,
        List.length_cons, Nat.pow_succ]
      omega

/-- As many digits that denote the same number are the same. -/
theorem eq_of_ofDigitChars {digits others : List Char} (hDigits : ∀ c ∈ digits, c.isDigit = true)
    (hOthers : ∀ c ∈ others, c.isDigit = true) (hLength : digits.length = others.length)
    (h : Nat.ofDigitChars 10 digits 0 = Nat.ofDigitChars 10 others 0) : digits = others := by
  induction digits generalizing others with
  | nil => exact (List.eq_nil_of_length_eq_zero hLength.symm).symm
  | cons c digits ih =>
      obtain ⟨d, others, rfl⟩ := List.exists_cons_of_length_eq_add_one hLength.symm
      rw [List.forall_mem_cons] at hDigits hOthers
      rw [List.length_cons, List.length_cons, Nat.succ_inj] at hLength
      rw [Nat.ofDigitChars_cons, Nat.ofDigitChars_cons, Nat.mul_zero, Nat.zero_add, Nat.zero_add,
        Nat.ofDigitChars_eq_ofDigitChars_zero,
        Nat.ofDigitChars_eq_ofDigitChars_zero (l := others), hLength] at h
      have hLess := ofDigitChars_lt hDigits.2
      have hOther := ofDigitChars_lt hOthers.2
      rw [hLength] at hLess
      -- The first digit is the quotient by the power of ten, and the others are the remainder.
      have hFirst : value c = value d := by
        have hQuotient := congrArg (· / 10 ^ others.length) h
        have hPower : 0 < 10 ^ others.length := Nat.pow_pos (by decide)
        simp only [Nat.mul_add_div hPower, Nat.div_eq_of_lt hLess, Nat.div_eq_of_lt hOther,
          Nat.add_zero] at hQuotient
        exact hQuotient
      have hMore : Nat.ofDigitChars 10 digits 0 = Nat.ofDigitChars 10 others 0 := by
        unfold value at hFirst
        rw [hFirst] at h
        exact Nat.add_left_cancel h
      have hBounds := Char.isDigit_iff_toNat.1 hDigits.1
      have hSame := Char.isDigit_iff_toNat.1 hOthers.1
      have hChar : c = d := by
        rw [← Char.toNat_inj]
        unfold value at hFirst
        omega
      rw [hChar, ih hDigits.2 hOthers.2 hLength hMore]

/-- A number that is written with as many digits as it was read from has the same ones. -/
theorem padded_ofDigitChars {digits : List Char} (hSome : digits ≠ [])
    (h : ∀ c ∈ digits, c.isDigit = true) :
    padded digits.length (Nat.ofDigitChars 10 digits 0) = digits := by
  have hShort : (Nat.toDigits 10 (Nat.ofDigitChars 10 digits 0)).length ≤ digits.length :=
    (Nat.length_toDigits_le_iff (by decide) (List.length_pos_iff.2 hSome)).2 (ofDigitChars_lt h)
  exact eq_of_ofDigitChars (fun _ => isDigit_of_mem_padded) h (length_padded hShort)
    (ofDigitChars_padded _ _)

end Digits

/-! ## Decimals -/

namespace Decimal

/-- Digits in front of the point are read as the number that they denote. -/
theorem readDigits_whole {digits rest : List Char} {seen : Bool} {n : Nat}
    (hDigits : ∀ c ∈ digits, c.isDigit = true) (hSome : seen = true ∨ digits ≠ [])
    (hFits : Nat.ofDigitChars 10 digits n ≤ maxMantissa) :
    readDigits false seen n 0 (digits ++ rest) =
      readDigits false true (Nat.ofDigitChars 10 digits n) 0 rest := by
  induction digits generalizing seen n with
  | nil =>
      have hSeen : seen = true := by simpa using hSome
      rw [hSeen, List.nil_append, Nat.ofDigitChars_nil]
  | cons c digits ih =>
      have hDigit : c.isDigit = true := hDigits c (by simp)
      rw [Nat.ofDigitChars_cons] at hFits ⊢
      have hNext : 10 * n + Digits.value c ≤ maxMantissa :=
        Nat.le_trans (Digits.le_ofDigitChars digits _) hFits
      rw [List.cons_append, readDigits]
      simp only [hDigit, if_true, Bool.false_eq_true, if_false, hNext]
      exact ih (fun d hd => hDigits d (by simp [hd])) (.inl rfl) hFits

/-- Digits behind the point are read to their end if the scale and the mantissa allow it. -/
theorem readDigits_fraction {digits : List Char} {n scale : Nat}
    (hDigits : ∀ c ∈ digits, c.isDigit = true)
    (hFits : Nat.ofDigitChars 10 digits n ≤ maxMantissa)
    (hScale : scale + digits.length ≤ maxScale) :
    readDigits true true n scale digits =
      some (Nat.ofDigitChars 10 digits n, scale + digits.length) := by
  induction digits generalizing n scale with
  | nil => simp [readDigits]
  | cons c digits ih =>
      have hDigit : c.isDigit = true := hDigits c (by simp)
      rw [Nat.ofDigitChars_cons] at hFits ⊢
      have hNext : 10 * n + Digits.value c ≤ maxMantissa :=
        Nat.le_trans (Digits.le_ofDigitChars digits _) hFits
      rw [List.length_cons] at hScale ⊢
      have hRoom : scale < maxScale := by omega
      rw [readDigits]
      simp only [hDigit, if_true, hRoom, hNext, and_self]
      have hRest : readDigits true true (10 * n + Digits.value c) (scale + 1) digits =
          some (Nat.ofDigitChars 10 digits (10 * n + Digits.value c),
            scale + 1 + digits.length) :=
        ih (fun d hd => hDigits d (by simp [hd])) hFits (by omega)
      have hSame : scale + 1 + digits.length = scale + (digits.length + 1) := by omega
      rw [hRest, hSame]
      rfl

/-- What is written of a decimal behind its whole digits. -/
def fractionText (d : Decimal) : List Char :=
  if d.scale = 0 then [] else '.' :: d.fractionDigits

theorem toList_toText (d : Decimal) :
    d.toText.toList = (if d.negative then ['-'] else []) ++ (d.wholeDigits ++ d.fractionText) := by
  unfold toText fractionText
  by_cases hScale : d.scale = 0
  · cases d.negative <;> simp [hScale]
  · cases d.negative <;> simp [hScale]

theorem wholeDigits_append_fractionDigits (d : Decimal) :
    d.wholeDigits ++ d.fractionDigits = d.paddedDigits := List.take_append_drop _ _

theorem isDigit_of_mem_wholeDigits {d : Decimal} {c : Char} (h : c ∈ d.wholeDigits) :
    c.isDigit = true :=
  Digits.isDigit_of_mem_padded (List.mem_of_mem_take h)

theorem isDigit_of_mem_fractionDigits {d : Decimal} {c : Char} (h : c ∈ d.fractionDigits) :
    c.isDigit = true :=
  Digits.isDigit_of_mem_padded (List.mem_of_mem_drop h)

theorem scale_lt_length_paddedDigits (d : Decimal) : d.scale < d.paddedDigits.length :=
  Digits.le_length_padded (d.scale + 1) d.mantissa

theorem wholeDigits_ne_nil (d : Decimal) : d.wholeDigits ≠ [] := by
  have hLength := d.scale_lt_length_paddedDigits
  intro hNone
  have hZero := congrArg List.length hNone
  rw [wholeDigits, List.length_take, List.length_nil] at hZero
  omega

theorem length_fractionDigits (d : Decimal) : d.fractionDigits.length = d.scale := by
  have hLength := d.scale_lt_length_paddedDigits
  rw [fractionDigits, List.length_drop]
  omega

/-- All the digits of a decimal, the point left out, denote its mantissa. -/
theorem ofDigitChars_digits (d : Decimal) :
    Nat.ofDigitChars 10 d.fractionDigits (Nat.ofDigitChars 10 d.wholeDigits 0) = d.mantissa := by
  rw [← Nat.ofDigitChars_append, wholeDigits_append_fractionDigits, paddedDigits,
    Digits.ofDigitChars_padded]

theorem readDigits_toText (d : Decimal) :
    readDigits false false 0 0 (d.wholeDigits ++ d.fractionText) = some (d.mantissa, d.scale) := by
  have hAll := d.ofDigitChars_digits
  have hLength := d.length_fractionDigits
  have hFits : Nat.ofDigitChars 10 d.wholeDigits 0 ≤ maxMantissa := by
    have hLess := Digits.le_ofDigitChars d.fractionDigits (Nat.ofDigitChars 10 d.wholeDigits 0)
    have hBound := d.mantissa_le
    omega
  rw [readDigits_whole (fun _ => isDigit_of_mem_wholeDigits) (.inr d.wholeDigits_ne_nil) hFits,
    fractionText]
  by_cases hScale : d.scale = 0
  · have hNone : d.fractionDigits = [] := by
      apply List.eq_nil_of_length_eq_zero
      omega
    rw [hNone, Nat.ofDigitChars_nil] at hAll
    rw [if_pos hScale, hAll, hScale]
    rfl
  · have hPoint : ('.' : Char).isDigit = false := by decide
    rw [if_neg hScale, readDigits]
    simp only [hPoint, Bool.false_eq_true, if_false, Bool.not_false, and_self, if_true]
    rw [readDigits_fraction (fun _ => isDigit_of_mem_fractionDigits)
      (hAll.symm ▸ d.mantissa_le) (by rw [hLength, Nat.zero_add]; exact d.scale_le), hAll, hLength,
      Nat.zero_add]

theorem ofParts?_parts (d : Decimal) : ofParts? d.negative d.mantissa d.scale = some d := by
  have hSign : (d.negative && d.mantissa != 0) = d.negative := by
    by_cases hZero : d.mantissa = 0
    · rw [d.zero_unsigned hZero, Bool.false_and]
    · simp [hZero]
  rw [ofParts?, dif_pos ⟨d.mantissa_le, d.scale_le⟩]
  simp only [hSign]

theorem readUnsigned_toText (d : Decimal) :
    readUnsigned d.negative (d.wholeDigits ++ d.fractionText) = some d := by
  rw [readUnsigned, readDigits_toText]
  exact d.ofParts?_parts

/-- A decimal that was written is read back, with all its places. -/
theorem ofText?_toText (d : Decimal) : ofText? d.toText = some d := by
  have hText := d.toList_toText
  have hRead := d.readUnsigned_toText
  cases hSign : d.negative with
  | true =>
      rw [hSign] at hText hRead
      rw [ofText?, hText]
      exact hRead
  | false =>
      rw [hSign] at hText hRead
      rw [ofText?, hText]
      obtain ⟨c, digits, hWhole⟩ := List.exists_cons_of_ne_nil d.wholeDigits_ne_nil
      have hDigit : c.isDigit = true := isDigit_of_mem_wholeDigits (hWhole ▸ List.mem_cons_self)
      rw [hWhole] at hRead ⊢
      -- The first character is a digit, so no sign is read.
      split
      · next hMinus =>
          cases hMinus
          exact absurd hDigit (by decide)
      · next hPlus =>
          cases hPlus
          exact absurd hDigit (by decide)
      · exact hRead

/-- Written decimals have no commas. -/
theorem comma_notMem_toText (d : Decimal) : ',' ∉ d.toText.toList := by
  have hWhole : ',' ∉ d.wholeDigits := fun h =>
    absurd (isDigit_of_mem_wholeDigits h) (by decide)
  have hFraction : ',' ∉ d.fractionDigits := fun h =>
    absurd (isDigit_of_mem_fractionDigits h) (by decide)
  rw [toList_toText, fractionText]
  cases d.negative <;> split <;> simp [hWhole, hFraction]

end Decimal

/-! ## Days -/

namespace Date

/-- Digits separate nothing. -/
theorem isSeparator_of_isDigit {c : Char} (h : c.isDigit = true) : isSeparator c = false := by
  have hDash : c ≠ '-' := ne_of_class h (by decide)
  have hSlash : c ≠ '/' := ne_of_class h (by decide)
  rw [isSeparator, beq_eq_false_iff_ne.2 hDash, beq_eq_false_iff_ne.2 hSlash, Bool.or_false]

theorem fields_of_plain {field : List Char} (h : ∀ c ∈ field, isSeparator c = false) :
    fields field = [field] := by
  induction field with
  | nil => rfl
  | cons c field ih =>
      have hc := h c List.mem_cons_self
      rw [fields, hc, ih fun d hd => h d (List.mem_cons_of_mem c hd)]
      rfl

/-- The first field ends at the first separator. -/
theorem fields_append_separator {field rest : List Char} {s : Char}
    (hField : ∀ c ∈ field, isSeparator c = false) (hStop : isSeparator s = true) :
    fields (field ++ s :: rest) = field :: fields rest := by
  induction field with
  | nil => simp [fields, hStop]
  | cons c field ih =>
      have hc := hField c List.mem_cons_self
      rw [List.cons_append, fields, hc, ih fun d hd => hField d (List.mem_cons_of_mem _ hd)]
      rfl

theorem ofParts?_parts (d : Date) : ofParts? d.year d.month d.day = some d := by
  rw [ofParts?, dif_pos d.existing]

variable {d : Date} (hYear : 0 ≤ d.year ∧ d.year ≤ 9999)

include hYear

theorem toList_toText : d.toText.toList = Digits.padded 4 d.year.natAbs ++
    '-' :: (Digits.padded 2 d.month ++ '-' :: Digits.padded 2 d.day) := by
  simp [toText, yearText, hYear]

/-- A day that was written is read back. -/
theorem ofText?_toText : ofText? d.toText = some d := by
  have hPlain (width n : Nat) : ∀ c ∈ Digits.padded width n, isSeparator c = false :=
    fun _ hc => isSeparator_of_isDigit (Digits.isDigit_of_mem_padded hc)
  have hDash : isSeparator '-' = true := by decide
  have hFields : fields d.toText.toList = [Digits.padded 4 d.year.natAbs,
      Digits.padded 2 d.month, Digits.padded 2 d.day] := by
    rw [toList_toText hYear, fields_append_separator (hPlain 4 _) hDash,
      fields_append_separator (hPlain 2 _) hDash, fields_of_plain (hPlain 2 _)]
  have hSign : (d.year.natAbs : Int) = d.year := by omega
  rw [ofText?, hFields]
  simp only [Digits.signedNumber?_padded, Option.bind_eq_bind, Option.bind_some, hSign]
  exact d.ofParts?_parts

/-- The year, the month and the day are written with four, two and two digits. -/
theorem length_fields_toText : (Digits.padded 4 d.year.natAbs).length = 4 ∧
    (Digits.padded 2 d.month).length = 2 ∧ (Digits.padded 2 d.day).length = 2 := by
  have hLength (width n : Nat) (hWidth : 0 < width) (h : n < Nat.pow 10 width) :
      (Digits.padded width n).length = width :=
    Digits.length_padded ((Nat.length_toDigits_le_iff (by decide) hWidth).2 h)
  have hExists := d.existing
  have hMonth : d.month ≤ 12 ∧ d.day ≤ 31 := by
    obtain ⟨-, -, hFirst, hLast⟩ := hExists
    unfold daysInMonth at hLast
    split at hLast
    · split at hLast <;> omega
    · split at hLast
      · omega
      · split at hLast <;> omega
  refine ⟨hLength 4 _ (by decide) ?_, hLength 2 _ (by decide) ?_, hLength 2 _ (by decide) ?_⟩
  · show d.year.natAbs < 10000
    omega
  · show d.month < 100
    omega
  · show d.day < 100
    omega

end Date

end LedgerText
