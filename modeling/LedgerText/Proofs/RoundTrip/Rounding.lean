import LedgerText.Proofs.RoundTrip.Numerals

/-!
# Numbers with too many places

What is read of a number that was written with more places than a decimal has
room for. The digits are read one by one, and what does not fit is rounded away
at once, so that it has to be shown that the result is the written number rounded
as a whole (`Rounds`): the nearest number with so many places, a half going up,
where one place more would not fit.

A number is refused if it is too large to be rounded to a whole number
(`not_readDigits_of_large`), and if one of its digits is not ASCII
(`chars_of_readDigits`).
-/

namespace LedgerText.Decimal

/-- The number `mantissa / 10 ^ scale` is `n / 10 ^ places`, rounded to as many places as fit. -/
structure Rounds (n places mantissa scale : Nat) : Prop where
  scale_le : scale ≤ places
  /-- It is not more than half of its last place above the number. -/
  lower : 2 * (mantissa * 10 ^ (places - scale)) ≤ 2 * n + 10 ^ (places - scale)
  /-- It is less than half of its last place below the number. -/
  upper : 2 * n < 2 * (mantissa * 10 ^ (places - scale)) + 10 ^ (places - scale)
  /-- If places are missing, there is no room for one more. -/
  most : scale < places → scale = maxScale ∨
    (2 * maxMantissa + 1) * 10 ^ (places - scale - 1) ≤ 2 * n

/-- A number of at most half more than the largest mantissa can be rounded to a whole one. -/
def Fits (n places : Nat) : Prop := 2 * n < (2 * maxMantissa + 1) * 10 ^ places

instance (n places : Nat) : Decidable (Fits n places) := inferInstanceAs (Decidable (_ < _))

variable {n places mantissa scale digit : Nat}

/-- A number that fits as it is written is not rounded. -/
theorem Rounds.exact (h : Rounds n places mantissa scale) (hMantissa : n ≤ maxMantissa)
    (hPlaces : places ≤ maxScale) : mantissa = n ∧ scale = places := by
  have hAll : scale = places := by
    rcases Nat.eq_or_lt_of_le h.scale_le with hSame | hMissing
    · exact hSame
    · rcases h.most hMissing with hFull | hLarge
      · omega
      · have hPower : 0 < 10 ^ (places - scale - 1) := Nat.pow_pos (by decide)
        have hFirst := Nat.le_mul_of_pos_right (2 * maxMantissa + 1) hPower
        omega
  have hLower := h.lower
  have hUpper := h.upper
  rw [hAll, Nat.sub_self, Nat.pow_zero, Nat.mul_one] at hLower hUpper
  omega

/-- A place that does not fit is rounded away as the whole number is rounded. Only at the first
place behind the point can it happen that there is no room for the result. -/
theorem roundPlace_rounds {count rest : Nat} (hMantissa : mantissa ≤ maxMantissa)
    (hDigit : digit < 10) (hRest : rest < 10 ^ count)
    (hDrop : scale = maxScale ∨ maxMantissa < 10 * mantissa + digit)
    (hn : n = (10 * mantissa + digit) * 10 ^ count + rest) :
    (∃ m s, roundPlace mantissa scale digit = some (m, s) ∧ m ≤ maxMantissa ∧ s ≤ scale ∧
      Rounds n (scale + (count + 1)) m s) ∨
      roundPlace mantissa scale digit = none ∧ scale = 0 ∧ ¬ Fits n (count + 1) := by
  have hPower : 10 ^ (count + 1) = 10 * 10 ^ count := by rw [Nat.pow_succ, Nat.mul_comm]
  have hLast : maxMantissa = 10 * (maxMantissa / 10) + 5 := by decide
  have hPlaces : scale + (count + 1) - scale = count + 1 := by omega
  -- One place more is missing only because of the mantissa, or because of the scale.
  have hMost : scale = maxScale ∨
      (2 * maxMantissa + 1) * 10 ^ (scale + (count + 1) - scale - 1) ≤ 2 * n := by
    rcases hDrop with hFull | hLarge
    · exact .inl hFull
    · right
      rw [hPlaces, Nat.add_sub_cancel, hn]
      have hNext := Nat.mul_le_mul_right (10 ^ count) hLarge
      rw [Nat.succ_mul] at hNext
      rw [Nat.add_mul, Nat.mul_assoc]
      omega
  rw [Nat.add_mul, Nat.mul_assoc] at hn
  generalize hUnit : 10 ^ count = unit at hRest hPower hn
  have hTens (m : Nat) : m * (10 * unit) = 10 * (m * unit) := Nat.mul_left_comm m 10 unit
  unfold roundPlace
  by_cases hDown : digit < 5
  · have hLess := Nat.mul_le_mul_right unit (Nat.le_of_lt_succ hDown)
    refine .inl ⟨mantissa, scale, if_pos hDown, hMantissa, Nat.le_refl _, Nat.le_add_right _ _,
      ?_, ?_, fun _ => hMost⟩
    · rw [hPlaces, hPower, hTens]
      omega
    · rw [hPlaces, hPower, hTens]
      omega
  · have hHalf := Nat.mul_le_mul_right unit (Nat.le_of_not_lt hDown)
    have hWhole := Nat.mul_le_mul_right unit (Nat.le_of_lt_succ hDigit)
    rw [if_neg hDown]
    by_cases hRoom : mantissa + 1 ≤ maxMantissa
    · refine .inl ⟨mantissa + 1, scale, if_pos hRoom, hRoom, Nat.le_refl _, Nat.le_add_right _ _,
        ?_, ?_, fun _ => hMost⟩
      · rw [hPlaces, hPower, hTens, Nat.add_mul mantissa]
        omega
      · rw [hPlaces, hPower, hTens, Nat.add_mul mantissa]
        omega
    · obtain rfl : mantissa = maxMantissa := by omega
      have hLimit : (2 * maxMantissa + 1) * (10 * unit) ≤ 2 * n := by
        rw [hTens, Nat.add_mul, Nat.mul_assoc 2]
        omega
      rw [if_neg hRoom]
      by_cases hFirst : scale = 0
      · refine .inr ⟨if_pos hFirst, hFirst, ?_⟩
        rw [Fits, hPower]
        exact Nat.not_lt.2 hLimit
      · have hBehind : scale + (count + 1) - (scale - 1) = count + 2 := by omega
        have hNext : count + 2 - 1 = count + 1 := rfl
        have hHundred (m : Nat) : m * 10 ^ (count + 2) = 100 * (m * unit) := by
          rw [Nat.pow_add, hUnit, Nat.mul_comm unit, Nat.mul_left_comm]
        have hQuotient : (maxMantissa + 5) / 10 = maxMantissa / 10 + 1 := by decide
        have hTenths : maxMantissa * unit = 10 * (maxMantissa / 10 * unit) + 5 * unit := by
          rw [← Nat.mul_assoc, ← Nat.add_mul, ← hLast]
        have hUnits := hHundred 1
        rw [Nat.one_mul, Nat.one_mul] at hUnits
        refine .inl ⟨(maxMantissa + 5) / 10, scale - 1, if_neg hFirst, by omega, Nat.sub_le _ _,
          by omega, ?_, ?_, fun _ => .inr ?_⟩
        · rw [hBehind, hHundred, hUnits, hQuotient, Nat.add_mul]
          omega
        · rw [hBehind, hHundred, hUnits, hQuotient, Nat.add_mul]
          omega
        · rw [hBehind, hNext, hPower]
          exact hLimit

/-- What was rounded to a mantissa that is not too large was not too large itself. -/
theorem Rounds.fits (h : Rounds n places mantissa scale) (hMantissa : mantissa ≤ maxMantissa) :
    Fits n places := by
  have hUpper := h.upper
  have hLarge := Nat.mul_le_mul_right (10 ^ (places - scale)) hMantissa
  have hPower : 10 ^ (places - scale) ≤ 10 ^ places :=
    Nat.pow_le_pow_right (by decide) (Nat.sub_le _ _)
  have hAll := Nat.mul_le_mul_left (2 * maxMantissa + 1) hPower
  rw [Nat.add_mul, Nat.mul_assoc 2, Nat.one_mul] at hAll
  unfold Fits
  omega

/-! ## Reading digits -/

section

variable {digits fraction rest text : List Char}

/-- The places behind the point are read as far as there is room for them, and then rounded. -/
theorem readDigits_rounds (hDigits : ∀ c ∈ digits, c.isDigit = true)
    (hMantissa : mantissa ≤ maxMantissa) (hScale : scale ≤ maxScale) :
    (∃ m s, readDigits true true mantissa scale digits = some (m, s) ∧ m ≤ maxMantissa ∧
      s ≤ maxScale ∧ Rounds (Nat.ofDigitChars 10 digits mantissa) (scale + digits.length) m s) ∨
      readDigits true true mantissa scale digits = none ∧ scale = 0 ∧
        ¬ Fits (Nat.ofDigitChars 10 digits mantissa) digits.length := by
  induction digits generalizing mantissa scale with
  | nil =>
      refine .inl ⟨mantissa, scale, rfl, hMantissa, hScale, Nat.le_refl _, ?_, ?_, ?_⟩
      · simp
      · simp
      · exact fun hLess => absurd hLess (Nat.lt_irrefl _)
  | cons c digits ih =>
      obtain ⟨hDigit, hMore⟩ := List.forall_mem_cons.1 hDigits
      have hValue := Digits.value_lt hDigit
      rw [Nat.ofDigitChars_cons, List.length_cons]
      change _ ∨ _ ∧ _ ∧ ¬ Fits (Nat.ofDigitChars 10 digits (10 * mantissa + Digits.value c)) _
      rw [readDigits]
      simp only [hDigit, if_true]
      by_cases hRoom : scale < maxScale ∧ 10 * mantissa + Digits.value c ≤ maxMantissa
      · rw [if_pos hRoom]
        have hSame : scale + 1 + digits.length = scale + (digits.length + 1) := by omega
        rcases ih hMore hRoom.2 hRoom.1 with hRead | ⟨-, hFirst, -⟩
        · rw [hSame] at hRead
          exact .inl hRead
        · omega
      · have hRest : droppable digits = true := by
          refine List.all_eq_true.2 fun d hd => ?_
          rw [hMore d hd]
          rfl
        have hDrop : scale = maxScale ∨ maxMantissa < 10 * mantissa + Digits.value c := by omega
        have hNumber : Nat.ofDigitChars 10 digits (10 * mantissa + Digits.value c) =
            (10 * mantissa + Digits.value c) * 10 ^ digits.length +
              Nat.ofDigitChars 10 digits 0 := by
          rw [Nat.mul_comm _ (10 ^ digits.length)]
          exact Nat.ofDigitChars_eq_ofDigitChars_zero
        rw [if_neg hRoom, if_pos hRest]
        rcases roundPlace_rounds hMantissa hValue (Digits.ofDigitChars_lt hMore) hDrop hNumber with
          ⟨m, s, hRead, hm, hs, hRounds⟩ | hNone
        · exact .inl ⟨m, s, hRead, hm, Nat.le_trans hs hScale, hRounds⟩
        · exact .inr hNone

/-- Whole digits that do not fit are refused. -/
theorem readDigits_of_large {seen : Bool} (hDigits : ∀ c ∈ digits, c.isDigit = true)
    (hMantissa : mantissa ≤ maxMantissa)
    (hLarge : maxMantissa < Nat.ofDigitChars 10 digits mantissa) :
    readDigits false seen mantissa 0 (digits ++ rest) = none := by
  induction digits generalizing seen mantissa with
  | nil =>
      rw [Nat.ofDigitChars_nil] at hLarge
      omega
  | cons c digits ih =>
      obtain ⟨hDigit, hMore⟩ := List.forall_mem_cons.1 hDigits
      rw [Nat.ofDigitChars_cons] at hLarge
      rw [List.cons_append, readDigits]
      simp only [hDigit, if_true, Bool.false_eq_true, if_false]
      split
      · next hRoom => exact ih hMore hRoom hLarge
      · rfl

/-- Digits behind the point, if there are any. -/
def pointed (digits : List Char) : List Char := if digits = [] then [] else '.' :: digits

/-- A written number is rounded to the places that fit, or it is too large. -/
theorem readDigits_written (hSome : digits ≠ []) (hDigits : ∀ c ∈ digits, c.isDigit = true)
    (hFraction : ∀ c ∈ fraction, c.isDigit = true) :
    (∃ m s, readDigits false false 0 0 (digits ++ pointed fraction) = some (m, s) ∧
      m ≤ maxMantissa ∧ s ≤ maxScale ∧
      Rounds (Nat.ofDigitChars 10 (digits ++ fraction) 0) fraction.length m s) ∨
      readDigits false false 0 0 (digits ++ pointed fraction) = none ∧
        ¬ Fits (Nat.ofDigitChars 10 (digits ++ fraction) 0) fraction.length := by
  rw [Nat.ofDigitChars_append]
  by_cases hWhole : Nat.ofDigitChars 10 digits 0 ≤ maxMantissa
  · have hBehind : readDigits false true (Nat.ofDigitChars 10 digits 0) 0 (pointed fraction) =
        readDigits true true (Nat.ofDigitChars 10 digits 0) 0 fraction := by
      unfold pointed
      by_cases hNone : fraction = []
      · rw [if_pos hNone, hNone]
        rfl
      · have hPoint : ('.' : Char).isDigit = false := by decide
        rw [if_neg hNone, readDigits]
        simp only [hPoint, Bool.false_eq_true, if_false, Bool.not_false, and_self, if_true]
    have hRounds := readDigits_rounds hFraction hWhole (Nat.zero_le maxScale)
    rw [readDigits_whole hDigits (.inr hSome) hWhole, hBehind]
    rw [Nat.zero_add] at hRounds
    rcases hRounds with hRead | ⟨hNone, -, hLarge⟩
    · exact .inl hRead
    · exact .inr ⟨hNone, hLarge⟩
  · rw [Nat.not_le] at hWhole
    refine .inr ⟨readDigits_of_large hDigits (Nat.zero_le _) hWhole, ?_⟩
    have hLarge := Nat.mul_le_mul_right (10 ^ fraction.length) hWhole
    rw [Nat.succ_mul] at hLarge
    rw [Fits, Nat.ofDigitChars_eq_ofDigitChars_zero, Nat.mul_comm (10 ^ _), Nat.add_mul,
      Nat.mul_assoc]
    omega

/-- What is read has no characters but ASCII digits, points and underscores. -/
theorem chars_of_readDigits {point seen : Bool} {found : Nat × Nat}
    (h : readDigits point seen mantissa scale text = some found) :
    ∀ c ∈ text, c.isDigit = true ∨ c = '.' ∨ c = '_' := by
  have hDroppable {rest : List Char} (h : droppable rest = true) :
      ∀ c ∈ rest, c.isDigit = true ∨ c = '.' ∨ c = '_' := by
    intro c hc
    have hOne := List.all_eq_true.1 h c hc
    rw [Bool.or_eq_true, decide_eq_true_eq] at hOne
    exact hOne.imp_right .inr
  induction text generalizing point seen mantissa scale with
  | nil => exact List.forall_mem_nil _
  | cons c rest ih =>
      rw [readDigits] at h
      rw [List.forall_mem_cons]
      split at h
      · next hDigit =>
          refine ⟨.inl hDigit, ?_⟩
          dsimp only at h
          split at h
          · split at h
            · exact ih h
            · split at h
              · next hRest => exact hDroppable hRest
              · cases h
          · split at h
            · exact ih h
            · cases h
      · split at h
        · next hPoint => exact ⟨.inr (.inl hPoint.1), ih h⟩
        · split at h
          · next hUnderscore =>
              refine ⟨.inr (.inr hUnderscore.1), ?_⟩
              split at h
              · split at h
                · next hRest => exact hDroppable hRest
                · cases h
              · exact ih h
          · cases h

end

end LedgerText.Decimal
