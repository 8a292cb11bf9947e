import LedgerText.Proofs.Lexing.Lossless
import LedgerText.Proofs.RoundTrip.Rounding

/-!
# Numbers

What becomes of the text of a number (`numbers_decode`). Apart from its commas
it has a sign or none, decimal digits of any script, and perhaps more of them
behind a point (`Numeral`). It denotes the decimal that these digits say, which
is rounded if there are too many places (`Numeral.Denotes`). If the digits are
not ASCII or the number is too large, it becomes an error of the same extent.

Every decimal is read from what is written of it, with commas between groups of
three whole digits or without (`Decimal.spelled`), if the text ends there or a
blank or a line end is behind it.
-/

namespace LedgerText

open Lexeme Pattern
open scoped Computability

/-! ## The text of a number -/

/-- The characters of a number, but for its commas. -/
structure Numeral where
  negative : Bool
  whole : List Char
  fraction : List Char
  whole_ne_nil : whole ≠ []
  decimal : ∀ c ∈ whole ++ fraction, isDecimalDigit c = true

namespace Numeral

variable (t : Numeral)

/-- The characters as they stand in a text without commas. -/
def chars : List Char :=
  (if t.negative then ['-'] else []) ++ (t.whole ++ Decimal.pointed t.fraction)

/-- All digits are ASCII. -/
def IsAscii : Prop := ∀ c ∈ t.whole ++ t.fraction, c.isDigit = true

/-- The number that all the digits denote, with the point left out. -/
def digits : Nat := Nat.ofDigitChars 10 (t.whole ++ t.fraction) 0

/-- The number is not too large to be rounded to a decimal. -/
def Fits : Prop := Decimal.Fits t.digits t.fraction.length

/-- The decimal is the number, rounded if it has too many places. -/
structure Denotes (d : Decimal) : Prop where
  sign : d.negative = (t.negative && d.mantissa != 0)
  rounds : Decimal.Rounds t.digits t.fraction.length d.mantissa d.scale
  /-- A number that need not be rounded has all the places that were written. -/
  exact : t.digits ≤ Decimal.maxMantissa → t.fraction.length ≤ Decimal.maxScale →
    d.mantissa = t.digits ∧ d.scale = t.fraction.length

instance : Decidable t.IsAscii := by
  unfold IsAscii
  exact List.decidableBAll (fun c : Char => c.isDigit = true) _

instance : Decidable t.Fits := by
  unfold Fits
  infer_instance

variable {t}

/-- The sign is read first, and then the digits. -/
theorem ofText?_chars (t : Numeral) : Decimal.ofText? (String.ofList t.chars) =
    Decimal.readUnsigned t.negative (t.whole ++ Decimal.pointed t.fraction) := by
  rw [Decimal.ofText?, String.toList_ofList, chars]
  cases hSign : t.negative with
  | true => rfl
  | false =>
      obtain ⟨c, rest, hWhole⟩ := List.exists_cons_of_ne_nil t.whole_ne_nil
      have hDigit : isDecimalDigit c = true := t.decimal c (by rw [hWhole]; simp)
      have hMinus : c ≠ '-' := ne_of_class hDigit (by decide)
      have hPlus : c ≠ '+' := ne_of_class hDigit (by decide)
      rw [hWhole]
      simp only [Bool.false_eq_true, if_false, List.nil_append, List.cons_append]
      split
      · next hText =>
          cases hText
          exact absurd rfl hMinus
      · next hText =>
          cases hText
          exact absurd rfl hPlus
      · rfl

theorem readUnsigned_of_readDigits (negative : Bool) {text : List Char} {m s : Nat}
    (h : Decimal.readDigits false false 0 0 text = some (m, s))
    (hMantissa : m ≤ Decimal.maxMantissa) (hScale : s ≤ Decimal.maxScale) : ∃ d : Decimal,
      Decimal.readUnsigned negative text = some d ∧ d.mantissa = m ∧ d.scale = s ∧
        d.negative = (negative && m != 0) := by
  rw [Decimal.readUnsigned, h]
  exact ⟨_, dif_pos ⟨hMantissa, hScale⟩, rfl, rfl, rfl⟩

theorem mem_pointed {fraction : List Char} {c : Char} (h : c ∈ fraction) :
    c ∈ Decimal.pointed fraction := by
  rw [Decimal.pointed, if_neg (List.ne_nil_of_mem h)]
  exact List.mem_cons_of_mem _ h

/-- A numeral in ASCII that fits is read as the decimal that it denotes. Any other is refused. -/
theorem reads_or_refused (t : Numeral) :
    (t.IsAscii ∧ t.Fits ∧ ∃ d, Decimal.ofText? (String.ofList t.chars) = some d ∧ t.Denotes d) ∨
      ¬ (t.IsAscii ∧ t.Fits) ∧ Decimal.ofText? (String.ofList t.chars) = none := by
  rw [ofText?_chars]
  by_cases hAscii : t.IsAscii
  · have hBoth := hAscii
    unfold IsAscii at hBoth
    rw [List.forall_mem_append] at hBoth
    rcases Decimal.readDigits_written t.whole_ne_nil hBoth.1 hBoth.2 with
      ⟨m, s, hRead, hMantissa, hScale, hRounds⟩ | ⟨hNone, hLarge⟩
    · obtain ⟨d, hDecimal, rfl, rfl, hSign⟩ :=
        readUnsigned_of_readDigits t.negative hRead hMantissa hScale
      exact .inl ⟨hAscii, hRounds.fits hMantissa, d, hDecimal, hSign, hRounds, hRounds.exact⟩
    · refine .inr ⟨fun hFits => hLarge hFits.2, ?_⟩
      rw [Decimal.readUnsigned, hNone]
  · refine .inr ⟨fun hBoth => hAscii hBoth.1, ?_⟩
    have hNone : Decimal.readDigits false false 0 0
        (t.whole ++ Decimal.pointed t.fraction) = none := by
      rw [Option.eq_none_iff_forall_ne_some]
      rintro found hFound
      have hChars := Decimal.chars_of_readDigits hFound
      refine hAscii fun c hc => ?_
      have hDecimal := t.decimal c hc
      have hMem : c ∈ t.whole ++ Decimal.pointed t.fraction := by
        rw [List.mem_append] at hc ⊢
        exact hc.imp_right mem_pointed
      rcases hChars c hMem with hDigit | rfl | rfl
      · exact hDigit
      · exact absurd hDecimal (by decide)
      · exact absurd hDecimal (by decide)
    rw [Decimal.readUnsigned, hNone]

/-! ## Commas -/

/-- Where a fraction may stand, there are digits behind a point, or there is nothing. -/
theorem exists_pointed {others : List Char} (h : others ∈ maybe (word "." * several digit)) :
    ∃ fraction, others = Decimal.pointed fraction ∧ ∀ c ∈ fraction, isDecimalDigit c = true := by
  rcases mem_maybe.1 h with rfl | ⟨_, rfl, fraction, hRun, rfl⟩
  · exact ⟨[], rfl, List.forall_mem_nil _⟩
  · obtain ⟨hSome, hAll⟩ := mem_digits.1 hRun
    exact ⟨fraction, (if_neg hSome).symm, List.all_eq_true.1 hAll⟩

theorem filter_of_decimal {digits : List Char} (h : ∀ c ∈ digits, isDecimalDigit c = true) :
    digits.filter (· != ',') = digits := by
  rw [List.filter_eq_self]
  intro c hc
  exact bne_iff_ne.2 (ne_of_class (h c hc) (by decide))

theorem filter_pointed {fraction : List Char} (h : ∀ c ∈ fraction, isDecimalDigit c = true) :
    (Decimal.pointed fraction).filter (· != ',') = Decimal.pointed fraction := by
  rw [Decimal.pointed]
  split
  · rfl
  · rw [List.filter_cons_of_pos (by decide), filter_of_decimal h]

/-- In a text of the pattern, what is left without the commas is a numeral. -/
theorem exists_of_mem {w : List Char} (h : w ∈ Pattern.number.language) :
    ∃ t : Numeral, w.filter (· != ',') = t.chars := by
  obtain ⟨_, ⟨sign, hSign, digits, hDigits, rfl⟩, others, hOthers, rfl⟩ := h
  have hDigitOrComma : ∀ c ∈ digits, isDecimalDigit c = true ∨ c = ',' := by
    rcases hDigits with hGrouped | hRun
    · exact (chars_of_grouped hGrouped).1
    · exact fun c hc => .inl (List.all_eq_true.1 (mem_digits.1 hRun).2 c hc)
  obtain ⟨first, tail, hFirst, hDigit⟩ := exists_digit hDigits
  have hNoComma : first ≠ ',' := ne_of_class hDigit (by decide)
  have hWhole : ∀ c ∈ digits.filter (· != ','), isDecimalDigit c = true := by
    intro c hc
    obtain ⟨hMem, hComma⟩ := List.mem_filter.1 hc
    exact (hDigitOrComma c hMem).resolve_right (bne_iff_ne.1 hComma)
  obtain ⟨fraction, rfl, hFraction⟩ := exists_pointed hOthers
  refine ⟨⟨decide (sign ≠ []), digits.filter (· != ','), fraction, ?_, ?_⟩, ?_⟩
  · rw [hFirst, List.filter_cons_of_pos (by simp [hNoComma])]
    exact List.cons_ne_nil _ _
  · exact List.forall_mem_append.2 ⟨hWhole, hFraction⟩
  · rw [List.filter_append, List.filter_append, filter_pointed hFraction, chars, List.append_assoc]
    rcases mem_maybe.1 hSign with rfl | rfl
    · rfl
    · rfl

end Numeral

/-- A comma, where so many digits are left that a group of three begins. -/
def commaBefore (digits : List Char) : List Char :=
  if digits ≠ [] ∧ digits.length % 3 = 0 then [','] else []

/-- Digits in groups of three, counted from the last one, with commas between them. -/
def withCommas : List Char → List Char
  | [] => []
  | c :: digits => c :: (commaBefore digits ++ withCommas digits)

theorem filter_withCommas {digits : List Char} (h : ∀ c ∈ digits, c ≠ ',') :
    (withCommas digits).filter (· != ',') = digits := by
  induction digits with
  | nil => rfl
  | cons c digits ih =>
      obtain ⟨hc, hDigits⟩ := List.forall_mem_cons.1 h
      have hComma : (commaBefore digits).filter (· != ',') = [] := by
        rw [commaBefore]
        split <;> rfl
      rw [withCommas, List.filter_cons_of_pos (by simp [hc]), List.filter_append, hComma,
        List.nil_append, ih hDigits]

/-- A comma stands in front of each group but the first. -/
theorem withCommas_mem_groups {digits : List Char} {count : Nat}
    (hLength : digits.length = 3 * count) (h : ∀ c ∈ digits, isDecimalDigit c = true) :
    commaBefore digits ++ withCommas digits ∈ groupsLanguage := by
  induction count generalizing digits with
  | zero =>
      obtain rfl := List.eq_nil_of_length_eq_zero hLength
      exact Language.nil_mem_kstar _
  | succ count ih =>
      match digits, hLength with
      | d₁ :: d₂ :: d₃ :: rest, hLength =>
          have hRest : rest.length = 3 * count := by
            simp only [List.length_cons] at hLength
            omega
          simp only [List.forall_mem_cons] at h
          have hGroup : ',' :: [d₁, d₂, d₃] ∈ word "," * digit ^ 3 := by
            refine Language.append_mem_mul (a := [',']) rfl (mem_one_pow.2 ⟨rfl, ?_⟩)
            simp [h]
          have hText : commaBefore (d₁ :: d₂ :: d₃ :: rest) ++ withCommas (d₁ :: d₂ :: d₃ :: rest) =
              ',' :: [d₁, d₂, d₃] ++ (commaBefore rest ++ withCommas rest) := by
            have hFirst : (d₁ :: d₂ :: d₃ :: rest).length % 3 = 0 := by omega
            have hSecond : (d₂ :: d₃ :: rest).length % 3 ≠ 0 := by
              simp only [List.length_cons]
              omega
            have hThird : (d₃ :: rest).length % 3 ≠ 0 := by
              simp only [List.length_cons]
              omega
            simp only [withCommas, commaBefore, hFirst, hSecond, hThird]
            simp
          rw [hText]
          exact cons_mem_kstar hGroup (ih hRest h.2.2.2)

/-- Digits with commas between them are groups, the first of which has up to three digits. -/
theorem withCommas_mem_grouped {digits : List Char} (hSome : digits ≠ [])
    (h : ∀ c ∈ digits, isDecimalDigit c = true) : withCommas digits ∈ grouped := by
  have hGroups (first : List Char) {rest : List Char} (hFirst : first ≠ [] ∧ first.length ≤ 3)
      (hAll : ∀ c ∈ first ++ rest, isDecimalDigit c = true) (hRest : rest.length % 3 = 0) :
      first ++ (commaBefore rest ++ withCommas rest) ∈ grouped := by
    rw [List.forall_mem_append] at hAll
    exact Language.append_mem_mul (mem_first.2 ⟨hFirst.1, hFirst.2, List.all_eq_true.2 hAll.1⟩)
      (withCommas_mem_groups (Nat.mul_div_cancel' (Nat.dvd_of_mod_eq_zero hRest)).symm hAll.2)
  have hNone {rest : List Char} (hRest : rest.length % 3 ≠ 0) : commaBefore rest = [] :=
    if_neg fun hBoth => hRest hBoth.2
  obtain ⟨c, rest, rfl⟩ := List.exists_cons_of_ne_nil hSome
  rw [withCommas]
  by_cases hOne : rest.length % 3 = 0
  · exact hGroups [c] ⟨List.cons_ne_nil _ _, by simp⟩ h hOne
  · rw [hNone hOne]
    match rest, hOne with
    | d :: others, hOne =>
        rw [List.length_cons] at hOne
        rw [withCommas]
        by_cases hTwo : others.length % 3 = 0
        · exact hGroups [c, d] ⟨List.cons_ne_nil _ _, by simp⟩ h hTwo
        · rw [hNone hTwo]
          match others, hTwo with
          | e :: more, hTwo =>
              simp only [List.length_cons] at hOne hTwo
              exact hGroups [c, d, e] ⟨List.cons_ne_nil _ _, by simp⟩ h (by omega)

/-! ## Scanning -/

/-- Nothing, a blank or the end of a line is what comes next. -/
def Closes (rest : List Char) : Prop := ∀ c ∈ rest.head?, isBlank c = true ∨ isLineChar c = false

/-- What stands directly behind a number that is closed does not go on with it. -/
theorem Closes.stops {c : Char} {rest : List Char} (h : Closes (c :: rest)) :
    isDecimalDigit c = false ∧ c ∉ [',', '.', '-', '/'] := by
  have hClass : isBlank c = true ∨ isLineChar c = false := h c rfl
  have hOne : c = ' ' ∨ c = '\t' ∨ c = '\n' ∨ c = '\r' := by
    rcases hClass with hBlank | hLine
    · exact (Token.isBlank_iff.1 hBlank).imp_right .inl
    · exact .inr (.inr (eq_of_lineBreak hLine))
  rcases hOne with rfl | rfl | rfl | rfl
  all_goals decide

section

variable {w fraction rest : List Char} {c : Char}

theorem fraction_pointed (hFraction : ∀ c ∈ fraction, isDecimalDigit c = true)
    (hRest : Closes (c :: rest)) :
    Lexeme.fraction (Decimal.pointed fraction ++ c :: rest) =
      (Decimal.pointed fraction).length := by
  obtain ⟨hStop, hOther⟩ := hRest.stops
  rw [Decimal.pointed]
  by_cases hNone : fraction = []
  · rw [if_pos hNone, List.nil_append, List.length_nil]
    unfold Lexeme.fraction
    split
    · next hText =>
        cases hText
        exact absurd (by simp) hOther
    · rfl
  · rw [if_neg hNone, List.cons_append,
      fraction_of_digits hNone (List.all_eq_true.2 hFraction) hStop, List.length_cons,
      Nat.add_comm]

/-- Behind the whole digits stands a character that ends them. -/
theorem exists_cons_pointed (fraction : List Char) (hRest : Closes (c :: rest)) :
    ∃ d more, Decimal.pointed fraction ++ c :: rest = d :: more ∧ isDecimalDigit d = false ∧
      d ≠ ',' ∧ d ≠ '-' ∧ d ≠ '/' := by
  obtain ⟨hStop, hOther⟩ := hRest.stops
  simp only [List.mem_cons, List.not_mem_nil, or_false, not_or] at hOther
  rw [Decimal.pointed]
  split
  · exact ⟨c, rest, rfl, hStop, hOther.1, hOther.2.2.1, hOther.2.2.2⟩
  · exact ⟨'.', _, rfl, by decide, by decide, by decide, by decide⟩

/-- The longest number is the whole digits and all those behind the point. -/
theorem unsigned?_pointed (hw : w ∈ grouped + several digit)
    (hFraction : ∀ c ∈ fraction, isDecimalDigit c = true) (hRest : Closes (c :: rest)) :
    unsigned? (w ++ (Decimal.pointed fraction ++ c :: rest)) =
      some (w ++ Decimal.pointed fraction).length := by
  obtain ⟨d, more, hMore, hStop, hComma, -⟩ := exists_cons_pointed fraction hRest
  have hWhole : whole (w ++ (Decimal.pointed fraction ++ c :: rest)) = w.length :=
    (whole_append hw _).2 d more hMore hStop hComma
  have hDigits : (w ++ (Decimal.pointed fraction ++ c :: rest)).takeWhile isDecimalDigit ≠ [] := by
    obtain ⟨first, tail, rfl, hFirst⟩ := exists_digit hw
    rw [List.cons_append, List.takeWhile_cons_of_pos hFirst]
    exact List.cons_ne_nil _ _
  have hLength := List.length_pos_iff.2 hDigits
  rw [unsigned?_eq, if_neg (by omega), hWhole, List.drop_left, fraction_pointed hFraction hRest,
    hMore, List.length_append]
  simp only [List.head?_cons, Option.some.injEq, hComma, and_false, if_false]
  split
  · rfl
  · next hNone =>
      rw [ne_eq, Decidable.not_not] at hNone
      rw [hNone, Nat.add_zero]

/-- Digits of a number in front of what closes it are not those of a date. -/
theorem date?_pointed (fraction : List Char) (hw : w ∈ grouped + several digit)
    (hRest : Closes (c :: rest)) :
    date? (w ++ (Decimal.pointed fraction ++ c :: rest)) = none := by
  obtain ⟨d, more, hMore, hStop, -, hDash, hSlash⟩ := exists_cons_pointed fraction hRest
  rw [hMore]
  rcases hw with hGrouped | hRun
  · obtain ⟨first, hFirst, others, hGroups, rfl⟩ := Language.mem_mul.1 hGrouped
    obtain ⟨-, -, hAll⟩ := mem_first.1 hFirst
    obtain ⟨texts, rfl, hTexts⟩ := Language.mem_kstar.1 hGroups
    rw [List.append_assoc]
    -- The first run of digits ends at a comma, or at the end of all of them.
    cases texts with
    | nil => exact date?_of_digits hAll hStop hDash hSlash
    | cons t texts =>
        obtain ⟨_, rfl, group, -, rfl⟩ := Language.mem_mul.1 (hTexts t List.mem_cons_self)
        exact date?_of_digits hAll (c := ',') (by decide) (by decide) (by decide)
  · exact date?_of_digits (mem_digits.1 hRun).2 hStop hDash hSlash

/-- The text of a number, in front of what closes it. -/
theorem scan_pointed (negative : Bool) (hw : w ∈ grouped + several digit)
    (hFraction : ∀ c ∈ fraction, isDecimalDigit c = true) (hRest : Closes rest) :
    scan ((if negative then ['-'] else []) ++ (w ++ Decimal.pointed fraction) ++ rest) =
      (.number, ((if negative then ['-'] else []) ++ (w ++ Decimal.pointed fraction)).length) := by
  have hClosed {c : Char} {more : List Char} (hRest : Closes (c :: more)) :
      scan ((if negative then ['-'] else []) ++ (w ++ Decimal.pointed fraction) ++ c :: more) =
        (.number,
          ((if negative then ['-'] else []) ++ (w ++ Decimal.pointed fraction)).length) := by
    have hUnsigned := unsigned?_pointed hw hFraction hRest
    have hDate := date?_pointed fraction hw hRest
    obtain ⟨first, tail, hFirst, hDigit⟩ := exists_digit hw
    have hMinus : first ≠ '-' := ne_of_class hDigit (by decide)
    unfold scan
    cases negative with
    | true =>
        simp only [if_true, List.cons_append, List.nil_append, List.append_assoc]
        rw [date?_of_head (by decide), number?, hUnsigned]
        rfl
    | false =>
        have hNumber : number? (w ++ (Decimal.pointed fraction ++ c :: more)) =
            unsigned? (w ++ (Decimal.pointed fraction ++ c :: more)) := by
          rw [hFirst]
          unfold number?
          split
          · next hText =>
              cases hText
              exact absurd rfl hMinus
          · rfl
        simp only [Bool.false_eq_true, if_false, List.nil_append, List.append_assoc]
        rw [hDate, hNumber, hUnsigned]
  cases rest with
  | cons c more => exact hClosed hRest
  | nil =>
      -- The end of the text is like a blank.
      have hCloses : Closes [' '] := by
        rintro _ ⟨⟩
        exact .inl rfl
      have hBlank := hClosed hCloses
      rw [List.append_nil, ← hBlank]
      refine scan_of_append ?_ ?_
      · rw [hBlank]
        exact Shape.noConfusion
      · rw [hBlank]

/-- A text of the pattern is all that is read, in front of what closes it. -/
theorem scan_of_closes (h : w ∈ Pattern.number.language) (hRest : Closes rest) :
    scan (w ++ rest) = (.number, w.length) := by
  obtain ⟨_, ⟨sign, hSign, digits, hDigits, rfl⟩, others, hOthers, rfl⟩ := h
  obtain ⟨fraction, rfl, hFraction⟩ := Numeral.exists_pointed hOthers
  have hSigned : sign = if decide (sign = ['-']) then ['-'] else [] := by
    rcases mem_maybe.1 hSign with rfl | rfl
    · rfl
    · rfl
  have hScan := scan_pointed (decide (sign = ['-'])) hDigits hFraction hRest
  rw [← hSigned, ← List.append_assoc sign digits] at hScan
  exact hScan

end

/-- What is taken where a number is the longest match is what is scanned. -/
theorem Pattern.scan_of_isTaken {text body rest : List Char} (hMem : text ∈ Pattern.number.language)
    (h : IsTaken (body ++ rest) text body) : scan (body ++ rest) = (.number, body.length) := by
  have hInput : body ++ rest ≠ [] := by
    intro hNone
    have hPrefix := h.isPrefix
    rw [hNone, List.prefix_nil] at hPrefix
    exact ne_nil_of_mem hMem hPrefix
  have hKnown : (scan (body ++ rest)).1 ≠ .unknown := fun hUnknown =>
    not_isMatch_of_scan hUnknown text h.isPrefix h.isMatch
  obtain ⟨p, longest, hShape, hLongest, hTaken⟩ := exists_isTaken hInput hKnown
  have hSame : longest = text := by
    have hLe := h.le longest hTaken.isPrefix hTaken.isMatch
    have hGe := hTaken.le text h.isPrefix h.isMatch
    exact (List.prefix_of_prefix_length_le hTaken.isPrefix h.isPrefix hLe).eq_of_length
      (Nat.le_antisymm hLe hGe)
  subst hSame
  obtain rfl := eq_of_mem hMem hLongest
  -- Whether a comma is taken along depends on the input alone.
  have hBody : (body ++ rest).take (scan (body ++ rest)).2 = body := by
    rcases h.taken with ⟨hText, hNone⟩ | ⟨hText, hGrouped, hPrefix⟩
    · rcases hTaken.taken with ⟨hSame, -⟩ | ⟨hComma, hGrouped, hPrefix⟩
      · rw [hSame, hText]
      · exact absurd ⟨hGrouped, hComma ▸ hPrefix⟩ hNone
    · rcases hTaken.taken with ⟨-, hNone⟩ | ⟨hComma, -, -⟩
      · exact absurd ⟨hGrouped, hText ▸ hPrefix⟩ hNone
      · rw [hComma, hText]
  have hLength : (scan (body ++ rest)).2 = body.length := by
    have hTake := congrArg List.length hBody
    rw [List.length_take, Nat.min_eq_left (scan_bounds hInput).2] at hTake
    exact hTake
  rw [← hLength]
  exact Prod.ext hShape.symm rfl

/-- A text of the pattern in front of what closes it is the longest, and no comma is taken along. -/
theorem isTaken_of_closes {text rest : List Char} (hMem : text ∈ Pattern.number.language)
    (hRest : Closes rest) : IsTaken (text ++ rest) text text := by
  obtain ⟨p, longest, hShape, hLongest, hTaken⟩ :=
    exists_isTaken_of_scan (ne_nil_of_mem hMem) (scan_of_closes hMem hRest) Shape.noConfusion
  have hGe := hTaken.le text (List.prefix_append _ _) ⟨_, hMem⟩
  rcases hTaken.taken with ⟨rfl, -⟩ | ⟨hComma, -⟩
  · exact hTaken
  · have hLength := congrArg List.length hComma
    rw [List.length_append, List.length_singleton] at hLength
    omega

/-! ## Written decimals -/

namespace Decimal

variable (d : Decimal)

theorem decimal_parts : (∀ c ∈ d.wholeDigits, isDecimalDigit c = true) ∧
    ∀ c ∈ d.fractionDigits, isDecimalDigit c = true :=
  ⟨fun _ hc => isDecimalDigit_of_isDigit (isDigit_of_mem_wholeDigits hc),
    fun _ hc => isDecimalDigit_of_isDigit (isDigit_of_mem_fractionDigits hc)⟩

/-- The digits of a decimal, behind a sign or not. -/
def numeral (negative : Bool) : Numeral where
  negative := negative
  whole := d.wholeDigits
  fraction := d.fractionDigits
  whole_ne_nil := d.wholeDigits_ne_nil
  decimal := List.forall_mem_append.2 d.decimal_parts

/-- What is written of a decimal behind a sign or not, and with commas between groups of three
whole digits or without. -/
def spelled (negative commas : Bool) : List Char :=
  (if negative then ['-'] else []) ++
    ((if commas then withCommas d.wholeDigits else d.wholeDigits) ++ pointed d.fractionDigits)

theorem pointed_fractionDigits : pointed d.fractionDigits = d.fractionText := by
  have hLength := d.length_fractionDigits
  rw [pointed, fractionText]
  by_cases hNone : d.fractionDigits = []
  · rw [hNone, List.length_nil] at hLength
    rw [if_pos hNone, if_pos hLength.symm]
  · have hScale : d.scale ≠ 0 := by
      intro hZero
      rw [hZero] at hLength
      exact hNone (List.eq_nil_of_length_eq_zero hLength)
    rw [if_neg hNone, if_neg hScale]

/-- With its own sign and without commas, a decimal is written as ever. -/
theorem spelled_eq_toText : d.spelled d.negative false = d.toText.toList := by
  rw [spelled, toList_toText, pointed_fractionDigits]
  rfl

theorem filter_spelled (negative commas : Bool) :
    (d.spelled negative commas).filter (· != ',') = (d.numeral negative).chars := by
  obtain ⟨hWhole, hFraction⟩ := d.decimal_parts
  have hNoComma : ∀ c ∈ d.wholeDigits, c ≠ ',' := fun c hc => ne_of_class (hWhole c hc) (by decide)
  have hSign : (if negative then ['-'] else []).filter (· != ',') =
      if negative then ['-'] else [] := by cases negative <;> rfl
  rw [spelled, List.filter_append, List.filter_append, Numeral.filter_pointed hFraction, hSign]
  cases commas with
  | true =>
      simp only [if_true]
      rw [filter_withCommas hNoComma]
      rfl
  | false =>
      simp only [Bool.false_eq_true, if_false]
      rw [Numeral.filter_of_decimal hWhole]
      rfl

/-- What is written of a decimal is a text of the pattern. -/
theorem spelled_mem (negative commas : Bool) :
    d.spelled negative commas ∈ Pattern.number.language := by
  obtain ⟨hWhole, hFraction⟩ := d.decimal_parts
  have hDigits : (if commas then withCommas d.wholeDigits else d.wholeDigits) ∈
      grouped + several digit := by
    cases commas with
    | true => exact .inl (withCommas_mem_grouped d.wholeDigits_ne_nil hWhole)
    | false => exact .inr (mem_digits.2 ⟨d.wholeDigits_ne_nil, List.all_eq_true.2 hWhole⟩)
  have hSign : (if negative then ['-'] else []) ∈ maybe (word "-") := by
    cases negative with
    | true => exact mem_maybe.2 (.inr rfl)
    | false => exact mem_maybe.2 (.inl rfl)
  have hBehind : pointed d.fractionDigits ∈ maybe (word "." * several digit) := by
    rw [pointed]
    split
    · exact mem_maybe.2 (.inl rfl)
    · next hSome =>
        exact mem_maybe.2 (.inr (Language.append_mem_mul (a := ['.']) rfl
          (mem_digits.2 ⟨hSome, List.all_eq_true.2 hFraction⟩)))
  rw [spelled, ← List.append_assoc]
  exact Language.append_mem_mul (Language.append_mem_mul hSign hDigits) hBehind

/-- A decimal is read from what was written of it. -/
theorem number?_spelled {negative : Bool} (commas : Bool)
    (hSign : (negative && d.mantissa != 0) = d.negative) :
    Token.number? (d.spelled negative commas) = some d := by
  have hText : (d.numeral negative).whole ++ pointed (d.numeral negative).fraction =
      d.wholeDigits ++ d.fractionText := by
    rw [← pointed_fractionDigits]
    rfl
  rw [Token.number?, filter_spelled, Numeral.ofText?_chars, hText, readUnsigned, readDigits_toText]
  show ofParts? negative d.mantissa d.scale = some d
  rw [ofParts?, dif_pos ⟨d.mantissa_le, d.scale_le⟩]
  simp only [hSign]

end Decimal

/-! ## Tokens -/

namespace Token

/-- Behind the blanks, the characters `body` are one token, wherever the text stands, and what comes
behind them is read from its end on. -/
def IsOneToken (before : Bool) (blanks body rest : List Char) (kind : TokenKind)
    (value : TokenValue) : Prop :=
  ∀ place : Place, tokensFrom before place (blanks ++ body ++ rest) =
    indent before .number blanks ⟨place, place.advance blanks⟩ ++
      ⟨kind, value, ⟨place.advance blanks, (place.advance blanks).line,
        (place.advance blanks).column + body.length⟩⟩ ::
        tokensFrom false ⟨(place.advance blanks).line, (place.advance blanks).column + body.length⟩
          rest

section

variable {before : Bool} {blanks text body rest : List Char}

/-- What is read as a number becomes a token of the number, or an error if there is none. -/
theorem isOneToken_of_isTaken (hBlanks : blanks.all isBlank = true)
    (hMem : text ∈ Pattern.number.language) (hTaken : IsTaken (body ++ rest) text body) :
    (∀ d, number? text = some d → IsOneToken before blanks body rest .number (.number d)) ∧
      (number? text = none →
        IsOneToken before blanks body rest .error (.text (String.ofList body))) := by
  have hInline : ∀ c ∈ body, isLineChar c = true := by
    have hText : ∀ c ∈ text, isLineChar c = true := by
      intro c hc
      by_contra hBreak
      rw [Bool.not_eq_true] at hBreak
      exact avoids_lineBreak Pattern.noConfusion Pattern.noConfusion hBreak text hMem hc
    rcases hTaken.taken with ⟨rfl, -⟩ | ⟨rfl, -⟩
    · exact hText
    · exact List.forall_mem_append.2 ⟨hText, List.forall_mem_singleton.2 rfl⟩
  have hSome : body ≠ [] := by
    rcases hTaken.taken with ⟨rfl, -⟩ | ⟨rfl, -⟩
    · exact ne_nil_of_mem hMem
    · simp
  have hNumber : number? body = number? text := by
    rcases hTaken.taken with ⟨rfl, -⟩ | ⟨rfl, -⟩
    · rfl
    · exact number?_append_comma text
  have hTokens (place : Place) : tokensFrom before place (blanks ++ body ++ rest) = _ :=
    tokensFrom_lexeme hBlanks hSome (Pattern.scan_of_isTaken hMem hTaken) (by decide)
      fun _ => Shape.noConfusion
  rw [← hNumber]
  constructor
  · intro d hRead place
    rw [hTokens, Place.advance_of_line hInline, ofLexeme, hRead]
  · intro hNone place
    rw [hTokens, Place.advance_of_line hInline, ofLexeme, hNone]

/-- Only lexemes that are numbers become tokens of that kind. -/
theorem shape_of_number {shape : Shape} {lexeme : List Char} {span : Span}
    (h : (ofLexeme shape lexeme span).kind = .number) : shape = .number := by
  cases shape with
  | number => rfl
  | _ => cases h

theorem exists_denotes {source : String} {token : Token} (h : token ∈ tokens source)
    (hKind : token.kind = .number) : ∃ (t : Numeral) (d : Decimal),
      (token.span.chars source.toList).filter (· != ',') = t.chars ∧ token.value = .number d ∧
        t.IsAscii ∧ t.Fits ∧ t.Denotes d := by
  obtain ⟨front, lexeme, rest, shape, -, hSome, hScan, rfl, hChars⟩ :=
    exists_lexeme_of_mem h (by rw [hKind]; decide)
  obtain rfl := shape_of_number hKind
  obtain ⟨p, text, hShape, hMem, hTaken⟩ := exists_isTaken_of_scan hSome hScan Shape.noConfusion
  have hPattern : p = .number := by
    cases p <;> first
      | rfl
      | cases hShape
  subst hPattern
  obtain ⟨t, hText⟩ := Numeral.exists_of_mem hMem
  have hFilter : lexeme.filter (· != ',') = t.chars := by
    rw [← hText]
    rcases hTaken.taken with ⟨rfl, -⟩ | ⟨rfl, -⟩
    · rfl
    · rw [List.filter_append]
      exact List.append_nil _
  rw [hChars, hFilter]
  rcases t.reads_or_refused with ⟨hAscii, hFits, d, hRead, hDenotes⟩ | ⟨-, hNone⟩
  · refine ⟨t, d, rfl, ?_, hAscii, hFits, hDenotes⟩
    rw [ofLexeme, number?, hFilter, hRead]
  · rw [ofLexeme, number?, hFilter, hNone] at hKind
    cases hKind

/-- How numbers are decoded. -/
structure DecodesNumbers : Prop where
  /-- Every decimal is read from its text, with commas between groups of three whole digits or
  without, where that is closed. Behind a sign, zero is read as well. -/
  written : ∀ (d : Decimal) (negative commas before : Bool) (blanks rest : List Char),
    (negative && d.mantissa != 0) = d.negative → blanks.all isBlank = true → Closes rest →
      IsOneToken before blanks (d.spelled negative commas) rest .number (.number d)
  /-- That text, without commas, is the one that is written of it. -/
  plain : ∀ d : Decimal, d.spelled d.negative false = d.toText.toList
  /-- A number of a text denotes what stands there. -/
  denotes : ∀ (source : String) (token : Token), token ∈ tokens source → token.kind = .number →
    ∃ (t : Numeral) (d : Decimal), (token.span.chars source.toList).filter (· != ',') = t.chars ∧
      token.value = .number d ∧ t.IsAscii ∧ t.Fits ∧ t.Denotes d
  /-- Where a number is taken, it becomes a token with the decimal that it denotes. If there is none,
  it becomes an error, and all of it. -/
  taken : ∀ (before : Bool) (blanks text body rest : List Char), blanks.all isBlank = true →
    text ∈ Pattern.number.language → IsTaken (body ++ rest) text body →
      ∃ t : Numeral, text.filter (· != ',') = t.chars ∧
        (t.IsAscii → t.Fits → ∃ d, t.Denotes d ∧
          IsOneToken before blanks body rest .number (.number d)) ∧
        (¬ (t.IsAscii ∧ t.Fits) →
          IsOneToken before blanks body rest .error (.text (String.ofList body)))
  /-- A number is taken as it is where it is closed. -/
  closed : ∀ text rest : List Char, text ∈ Pattern.number.language → Closes rest →
    IsTaken (text ++ rest) text text

/-- Numbers are decoded exactly, or become errors. -/
theorem numbers_decode : DecodesNumbers where
  written := by
    intro d negative commas before blanks rest hSign hBlanks hRest
    have hMem := d.spelled_mem negative commas
    exact (isOneToken_of_isTaken hBlanks hMem (isTaken_of_closes hMem hRest)).1 d
      (d.number?_spelled commas hSign)
  plain := Decimal.spelled_eq_toText
  denotes := fun source token h hKind => exists_denotes h hKind
  taken := by
    intro before blanks text body rest hBlanks hMem hTaken
    obtain ⟨t, hText⟩ := Numeral.exists_of_mem hMem
    obtain ⟨hNumber, hError⟩ := isOneToken_of_isTaken hBlanks hMem hTaken
    refine ⟨t, hText, ?_⟩
    rcases t.reads_or_refused with ⟨hAscii, hFits, d, hRead, hDenotes⟩ | ⟨hNot, hNone⟩
    · refine ⟨fun _ _ => ⟨d, hDenotes, hNumber d ?_⟩, fun hNot => absurd ⟨hAscii, hFits⟩ hNot⟩
      rw [number?, hText, hRead]
    · refine ⟨fun hAscii hFits => absurd ⟨hAscii, hFits⟩ hNot, fun _ => hError ?_⟩
      rw [number?, hText, hNone]
  closed := fun _ _ => isTaken_of_closes

/-- A negative number in groups in front of a line end, and a zero with a sign at the end of the
text. -/
theorem numbers_decode_signed :
    IsOneToken true [' '] "-1,234.50".toList ['\r', '\n'] .number
        (.number ⟨true, 123450, 2, by decide, by decide, by decide⟩) ∧
      IsOneToken false [] "-0.00".toList [] .number
        (.number ⟨false, 0, 2, by decide, by decide, by decide⟩) := by
  have hMany : Decimal.spelled ⟨true, 123450, 2, by decide, by decide, by decide⟩ true true =
      "-1,234.50".toList := by decide +kernel
  have hZero : Decimal.spelled ⟨false, 0, 2, by decide, by decide, by decide⟩ true false =
      "-0.00".toList := by decide +kernel
  rw [← hMany, ← hZero]
  constructor
  · refine numbers_decode.written _ true true true _ _ rfl rfl ?_
    rintro _ ⟨⟩
    exact .inr rfl
  · refine numbers_decode.written _ true false false _ _ rfl rfl ?_
    rintro _ ⟨⟩

end

end Token

end LedgerText
