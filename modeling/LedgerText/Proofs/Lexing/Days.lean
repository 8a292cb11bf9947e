import LedgerText.Builder
import LedgerText.Proofs.Lexing.Lossless

/-!
# Days

What becomes of the text of a date (`days_decode`). A lexeme of this class has
eight decimal digits, of any script, and a dash or a slash at the two places
between (`DayText`). It names a day if the digits are ASCII and the calendar has
that day, and written out the day is the same text with dashes. Every day whose
year has four digits is named in this way, with any choice of separators and in
front of any other text.

Eight digits and two separators are longer than any number, so no number is read
in their place.
-/

namespace LedgerText

open Lexeme

/-! ## The text of a date -/

/-- The characters of a date. -/
structure DayText where
  year : List Char
  first : Char
  month : List Char
  second : Char
  day : List Char
  widths : year.length = 4 ∧ month.length = 2 ∧ day.length = 2
  decimal : ∀ c ∈ year ++ month ++ day, isDecimalDigit c = true
  separators : (first = '-' ∨ first = '/') ∧ (second = '-' ∨ second = '/')

namespace DayText

variable (t : DayText)

/-- The ten characters as they stand in a text. -/
def chars : List Char := t.year ++ t.first :: (t.month ++ t.second :: t.day)

/-- All eight digits are ASCII. -/
def IsAscii : Prop := ∀ c ∈ t.year ++ t.month ++ t.day, c.isDigit = true

/-- There is such a day in the calendar. -/
def Exists : Prop :=
  Date.Exists (Nat.ofDigitChars 10 t.year 0 : Nat) (Nat.ofDigitChars 10 t.month 0)
    (Nat.ofDigitChars 10 t.day 0)

instance : Decidable t.IsAscii := by
  unfold IsAscii
  exact List.decidableBAll (fun c : Char => c.isDigit = true) _

instance : Decidable t.Exists := by
  unfold Exists
  infer_instance

/-- That day. -/
def date (h : t.Exists) : Date :=
  ⟨(Nat.ofDigitChars 10 t.year 0 : Nat), Nat.ofDigitChars 10 t.month 0,
    Nat.ofDigitChars 10 t.day 0, h⟩

variable {t}

theorem length_chars : t.chars.length = 10 := by
  obtain ⟨hYear, hMonth, hDay⟩ := t.widths
  simp only [chars, List.length_append, List.length_cons]
  omega

theorem decimal_parts : (∀ c ∈ t.year, isDecimalDigit c = true) ∧
    (∀ c ∈ t.month, isDecimalDigit c = true) ∧ ∀ c ∈ t.day, isDecimalDigit c = true := by
  have hAll := t.decimal
  simp only [List.forall_mem_append] at hAll
  exact ⟨hAll.1.1, hAll.1.2, hAll.2⟩

theorem ascii_parts : t.IsAscii ↔ (∀ c ∈ t.year, c.isDigit = true) ∧
    (∀ c ∈ t.month, c.isDigit = true) ∧ ∀ c ∈ t.day, c.isDigit = true := by
  simp only [IsAscii, List.forall_mem_append, and_assoc]

/-! ## Scanning -/

theorem date?_chars (t : DayText) (rest : List Char) : date? (t.chars ++ rest) = some 10 := by
  obtain ⟨year, first, month, second, day, ⟨hYear, hMonth, hDay⟩, hDecimal, hFirst, hSecond⟩ := t
  match year, month, day, hYear, hMonth, hDay with
  | [y₁, y₂, y₃, y₄], [m₁, m₂], [d₁, d₂], _, _, _ =>
      have hDigits : [y₁, y₂, y₃, y₄, m₁, m₂, d₁, d₂].all isDecimalDigit = true :=
        List.all_eq_true.2 hDecimal
      have hSeparators : [first, second].all (fun c => c = '-' ∨ c = '/') = true := by
        simp [hFirst, hSecond]
      exact if_pos ⟨hDigits, hSeparators⟩

/-- The text of a date is read as one, whatever is behind it. -/
theorem scan_chars (t : DayText) (rest : List Char) :
    scan (t.chars ++ rest) = (.date, t.chars.length) := by
  unfold scan
  rw [date?_chars, length_chars]

/-- What is read as a date is the text of one. -/
theorem exists_of_date? {text : List Char} {n : Nat} (h : date? text = some n) :
    ∃ t : DayText, text.take n = t.chars := by
  unfold date? at h
  split at h
  · next y₁ y₂ y₃ y₄ s₁ m₁ m₂ s₂ d₁ d₂ rest =>
      split at h
      · next hChars =>
          cases h
          have hSeparators := hChars.2
          simp only [List.all_cons, List.all_nil, Bool.and_true, Bool.and_eq_true,
            decide_eq_true_eq] at hSeparators
          exact ⟨⟨[y₁, y₂, y₃, y₄], s₁, [m₁, m₂], s₂, [d₁, d₂], ⟨rfl, rfl, rfl⟩,
            List.all_eq_true.1 hChars.1, hSeparators⟩, rfl⟩
      · cases h
  · cases h

theorem isSeparator_of_separator {s : Char} (h : s = '-' ∨ s = '/') :
    Date.isSeparator s = true := by
  rcases h with rfl | rfl
  · rfl
  · rfl

/-! ## Reading -/

end DayText

/-- Digits of any script denote a number if they are ASCII. -/
theorem Digits.signedNumber?_of_decimal {digits : List Char} (hSome : digits ≠ [])
    (h : ∀ c ∈ digits, isDecimalDigit c = true) :
    signedNumber? digits =
      if digits.all Char.isDigit then some (Nat.ofDigitChars 10 digits 0) else none := by
  have hNumber : number? digits =
      if digits.all Char.isDigit then some (Nat.ofDigitChars 10 digits 0) else none := by
    simp only [number?, hSome, ne_eq, not_false_eq_true, true_and]
    rfl
  unfold signedNumber?
  split
  · exact absurd (h '+' List.mem_cons_self) (by decide)
  · exact hNumber

namespace DayText

variable {t : DayText}

/-- The separators cut the text into year, month and day. -/
theorem fields_chars : Date.fields t.chars = [t.year, t.month, t.day] := by
  have hPlain {digits : List Char} (h : ∀ c ∈ digits, isDecimalDigit c = true) :
      ∀ c ∈ digits, Date.isSeparator c = false := by
    intro c hc
    have hDash : c ≠ '-' := ne_of_class (h c hc) (by decide)
    have hSlash : c ≠ '/' := ne_of_class (h c hc) (by decide)
    rw [Date.isSeparator, beq_eq_false_iff_ne.2 hDash, beq_eq_false_iff_ne.2 hSlash, Bool.or_false]
  obtain ⟨hYear, hMonth, hDay⟩ := t.decimal_parts
  rw [chars,
    Date.fields_append_separator (hPlain hYear) (isSeparator_of_separator t.separators.1),
    Date.fields_append_separator (hPlain hMonth) (isSeparator_of_separator t.separators.2),
    Date.fields_of_plain (hPlain hDay)]

/-- The three numbers are read if they are ASCII, and then the calendar decides. -/
theorem ofText?_chars (t : DayText) : Date.ofText? (String.ofList t.chars) =
    if t.IsAscii then if h : t.Exists then some (t.date h) else none else none := by
  obtain ⟨hYear, hMonth, hDay⟩ := t.decimal_parts
  have hSome {digits : List Char} {n : Nat} (h : digits.length = n + 1) : digits ≠ [] :=
    List.ne_nil_of_length_eq_add_one h
  rw [Date.ofText?, String.toList_ofList, fields_chars]
  simp only [Digits.signedNumber?_of_decimal (hSome t.widths.1) hYear,
    Digits.signedNumber?_of_decimal (hSome t.widths.2.1) hMonth,
    Digits.signedNumber?_of_decimal (hSome t.widths.2.2) hDay, List.all_eq_true]
  -- Any of the three that is not ASCII refuses the whole text.
  by_cases hAscii : t.IsAscii
  · obtain ⟨hY, hM, hD⟩ := ascii_parts.1 hAscii
    rw [if_pos hAscii, if_pos hY, if_pos hM, if_pos hD]
    rfl
  · rw [if_neg hAscii]
    rw [ascii_parts] at hAscii
    by_cases hY : ∀ c ∈ t.year, c.isDigit = true
    · by_cases hM : ∀ c ∈ t.month, c.isDigit = true
      · have hD : ¬ ∀ c ∈ t.day, c.isDigit = true := fun hD => hAscii ⟨hY, hM, hD⟩
        rw [if_pos hY, if_pos hM, if_neg hD]
        rfl
      · rw [if_pos hY, if_neg hM]
        rfl
    · rw [if_neg hY]
      rfl

/-- A text that names a day is read as that day. -/
theorem parse_of_exists (hAscii : t.IsAscii) (hExists : t.Exists) :
    Date.parse (String.ofList t.chars) = .ok (t.date hExists) := by
  unfold Date.parse
  rw [ofText?_chars, if_pos hAscii, dif_pos hExists]

/-- A text that names none is refused as it is. -/
theorem parse_of_not (h : ¬ (t.IsAscii ∧ t.Exists)) :
    Date.parse (String.ofList t.chars) = .error (.invalidDate (String.ofList t.chars)) := by
  unfold Date.parse
  rw [ofText?_chars]
  by_cases hAscii : t.IsAscii
  · rw [if_pos hAscii, dif_neg fun hExists => h ⟨hAscii, hExists⟩]
  · rw [if_neg hAscii]

theorem parse_eq_ok {d : Date} : Date.parse (String.ofList t.chars) = .ok d ↔
    t.IsAscii ∧ ∃ hExists : t.Exists, t.date hExists = d := by
  constructor
  · intro h
    by_cases hBoth : t.IsAscii ∧ t.Exists
    · rw [parse_of_exists hBoth.1 hBoth.2] at h
      cases h
      exact ⟨hBoth.1, hBoth.2, rfl⟩
    · rw [parse_of_not hBoth] at h
      cases h
  · rintro ⟨hAscii, hExists, rfl⟩
    exact parse_of_exists hAscii hExists

/-! ## Writing -/

/-- The text with dashes in the place of slashes. -/
def iso (t : DayText) : List Char := t.chars.map fun c => if c = '/' then '-' else c

theorem iso_eq (t : DayText) : t.iso = t.year ++ '-' :: (t.month ++ '-' :: t.day) := by
  obtain ⟨hYear, hMonth, hDay⟩ := t.decimal_parts
  have hDigits {digits : List Char} (h : ∀ c ∈ digits, isDecimalDigit c = true) :
      (digits.map fun c => if c = '/' then '-' else c) = digits := by
    refine (List.map_congr_left fun c hc => ?_).trans (List.map_id digits)
    have hSlash : c ≠ '/' := ne_of_class (h c hc) (by decide)
    exact if_neg hSlash
  have hSeparator {s : Char} (h : s = '-' ∨ s = '/') : (if s = '/' then '-' else s) = '-' := by
    rcases h with rfl | rfl
    · rfl
    · rfl
  rw [iso, chars, List.map_append, List.map_cons, List.map_append, List.map_cons, hDigits hYear,
    hDigits hMonth, hDigits hDay, hSeparator t.separators.1, hSeparator t.separators.2]

/-- The year is written with four digits and no sign. -/
theorem hasPlainYear_date (hAscii : t.IsAscii) (hExists : t.Exists) :
    (t.date hExists).HasPlainYear := by
  have hLess := Digits.ofDigitChars_lt (ascii_parts.1 hAscii).1
  rw [t.widths.1] at hLess
  refine ⟨Int.natCast_nonneg _, ?_⟩
  show ((Nat.ofDigitChars 10 t.year 0 : Nat) : Int) ≤ 9999
  omega

/-- The day that a text names is written as the text is, with dashes. -/
theorem toText_date (hAscii : t.IsAscii) (hExists : t.Exists) :
    (t.date hExists).toText = String.ofList t.iso := by
  obtain ⟨hYear, hMonth, hDay⟩ := ascii_parts.1 hAscii
  have hPadded {digits : List Char} {n : Nat} (hLength : digits.length = n + 1)
      (h : ∀ c ∈ digits, c.isDigit = true) :
      Digits.padded (n + 1) (Nat.ofDigitChars 10 digits 0) = digits := by
    rw [← hLength]
    exact Digits.padded_ofDigitChars (List.ne_nil_of_length_eq_add_one hLength) h
  rw [← String.toList_inj, String.toList_ofList,
    Date.toList_toText (hasPlainYear_date hAscii hExists), iso_eq]
  simp only [date, Int.natAbs_natCast]
  rw [hPadded t.widths.1 hYear, hPadded t.widths.2.1 hMonth, hPadded t.widths.2.2 hDay]

end DayText

/-! ## Written days -/

namespace Date

variable {d : Date} {first second : Char}

/-- A day with a choice of separators. -/
def written (d : Date) (first second : Char) : List Char :=
  Digits.padded 4 d.year.natAbs ++
    first :: (Digits.padded 2 d.month ++ second :: Digits.padded 2 d.day)

/-- A written day is the text of a date. -/
def dayText (d : Date) (hYear : d.HasPlainYear) (hFirst : first = '-' ∨ first = '/')
    (hSecond : second = '-' ∨ second = '/') : DayText where
  year := Digits.padded 4 d.year.natAbs
  first := first
  month := Digits.padded 2 d.month
  second := second
  day := Digits.padded 2 d.day
  widths := length_fields_toText hYear
  decimal := by
    have hDigit {width n : Nat} : ∀ c ∈ Digits.padded width n, isDecimalDigit c = true :=
      fun _ hc => isDecimalDigit_of_isDigit (Digits.isDigit_of_mem_padded hc)
    simp only [List.forall_mem_append]
    exact ⟨⟨hDigit, hDigit⟩, hDigit⟩
  separators := ⟨hFirst, hSecond⟩

/-- A written day is read back. -/
theorem parse_written (hYear : d.HasPlainYear) (hFirst : first = '-' ∨ first = '/')
    (hSecond : second = '-' ∨ second = '/') :
    Date.parse (String.ofList (d.written first second)) = .ok d := by
  have hDigit {width n : Nat} : ∀ c ∈ Digits.padded width n, c.isDigit = true :=
    fun _ => Digits.isDigit_of_mem_padded
  have hAscii : (d.dayText hYear hFirst hSecond).IsAscii :=
    DayText.ascii_parts.2 ⟨hDigit, hDigit, hDigit⟩
  have hSign : (d.year.natAbs : Int) = d.year := Int.natAbs_of_nonneg hYear.1
  have hExists : (d.dayText hYear hFirst hSecond).Exists := by
    unfold DayText.Exists
    simp only [dayText, Digits.ofDigitChars_padded, hSign]
    exact d.existing
  have hSame : (d.dayText hYear hFirst hSecond).date hExists = d := by
    simp only [DayText.date, dayText, Digits.ofDigitChars_padded, hSign]
  have hRead := DayText.parse_of_exists hAscii hExists
  rw [hSame] at hRead
  exact hRead

theorem length_written (hYear : d.HasPlainYear) : (d.written first second).length = 10 := by
  obtain ⟨hYears, hMonths, hDays⟩ := length_fields_toText hYear
  simp only [written, List.length_append, List.length_cons]
  omega

end Date

/-! ## Tokens -/

namespace Token

/-- A token of a text stands for a date and is decoded as one. -/
structure DecodesDay (source : List Char) (token : Token) (t : DayText) : Prop where
  /-- The token says what stands in its place. -/
  chars : token.span.chars source = t.chars
  value : token.value = .text (String.ofList t.chars)
  /-- The text is accepted just if it names a day of the calendar. -/
  accepted : (∃ d, Date.parse (String.ofList t.chars) = .ok d) ↔ t.IsAscii ∧ t.Exists
  /-- The day is the one that the digits name, and it is written as the text is, with dashes. -/
  named : ∀ d, Date.parse (String.ofList t.chars) = .ok d → d.HasPlainYear ∧
    d.year = (Nat.ofDigitChars 10 t.year 0 : Nat) ∧ d.month = Nat.ofDigitChars 10 t.month 0 ∧
    d.day = Nat.ofDigitChars 10 t.day 0 ∧ d.toText = String.ofList t.iso
  /-- Otherwise the text is refused as it is. -/
  refused : ¬ (t.IsAscii ∧ t.Exists) →
    Date.parse (String.ofList t.chars) = .error (.invalidDate (String.ofList t.chars))

/-- Only lexemes that are dates become tokens of that kind. -/
theorem shape_of_date {shape : Shape} {lexeme : List Char} {span : Span}
    (h : (ofLexeme shape lexeme span).kind = .date) : shape = .date := by
  cases shape with
  | date => rfl
  | number =>
      rw [ofLexeme] at h
      split at h <;> cases h
  | _ => cases h

theorem exists_decodesDay {source : String} {token : Token} (h : token ∈ tokens source)
    (hKind : token.kind = .date) : ∃ t : DayText, DecodesDay source.toList token t := by
  obtain ⟨front, lexeme, rest, shape, -, hSome, hScan, rfl, hChars⟩ :=
    exists_lexeme_of_mem h (by rw [hKind]; decide)
  obtain rfl := shape_of_date hKind
  have hDate : date? (lexeme ++ rest) = some lexeme.length := by
    obtain ⟨p, hShape, hRead⟩ := Pattern.exists_read?_of_scan
      (List.append_ne_nil_of_left_ne_nil hSome rest) (by rw [hScan]; exact Shape.noConfusion)
    rw [hScan] at hShape hRead
    have hPattern : p = .date := by cases p <;> cases hShape; rfl
    rw [hPattern] at hRead
    exact hRead
  obtain ⟨t, hText⟩ := DayText.exists_of_date? hDate
  rw [List.take_left] at hText
  subst hText
  refine ⟨t, hChars, rfl, ?_, ?_, DayText.parse_of_not⟩
  · constructor
    · rintro ⟨d, hParse⟩
      obtain ⟨hAscii, hExists, -⟩ := DayText.parse_eq_ok.1 hParse
      exact ⟨hAscii, hExists⟩
    · rintro ⟨hAscii, hExists⟩
      exact ⟨t.date hExists, DayText.parse_of_exists hAscii hExists⟩
  · intro d hParse
    obtain ⟨hAscii, hExists, rfl⟩ := DayText.parse_eq_ok.1 hParse
    exact ⟨DayText.hasPlainYear_date hAscii hExists, rfl, rfl, rfl,
      DayText.toText_date hAscii hExists⟩

/-- The text of a date is one token, whatever is behind it. -/
theorem tokensFrom_dayText {blanks : List Char} (hBlanks : blanks.all isBlank = true)
    (before : Bool) (place : Place) (t : DayText) (rest : List Char) :
    tokensFrom before place (blanks ++ t.chars ++ rest) =
      indent before .date blanks ⟨place, place.advance blanks⟩ ++
        ⟨.date, .text (String.ofList t.chars),
          ⟨place.advance blanks, (place.advance blanks).line, (place.advance blanks).column + 10⟩⟩ ::
          tokensFrom false ⟨(place.advance blanks).line, (place.advance blanks).column + 10⟩
            rest := by
  have hSome : t.chars ≠ [] := List.ne_nil_of_length_eq_add_one t.length_chars
  have hInline : ∀ c ∈ t.chars, isLineChar c = true := by
    obtain ⟨hYear, hMonth, hDay⟩ := t.decimal_parts
    have hDigit {c : Char} (h : isDecimalDigit c = true) : isLineChar c = true :=
      isLineChar_of_ne (ne_of_class h (by decide)) (ne_of_class h (by decide))
    have hSeparator {s : Char} (h : s = '-' ∨ s = '/') : isLineChar s = true := by
      rcases h with rfl | rfl <;> decide
    simp only [DayText.chars, List.forall_mem_append, List.forall_mem_cons]
    exact ⟨fun c hc => hDigit (hYear c hc), hSeparator t.separators.1,
      fun c hc => hDigit (hMonth c hc), hSeparator t.separators.2, fun c hc => hDigit (hDay c hc)⟩
  rw [tokensFrom_lexeme hBlanks hSome (t.scan_chars rest) (by decide)
    fun _ => Shape.noConfusion,
    Place.advance_of_line hInline, t.length_chars]
  rfl

/-- Texts of dates are read as dates, and decoded exactly: to the day that they name if there is
one, and from every day with a year of four digits. -/
theorem days_decode :
    (∀ (source : String) (token : Token), token ∈ tokens source → token.kind = .date →
      ∃ t : DayText, DecodesDay source.toList token t) ∧
    ∀ (d : Date) (first second : Char) (before : Bool) (place : Place) (blanks rest : List Char),
      d.HasPlainYear → (first = '-' ∨ first = '/') → (second = '-' ∨ second = '/') →
      blanks.all isBlank = true →
      (d.written first second).length = 10 ∧
      tokensFrom before place (blanks ++ d.written first second ++ rest) =
        indent before .date blanks ⟨place, place.advance blanks⟩ ++
          ⟨.date, .text (String.ofList (d.written first second)),
            ⟨place.advance blanks, (place.advance blanks).line,
              (place.advance blanks).column + 10⟩⟩ ::
            tokensFrom false ⟨(place.advance blanks).line, (place.advance blanks).column + 10⟩
              rest ∧
      Date.parse (String.ofList (d.written first second)) = .ok d := by
  refine ⟨fun source token h hKind => exists_decodesDay h hKind, ?_⟩
  intro d first second before place blanks rest hYear hFirst hSecond hBlanks
  refine ⟨Date.length_written hYear, ?_, Date.parse_written hYear hFirst hSecond⟩
  exact tokensFrom_dayText hBlanks before place (d.dayText hYear hFirst hSecond) rest

/-- A leap day with two different separators, and a number right behind it. -/
theorem days_decode_leapDay : (∃ t : DayText, DecodesDay "2024/02-29".toList
      ⟨.date, .text "2024/02-29", ⟨⟨1, 1⟩, ⟨1, 11⟩⟩⟩ t) ∧
    Date.parse "2024/02-29" = .ok ⟨2024, 2, 29, by decide⟩ := by
  refine ⟨days_decode.1 "2024/02-29" _ (by decide +kernel) rfl, ?_⟩
  have hText : String.ofList (Date.written ⟨2024, 2, 29, by decide⟩ '/' '-') = "2024/02-29" := by
    decide +kernel
  obtain ⟨-, -, hParse⟩ := days_decode.2 ⟨2024, 2, 29, by decide⟩ '/' '-' true .origin [] ['5']
    (by decide) (by decide) (by decide) rfl
  rw [hText] at hParse
  exact hParse

end Token

end LedgerText
