import LedgerText.Proofs.RoundTrip.Numerals
import LedgerText.Proofs.RoundTrip.WellFormed

/-!
# Scanning what was written

For every class of lexemes, what is written as one is scanned as one, and to its
end. The longest lexeme is taken, so a name or a number must not be followed by
a character that would go on with it: names stand in front of a delimiter, and
numbers and flags in front of a blank.

The classes are tried one after the other. What rules out the ones before is the
first character (`IsPlain`, `IsBare`), apart from flags and currencies, which
begin like account names do.
-/

namespace LedgerText.Lexeme

/-! ## Where a lexeme ends -/

/-- The characters that may stand directly behind a name. -/
def delimiters : List Char := [' ', '\n', ',', '\x7d']

/-- What follows begins with a delimiter. -/
def Delimited (rest : List Char) : Prop := ∃ c ∈ delimiters, ∃ tail, rest = c :: tail

theorem delimited_cons {c : Char} (rest : List Char) (h : c ∈ delimiters) :
    Delimited (c :: rest) := ⟨c, h, rest, rfl⟩

section

variable {word rest : List Char} {p : Char → Bool}

theorem takeWhile_of_cons {c : Char} (hWord : word.all p = true) (hStop : p c = false) :
    (word ++ c :: rest).takeWhile p = word := by
  have hEnd : (c :: rest).takeWhile p = [] := List.takeWhile_cons_of_neg (by simp [hStop])
  rw [List.takeWhile_append_of_pos (List.all_eq_true.1 hWord), hEnd, List.append_nil]

/-- A run of characters ends at a delimiter that is not one of them. -/
theorem takeWhile_of_delimited (hWord : word.all p = true) (hRest : Delimited rest)
    (hStop : delimiters.all (fun c => !p c) = true) : (word ++ rest).takeWhile p = word := by
  obtain ⟨c, hc, tail, rfl⟩ := hRest
  have hEnd : p c = false := by
    simpa using List.all_eq_true.1 hStop c hc
  exact takeWhile_of_cons hWord hEnd

end

/-! ## Line breaks -/

theorem isLineChar_of_ne {c : Char} (hFeed : c ≠ '\n') (hReturn : c ≠ '\r') :
    isLineChar c = true := by
  rw [isLineChar, bne_iff_ne.2 hFeed, bne_iff_ne.2 hReturn]
  rfl

/-- What does not go on a line is a line feed or a carriage return. -/
theorem eq_of_lineBreak {c : Char} (h : isLineChar c = false) : c = '\n' ∨ c = '\r' := by
  by_cases hFeed : c = '\n'
  · exact .inl hFeed
  · by_cases hReturn : c = '\r'
    · exact .inr hReturn
    · rw [isLineChar_of_ne hFeed hReturn] at h
      cases h

/-! ## Letters and decimal digits -/

theorem isUpper_iff_toNat {c : Char} : c.isUpper = true ↔ 65 ≤ c.toNat ∧ c.toNat ≤ 90 := by
  show decide (c.val ≥ 'A'.val ∧ c.val ≤ 'Z'.val) = true ↔ _
  simp [UInt32.le_iff_toNat_le]

theorem isLower_iff_toNat {c : Char} : c.isLower = true ↔ 97 ≤ c.toNat ∧ c.toNat ≤ 122 := by
  show (decide (c.val ≥ 'a'.val) && decide (c.val ≤ 'z'.val)) = true ↔ _
  simp [UInt32.le_iff_toNat_le]

/-- Among the characters that come before the digits of other scripts, only the ASCII digits are
decimal digits. -/
theorem isDecimalDigit_of_lt {c : Char} (h : c.toNat < 0x660) : isDecimalDigit c = c.isDigit := by
  have hAll : decimalZeros = 0x30 :: decimalZeros.tail := rfl
  have hLater : ∀ start ∈ decimalZeros.tail, 0x660 ≤ start := by decide
  have hNone : (decimalZeros.tail.any fun start =>
      decide (start ≤ c.toNat) && decide (c.toNat < start + 10)) = false := by
    rw [List.any_eq_false]
    intro start hStart
    have hStart := hLater start hStart
    simp only [Bool.and_eq_true, decide_eq_true_eq, not_and]
    omega
  have hZero : '0'.toNat = 48 := rfl
  have hNine : '9'.toNat = 57 := rfl
  rw [isDecimalDigit, hAll, List.any_cons, hNone, Bool.or_false, Bool.eq_iff_iff,
    Char.isDigit_iff_toNat]
  simp only [Bool.and_eq_true, decide_eq_true_eq]
  omega

theorem isDecimalDigit_of_isDigit {c : Char} (h : c.isDigit = true) : isDecimalDigit c = true := by
  have hBounds := Char.isDigit_iff_toNat.1 h
  have hNine : '9'.toNat = 57 := rfl
  rw [isDecimalDigit_of_lt (by omega), h]

theorem isDecimalDigit_of_isUpper {c : Char} (h : c.isUpper = true) : isDecimalDigit c = false := by
  have hBounds := isUpper_iff_toNat.1 h
  have hNine : '9'.toNat = 57 := rfl
  rw [isDecimalDigit_of_lt (by omega), Bool.eq_false_iff, ne_eq, Char.isDigit_iff_toNat]
  omega

/-! ## Classes ruled out by their first characters -/

section

variable {c d : Char} {rest : List Char}

theorem date?_of_head (h : isDecimalDigit c = false) : date? (c :: rest) = none := by
  unfold date?
  split
  · next hText =>
      cases hText
      simp [h]
  · rfl

theorem number?_of_head (h : isDecimalDigit c = false) (hMinus : c ≠ '-') :
    number? (c :: rest) = none := by
  unfold number?
  split
  · next hText =>
      cases hText
      exact absurd rfl hMinus
  · rw [unsigned?, List.takeWhile_cons_of_neg (by simp [h])]
    rfl

/-- The root words of account names begin with a capital letter and a small one. -/
theorem accountRoots_spelled {root : String} (h : root ∈ accountRoots) :
    ∃ first second others, root.toList = first :: second :: others ∧
      first.isUpper = true ∧ second.isLower = true := by
  simp only [accountRoots, List.mem_cons, List.not_mem_nil, or_false] at h
  rcases h with rfl | rfl | rfl | rfl | rfl
  all_goals exact ⟨_, _, _, rfl, by decide, by decide⟩

theorem account?_of_head (h : c.isUpper = false) : account? (c :: rest) = none := by
  unfold account?
  rw [List.findSome?_eq_none_iff]
  intro root hRoot
  obtain ⟨first, second, others, hText, hFirst, -⟩ := accountRoots_spelled hRoot
  have hNe : first ≠ c := ne_of_class hFirst h
  have hPrefix : root.toList.isPrefixOf (c :: rest) = false := by
    simp [hText, List.isPrefixOf, hNe]
  rw [hPrefix]
  rfl

theorem account?_of_second (h : d.isLower = false) : account? (c :: d :: rest) = none := by
  unfold account?
  rw [List.findSome?_eq_none_iff]
  intro root hRoot
  obtain ⟨first, second, others, hText, -, hSecond⟩ := accountRoots_spelled hRoot
  have hNe : second ≠ d := ne_of_class hSecond h
  have hPrefix : root.toList.isPrefixOf (c :: d :: rest) = false := by
    simp [hText, List.isPrefixOf, hNe]
  rw [hPrefix]
  rfl

theorem currency?_of_head (h : c.isUpper = false) : currency? (c :: rest) = none := by
  rw [currency?]
  split
  · rfl
  · simp [h]

theorem tagged?_of_head {sign : Char} (h : c ≠ sign) : tagged? sign (c :: rest) = none := by
  rw [tagged?]
  split
  · rfl
  · exact if_neg h

theorem word?_of_head {α : Type} {words : List α} {written : α → String}
    (h : ∀ word ∈ words, (written word).toList.head? ≠ some c ∧ (written word).toList ≠ []) :
    word? words written (c :: rest) = none := by
  rw [word?, Option.map_eq_none_iff, List.find?_eq_none]
  intro word hWord
  obtain ⟨hHead, hSome⟩ := h word hWord
  cases hText : (written word).toList with
  | nil => exact absurd hText hSome
  | cons d others =>
      rw [hText, List.head?_cons, ne_eq, Option.some.injEq] at hHead
      simp [List.isPrefixOf, hHead]

end

/-! ## Days and numbers -/

theorem scan_date {d : Date} (hYear : d.HasPlainYear) (rest : List Char) :
    scan (d.toText.toList ++ rest) = (.date, d.toText.toList.length) := by
  have hDigit {width n : Nat} {c : Char} (h : c ∈ Digits.padded width n) :
      isDecimalDigit c = true := isDecimalDigit_of_isDigit (Digits.isDigit_of_mem_padded h)
  obtain ⟨hY, hM, hD⟩ := Date.length_fields_toText hYear
  rw [Date.toList_toText hYear]
  generalize hYears : Digits.padded 4 d.year.natAbs = years at hY
  generalize hMonths : Digits.padded 2 d.month = months at hM
  generalize hDays : Digits.padded 2 d.day = days at hD
  match years, months, days, hY, hM, hD with
  | [y₁, y₂, y₃, y₄], [m₁, m₂], [d₁, d₂], _, _, _ =>
      have hYear (c : Char) (h : c ∈ [y₁, y₂, y₃, y₄]) : isDecimalDigit c = true :=
        hDigit (hYears ▸ h)
      have hMonth (c : Char) (h : c ∈ [m₁, m₂]) : isDecimalDigit c = true := hDigit (hMonths ▸ h)
      have hDay (c : Char) (h : c ∈ [d₁, d₂]) : isDecimalDigit c = true := hDigit (hDays ▸ h)
      simp only [List.forall_mem_cons] at hYear hMonth hDay
      have hDate : date? ([y₁, y₂, y₃, y₄] ++ '-' :: ([m₁, m₂] ++ '-' :: [d₁, d₂]) ++ rest) =
          some 10 := by
        simp [date?, hYear, hMonth, hDay]
      unfold scan
      rw [hDate]
      rfl

/-- Digits that do not end in a dash or a slash do not begin a day. -/
theorem date?_of_digits {digits rest : List Char} {c : Char}
    (hDigits : digits.all isDecimalDigit = true) (hStop : isDecimalDigit c = false)
    (hDash : c ≠ '-') (hSlash : c ≠ '/') : date? (digits ++ c :: rest) = none := by
  match digits with
  | [] => exact date?_of_head hStop
  | [_] | [_, _] | [_, _, _] =>
      unfold date?
      split
      · next hText =>
          cases hText
          simp [hStop]
      · rfl
  | [_, _, _, _] =>
      unfold date?
      split
      · next hText =>
          cases hText
          simp [hDash, hSlash]
      · rfl
  | _ :: _ :: _ :: _ :: e :: _ =>
      have hDigit : isDecimalDigit e = true := List.all_eq_true.1 hDigits e (by simp)
      have hNoDash : e ≠ '-' := ne_of_class hDigit (by decide)
      have hNoSlash : e ≠ '/' := ne_of_class hDigit (by decide)
      unfold date?
      split
      · next hText =>
          simp only [List.cons_append, List.cons.injEq] at hText
          obtain ⟨-, -, -, -, rfl, -⟩ := hText
          simp [hNoDash, hNoSlash]
      · rfl

/-- Numbers are written without commas, so there is just one group of digits. -/
theorem groups_of_head {c : Char} {rest : List Char} (h : c ≠ ',') : groups (c :: rest) = 0 := by
  unfold groups
  split
  · next hText =>
      cases hText
      exact absurd rfl h
  · rfl

/-- Decimal digits that no comma follows, and the fraction behind them. -/
theorem unsigned?_of_digits {digits rest : List Char} {c : Char} (hSome : digits ≠ [])
    (hDigits : digits.all isDecimalDigit = true) (hStop : isDecimalDigit c = false)
    (hComma : c ≠ ',') :
    unsigned? (digits ++ c :: rest) = some (digits.length + fraction (c :: rest)) := by
  have hLeading : (digits ++ c :: rest).takeWhile isDecimalDigit = digits :=
    takeWhile_of_cons hDigits hStop
  have hLength : digits.length ≠ 0 := by
    rw [ne_eq, List.length_eq_zero_iff]
    exact hSome
  have hWhole : (if digits.length ≤ 3 then digits.length + groups (c :: rest)
      else digits.length) = digits.length := by
    rw [groups_of_head hComma]
    split <;> rfl
  rw [unsigned?, hLeading, if_neg hLength, List.drop_left]
  simp only [hWhole, List.drop_left, List.head?_cons, Option.some.injEq, hComma, and_false,
    if_false]
  by_cases hNone : fraction (c :: rest) = 0
  · rw [if_neg (by simp [hNone]), hNone, Nat.add_zero]
  · rw [if_pos hNone]

theorem fraction_of_digits {digits rest : List Char} {c : Char} (hSome : digits ≠ [])
    (hDigits : digits.all isDecimalDigit = true) (hStop : isDecimalDigit c = false) :
    fraction ('.' :: (digits ++ c :: rest)) = 1 + digits.length := by
  have hLength : digits.length ≠ 0 := by
    rw [ne_eq, List.length_eq_zero_iff]
    exact hSome
  rw [fraction, takeWhile_of_cons hDigits hStop]
  exact if_neg hLength

section

variable (d : Decimal) (rest : List Char)

/-- Behind the whole digits of a number that is written in front of a blank stands a character that
is no digit. -/
theorem exists_fractionText : ∃ c tail, d.fractionText ++ ' ' :: rest = c :: tail ∧
    isDecimalDigit c = false ∧ c ≠ '-' ∧ c ≠ '/' ∧ c ≠ ',' := by
  rw [Decimal.fractionText]
  split
  · exact ⟨' ', rest, rfl, by decide, by decide, by decide, by decide⟩
  · exact ⟨'.', _, rfl, by decide, by decide, by decide, by decide⟩

theorem fraction_fractionText :
    fraction (d.fractionText ++ ' ' :: rest) = d.fractionText.length := by
  have hStop : isDecimalDigit ' ' = false := by decide
  rw [Decimal.fractionText]
  by_cases hScale : d.scale = 0
  · rw [if_pos hScale]
    rfl
  · have hSome : d.fractionDigits ≠ [] := by
      intro hNone
      have hLength := d.length_fractionDigits
      rw [hNone, List.length_nil] at hLength
      omega
    have hDigits : d.fractionDigits.all isDecimalDigit = true := by
      rw [List.all_eq_true]
      intro c hc
      exact isDecimalDigit_of_isDigit (Decimal.isDigit_of_mem_fractionDigits hc)
    rw [if_neg hScale, List.cons_append, fraction_of_digits hSome hDigits hStop, List.length_cons]
    omega

theorem all_isDecimalDigit_wholeDigits : d.wholeDigits.all isDecimalDigit = true := by
  rw [List.all_eq_true]
  intro c hc
  exact isDecimalDigit_of_isDigit (Decimal.isDigit_of_mem_wholeDigits hc)

theorem unsigned?_toText : unsigned? (d.wholeDigits ++ (d.fractionText ++ ' ' :: rest)) =
    some (d.wholeDigits ++ d.fractionText).length := by
  have hFraction := fraction_fractionText d rest
  obtain ⟨c, tail, hTail, hStop, -, -, hComma⟩ := exists_fractionText d rest
  rw [hTail] at hFraction ⊢
  rw [unsigned?_of_digits d.wholeDigits_ne_nil (all_isDecimalDigit_wholeDigits d) hStop hComma,
    hFraction, List.length_append]

/-- A number in front of a blank. -/
theorem scan_number :
    scan (d.toText.toList ++ ' ' :: rest) = (.number, d.toText.toList.length) := by
  have hUnsigned := unsigned?_toText d rest
  have hText := d.toList_toText
  suffices hBoth : date? (d.toText.toList ++ ' ' :: rest) = none ∧
      number? (d.toText.toList ++ ' ' :: rest) = some d.toText.toList.length by
    unfold scan
    rw [hBoth.1, hBoth.2]
  cases hSign : d.negative with
  | true =>
      rw [hSign] at hText
      rw [hText]
      simp only [if_true, List.cons_append, List.nil_append, List.append_assoc]
      refine ⟨date?_of_head (by decide), ?_⟩
      rw [number?, hUnsigned]
      simp
  | false =>
      rw [hSign] at hText
      rw [hText]
      simp only [Bool.false_eq_true, if_false, List.nil_append, List.append_assoc]
      constructor
      · obtain ⟨c, tail, hTail, hStop, hDash, hSlash, -⟩ := exists_fractionText d rest
        rw [hTail]
        exact date?_of_digits (all_isDecimalDigit_wholeDigits d) hStop hDash hSlash
      · rw [← hUnsigned]
        unfold number?
        split
        · next hMinus =>
            obtain ⟨c, digits, hWhole⟩ := List.exists_cons_of_ne_nil d.wholeDigits_ne_nil
            have hDigit : c.isDigit = true :=
              Decimal.isDigit_of_mem_wholeDigits (hWhole ▸ List.mem_cons_self)
            rw [hWhole] at hMinus
            cases hMinus
            exact absurd hDigit (by decide)
        · rfl

end

/-! ## Names -/

/-- The parts of an account name as they are written. -/
def partsText (parts : List (Char × List Char)) : List Char :=
  parts.flatMap fun part => ':' :: part.1 :: part.2

theorem accountParts_partsText {parts : List (Char × List Char)} {rest : List Char}
    (hParts : ∀ part ∈ parts, part.1.isUpper = true ∧ part.2.all isAccountChar = true)
    (hRest : Delimited rest) :
    accountParts (partsText parts ++ rest) = (partsText parts).length := by
  induction parts with
  | nil =>
      obtain ⟨c, hc, tail, rfl⟩ := hRest
      have hColon : c ≠ ':' := by
        intro hSame
        rw [hSame] at hc
        exact absurd hc (by decide)
      show accountParts (c :: tail) = 0
      unfold accountParts
      split
      · next hText =>
          cases hText
          exact absurd rfl hColon
      · rfl
  | cons part parts ih =>
      obtain ⟨first, others⟩ := part
      obtain ⟨hFirst, hOthers⟩ := hParts (first, others) (by simp)
      have hMore := ih fun other hOther => hParts other (by simp [hOther])
      -- A part ends at the colon of the next one, or at the delimiter.
      have hPart : (others ++ (partsText parts ++ rest)).takeWhile isAccountChar = others := by
        cases parts with
        | nil => exact takeWhile_of_delimited hOthers hRest (by decide)
        | cons next parts => exact takeWhile_of_cons hOthers (by decide)
      have hText : partsText ((first, others) :: parts) ++ rest =
          ':' :: first :: (others ++ (partsText parts ++ rest)) := by
        simp [partsText]
      have hLength : (partsText ((first, others) :: parts)).length =
          2 + others.length + (partsText parts).length := by
        simp only [partsText, List.flatMap_cons, List.length_append, List.length_cons]
        omega
      rw [hText, hLength, accountParts, if_pos hFirst]
      simp only [hPart, List.drop_left, hMore]

/-- No root word begins another one. -/
theorem isPrefixOf_root {root other : String} (text : List Char) (hRoot : root ∈ accountRoots)
    (hOther : other ∈ accountRoots) (hNe : other ≠ root) :
    other.toList.isPrefixOf (root.toList ++ text) = false := by
  simp only [accountRoots, List.mem_cons, List.not_mem_nil, or_false] at hRoot hOther
  rcases hRoot with rfl | rfl | rfl | rfl | rfl
  all_goals
    rcases hOther with rfl | rfl | rfl | rfl | rfl
    all_goals first
      | exact absurd rfl hNe
      | rfl

theorem account?_of_root {root : String} {text : List Char} (hRoot : root ∈ accountRoots)
    (hParts : accountParts text ≠ 0) :
    account? (root.toList ++ text) = some (root.toList.length + accountParts text) := by
  have hPrefix : root.toList.isPrefixOf (root.toList ++ text) = true := by
    rw [List.isPrefixOf_iff_prefix]
    exact List.prefix_append _ _
  obtain ⟨before, after, hRoots, hNew⟩ := List.eq_append_cons_of_mem hRoot
  rw [account?, List.findSome?_eq_some_iff]
  refine ⟨before, root, after, hRoots, ?_, ?_⟩
  · rw [if_pos hPrefix, ← String.length_toList, List.drop_left]
    split
    · next hZero => exact absurd hZero hParts
    · rfl
  · intro other hOther
    have hNe : other ≠ root := by
      intro hSame
      exact hNew (hSame ▸ hOther)
    have hMem : other ∈ accountRoots := by
      rw [hRoots]
      exact List.mem_append_left _ hOther
    rw [if_neg (by simp [isPrefixOf_root text hRoot hMem hNe])]

theorem scan_account {name : String} {rest : List Char} (h : IsAccount name)
    (hRest : Delimited rest) : scan (name.toList ++ rest) = (.account, name.toList.length) := by
  obtain ⟨root, hRoot, parts, hSome, hParts, hName⟩ := h
  obtain ⟨first, second, others, hText, hFirst, -⟩ := accountRoots_spelled hRoot
  have hLength := accountParts_partsText hParts hRest
  have hNonzero : accountParts (partsText parts ++ rest) ≠ 0 := by
    cases parts with
    | nil => exact absurd rfl hSome
    | cons part parts =>
        rw [hLength]
        simp [partsText]
  have hAccount : account? (name.toList ++ rest) = some name.toList.length := by
    have hFound := account?_of_root hRoot hNonzero
    rw [hLength, ← List.append_assoc] at hFound
    rw [hName]
    exact hFound.trans (by rw [← List.length_append]; rfl)
  have hCons : ∃ tail, name.toList ++ rest = first :: tail := by
    rw [hName, hText]
    exact ⟨_, rfl⟩
  obtain ⟨tail, hTail⟩ := hCons
  have hDigit := isDecimalDigit_of_isUpper hFirst
  have hMinus : first ≠ '-' := ne_of_class hFirst (by decide)
  unfold scan
  rw [hAccount, hTail, date?_of_head hDigit, number?_of_head hDigit hMinus]

/-- Currencies have no small letters, so none is the beginning of an account name. -/
theorem isLower_of_isCurrencyChar {c : Char} (h : isCurrencyChar c = true) : c.isLower = false := by
  rw [isCurrencyChar, Bool.or_eq_true, Bool.or_eq_true] at h
  rw [Bool.eq_false_iff, ne_eq, isLower_iff_toNat]
  rcases h with (hUpper | hDigit) | hSign
  · have hBounds := isUpper_iff_toNat.1 hUpper
    omega
  · have hBounds := Char.isDigit_iff_toNat.1 hDigit
    have hNine : '9'.toNat = 57 := rfl
    omega
  · simp only [List.contains_eq_mem, decide_eq_true_eq, List.mem_cons, List.not_mem_nil,
      or_false] at hSign
    rcases hSign with rfl | rfl | rfl | rfl
    all_goals decide

theorem scan_currency {name : String} {rest : List Char} (h : IsCurrency name)
    (hRest : Delimited rest) : scan (name.toList ++ rest) = (.currency, name.toList.length) := by
  obtain ⟨first, others, hName, hFirst, hSome, hOthers⟩ := h
  have hDigit := isDecimalDigit_of_isUpper hFirst
  have hMinus : first ≠ '-' := ne_of_class hFirst (by decide)
  have hAccount : account? (first :: (others ++ rest)) = none := by
    obtain ⟨second, more, rfl⟩ := List.exists_cons_of_ne_nil hSome
    have hSecond : isCurrencyChar second = true := List.all_eq_true.1 hOthers second (by simp)
    exact account?_of_second (isLower_of_isCurrencyChar hSecond)
  have hCurrency : currency? (first :: (others ++ rest)) = some (1 + others.length) := by
    rw [currency?, takeWhile_of_delimited hOthers hRest (by decide)]
    split
    · next hZero => exact absurd (List.eq_nil_of_length_eq_zero hZero) hSome
    · rw [if_pos hFirst]
  rw [hName, List.cons_append]
  unfold scan
  rw [hCurrency, date?_of_head hDigit, number?_of_head hDigit hMinus, hAccount]
  simp only [List.length_cons, Nat.add_comm]

theorem tagged?_of_name {sign : Char} {name : String} {rest : List Char} (h : IsTagName name)
    (hRest : Delimited rest) :
    tagged? sign (sign :: (name.toList ++ rest)) = some (1 + name.toList.length) := by
  rw [tagged?, takeWhile_of_delimited h.2 hRest (by decide)]
  split
  · next hZero => exact absurd (List.eq_nil_of_length_eq_zero hZero) h.1
  · exact if_pos rfl

/-! ## Signs and words -/

/-- The first characters of tags, links, words and marks are neither capital letters nor do numbers
begin with them. This rules out all classes that come before. -/
structure IsPlain (c : Char) : Prop where
  digit : isDecimalDigit c = false
  minus : c ≠ '-'
  upper : c.isUpper = false

instance (c : Char) : Decidable (IsPlain c) :=
  decidable_of_iff (isDecimalDigit c = false ∧ c ≠ '-' ∧ c.isUpper = false)
    ⟨fun h => ⟨h.1, h.2.1, h.2.2⟩, fun h => ⟨h.digit, h.minus, h.upper⟩⟩

theorem IsPlain.unnamed {c : Char} {rest : List Char} (h : IsPlain c) :
    date? (c :: rest) = none ∧ number? (c :: rest) = none ∧ account? (c :: rest) = none ∧
      currency? (c :: rest) = none :=
  ⟨date?_of_head h.digit, number?_of_head h.digit h.minus, account?_of_head h.upper,
    currency?_of_head h.upper⟩

theorem scan_tag {name : String} {rest : List Char} (h : IsTagName name)
    (hRest : Delimited rest) :
    scan ('#' :: (name.toList ++ rest)) = (.tag, name.toList.length + 1) := by
  have hPlain : IsPlain '#' := by decide
  unfold scan
  simp only [hPlain.unnamed, tagged?_of_name h hRest, Nat.add_comm]

theorem scan_link {name : String} {rest : List Char} (h : IsTagName name)
    (hRest : Delimited rest) :
    scan ('^' :: (name.toList ++ rest)) = (.link, name.toList.length + 1) := by
  have hPlain : IsPlain '^' := by decide
  have hTag : tagged? '#' ('^' :: (name.toList ++ rest)) = none := tagged?_of_head (by decide)
  unfold scan
  simp only [hPlain.unnamed, hTag, tagged?_of_name h hRest, Nat.add_comm]

/-- No keyword begins another one. -/
theorem word?_keyword (keyword : Keyword) (rest : List Char) :
    word? Keyword.all Keyword.text (keyword.text.toList ++ rest) =
      some (keyword, keyword.text.toList.length) := by
  cases keyword <;> rfl

theorem scan_keyword (keyword : Keyword) (rest : List Char) :
    scan (keyword.text.toList ++ rest) = (.keyword keyword, keyword.text.toList.length) := by
  have hWord := word?_keyword keyword rest
  have hHead : ∃ first tail, keyword.text.toList ++ rest = first :: tail ∧ IsPlain first ∧
      first ≠ '#' ∧ first ≠ '^' := by
    cases keyword
    all_goals exact ⟨_, _, rfl, by decide, by decide, by decide⟩
  obtain ⟨first, tail, hText, hPlain, hTag, hLink⟩ := hHead
  rw [hText] at hWord ⊢
  unfold scan
  simp only [hPlain.unnamed, tagged?_of_head hTag, tagged?_of_head hLink, hWord]

/-- The sign `@` is read as such in front of anything but another one. -/
theorem word?_mark {mark : Mark} {rest : List Char}
    (h : mark = .singleAt → rest.head? ≠ some '@') :
    word? Mark.all Mark.text (mark.text.toList ++ rest) =
      some (mark, mark.text.toList.length) := by
  cases mark
  case singleAt =>
      cases rest with
      | nil => rfl
      | cons c rest =>
          have hNe : c ≠ '@' := by simpa using h rfl
          have hOther : ¬ '@' = c := fun hSame => hNe hSame.symm
          simp [word?, Mark.all, Mark.text, List.isPrefixOf, hOther]
          rfl
  all_goals rfl

theorem scan_mark {mark : Mark} {rest : List Char}
    (h : mark = .singleAt → rest.head? ≠ some '@') :
    scan (mark.text.toList ++ rest) = (.mark mark, mark.text.toList.length) := by
  have hWord := word?_mark h
  have hHead : ∃ first tail, mark.text.toList ++ rest = first :: tail ∧ IsPlain first ∧
      first ≠ '#' ∧ first ≠ '^' ∧ ∀ keyword ∈ Keyword.all,
        keyword.text.toList.head? ≠ some first ∧ keyword.text.toList ≠ [] := by
    cases mark
    all_goals exact ⟨_, _, rfl, by decide, by decide, by decide, by decide⟩
  obtain ⟨first, tail, hText, hPlain, hTag, hLink, hKeyword⟩ := hHead
  rw [hText] at hWord ⊢
  unfold scan
  simp only [hPlain.unnamed, tagged?_of_head hTag, tagged?_of_head hLink, word?_of_head hKeyword,
    hWord]

/-- What no word and no mark begins with, nor a tag or a link. -/
structure IsBare (c : Char) : Prop extends IsPlain c where
  tag : c ≠ '#'
  link : c ≠ '^'
  keyword : ∀ keyword ∈ Keyword.all,
    keyword.text.toList.head? ≠ some c ∧ keyword.text.toList ≠ []
  mark : ∀ mark ∈ Mark.all, mark.text.toList.head? ≠ some c ∧ mark.text.toList ≠ []

instance (c : Char) : Decidable (IsBare c) :=
  decidable_of_iff (IsPlain c ∧ (c ≠ '#' ∧ c ≠ '^') ∧
      (∀ keyword ∈ Keyword.all,
        keyword.text.toList.head? ≠ some c ∧ keyword.text.toList ≠ []) ∧
      ∀ mark ∈ Mark.all, mark.text.toList.head? ≠ some c ∧ mark.text.toList ≠ [])
    ⟨fun h => ⟨h.1, h.2.1.1, h.2.1.2, h.2.2.1, h.2.2.2⟩,
      fun h => ⟨h.toIsPlain, ⟨h.tag, h.link⟩, h.keyword, h.mark⟩⟩

theorem IsBare.unsigned {c : Char} {rest : List Char} (h : IsBare c) :
    tagged? '#' (c :: rest) = none ∧ tagged? '^' (c :: rest) = none ∧
      word? Keyword.all Keyword.text (c :: rest) = none ∧
      word? Mark.all Mark.text (c :: rest) = none :=
  ⟨tagged?_of_head h.tag, tagged?_of_head h.link, word?_of_head h.keyword, word?_of_head h.mark⟩

theorem scan_newline (rest : List Char) : scan ('\n' :: rest) = (.newline, 1) := by
  have hBare : IsBare '\n' := by decide
  unfold scan
  simp only [hBare.unnamed, hBare.unsigned, newline?]

/-! ## Quoted text -/

/-- What was escaped goes on up to the quote behind it. -/
theorem literal_escape (text rest : List Char) :
    literal (Quoted.escape text ++ '"' :: rest) = (true, (Quoted.escape text).length + 1) := by
  induction text with
  | nil => simp [Quoted.escape, literal]
  | cons c text ih =>
      have hCons : Quoted.escape (c :: text) = Quoted.escapeChar c ++ Quoted.escape text := rfl
      rw [hCons]
      unfold Quoted.escapeChar
      split
      all_goals simp_all [literal]

theorem scan_string (text : String) (rest : List Char) :
    scan ((Quoted.literal text).toList ++ rest) =
      (.string, (Quoted.literal text).toList.length) := by
  have hBare : IsBare '"' := by decide
  have hLiteral := literal_escape text.toList rest
  rw [Quoted.toList_literal]
  simp only [List.cons_append, List.append_assoc, List.nil_append, List.length_cons,
    List.length_append, List.length_nil]
  unfold scan
  simp only [hBare.unnamed, hBare.unsigned]
  simp [newline?, comment?, hLiteral]

/-! ## Flags -/

/-- A flag may be a letter that account names and currencies begin with, but it stands in front of
a blank. -/
theorem scan_flag {flag : Char} (h : flag ∈ flagChars) (rest : List Char) :
    scan (flag :: ' ' :: rest) = (.flag, 1) := by
  -- What holds of every flag is checked one by one.
  have hEach : flagChars.all (fun c => !isDecimalDigit c &&
      decide (c ≠ '-' ∧ c ≠ '#' ∧ c ≠ '^' ∧ c ≠ '\n' ∧ c ≠ '\r' ∧ c ≠ ';' ∧ c ≠ '"') &&
      decide (∀ keyword ∈ Keyword.all,
        keyword.text.toList.head? ≠ some c ∧ keyword.text.toList ≠ []) &&
      decide (∀ mark ∈ Mark.all,
        mark.text.toList.head? ≠ some c ∧ mark.text.toList ≠ [])) = true := by decide
  have hFacts := List.all_eq_true.1 hEach flag h
  simp only [Bool.and_eq_true, Bool.not_eq_true', decide_eq_true_eq] at hFacts
  obtain ⟨⟨⟨hDigit, hMinus, hTag, hLink, hLine, hReturn, hSemicolon, hQuote⟩, hKeyword⟩,
    hMark⟩ := hFacts
  have hCurrency : currency? (flag :: ' ' :: rest) = none := by
    have hBlank : isCurrencyChar ' ' = false := by decide
    rw [currency?, List.takeWhile_cons_of_neg (by simp [hBlank])]
    rfl
  have hNewline : newline? (flag :: ' ' :: rest) = none := by
    simp [newline?, hLine, hReturn]
  have hComment : comment? (flag :: ' ' :: rest) = none := by
    simp [comment?, hSemicolon]
  unfold scan
  rw [date?_of_head hDigit, number?_of_head hDigit hMinus, account?_of_second (by decide),
    hCurrency, tagged?_of_head hTag, tagged?_of_head hLink, word?_of_head hKeyword,
    word?_of_head hMark, hNewline, hComment]
  have hFlag : flagChars.contains flag = true := by
    simp [h]
  -- By `hQuote`, no string literal begins here.
  simp only [hFlag, if_true]

/-- A star is read as a flag. -/
theorem scan_star (text : List Char) : (scan ('*' :: text)).1 = .flag := by
  have hBare : IsBare '*' := by decide
  unfold scan
  simp only [hBare.unnamed, hBare.unsigned]
  simp [newline?, comment?, flagChars]

end LedgerText.Lexeme
