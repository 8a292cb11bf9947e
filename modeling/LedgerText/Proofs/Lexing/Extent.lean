import LedgerText.Proofs.RoundTrip.Scanning

/-!
# How far lexemes reach

A lexeme has at least one character and ends within its text (`scan_bounds`),
and text behind it decides nothing but that it ends there: cut off the text
anywhere behind a lexeme, and the same lexeme is read (`scan_of_append`).

`Local` says the latter of one class. It covers both answers of the class: that
a lexeme begins here, if it ends before the cut, and that none does. `IsClass`
is kept by trying one class after the other, so a scan inherits it from the list
of its classes.
-/

namespace LedgerText.Lexeme

/-! ## Ending within the text -/

section

variable {text : List Char} {n : Nat}

theorem date?_eq_some (h : date? text = some n) : n = 10 ∧ 10 ≤ text.length := by
  unfold date? at h
  split at h
  · split at h
    · simp only [Option.some.injEq] at h
      simp only [List.length_cons]
      omega
    · cases h
  · cases h

theorem groups_le (text : List Char) : groups text ≤ text.length := by
  induction text using groups.induct with
  | case1 d₁ d₂ d₃ rest hDigits ih =>
      rw [groups, if_pos hDigits]
      simp only [List.length_cons]
      omega
  | case2 d₁ d₂ d₃ rest hDigits =>
      rw [groups, if_neg hDigits]
      exact Nat.zero_le _
  | case3 text hText =>
      unfold groups
      split
      · next d₁ d₂ d₃ rest => exact absurd rfl (hText d₁ d₂ d₃ rest)
      · exact Nat.zero_le _

theorem fraction_le (text : List Char) : fraction text ≤ text.length := by
  unfold fraction
  split
  · next rest =>
      have hDigits := (List.takeWhile_sublist (l := rest) isDecimalDigit).length_le
      dsimp only
      split
      · exact Nat.zero_le _
      · rw [List.length_cons]
        omega
  · exact Nat.zero_le _

/-- The digits in front, in groups if they are. -/
def whole (text : List Char) : Nat :=
  let digits := (text.takeWhile isDecimalDigit).length
  if digits ≤ 3 then digits + groups (text.drop digits) else digits

theorem whole_ge (text : List Char) : (text.takeWhile isDecimalDigit).length ≤ whole text := by
  unfold whole
  dsimp only
  split <;> omega

theorem whole_le (text : List Char) : whole text ≤ text.length := by
  have hDigits := (List.takeWhile_sublist (l := text) isDecimalDigit).length_le
  have hGroups := groups_le (text.drop (text.takeWhile isDecimalDigit).length)
  rw [List.length_drop] at hGroups
  unfold whole
  dsimp only
  split <;> omega

/-- What a number without a sign consists of: digits, and then a fraction, or a comma where there
might have been another group, or nothing more. -/
theorem unsigned?_eq (text : List Char) :
    unsigned? text =
      if (text.takeWhile isDecimalDigit).length = 0 then none
      else if fraction (text.drop (whole text)) ≠ 0 then
        some (whole text + fraction (text.drop (whole text)))
      else if (text.takeWhile isDecimalDigit).length ≤ 3 ∧
          (text.drop (whole text)).head? = some ',' then
        some (whole text + 1)
      else some (whole text) := rfl

theorem unsigned?_eq_some (h : unsigned? text = some n) :
    0 < (text.takeWhile isDecimalDigit).length ∧ whole text ≤ n ∧ n ≤ text.length := by
  have hWhole := whole_le text
  have hFraction := fraction_le (text.drop (whole text))
  rw [List.length_drop] at hFraction
  rw [unsigned?_eq] at h
  split at h
  · cases h
  · next hSome =>
      refine ⟨by omega, ?_⟩
      split at h
      · simp only [Option.some.injEq] at h
        omega
      · split at h
        · next hComma =>
            simp only [Option.some.injEq] at h
            have hMore : text.drop (whole text) ≠ [] := by
              intro hNone
              rw [hNone] at hComma
              exact absurd hComma.2 (by simp)
            rw [ne_eq, List.drop_eq_nil_iff] at hMore
            omega
        · simp only [Option.some.injEq] at h
          omega

theorem number?_eq_some (h : number? text = some n) : 0 < n ∧ n ≤ text.length := by
  unfold number? at h
  split at h
  · next rest =>
      obtain ⟨m, hDigits, rfl⟩ := Option.map_eq_some_iff.1 h
      have hLength := unsigned?_eq_some hDigits
      rw [List.length_cons]
      omega
  · have hDigits := whole_ge text
    have hLength := unsigned?_eq_some h
    omega

theorem literal_escaped (c : Char) (rest : List Char) : literal ('\\' :: c :: rest) =
    if c = '\n' then (false, 0) else ((literal rest).1, (literal rest).2 + 2) := rfl

theorem literal_plain {c : Char} (rest : List Char) (hQuote : c ≠ '"') (hEscape : c ≠ '\\') :
    literal (c :: rest) = ((literal rest).1, (literal rest).2 + 1) := by
  conv => lhs; unfold literal
  split
  · next hText =>
      cases hText
      exact absurd rfl hQuote
  · next hText =>
      cases hText
      exact absurd rfl hEscape
  · next hText =>
      cases hText
      exact absurd rfl hEscape
  · next hText =>
      cases hText
      rfl
  · next hText => cases hText

/-- The rest of a literal is empty, ends at once, begins with an escape, or with any other
character. -/
theorem literal_induction {motive : List Char → Prop} (nil : motive [])
    (quote : ∀ rest, motive ('"' :: rest)) (alone : motive ['\\'])
    (escaped : ∀ c rest, motive rest → motive ('\\' :: c :: rest))
    (plain : ∀ c rest, c ≠ '"' → c ≠ '\\' → motive rest → motive (c :: rest))
    (text : List Char) : motive text := by
  generalize hLength : text.length = length
  induction length using Nat.strongRecOn generalizing text with
  | _ length ih =>
      subst hLength
      match text with
      | [] => exact nil
      | c :: rest =>
          by_cases hQuote : c = '"'
          · exact hQuote ▸ quote rest
          · by_cases hEscape : c = '\\'
            · subst hEscape
              match rest with
              | [] => exact alone
              | d :: others =>
                  exact escaped d others (ih _ (by simp only [List.length_cons]; omega) _ rfl)
            · exact plain c rest hQuote hEscape (ih _ (by simp) _ rfl)

theorem literal_le (text : List Char) : (literal text).2 ≤ text.length := by
  induction text using literal_induction with
  | nil => exact Nat.le_refl 0
  | quote rest => simp [literal]
  | alone => exact Nat.zero_le _
  | escaped c rest ih =>
      rw [literal_escaped]
      split
      · exact Nat.zero_le _
      · simp only [List.length_cons]
        omega
  | plain c rest hQuote hEscape ih =>
      rw [literal_plain rest hQuote hEscape]
      simp only [List.length_cons]
      omega

theorem accountParts_le (text : List Char) : accountParts text ≤ text.length := by
  induction text using accountParts.induct with
  | case1 c rest hUpper length ih =>
      have hPart := (List.takeWhile_sublist (l := rest) isAccountChar).length_le
      change accountParts (rest.drop (rest.takeWhile isAccountChar).length) ≤ _ at ih
      rw [List.length_drop] at ih
      rw [accountParts, if_pos hUpper]
      simp only [List.length_cons]
      omega
  | case2 c rest hUpper =>
      rw [accountParts, if_neg hUpper]
      exact Nat.zero_le _
  | case3 text hText =>
      unfold accountParts
      split
      · next c rest => exact absurd rfl (hText c rest)
      · exact Nat.zero_le _

/-- An account name begins with a root word, and has parts behind it. -/
theorem account?_eq_some (h : account? text = some n) :
    ∃ root ∈ accountRoots, ∃ rest, text = root.toList ++ rest ∧ accountParts rest ≠ 0 ∧
      n = root.toList.length + accountParts rest := by
  obtain ⟨root, hRoot, hFound⟩ := List.exists_of_findSome?_eq_some h
  split at hFound
  · next hPrefix =>
      obtain ⟨rest, hText⟩ := List.isPrefixOf_iff_prefix.1 hPrefix
      rw [← hText, ← String.length_toList, List.drop_left] at hFound
      split at hFound
      · cases hFound
      · next hParts =>
          simp only [Option.some.injEq] at hFound
          exact ⟨root, hRoot, rest, hText.symm, hParts, hFound.symm⟩
  · cases hFound

theorem account?_le (h : account? text = some n) : 0 < n ∧ n ≤ text.length := by
  obtain ⟨root, -, rest, rfl, hParts, rfl⟩ := account?_eq_some h
  have hRest := accountParts_le rest
  rw [List.length_append]
  omega

/-- A currency is a capital letter with more characters behind it. -/
theorem currency?_eq_some (h : currency? text = some n) :
    ∃ c rest, text = c :: rest ∧ c.isUpper = true ∧ rest.takeWhile isCurrencyChar ≠ [] ∧
      n = 1 + (rest.takeWhile isCurrencyChar).length := by
  unfold currency? at h
  split at h
  · next c rest =>
      split at h
      · cases h
      · next hSome =>
          split at h
          · next hUpper =>
              simp only [Option.some.injEq] at h
              exact ⟨c, rest, rfl, hUpper, fun hNone => hSome (by rw [hNone]; rfl), h.symm⟩
          · cases h
  · cases h

theorem currency?_le (h : currency? text = some n) : 0 < n ∧ n ≤ text.length := by
  obtain ⟨c, rest, rfl, -, -, rfl⟩ := currency?_eq_some h
  have hRest := (List.takeWhile_sublist (l := rest) isCurrencyChar).length_le
  rw [List.length_cons]
  omega

/-- A tag is a sign with characters of a name behind it, and so is a link. -/
theorem tagged?_eq_some {sign : Char} (h : tagged? sign text = some n) :
    ∃ rest, text = sign :: rest ∧ rest.takeWhile isTagChar ≠ [] ∧
      n = 1 + (rest.takeWhile isTagChar).length := by
  unfold tagged? at h
  split at h
  · next c rest =>
      split at h
      · cases h
      · next hSome =>
          split at h
          · next hSign =>
              simp only [Option.some.injEq] at h
              exact ⟨rest, by rw [hSign], fun hNone => hSome (by rw [hNone]; rfl), h.symm⟩
          · cases h
  · cases h

theorem tagged?_le {sign : Char} (h : tagged? sign text = some n) : 0 < n ∧ n ≤ text.length := by
  obtain ⟨rest, rfl, -, rfl⟩ := tagged?_eq_some h
  have hRest := (List.takeWhile_sublist (l := rest) isTagChar).length_le
  rw [List.length_cons]
  omega

theorem word?_eq_some {α : Type} {words : List α} {written : α → String} {word : α}
    (h : word? words written text = some (word, n)) :
    word ∈ words ∧ n = (written word).toList.length ∧
      ∃ rest, text = (written word).toList ++ rest := by
  obtain ⟨found, hFind, hEq⟩ := Option.map_eq_some_iff.1 h
  cases hEq
  have hPrefix : (written word).toList.isPrefixOf text = true := by
    simpa using List.find?_some hFind
  obtain ⟨rest, hText⟩ := List.isPrefixOf_iff_prefix.1 hPrefix
  exact ⟨List.mem_of_find?_eq_some hFind, by rw [String.length_toList], rest, hText.symm⟩

theorem newline?_le (h : newline? text = some n) : 0 < n ∧ n ≤ text.length := by
  unfold newline? at h
  split at h
  · cases h
    simp
  · cases h
    simp
  · cases h

theorem comment?_eq_some (h : comment? text = some n) :
    ∃ rest, text = ';' :: rest ∧ n = 1 + (rest.takeWhile isLineChar).length := by
  unfold comment? at h
  split at h
  · next rest =>
      cases h
      exact ⟨rest, rfl, rfl⟩
  · cases h

theorem comment?_le (h : comment? text = some n) : 0 < n ∧ n ≤ text.length := by
  obtain ⟨rest, rfl, rfl⟩ := comment?_eq_some h
  have hRest := (List.takeWhile_sublist (l := rest) isLineChar).length_le
  rw [List.length_cons]
  omega

end

/-! ## Text behind a lexeme -/

section

variable {front back : List Char} {n : Nat}

/-- Where two texts meet in a longer one, a part of it that ends before that is in the first. -/
theorem exists_of_append {w rest : List Char} (h : front ++ back = w ++ rest)
    (hLength : w.length ≤ front.length) : ∃ more, front = w ++ more ∧ rest = more ++ back := by
  rcases List.append_eq_append_iff.1 h with ⟨more, hWord, hBack⟩ | ⟨more, hFront, hRest⟩
  · have hNone : more = [] := by
      rw [hWord, List.length_append] at hLength
      exact List.eq_nil_of_length_eq_zero (by omega)
    subst hNone
    exact ⟨[], by rw [hWord, List.append_nil, List.append_nil], hBack.symm⟩
  · exact ⟨more, hFront, hRest⟩

theorem takeWhile_of_append {p : Char → Bool}
    (h : ((front ++ back).takeWhile p).length ≤ front.length) :
    front.takeWhile p = (front ++ back).takeWhile p := by
  induction front with
  | nil => exact (List.eq_nil_of_length_eq_zero (Nat.le_zero.1 h)).symm
  | cons c front ih =>
      rw [List.cons_append] at h ⊢
      by_cases hc : p c = true
      · rw [List.takeWhile_cons_of_pos hc, List.length_cons, List.length_cons] at h
        rw [List.takeWhile_cons_of_pos hc, List.takeWhile_cons_of_pos hc, ih (by omega)]
      · rw [List.takeWhile_cons_of_neg hc, List.takeWhile_cons_of_neg hc]

theorem groups_of_append (h : groups (front ++ back) ≤ front.length) :
    groups front = groups (front ++ back) := by
  induction front using groups.induct with
  | case1 d₁ d₂ d₃ rest hDigits ih =>
      simp only [List.cons_append, groups, if_pos hDigits, List.length_cons] at h ⊢
      rw [ih (by omega)]
  | case2 d₁ d₂ d₃ rest hDigits =>
      simp only [List.cons_append, groups, if_neg hDigits]
  | case3 front hFront =>
      have hNone : groups front = 0 := by
        unfold groups
        split
        · next d₁ d₂ d₃ rest => exact absurd rfl (hFront d₁ d₂ d₃ rest)
        · rfl
      rw [hNone]
      unfold groups at h ⊢
      split
      · next d₁ d₂ d₃ rest hText =>
          rw [hText] at h
          split
          · next hDigits =>
              simp only [if_pos hDigits] at h
              obtain ⟨more, hMore, -⟩ := exists_of_append (w := [',', d₁, d₂, d₃]) hText
                (by simp only [List.length_cons, List.length_nil]; omega)
              exact absurd hMore (hFront d₁ d₂ d₃ more)
          · rfl
      · rfl

theorem fraction_of_append (h : fraction (front ++ back) ≤ front.length) :
    fraction front = fraction (front ++ back) := by
  cases front with
  | nil =>
      rw [List.nil_append, List.length_nil, Nat.le_zero] at h
      rw [List.nil_append, h]
      rfl
  | cons c rest =>
      by_cases hPoint : c = '.'
      · subst hPoint
        have hDigits : ((rest ++ back).takeWhile isDecimalDigit).length ≤ rest.length := by
          rw [List.cons_append, fraction, List.length_cons] at h
          split at h <;> omega
        rw [List.cons_append, fraction, fraction, takeWhile_of_append hDigits]
      · have hNone (text : List Char) : fraction (c :: text) = 0 := by
          unfold fraction
          split
          · next hText =>
              cases hText
              exact absurd rfl hPoint
          · rfl
        rw [List.cons_append, hNone, hNone]

theorem whole_of_append (h : whole (front ++ back) ≤ front.length) :
    whole front = whole (front ++ back) := by
  have hDigits := takeWhile_of_append (Nat.le_trans (whole_ge (front ++ back)) h)
  have hLength := (List.takeWhile_sublist (l := front) isDecimalDigit).length_le
  unfold whole at h ⊢
  dsimp only at h ⊢
  rw [← hDigits, List.drop_append_of_le_length hLength] at h ⊢
  split
  · next hShort =>
      rw [if_pos hShort] at h
      rw [groups_of_append]
      rw [List.length_drop]
      omega
  · rfl

/-- What is read in front of a place does not depend on what stands behind it. -/
def Local (f? : List Char → Option Nat) : Prop :=
  ∀ front back, (∀ n, f? (front ++ back) = some n → n ≤ front.length) →
    f? front = f? (front ++ back)

theorem local_date? : Local date? := by
  intro front back h
  by_cases hShort : front.length < 10
  · have hNone (text : List Char) (hText : ∀ n, date? text = some n → n < 10) :
        date? text = none := by
      cases hDate : date? text with
      | none => rfl
      | some n =>
          have hTen := date?_eq_some hDate
          have hLess := hText n hDate
          omega
    rw [hNone front, hNone (front ++ back)]
    · intro n hn
      have hLess := h n hn
      omega
    · intro n hn
      have hTen := date?_eq_some hn
      omega
  · match front with
    | _ :: _ :: _ :: _ :: _ :: _ :: _ :: _ :: _ :: _ :: _ => rfl
    | [] | [_] | [_, _] | [_, _, _] | [_, _, _, _] | [_, _, _, _, _] | [_, _, _, _, _, _]
    | [_, _, _, _, _, _, _] | [_, _, _, _, _, _, _, _] | [_, _, _, _, _, _, _, _, _] =>
        exact absurd (by simp) hShort

theorem local_unsigned? : Local unsigned? := by
  intro front back h
  have hEq := unsigned?_eq (front ++ back)
  by_cases hNone : ((front ++ back).takeWhile isDecimalDigit).length = 0
  · have hDigits := takeWhile_of_append (p := isDecimalDigit) (by rw [hNone]; exact Nat.zero_le _)
    rw [unsigned?_eq, unsigned?_eq, ← hDigits, if_pos (by rw [hDigits]; exact hNone),
      if_pos (by rw [hDigits]; exact hNone)]
  · obtain ⟨n, hn⟩ : ∃ n, unsigned? (front ++ back) = some n := by
      rw [hEq, if_neg hNone]
      split
      · exact ⟨_, rfl⟩
      · split
        · exact ⟨_, rfl⟩
        · exact ⟨_, rfl⟩
    have hLength := h n hn
    have hWhole : whole (front ++ back) ≤ front.length :=
      Nat.le_trans (unsigned?_eq_some hn).2.1 hLength
    have hDigits := takeWhile_of_append (Nat.le_trans (whole_ge (front ++ back)) hWhole)
    have hSame := whole_of_append hWhole
    have hDrop : (front ++ back).drop (whole (front ++ back)) =
        front.drop (whole front) ++ back := by
      rw [← hSame]
      exact List.drop_append_of_le_length (by omega)
    have hRest : (front.drop (whole front)).length = front.length - whole front :=
      List.length_drop
    rw [unsigned?_eq front, hEq, hDigits, hDrop, ← hSame]
    rw [hEq, hDrop, ← hSame, if_neg hNone] at h
    generalize front.drop (whole front) = behind at h hRest ⊢
    -- The fraction, or the comma in its place, ends before the cut as well.
    have hFraction : fraction (behind ++ back) ≤ behind.length := by
      by_cases hZero : fraction (behind ++ back) = 0
      · omega
      · rw [if_pos hZero] at h
        have hEnd := h _ rfl
        omega
    rw [fraction_of_append hFraction]
    by_cases hZero : fraction (behind ++ back) = 0
    · rw [if_neg (by simp [hZero])] at h
      cases behind with
      | cons c behind => rfl
      | nil =>
          have hComma : ¬ (((front ++ back).takeWhile isDecimalDigit).length ≤ 3 ∧
              ([] ++ back).head? = some ',') := by
            intro hComma
            rw [if_pos hComma] at h
            have hEnd := h _ rfl
            rw [List.length_nil] at hRest
            omega
          have hNil : ¬ (((front ++ back).takeWhile isDecimalDigit).length ≤ 3 ∧
              ([] : List Char).head? = some ',') := by simp
          rw [if_neg hComma, if_neg hNil]
    · rw [if_pos hZero, if_pos hZero]

theorem local_number? : Local number? := by
  intro front back h
  -- A dash in front of both texts, or in front of neither.
  cases front with
  | nil =>
      have hNone : number? ([] ++ back) = none := by
        cases hNumber : number? ([] ++ back) with
        | none => rfl
        | some n =>
            have hEnd := h n hNumber
            have hPos := number?_eq_some hNumber
            rw [List.length_nil] at hEnd
            omega
      rw [hNone]
      rfl
  | cons c rest =>
      by_cases hMinus : c = '-'
      · subst hMinus
        rw [List.cons_append] at h ⊢
        rw [number?, number?, local_unsigned? rest back]
        intro n hn
        have hEnd := h (n + 1) (by rw [number?, hn]; rfl)
        rw [List.length_cons] at hEnd
        omega
      · have hPlain (text : List Char) : number? (c :: text) = unsigned? (c :: text) := by
          unfold number?
          split
          · next hText =>
              cases hText
              exact absurd rfl hMinus
          · rfl
        rw [List.cons_append] at h ⊢
        rw [hPlain] at h ⊢
        rw [hPlain]
        exact local_unsigned? (c :: rest) back h

theorem accountParts_of_append (h : accountParts (front ++ back) ≤ front.length) :
    accountParts front = accountParts (front ++ back) := by
  induction front using accountParts.induct with
  | case1 c rest hUpper length ih =>
      change accountParts (rest.drop (rest.takeWhile isAccountChar).length ++ back) ≤ _ →
        accountParts (rest.drop (rest.takeWhile isAccountChar).length) = _ at ih
      have hWhole : accountParts (':' :: c :: (rest ++ back)) =
          2 + ((rest ++ back).takeWhile isAccountChar).length +
            accountParts ((rest ++ back).drop ((rest ++ back).takeWhile isAccountChar).length) := by
        rw [accountParts, if_pos hUpper]
      rw [List.cons_append, List.cons_append, hWhole, List.length_cons, List.length_cons] at h
      have hPart : rest.takeWhile isAccountChar = (rest ++ back).takeWhile isAccountChar :=
        takeWhile_of_append (by omega)
      have hLength := (List.takeWhile_sublist (l := rest) isAccountChar).length_le
      have hDrop : (rest ++ back).drop (rest.takeWhile isAccountChar).length =
          rest.drop (rest.takeWhile isAccountChar).length ++ back :=
        List.drop_append_of_le_length hLength
      rw [← hPart, hDrop] at h hWhole
      rw [List.cons_append, List.cons_append, hWhole, accountParts, if_pos hUpper]
      dsimp only
      rw [ih]
      rw [List.length_drop]
      omega
  | case2 c rest hUpper =>
      rw [List.cons_append, List.cons_append, accountParts, accountParts, if_neg hUpper,
        if_neg hUpper]
  | case3 front hFront =>
      have hNone : accountParts front = 0 := by
        unfold accountParts
        split
        · next c rest => exact absurd rfl (hFront c rest)
        · rfl
      rw [hNone]
      unfold accountParts
      split
      · next c rest hText =>
          split
          · next hUpper =>
              rw [hText, accountParts, if_pos hUpper] at h
              dsimp only at h
              obtain ⟨more, hMore, -⟩ := exists_of_append (w := [':', c]) hText
                (by simp only [List.length_cons, List.length_nil]; omega)
              exact absurd hMore (hFront c more)
          · rfl
      · rfl

theorem accountParts_ne_zero {text : List Char} :
    accountParts text ≠ 0 ↔ ∃ c rest, text = ':' :: c :: rest ∧ c.isUpper = true := by
  constructor
  · intro hParts
    unfold accountParts at hParts
    split at hParts
    · next c rest =>
        split at hParts
        · next hUpper => exact ⟨c, rest, rfl, hUpper⟩
        · exact absurd rfl hParts
    · exact absurd rfl hParts
  · rintro ⟨c, rest, rfl, hUpper⟩
    rw [accountParts, if_pos hUpper]
    dsimp only
    omega

theorem local_account? : Local account? := by
  intro front back h
  cases hAccount : account? (front ++ back) with
  | some n =>
      have hEnd := h n hAccount
      obtain ⟨root, hRoot, rest, hText, hParts, rfl⟩ := account?_eq_some hAccount
      obtain ⟨more, rfl, rfl⟩ := exists_of_append hText (by omega)
      rw [List.length_append] at hEnd
      have hSame : accountParts more = accountParts (more ++ back) :=
        accountParts_of_append (by omega)
      rw [account?_of_root hRoot (by rw [hSame]; exact hParts), hSame]
  | none =>
      cases hFront : account? front with
      | none => rfl
      | some n =>
          obtain ⟨root, hRoot, rest, rfl, hParts, -⟩ := account?_eq_some hFront
          obtain ⟨c, others, rfl, hUpper⟩ := accountParts_ne_zero.1 hParts
          have hLonger : accountParts (':' :: c :: others ++ back) ≠ 0 :=
            accountParts_ne_zero.2 ⟨c, others ++ back, rfl, hUpper⟩
          rw [List.append_assoc, account?_of_root hRoot hLonger] at hAccount
          cases hAccount

/-- A first character of one class, and at least one behind it of another. -/
theorem local_of_leading {f? : List Char → Option Nat} (isFirst p : Char → Bool)
    (hNil : f? [] = none)
    (hCons : ∀ c rest, f? (c :: rest) = if rest.takeWhile p ≠ [] ∧ isFirst c then
      some (1 + (rest.takeWhile p).length) else none) : Local f? := by
  intro front back h
  cases front with
  | nil =>
      rw [hNil]
      cases back with
      | nil => exact hNil.symm
      | cons c rest =>
          rw [List.nil_append, hCons] at h ⊢
          split
          · next hSome =>
              rw [if_pos hSome] at h
              have hEnd := h _ rfl
              rw [List.length_nil] at hEnd
              omega
          · rfl
  | cons c rest =>
      rw [List.cons_append, hCons] at h ⊢
      rw [hCons]
      by_cases hFirst : isFirst c = true
      · have hRun : ((rest ++ back).takeWhile p).length ≤ rest.length := by
          by_cases hNone : (rest ++ back).takeWhile p = []
          · rw [hNone]
            exact Nat.zero_le _
          · rw [if_pos ⟨hNone, hFirst⟩] at h
            have hEnd := h _ rfl
            rw [List.length_cons] at hEnd
            omega
        rw [takeWhile_of_append hRun]
      · rw [if_neg (fun hBoth => hFirst hBoth.2), if_neg (fun hBoth => hFirst hBoth.2)]

theorem local_currency? : Local currency? := by
  refine local_of_leading Char.isUpper isCurrencyChar rfl fun c rest => ?_
  rw [currency?]
  split
  · next hZero => rw [if_neg (fun hBoth => hBoth.1 (List.eq_nil_of_length_eq_zero hZero))]
  · next hSome =>
      have hRun : rest.takeWhile isCurrencyChar ≠ [] := fun hNone => hSome (by rw [hNone]; rfl)
      simp only [hRun, ne_eq, not_false_eq_true, true_and]

theorem local_tagged? (sign : Char) : Local (tagged? sign) := by
  refine local_of_leading (fun c => c = sign) isTagChar rfl fun c rest => ?_
  rw [tagged?]
  split
  · next hZero => rw [if_neg (fun hBoth => hBoth.1 (List.eq_nil_of_length_eq_zero hZero))]
  · next hSome =>
      have hRun : rest.takeWhile isTagChar ≠ [] := fun hNone => hSome (by rw [hNone]; rfl)
      simp only [hRun, ne_eq, not_false_eq_true, true_and, decide_eq_true_eq]

theorem local_newline? : Local newline? := by
  intro front back h
  have hPlain {c : Char} (text : List Char) (hLine : c ≠ '\n') (hReturn : c ≠ '\r') :
      newline? (c :: text) = none := by
    simp [newline?, hLine, hReturn]
  cases front with
  | nil =>
      cases hNewline : newline? ([] ++ back) with
      | none => rfl
      | some n =>
          have hEnd := h n hNewline
          have hPos := newline?_le hNewline
          rw [List.length_nil] at hEnd
          omega
  | cons c rest =>
      by_cases hLine : c = '\n'
      · rw [hLine]
        rfl
      · by_cases hReturn : c = '\r'
        · subst hReturn
          cases rest with
          | cons d others =>
              by_cases hFeed : d = '\n'
              · rw [hFeed]
                rfl
              · simp [newline?, hFeed]
          | nil =>
              cases back with
              | nil => rfl
              | cons d others =>
                  by_cases hFeed : d = '\n'
                  · subst hFeed
                    exact absurd (h 2 rfl) (by simp)
                  · simp [newline?, hFeed]
        · rw [List.cons_append, hPlain _ hLine hReturn, hPlain _ hLine hReturn]

theorem local_comment? : Local comment? := by
  intro front back h
  have hPlain {c : Char} (text : List Char) (hSign : c ≠ ';') : comment? (c :: text) = none := by
    simp [comment?, hSign]
  cases front with
  | nil =>
      cases hComment : comment? ([] ++ back) with
      | none => rfl
      | some n =>
          have hEnd := h n hComment
          have hPos := comment?_le hComment
          rw [List.length_nil] at hEnd
          omega
  | cons c rest =>
      by_cases hSign : c = ';'
      · subst hSign
        have hEnd := h (1 + ((rest ++ back).takeWhile isLineChar).length) rfl
        rw [List.length_cons] at hEnd
        have hRun : rest.takeWhile isLineChar = (rest ++ back).takeWhile isLineChar :=
          takeWhile_of_append (by omega)
        rw [List.cons_append, comment?, comment?, hRun]
      · rw [List.cons_append, hPlain _ hSign, hPlain _ hSign]

/-- The same for a word out of a list. -/
theorem word?_of_append {α : Type} {words : List α} {written : α → String}
    (h : ∀ word n, word? words written (front ++ back) = some (word, n) → n ≤ front.length) :
    word? words written front = word? words written (front ++ back) := by
  have hLonger (word : α) (hPrefix : (written word).toList.isPrefixOf front = true) :
      (written word).toList.isPrefixOf (front ++ back) = true := by
    rw [List.isPrefixOf_iff_prefix] at hPrefix ⊢
    exact hPrefix.trans (List.prefix_append _ _)
  cases hFind : words.find? fun word => (written word).toList.isPrefixOf (front ++ back) with
  | none =>
      rw [word?, word?, hFind]
      rw [List.find?_eq_none] at hFind
      have hNone : (words.find? fun word => (written word).toList.isPrefixOf front) = none := by
        rw [List.find?_eq_none]
        exact fun word hWord hPrefix => hFind word hWord (hLonger word hPrefix)
      rw [hNone]
  | some word =>
      have hEnd := h word (written word).length (by rw [word?, hFind]; rfl)
      rw [word?, word?, hFind]
      obtain ⟨hPrefix, before, after, hWords, hBefore⟩ := List.find?_eq_some_iff_append.1 hFind
      obtain ⟨rest, hText⟩ := List.isPrefixOf_iff_prefix.1 hPrefix
      obtain ⟨more, hFront, -⟩ := exists_of_append hText.symm
        (by rw [String.length_toList]; exact hEnd)
      have hFound : (words.find? fun word => (written word).toList.isPrefixOf front) =
          some word := by
        rw [List.find?_eq_some_iff_append]
        refine ⟨?_, before, after, hWords, fun other hOther => ?_⟩
        · rw [List.isPrefixOf_iff_prefix]
          exact ⟨more, hFront.symm⟩
        · have hNot := hBefore other hOther
          rw [Bool.not_eq_true'] at hNot ⊢
          rw [← Bool.not_eq_true] at hNot ⊢
          exact fun hPrefix => hNot (hLonger other hPrefix)
      rw [hFound]

/-- A literal that ends has at least its closing quote. -/
theorem literal_pos {text : List Char} (h : (literal text).1 = true) : 0 < (literal text).2 := by
  induction text using literal_induction with
  | nil => cases h
  | quote rest => exact Nat.one_pos
  | alone => cases h
  | escaped c rest ih =>
      rw [literal_escaped] at h ⊢
      split
      · next hLine =>
          rw [if_pos hLine] at h
          cases h
      · exact Nat.succ_pos _
  | plain c rest hQuote hEscape ih =>
      rw [literal_plain rest hQuote hEscape]
      exact Nat.succ_pos _

theorem literal_of_append (hClosed : (literal (front ++ back)).1 = true)
    (hEnd : (literal (front ++ back)).2 ≤ front.length) :
    literal front = literal (front ++ back) := by
  induction front using literal_induction with
  | nil =>
      have hPos := literal_pos hClosed
      rw [List.length_nil] at hEnd
      omega
  | quote rest => rfl
  | alone =>
      -- The backslash would need another character, which is behind the cut.
      cases back with
      | nil => rfl
      | cons c rest =>
          rw [List.cons_append, List.nil_append, literal_escaped] at hClosed hEnd
          split at hClosed
          · cases hClosed
          · next hLine =>
              rw [if_neg hLine] at hEnd
              simp only [List.length_cons, List.length_nil] at hEnd
              omega
  | escaped c rest ih =>
      rw [List.cons_append, List.cons_append, literal_escaped] at hClosed hEnd ⊢
      rw [literal_escaped]
      split
      · rfl
      · next hLine =>
          rw [if_neg hLine] at hClosed hEnd
          simp only [List.length_cons] at hEnd
          rw [ih hClosed (by omega)]
  | plain c rest hQuote hEscape ih =>
      rw [List.cons_append, literal_plain _ hQuote hEscape] at hClosed hEnd ⊢
      rw [literal_plain _ hQuote hEscape]
      simp only [List.length_cons] at hEnd
      rw [ih hClosed (by omega)]

/-! ## The longest lexeme -/

/-- A class of lexemes: they have characters, end within the text, and do not depend on what stands
behind them. -/
structure IsClass (read? : List Char → Option (Shape × Nat)) : Prop where
  bounds : ∀ {text found}, read? text = some found → 0 < found.2 ∧ found.2 ≤ text.length
  cut : ∀ {front back}, (∀ found, read? (front ++ back) = some found → found.2 ≤ front.length) →
    read? front = read? (front ++ back)

theorem IsClass.of_local {f? : List Char → Option Nat} (shape : Shape)
    (hBounds : ∀ {text n}, f? text = some n → 0 < n ∧ n ≤ text.length) (hLocal : Local f?) :
    IsClass fun text => (f? text).map (shape, ·) where
  bounds := by
    intro text found hFound
    obtain ⟨n, hn, rfl⟩ := Option.map_eq_some_iff.1 hFound
    exact hBounds hn
  cut := by
    intro front back h
    rw [hLocal front back fun n hn => h (shape, n) (by rw [hn]; rfl)]

theorem IsClass.of_words {α : Type} {words : List α} {written : α → String} (shape : α → Shape)
    (hSome : ∀ word ∈ words, (written word).toList ≠ []) :
    IsClass fun text => (word? words written text).map fun word => (shape word.1, word.2) where
  bounds := by
    intro text found hFound
    obtain ⟨⟨word, n⟩, hn, rfl⟩ := Option.map_eq_some_iff.1 hFound
    obtain ⟨hWord, rfl, rest, rfl⟩ := word?_eq_some hn
    have hLength := List.length_pos_iff.2 (hSome word hWord)
    rw [List.length_append]
    omega
  cut := by
    intro front back h
    rw [word?_of_append fun word n hn => h (shape word, n) (by rw [hn]; rfl)]

/-- The first class of a list that has a lexeme here. -/
theorem IsClass.findSome? {classes : List (List Char → Option (Shape × Nat))}
    (h : ∀ read? ∈ classes, IsClass read?) :
    IsClass fun text => classes.findSome? fun read? => read? text where
  bounds := by
    intro text found hFound
    obtain ⟨read?, hMem, hRead⟩ := List.exists_of_findSome?_eq_some hFound
    exact (h read? hMem).bounds hRead
  cut := by
    intro front back hEnd
    induction classes with
    | nil => rfl
    | cons read? others ih =>
        have hFirst : read? front = read? (front ++ back) := by
          refine (h read? List.mem_cons_self).cut fun found hFound => hEnd found ?_
          rw [List.findSome?_cons, hFound]
        rw [List.findSome?_cons, List.findSome?_cons, hFirst]
        cases hRead : read? (front ++ back) with
        | some found => rfl
        | none =>
            refine ih (fun other hOther => h other (List.mem_cons_of_mem _ hOther)) ?_
            intro found hFound
            refine hEnd found ?_
            rw [List.findSome?_cons, hRead]
            exact hFound

/-- The classes that are told by more than their first character, in the order in which they are
tried. -/
def classes : List (List Char → Option (Shape × Nat)) :=
  [fun text => (date? text).map (.date, ·),
   fun text => (number? text).map (.number, ·),
   fun text => (account? text).map (.account, ·),
   fun text => (currency? text).map (.currency, ·),
   fun text => (tagged? '#' text).map (.tag, ·),
   fun text => (tagged? '^' text).map (.link, ·),
   fun text => (word? Keyword.all Keyword.text text).map fun word => (.keyword word.1, word.2),
   fun text => (word? Mark.all Mark.text text).map fun word => (.mark word.1, word.2),
   fun text => (newline? text).map (.newline, ·),
   fun text => (comment? text).map (.comment, ·)]

/-- The first of the classes that has a lexeme here. -/
def classed? (text : List Char) : Option (Shape × Nat) :=
  classes.findSome? fun read? => read? text

/-- What is read where none of the classes has a lexeme: a string literal, a flag, or an error. -/
def unclassed : List Char → Shape × Nat
  | '"' :: rest => (if (literal rest).1 then .string else .unknown, (literal rest).2 + 1)
  | c :: _ => (if flagChars.contains c then .flag else .unknown, 1)
  | [] => (.unknown, 1)

/-- A literal is tried first where none of the classes has a lexeme. -/
theorem unclassed_eq (text : List Char) : unclassed text =
    match text with
    | '"' :: rest =>
        let (closed, length) := literal rest
        (if closed then .string else .unknown, length + 1)
    | c :: _ => (if flagChars.contains c then .flag else .unknown, 1)
    | [] => (.unknown, 1) := by
  unfold unclassed
  split <;> rfl

/-- The classes are tried one by one. -/
theorem scan_eq (text : List Char) : scan text = (classed? text).getD (unclassed text) := by
  rw [unclassed_eq]
  unfold scan classed?
  simp only [classes, List.findSome?_cons, List.findSome?_nil]
  cases date? text with
  | some n => rfl
  | none =>
  cases number? text with
  | some n => rfl
  | none =>
  cases account? text with
  | some n => rfl
  | none =>
  cases currency? text with
  | some n => rfl
  | none =>
  cases tagged? '#' text with
  | some n => rfl
  | none =>
  cases tagged? '^' text with
  | some n => rfl
  | none =>
  cases word? Keyword.all Keyword.text text with
  | some found => rfl
  | none =>
  cases word? Mark.all Mark.text text with
  | some found => rfl
  | none =>
  cases newline? text with
  | some n => rfl
  | none =>
  cases comment? text with
  | some n => rfl
  | none => rfl

theorem isClass_classed? : IsClass classed? := by
  refine .findSome? ?_
  simp only [classes, List.forall_mem_cons]
  refine ⟨.of_local _ ?_ local_date?, .of_local _ number?_eq_some local_number?,
    .of_local _ account?_le local_account?, .of_local _ currency?_le local_currency?,
    .of_local _ tagged?_le (local_tagged? '#'), .of_local _ tagged?_le (local_tagged? '^'),
    .of_words _ (by decide), .of_words _ (by decide), .of_local _ newline?_le local_newline?,
    .of_local _ comment?_le local_comment?, List.forall_mem_nil _⟩
  intro text n hDate
  obtain ⟨rfl, hLength⟩ := date?_eq_some hDate
  exact ⟨by decide, hLength⟩

theorem unclassed_quote (rest : List Char) : unclassed ('"' :: rest) =
    (if (literal rest).1 then .string else .unknown, (literal rest).2 + 1) := rfl

theorem unclassed_plain {c : Char} (rest : List Char) (hQuote : c ≠ '"') :
    unclassed (c :: rest) = (if flagChars.contains c then .flag else .unknown, 1) := by
  unfold unclassed
  split
  · next hText =>
      cases hText
      exact absurd rfl hQuote
  · next hText =>
      cases hText
      rfl
  · next hText => cases hText

/-- A lexeme has at least one character, and ends within its text. -/
theorem scan_bounds {text : List Char} (hText : text ≠ []) :
    0 < (scan text).2 ∧ (scan text).2 ≤ text.length := by
  rw [scan_eq]
  cases hFound : classed? text with
  | some found => exact isClass_classed?.bounds hFound
  | none =>
      obtain ⟨c, rest, rfl⟩ := List.exists_cons_of_ne_nil hText
      rw [Option.getD_none]
      by_cases hQuote : c = '"'
      · subst hQuote
        have hLiteral := literal_le rest
        rw [unclassed_quote, List.length_cons]
        omega
      · rw [unclassed_plain rest hQuote, List.length_cons]
        omega

/-- A lexeme is read no matter what stands behind it: none of the classes that were ruled out in the
longer text becomes possible in the shorter one. -/
theorem scan_of_append (hKnown : (scan (front ++ back)).1 ≠ .unknown)
    (hEnd : (scan (front ++ back)).2 ≤ front.length) : scan front = scan (front ++ back) := by
  rw [scan_eq] at hKnown hEnd
  have hSame : classed? front = classed? (front ++ back) := by
    refine isClass_classed?.cut fun found hFound => ?_
    rw [hFound] at hEnd
    exact hEnd
  rw [scan_eq, scan_eq, hSame]
  cases hFound : classed? (front ++ back) with
  | some found => rfl
  | none =>
      rw [hFound, Option.getD_none] at hKnown hEnd
      rw [Option.getD_none, Option.getD_none]
      match front with
      | [] =>
          -- In front of the cut there is no room for a lexeme.
          have hZero : (unclassed back).2 = 0 := Nat.le_zero.1 hEnd
          unfold unclassed at hZero
          split at hZero
          · exact absurd hZero (Nat.succ_ne_zero _)
          · exact absurd hZero Nat.one_ne_zero
          · exact absurd hZero Nat.one_ne_zero
      | c :: rest =>
          rw [List.cons_append] at hKnown hEnd ⊢
          by_cases hQuote : c = '"'
          · subst hQuote
            rw [unclassed_quote] at hKnown hEnd ⊢
            have hClosed : (literal (rest ++ back)).1 = true := by
              by_cases hClosed : (literal (rest ++ back)).1 = true
              · exact hClosed
              · rw [if_neg hClosed] at hKnown
                exact absurd rfl hKnown
            rw [List.length_cons] at hEnd
            rw [unclassed_quote, literal_of_append hClosed (by omega)]
          · rw [unclassed_plain _ hQuote, unclassed_plain _ hQuote]

end

end LedgerText.Lexeme
