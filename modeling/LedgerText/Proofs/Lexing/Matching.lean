import LedgerText.Proofs.Lexing.Classes
import LedgerText.Proofs.Lexing.Patterns

/-!
# Reading the texts of a pattern

What is read of a class of lexemes is compared with its pattern in both
directions: it is a text of the language (`Sound`), and no text of the language
that the input begins with is longer (`Covers`).
-/

namespace LedgerText

open Pattern
open scoped Computability

/-! ## What is read of a language -/

namespace Lexeme



/-- What is read is a text of the language. -/
def Sound (f? : List Char → Option Nat) (L : Language Char) : Prop :=
  ∀ text n, f? text = some n → text.take n ∈ L

/-- Where the input begins with a text of the language, that one is read, or a longer one. -/
def Covers (f? : List Char → Option Nat) (L : Language Char) : Prop :=
  ∀ w ∈ L, ∀ rest, ∃ n, f? (w ++ rest) = some n ∧ w.length ≤ n

theorem le_takeWhile {p : Char → Bool} {w : List Char} (h : ∀ c ∈ w, p c = true)
    (rest : List Char) : w.length ≤ ((w ++ rest).takeWhile p).length := by
  rw [List.takeWhile_append_of_pos h, List.length_append]
  exact Nat.le_add_right _ _

/-! ### Dates -/

theorem isSeparator_iff {c : Char} : c = '-' ∨ c = '/' ↔ c ∈ among "-/" := by
  simp [among]

theorem sound_date : Sound date? Pattern.date.language := by
  intro text n h
  unfold date? at h
  split at h
  · next y₁ y₂ y₃ y₄ s₁ m₁ m₂ s₂ d₁ d₂ rest =>
      split at h
      · next hChars =>
          cases h
          simp only [List.all_cons, List.all_nil, Bool.and_true, Bool.and_eq_true,
            decide_eq_true_eq, isSeparator_iff] at hChars
          obtain ⟨⟨hY₁, hY₂, hY₃, hY₄, hM₁, hM₂, hD₁, hD₂⟩, hS₁, hS₂⟩ := hChars
          have hYear : [y₁, y₂, y₃, y₄] ∈ digit ^ 4 :=
            mem_one_pow.2 ⟨rfl, by simp [hY₁, hY₂, hY₃, hY₄]⟩
          have hMonth : [m₁, m₂] ∈ digit ^ 2 := mem_one_pow.2 ⟨rfl, by simp [hM₁, hM₂]⟩
          have hDay : [d₁, d₂] ∈ digit ^ 2 := mem_one_pow.2 ⟨rfl, by simp [hD₁, hD₂]⟩
          have hFirst : [s₁] ∈ one (among "-/") := ⟨s₁, hS₁, rfl⟩
          have hSecond : [s₂] ∈ one (among "-/") := ⟨s₂, hS₂, rfl⟩
          have hFront := Language.append_mem_mul (Language.append_mem_mul hYear hFirst) hMonth
          exact Language.append_mem_mul (Language.append_mem_mul hFront hSecond) hDay
      · cases h
  · cases h

theorem covers_date : Covers date? Pattern.date.language := by
  rintro w ⟨_, ⟨_, ⟨_, ⟨years, hYears, _, ⟨s₁, hS₁, rfl⟩, rfl⟩, months, hMonths, rfl⟩,
    _, ⟨s₂, hS₂, rfl⟩, rfl⟩, days, hDays, rfl⟩ rest
  obtain ⟨hY, hYears⟩ := mem_one_pow.1 hYears
  obtain ⟨hM, hMonths⟩ := mem_one_pow.1 hMonths
  obtain ⟨hD, hDays⟩ := mem_one_pow.1 hDays
  match years, months, days, hY, hM, hD with
  | [y₁, y₂, y₃, y₄], [m₁, m₂], [d₁, d₂], _, _, _ =>
      refine ⟨10, ?_, Nat.le_refl 10⟩
      rw [← isSeparator_iff] at hS₁ hS₂
      simp only [List.forall_mem_cons, Set.mem_ofPred_eq] at hYears hMonths hDays
      simp [date?, hYears, hMonths, hDays, hS₁, hS₂]

/-! ### Names -/

theorem sound_currency : Sound currency? Pattern.currency.language := by
  intro text n h
  obtain ⟨c, rest, rfl, hUpper, hSome, rfl⟩ := currency?_eq_some h
  rw [Nat.add_comm, List.take_succ_cons, take_length_takeWhile]
  refine Language.append_mem_mul (a := [c]) ⟨c, isUpper_iff.1 hUpper, rfl⟩
    (mem_several_one.2 ⟨hSome, fun d hd => ?_⟩)
  exact isCurrencyChar_iff.1 (List.all_eq_true.1 List.all_takeWhile d hd)

theorem covers_currency : Covers currency? Pattern.currency.language := by
  rintro w ⟨_, ⟨c, hUpper, rfl⟩, others, hOthers, rfl⟩ rest
  obtain ⟨hSome, hAll⟩ := mem_several_one.1 hOthers
  have hRun := le_takeWhile (p := isCurrencyChar) (fun d hd => isCurrencyChar_iff.2 (hAll d hd)) rest
  have hLength := List.length_pos_iff.2 hSome
  refine ⟨1 + ((others ++ rest).takeWhile isCurrencyChar).length, ?_, ?_⟩
  · show currency? (c :: (others ++ rest)) = _
    rw [currency?]
    split
    · omega
    · exact if_pos (isUpper_iff.2 hUpper)
  · simp only [List.singleton_append, List.length_cons]
    omega

/-- The texts of tags and links, which differ in their sign. -/
def tagLanguage (sign : Char) : Language Char :=
  {[sign]} * several (one (alphanumeric ∪ among "_/.-"))

theorem sound_tagged (sign : Char) : Sound (tagged? sign) (tagLanguage sign) := by
  intro text n h
  obtain ⟨rest, rfl, hSome, rfl⟩ := tagged?_eq_some h
  rw [Nat.add_comm, List.take_succ_cons, take_length_takeWhile]
  refine Language.append_mem_mul (a := [sign]) rfl (mem_several_one.2 ⟨hSome, fun d hd => ?_⟩)
  exact isTagChar_iff.1 (List.all_eq_true.1 List.all_takeWhile d hd)

theorem covers_tagged (sign : Char) : Covers (tagged? sign) (tagLanguage sign) := by
  rintro w ⟨_, rfl, others, hOthers, rfl⟩ rest
  obtain ⟨hSome, hAll⟩ := mem_several_one.1 hOthers
  have hRun := le_takeWhile (p := isTagChar) (fun d hd => isTagChar_iff.2 (hAll d hd)) rest
  have hLength := List.length_pos_iff.2 hSome
  refine ⟨1 + ((others ++ rest).takeWhile isTagChar).length, ?_, ?_⟩
  · show tagged? sign (sign :: (others ++ rest)) = _
    rw [tagged?]
    split
    · omega
    · exact if_pos rfl
  · simp only [List.singleton_append, List.length_cons]
    omega

/-- The texts of the parts of an account name. -/
def partLanguage : Language Char :=
  word ":" * one (upTo 'A' 'Z') * (one (alphanumeric ∪ among "-"))∗

theorem mem_partLanguage {w : List Char} : w ∈ partLanguage ↔
    ∃ c run, w = ':' :: c :: run ∧ c.isUpper = true ∧ run.all isAccountChar = true := by
  constructor
  · rintro ⟨_, ⟨_, rfl, _, ⟨c, hUpper, rfl⟩, rfl⟩, run, hRun, rfl⟩
    refine ⟨c, run, rfl, isUpper_iff.2 hUpper, List.all_eq_true.2 fun d hd => ?_⟩
    exact isAccountChar_iff.2 (mem_one_kstar.1 hRun d hd)
  · rintro ⟨c, run, rfl, hUpper, hRun⟩
    refine Language.append_mem_mul (a := [':', c]) ?_ (mem_one_kstar.2 fun d hd => ?_)
    · exact Language.append_mem_mul (a := [':']) rfl ⟨c, isUpper_iff.1 hUpper, rfl⟩
    · exact isAccountChar_iff.1 (List.all_eq_true.1 hRun d hd)

theorem mem_accountRoots {w : List Char} :
    w ∈ word "Assets" + word "Liabilities" + word "Equity" + word "Income" + word "Expenses" ↔
      ∃ root ∈ accountRoots, w = root.toList := by
  simp only [Language.mem_add, mem_word, accountRoots, List.exists_mem_cons_iff,
    List.not_mem_nil, false_and, exists_false, or_false, or_assoc]

theorem mem_several {L : Language Char} {w : List Char} :
    w ∈ several L ↔ ∃ texts ≠ [], w = texts.flatten ∧ ∀ t ∈ texts, t ∈ L := by
  constructor
  · rintro ⟨first, hFirst, _, ⟨texts, rfl, hTexts⟩, rfl⟩
    exact ⟨first :: texts, List.cons_ne_nil _ _, rfl, List.forall_mem_cons.2 ⟨hFirst, hTexts⟩⟩
  · rintro ⟨texts, hSome, rfl, hTexts⟩
    obtain ⟨first, others, rfl⟩ := List.exists_cons_of_ne_nil hSome
    obtain ⟨hFirst, hOthers⟩ := List.forall_mem_cons.1 hTexts
    exact Language.append_mem_mul hFirst (Language.join_mem_kstar hOthers)

theorem sound_account : Sound account? Pattern.account.language := by
  intro text n h
  obtain ⟨root, hRoot, rest, rfl, hParts, rfl⟩ := account?_eq_some h
  obtain ⟨parts, hEach, hText⟩ := exists_parts rest
  rw [List.take_length_add_append, hText]
  refine Language.append_mem_mul (mem_accountRoots.2 ⟨root, hRoot, rfl⟩) (mem_several.2 ?_)
  refine ⟨parts.map fun part => ':' :: part.1 :: part.2, ?_, rfl, ?_⟩
  · intro hNone
    rw [List.map_eq_nil_iff] at hNone
    obtain ⟨c, others, rfl, -⟩ := accountParts_ne_zero.1 hParts
    rw [hNone, partsText, List.flatMap_nil, List.take_eq_nil_iff] at hText
    rcases hText with hZero | hNil
    · exact hParts hZero
    · cases hNil
  · intro t ht
    obtain ⟨part, hPart, rfl⟩ := List.mem_map.1 ht
    exact mem_partLanguage.2 ⟨part.1, part.2, rfl, hEach part hPart⟩

/-- A part goes on up to the colon of the next one; the last one may go on behind the text. -/
theorem le_accountParts {texts : List (List Char)} (h : ∀ t ∈ texts, t ∈ partLanguage)
    (rest : List Char) : texts.flatten.length ≤ accountParts (texts.flatten ++ rest) := by
  induction texts with
  | nil => exact Nat.zero_le _
  | cons t texts ih =>
      obtain ⟨hFirst, hOthers⟩ := List.forall_mem_cons.1 h
      obtain ⟨c, run, rfl, hUpper, hRun⟩ := mem_partLanguage.1 hFirst
      have hMore := ih hOthers
      have hText : ((':' :: c :: run) :: texts).flatten ++ rest =
          ':' :: c :: (run ++ (texts.flatten ++ rest)) := by simp
      have hLength : ((':' :: c :: run) :: texts).flatten.length =
          2 + run.length + texts.flatten.length := by
        simp only [List.flatten_cons, List.length_append, List.length_cons]
        omega
      rw [hText, hLength, accountParts, if_pos hUpper]
      cases texts with
      | nil =>
          have hEnd := le_takeWhile (List.all_eq_true.1 hRun) ([].flatten ++ rest)
          dsimp only
          rw [List.flatten_nil] at hEnd ⊢
          rw [List.length_nil]
          omega
      | cons next others =>
          obtain ⟨d, more, rfl, -⟩ := mem_partLanguage.1 (hOthers next List.mem_cons_self)
          have hEnd : (run ++ (((':' :: d :: more) :: others).flatten ++ rest)).takeWhile
              isAccountChar = run := takeWhile_of_cons hRun (by decide)
          dsimp only
          rw [hEnd, List.drop_left]
          omega

theorem covers_account : Covers account? Pattern.account.language := by
  rintro w ⟨_, hRoots, _, hParts, rfl⟩ rest
  obtain ⟨root, hRoot, rfl⟩ := mem_accountRoots.1 hRoots
  obtain ⟨texts, hSome, rfl, hTexts⟩ := mem_several.1 hParts
  have hLength := le_accountParts hTexts rest
  have hNonzero : accountParts (texts.flatten ++ rest) ≠ 0 := by
    obtain ⟨first, others, rfl⟩ := List.exists_cons_of_ne_nil hSome
    obtain ⟨c, run, rfl, -⟩ := mem_partLanguage.1 (hTexts first List.mem_cons_self)
    have hPos : 0 < ((':' :: c :: run) :: others).flatten.length := by
      rw [List.flatten_cons, List.length_append, List.length_cons]
      omega
    omega
  refine ⟨root.toList.length + accountParts (texts.flatten ++ rest), ?_, ?_⟩
  · rw [List.append_assoc]
    exact account?_of_root hRoot hNonzero
  · rw [List.length_append]
    omega

/-! ### Numbers -/

/-- The texts of numbers without a sign. -/
def unsignedLanguage : Language Char :=
  (grouped + several digit) * maybe (word "." * several digit)

/-- The texts of the groups behind the first one. -/
def groupsLanguage : Language Char := (word "," * digit ^ 3)∗

theorem mem_first {w : List Char} : w ∈ digit ^ 1 + digit ^ 2 + digit ^ 3 ↔
    w ≠ [] ∧ w.length ≤ 3 ∧ w.all isDecimalDigit = true := by
  rw [Language.mem_add, Language.mem_add, digit, mem_one_pow, mem_one_pow, mem_one_pow,
    ← or_and_right, ← or_and_right, List.all_eq_true, ← and_assoc, ← List.length_pos_iff]
  refine and_congr ?_ Iff.rfl
  omega

theorem mem_digits {w : List Char} :
    w ∈ several digit ↔ w ≠ [] ∧ w.all isDecimalDigit = true := by
  rw [digit, mem_several_one, List.all_eq_true]
  rfl

/-- Groups are read one by one. -/
theorem groups_append {w : List Char} (h : w ∈ groupsLanguage) (rest : List Char) :
    groups (w ++ rest) = w.length + groups rest := by
  obtain ⟨texts, rfl, hTexts⟩ := Language.mem_kstar.1 h
  clear h
  induction texts with
  | nil => simp
  | cons t texts ih =>
      obtain ⟨⟨_, rfl, digits, hDigits, rfl⟩, hOthers⟩ := List.forall_mem_cons.1 hTexts
      obtain ⟨hLength, hAll⟩ := mem_one_pow.1 hDigits
      match digits, hLength with
      | [d₁, d₂, d₃], _ =>
          have hGroup : [d₁, d₂, d₃].all isDecimalDigit = true := List.all_eq_true.2 hAll
          have hText : (((",".toList) ++ [d₁, d₂, d₃]) :: texts).flatten ++ rest =
              ',' :: d₁ :: d₂ :: d₃ :: (texts.flatten ++ rest) := by simp
          rw [hText, groups, if_pos hGroup, ih hOthers]
          simp only [List.flatten_cons, List.length_append, List.length_cons, List.length_nil]
          show _ = 1 + 3 + _ + _
          omega

theorem take_groups_mem (text : List Char) : text.take (groups text) ∈ groupsLanguage := by
  induction text using groups.induct with
  | case1 d₁ d₂ d₃ rest hDigits ih =>
      obtain ⟨texts, hText, hTexts⟩ := Language.mem_kstar.1 ih
      have hGroup : ',' :: [d₁, d₂, d₃] ∈ word "," * digit ^ 3 :=
        Language.append_mem_mul (a := [',']) rfl (mem_one_pow.2 ⟨rfl, List.all_eq_true.1 hDigits⟩)
      rw [groups, if_pos hDigits, Nat.add_comm, List.take_succ_cons, List.take_succ_cons,
        List.take_succ_cons, List.take_succ_cons, hText]
      exact Language.mem_kstar.2 ⟨(',' :: [d₁, d₂, d₃]) :: texts, rfl,
        List.forall_mem_cons.2 ⟨hGroup, hTexts⟩⟩
  | case2 d₁ d₂ d₃ rest hDigits =>
      rw [groups, if_neg hDigits]
      exact Language.nil_mem_kstar _
  | case3 text hText =>
      have hNone : groups text = 0 := by
        unfold groups
        split
        · next d₁ d₂ d₃ rest => exact absurd rfl (hText d₁ d₂ d₃ rest)
        · rfl
      rw [hNone]
      exact Language.nil_mem_kstar _

theorem take_fraction_mem {text : List Char} (h : fraction text ≠ 0) :
    text.take (fraction text) ∈ word "." * several digit := by
  unfold fraction at h ⊢
  split at h
  · next rest =>
      dsimp only at h ⊢
      split at h
      · exact absurd rfl h
      · next hSome =>
          rw [if_neg hSome, Nat.add_comm, List.take_succ_cons, take_length_takeWhile]
          refine Language.append_mem_mul (a := ['.']) rfl (mem_digits.2 ⟨?_, List.all_takeWhile⟩)
          exact fun hNone => hSome (by rw [hNone]; rfl)
  · exact absurd rfl h

theorem le_fraction {w : List Char} (h : w ∈ word "." * several digit) (rest : List Char) :
    w.length ≤ fraction (w ++ rest) := by
  obtain ⟨_, rfl, digits, hDigits, rfl⟩ := h
  obtain ⟨hSome, hAll⟩ := mem_digits.1 hDigits
  have hRun := le_takeWhile (List.all_eq_true.1 hAll) rest
  have hLength := List.length_pos_iff.2 hSome
  show digits.length + 1 ≤ fraction ('.' :: (digits ++ rest))
  rw [fraction]
  split <;> omega

/-- Digits up to a character that is none. -/
theorem whole_of_digits {digits rest : List Char} {c : Char}
    (hDigits : digits.all isDecimalDigit = true) (hStop : isDecimalDigit c = false) :
    whole (digits ++ c :: rest) =
      if digits.length ≤ 3 then digits.length + groups (c :: rest) else digits.length := by
  rw [whole, takeWhile_of_cons hDigits hStop, List.drop_left]

/-- The digits of a number are read to their end, and no more than these in front of what is neither
a digit nor a comma. -/
theorem whole_append {w : List Char} (h : w ∈ grouped + several digit) (rest : List Char) :
    w.length ≤ whole (w ++ rest) ∧ ∀ c more, rest = c :: more → isDecimalDigit c = false →
      c ≠ ',' → whole (w ++ rest) = w.length := by
  have hDigits {digits : List Char} (hAll : digits.all isDecimalDigit = true) :
      digits.length ≤ whole (digits ++ rest) ∧ ∀ c more, rest = c :: more →
        isDecimalDigit c = false → c ≠ ',' → whole (digits ++ rest) = digits.length := by
    constructor
    · exact Nat.le_trans (le_takeWhile (List.all_eq_true.1 hAll) rest) (whole_ge _)
    · rintro c more rfl hStop hComma
      rw [whole_of_digits hAll hStop, groups_of_head hComma, Nat.add_zero, ite_self]
  rcases h with hGrouped | hRun
  · obtain ⟨first, hFirst, others, hGroups, rfl⟩ := Language.mem_mul.1 hGrouped
    obtain ⟨-, hShort, hAll⟩ := mem_first.1 hFirst
    have hRead := groups_append hGroups
    obtain ⟨texts, rfl, hTexts⟩ := Language.mem_kstar.1 hGroups
    cases texts with
    | nil =>
        rw [List.flatten_nil, List.append_nil]
        exact hDigits hAll
    | cons t texts =>
        obtain ⟨_, rfl, group, -, rfl⟩ := Language.mem_mul.1 (hTexts t List.mem_cons_self)
        have hWhole : whole (first ++ ((",".toList ++ group) :: texts).flatten ++ rest) =
            first.length + (((",".toList ++ group) :: texts).flatten.length + groups rest) := by
          rw [← hRead, List.append_assoc]
          exact (whole_of_digits hAll (by decide)).trans (if_pos hShort)
        rw [hWhole, List.length_append]
        refine ⟨by omega, ?_⟩
        rintro c more rfl hStop hComma
        rw [groups_of_head hComma, Nat.add_zero]
  · exact hDigits (mem_digits.1 hRun).2

theorem take_whole_mem {text : List Char} (h : 0 < (text.takeWhile isDecimalDigit).length) :
    ((text.takeWhile isDecimalDigit).length ≤ 3 → text.take (whole text) ∈ grouped) ∧
      text.take (whole text) ∈ grouped + several digit := by
  have hSome : text.takeWhile isDecimalDigit ≠ [] := List.length_pos_iff.1 h
  unfold whole
  dsimp only
  by_cases hShort : (text.takeWhile isDecimalDigit).length ≤ 3
  · have hMem : text.take ((text.takeWhile isDecimalDigit).length +
        groups (text.drop (text.takeWhile isDecimalDigit).length)) ∈ grouped := by
      rw [List.take_add, take_length_takeWhile]
      exact Language.append_mem_mul (mem_first.2 ⟨hSome, hShort, List.all_takeWhile⟩)
        (take_groups_mem _)
    rw [if_pos hShort]
    exact ⟨fun _ => hMem, .inl hMem⟩
  · rw [if_neg hShort, take_length_takeWhile]
    exact ⟨fun hLess => absurd hLess hShort, .inr (mem_digits.2 ⟨hSome, List.all_takeWhile⟩)⟩

/-- How far a number without a sign reaches, if one begins the text. -/
def extent (text : List Char) : Nat := whole text + fraction (text.drop (whole text))

theorem take_extent_mem {text : List Char} (h : 0 < (text.takeWhile isDecimalDigit).length) :
    text.take (extent text) ∈ unsignedLanguage := by
  rw [extent, List.take_add]
  refine Language.append_mem_mul (take_whole_mem h).2 (mem_maybe.2 ?_)
  by_cases hNone : fraction (text.drop (whole text)) = 0
  · rw [hNone]
    exact .inl rfl
  · exact .inr (take_fraction_mem hNone)

theorem le_extent {w : List Char} (h : w ∈ unsignedLanguage) (rest : List Char) :
    w.length ≤ extent (w ++ rest) := by
  obtain ⟨digits, hDigits, others, hOthers, rfl⟩ := h
  rw [List.append_assoc, List.length_append]
  obtain ⟨hLe, hPoint⟩ := whole_append hDigits (others ++ rest)
  rcases mem_maybe.1 hOthers with rfl | hFraction
  · rw [List.length_nil, Nat.add_zero]
    exact Nat.le_trans hLe (Nat.le_add_right _ _)
  · have hLess := le_fraction hFraction rest
    obtain ⟨_, rfl, more, -, rfl⟩ := hFraction
    have hWhole := hPoint '.' (more ++ rest) rfl (by decide) (by decide)
    rw [extent, hWhole, List.drop_left]
    omega

/-- In groups, the first of which is short, there is nothing but digits and commas. -/
theorem chars_of_grouped {w : List Char} (h : w ∈ grouped) :
    (∀ c ∈ w, isDecimalDigit c = true ∨ c = ',') ∧
      (w.all isDecimalDigit = true → w.length ≤ 3) := by
  obtain ⟨first, hFirst, others, hGroups, rfl⟩ := Language.mem_mul.1 h
  obtain ⟨-, hShort, hAll⟩ := mem_first.1 hFirst
  obtain ⟨texts, rfl, hTexts⟩ := Language.mem_kstar.1 hGroups
  constructor
  · intro c hc
    rcases List.mem_append.1 hc with hDigit | hGroup
    · exact .inl (List.all_eq_true.1 hAll c hDigit)
    · obtain ⟨t, ht, hMem⟩ := List.mem_flatten.1 hGroup
      obtain ⟨_, rfl, digits, hDigits, rfl⟩ := Language.mem_mul.1 (hTexts t ht)
      rcases List.mem_append.1 hMem with hComma | hDigit
      · exact .inr (List.mem_singleton.1 hComma)
      · exact .inl ((mem_one_pow.1 hDigits).2 c hDigit)
  · intro hOnly
    cases texts with
    | nil => simpa using hShort
    | cons t texts =>
        obtain ⟨_, rfl, digits, -, rfl⟩ := Language.mem_mul.1 (hTexts t List.mem_cons_self)
        have hComma : isDecimalDigit ',' = true :=
          List.all_eq_true.1 hOnly ',' (List.mem_append_right _ (.head _))
        exact absurd hComma (by decide)

/-- Of the text, `n` characters are read where the longest one of the language has `m`: as many, or
one more if it is one of the second language and a comma is behind it. -/
structure Measures (L G : Language Char) (text : List Char) (n m : Nat) : Prop where
  mem : text.take m ∈ L
  le : ∀ w ∈ L, w <+: text → w.length ≤ m
  reads : n = m ∧ ¬ (text.take m ∈ G ∧ (text.drop m).head? = some ',') ∨
    n = m + 1 ∧ text.take m ∈ G ∧ (text.drop m).head? = some ','

theorem unsigned?_measures {text : List Char} {n : Nat} (h : unsigned? text = some n) :
    Measures unsignedLanguage grouped text n (extent text) := by
  have hSome := (unsigned?_eq_some h).1
  have hExtent := take_extent_mem hSome
  refine ⟨hExtent, ?_, ?_⟩
  · rintro w hw ⟨rest, rfl⟩
    exact le_extent hw rest
  rw [unsigned?_eq, if_neg (by omega)] at h
  split at h
  · next hFraction =>
      cases h
      refine .inl ⟨rfl, fun hComma => ?_⟩
      have hTake : text.take (extent text) =
          text.take (whole text) ++ (text.drop (whole text)).take (fraction _) := List.take_add
      obtain ⟨_, rfl, digits, -, hDigits⟩ := Language.mem_mul.1 (take_fraction_mem hFraction)
      have hPoint : '.' ∈ text.take (extent text) := by
        rw [hTake, ← hDigits]
        exact List.mem_append_right _ (.head _)
      exact absurd ((chars_of_grouped hComma.1).1 '.' hPoint) (by decide)
  · next hNone =>
      have hSame : extent text = whole text := by
        rw [extent]
        omega
      rw [hSame] at hExtent ⊢
      split at h
      · next hComma =>
          cases h
          exact .inr ⟨rfl, (take_whole_mem hSome).1 hComma.1, hComma.2⟩
      · next hOther =>
          cases h
          refine .inl ⟨rfl, fun hComma => hOther ⟨?_, hComma.2⟩⟩
          -- More than three digits in a row are not in groups.
          by_contra hLong
          have hWhole : whole text = (text.takeWhile isDecimalDigit).length := by
            rw [whole]
            exact if_neg hLong
          have hShort := (chars_of_grouped hComma.1).2
          rw [hWhole, take_length_takeWhile] at hShort
          exact hLong (hShort List.all_takeWhile)

theorem mem_signed {L : Language Char} {w : List Char} :
    w ∈ maybe (word "-") * L ↔ w ∈ L ∨ ∃ u ∈ L, w = '-' :: u := by
  constructor
  · rintro ⟨_, hSign, u, hu, rfl⟩
    rcases mem_maybe.1 hSign with rfl | rfl
    · exact .inl hu
    · exact .inr ⟨u, hu, rfl⟩
  · rintro (hw | ⟨u, hu, rfl⟩)
    · exact ⟨[], .inl rfl, w, hw, rfl⟩
    · exact ⟨['-'], .inr rfl, u, hu, rfl⟩

theorem exists_digit {w : List Char} (h : w ∈ grouped + several digit) :
    ∃ c rest, w = c :: rest ∧ isDecimalDigit c = true := by
  have hDigits {digits : List Char} (others : List Char) (hSome : digits ≠ [])
      (hAll : digits.all isDecimalDigit = true) :
      ∃ c rest, digits ++ others = c :: rest ∧ isDecimalDigit c = true := by
    obtain ⟨c, rest, rfl⟩ := List.exists_cons_of_ne_nil hSome
    exact ⟨c, rest ++ others, rfl, List.all_eq_true.1 hAll c List.mem_cons_self⟩
  rcases h with hGrouped | hRun
  · obtain ⟨first, hFirst, others, -, rfl⟩ := Language.mem_mul.1 hGrouped
    obtain ⟨hSome, -, hAll⟩ := mem_first.1 hFirst
    exact hDigits others hSome hAll
  · obtain ⟨hSome, hAll⟩ := mem_digits.1 hRun
    simpa using hDigits [] hSome hAll

theorem exists_digit_unsigned {w : List Char} (h : w ∈ unsignedLanguage) :
    ∃ c rest, w = c :: rest ∧ isDecimalDigit c = true := by
  obtain ⟨digits, hDigits, others, -, rfl⟩ := Language.mem_mul.1 h
  obtain ⟨c, rest, rfl, hc⟩ := exists_digit hDigits
  exact ⟨c, rest ++ others, rfl, hc⟩

/-- A sign belongs to the number behind it. -/
theorem Measures.signed {text : List Char} {n m : Nat}
    (h : Measures unsignedLanguage grouped text n m) :
    Measures (maybe (word "-") * unsignedLanguage) groupedNumber ('-' :: text)
      (n + 1) (m + 1) := by
  have hDash : isDecimalDigit '-' = false := by decide
  have hGrouped : ('-' :: text).take (m + 1) ∈ groupedNumber ↔ text.take m ∈ grouped := by
    rw [List.take_succ_cons, groupedNumber, mem_signed]
    constructor
    · rintro (hw | ⟨u, hu, hText⟩)
      · obtain ⟨c, rest, hText, hc⟩ := exists_digit (.inl hw)
        cases hText
        rw [hDash] at hc
        cases hc
      · cases hText
        exact hu
    · exact fun hText => .inr ⟨_, hText, rfl⟩
  refine ⟨mem_signed.2 (.inr ⟨_, h.mem, List.take_succ_cons⟩), ?_, ?_⟩
  · intro w hw hPrefix
    rcases mem_signed.1 hw with hText | ⟨u, hu, rfl⟩
    · obtain ⟨c, rest, rfl, hc⟩ := exists_digit_unsigned hText
      rw [(List.cons_prefix_cons.1 hPrefix).1, hDash] at hc
      cases hc
    · have hLe := h.le u hu (List.cons_prefix_cons.1 hPrefix).2
      rw [List.length_cons]
      omega
  · rw [hGrouped, List.drop_succ_cons, Nat.add_right_cancel_iff, Nat.add_right_cancel_iff]
    exact h.reads

theorem Measures.unsigned {text : List Char} {n m : Nat}
    (h : Measures unsignedLanguage grouped text n m) (hSign : ∀ rest, text ≠ '-' :: rest) :
    Measures (maybe (word "-") * unsignedLanguage) groupedNumber text n m := by
  have hGrouped : text.take m ∈ groupedNumber ↔ text.take m ∈ grouped := by
    rw [groupedNumber, mem_signed]
    constructor
    · rintro (hw | ⟨u, hu, hText⟩)
      · exact hw
      · obtain ⟨rest, hWhole⟩ := List.take_prefix m text
        rw [hText] at hWhole
        exact absurd hWhole.symm (hSign _)
    · exact .inl
  refine ⟨mem_signed.2 (.inl h.mem), ?_, by rw [hGrouped]; exact h.reads⟩
  intro w hw hPrefix
  rcases mem_signed.1 hw with hText | ⟨u, hu, rfl⟩
  · exact h.le w hText hPrefix
  · obtain ⟨rest, hWhole⟩ := hPrefix
    exact absurd hWhole.symm (hSign _)

/-- A number is one without a sign, or a sign and such a number. -/
theorem language_number : Pattern.number.language = maybe (word "-") * unsignedLanguage :=
  mul_assoc _ _ _

/-- A number in groups is a number. -/
theorem number_of_grouped {w : List Char} (h : w ∈ groupedNumber) :
    w ∈ Pattern.number.language := by
  obtain ⟨sign, hSign, digits, hDigits, rfl⟩ := Language.mem_mul.1 h
  have hBoth : sign ++ digits ∈ maybe (word "-") * (grouped + several digit) :=
    Language.append_mem_mul hSign (.inl hDigits)
  exact ⟨sign ++ digits, hBoth, [], mem_maybe.2 (.inl rfl), List.append_nil _⟩

theorem number?_measures {text : List Char} {n : Nat} (h : number? text = some n) :
    ∃ m, Measures Pattern.number.language groupedNumber text n m := by
  rw [language_number]
  unfold number? at h
  split at h
  · next rest =>
      obtain ⟨k, hk, rfl⟩ := Option.map_eq_some_iff.1 h
      exact ⟨_, (unsigned?_measures hk).signed⟩
  · next hSign => exact ⟨_, (unsigned?_measures h).unsigned hSign⟩

theorem exists_number? {w : List Char} (h : w ∈ Pattern.number.language) (rest : List Char) :
    ∃ n, number? (w ++ rest) = some n := by
  have hUnsigned {u : List Char} (hu : u ∈ unsignedLanguage) :
      ∃ n, unsigned? (u ++ rest) = some n := by
    obtain ⟨c, others, rfl, hc⟩ := exists_digit_unsigned hu
    rw [List.cons_append, unsigned?_eq, List.takeWhile_cons_of_pos hc, List.length_cons,
      if_neg (Nat.succ_ne_zero _)]
    split
    · exact ⟨_, rfl⟩
    · split <;> exact ⟨_, rfl⟩
  rw [language_number] at h
  rcases mem_signed.1 h with hText | ⟨u, hu, rfl⟩
  · obtain ⟨n, hn⟩ := hUnsigned hText
    obtain ⟨c, others, rfl, hc⟩ := exists_digit_unsigned hText
    refine ⟨n, ?_⟩
    unfold number?
    split
    · next hDash =>
        cases hDash
        exact absurd hc (by decide)
    · exact hn
  · obtain ⟨n, hn⟩ := hUnsigned hu
    exact ⟨n + 1, Option.map_eq_some_iff.2 ⟨n, hn, rfl⟩⟩

/-! ### Quoted text -/

/-- What stands between the quotes of a literal, one character or one escape at a time. -/
def innerLanguage : Language Char := one (among "\"\\")ᶜ + word "\\" * one (among "\n")ᶜ

theorem mem_innerLanguage {w : List Char} : w ∈ innerLanguage ↔
    (∃ c, w = [c] ∧ c ≠ '"' ∧ c ≠ '\\') ∨ ∃ c, w = ['\\', c] ∧ c ≠ '\n' := by
  constructor
  · rintro (⟨c, hc, rfl⟩ | ⟨_, rfl, _, ⟨c, hc, rfl⟩, rfl⟩)
    · refine .inl ⟨c, rfl, fun hQuote => hc ?_, fun hEscape => hc ?_⟩
      · exact hQuote ▸ List.mem_cons_self
      · exact hEscape ▸ List.mem_cons_of_mem _ List.mem_cons_self
    · exact .inr ⟨c, rfl, fun hLine => hc (hLine ▸ List.mem_cons_self)⟩
  · rintro (⟨c, rfl, hQuote, hEscape⟩ | ⟨c, rfl, hLine⟩)
    · refine .inl ⟨c, fun hMem => ?_, rfl⟩
      rcases List.mem_cons.1 hMem with rfl | hMem
      · exact hQuote rfl
      · exact hEscape (List.mem_singleton.1 hMem)
    · refine .inr ⟨['\\'], rfl, [c], ⟨c, fun hMem => ?_, rfl⟩, rfl⟩
      exact hLine (List.mem_singleton.1 hMem)

theorem cons_mem_kstar {L : Language Char} {t w : List Char} (ht : t ∈ L) (hw : w ∈ L∗) :
    t ++ w ∈ L∗ := by
  obtain ⟨texts, rfl, hTexts⟩ := Language.mem_kstar.1 hw
  exact Language.join_mem_kstar (List.forall_mem_cons.2 ⟨ht, hTexts⟩)

/-- Behind a literal stands its closing quote. -/
theorem literal_append {body : List Char} (h : body ∈ innerLanguage∗) (rest : List Char) :
    literal (body ++ '"' :: rest) = (true, body.length + 1) := by
  obtain ⟨texts, rfl, hTexts⟩ := Language.mem_kstar.1 h
  clear h
  induction texts with
  | nil => rfl
  | cons t texts ih =>
      obtain ⟨hFirst, hOthers⟩ := List.forall_mem_cons.1 hTexts
      have hMore := ih hOthers
      rcases mem_innerLanguage.1 hFirst with ⟨c, rfl, hQuote, hEscape⟩ | ⟨c, rfl, hLine⟩
      · show literal (c :: (texts.flatten ++ '"' :: rest)) = _
        rw [literal_plain _ hQuote hEscape, hMore]
        rfl
      · show literal ('\\' :: c :: (texts.flatten ++ '"' :: rest)) = _
        rw [literal_escaped, if_neg hLine, hMore]
        rfl

theorem exists_body {text : List Char} (h : (literal text).1 = true) :
    ∃ body ∈ innerLanguage∗, text.take (literal text).2 = body ++ ['"'] := by
  induction text using literal_induction with
  | nil => cases h
  | quote rest => exact ⟨[], Language.nil_mem_kstar _, rfl⟩
  | alone => cases h
  | escaped c rest ih =>
      rw [literal_escaped] at h ⊢
      split at h
      · cases h
      · next hLine =>
          obtain ⟨body, hBody, hText⟩ := ih h
          have hEscape : ['\\', c] ∈ innerLanguage := mem_innerLanguage.2 (.inr ⟨c, rfl, hLine⟩)
          refine ⟨['\\', c] ++ body, cons_mem_kstar hEscape hBody, ?_⟩
          rw [if_neg hLine, List.take_succ_cons, List.take_succ_cons, hText]
          rfl
  | plain c rest hQuote hEscape ih =>
      rw [literal_plain rest hQuote hEscape] at h ⊢
      obtain ⟨body, hBody, hText⟩ := ih h
      have hPlain : [c] ∈ innerLanguage := mem_innerLanguage.2 (.inl ⟨c, rfl, hQuote, hEscape⟩)
      refine ⟨[c] ++ body, cons_mem_kstar hPlain hBody, ?_⟩
      rw [List.take_succ_cons, hText]
      rfl

/-- A literal that ends. -/
def quoted? : List Char → Option Nat
  | '"' :: rest => if (literal rest).1 then some ((literal rest).2 + 1) else none
  | _ => none

theorem quoted?_eq_some {text : List Char} {n : Nat} (h : quoted? text = some n) :
    ∃ rest, text = '"' :: rest ∧ (literal rest).1 = true ∧ n = (literal rest).2 + 1 := by
  unfold quoted? at h
  split at h
  · next rest =>
      split at h
      · next hClosed =>
          cases h
          exact ⟨rest, rfl, hClosed, rfl⟩
      · cases h
  · cases h

theorem sound_quoted : Sound quoted? Pattern.string.language := by
  intro text n h
  obtain ⟨rest, rfl, hClosed, rfl⟩ := quoted?_eq_some h
  obtain ⟨body, hBody, hText⟩ := exists_body hClosed
  rw [List.take_succ_cons, hText]
  exact Language.append_mem_mul (a := '"' :: body) (Language.append_mem_mul (a := ['"']) rfl hBody)
    rfl

theorem covers_quoted : Covers quoted? Pattern.string.language := by
  rintro w ⟨_, ⟨_, rfl, body, hBody, rfl⟩, _, rfl, rfl⟩ rest
  have hLiteral := literal_append hBody rest
  have hText : "\"".toList ++ body ++ "\"".toList ++ rest = '"' :: (body ++ '"' :: rest) := by simp
  refine ⟨body.length + 1 + 1, ?_, by simp⟩
  show quoted? ("\"".toList ++ body ++ "\"".toList ++ rest) = _
  rw [hText, quoted?, hLiteral]
  rfl

/-! ### Words, flags and line ends -/

/-- A text as it is written. -/
def written? (written : String) (text : List Char) : Option Nat :=
  if written.toList.isPrefixOf text then some written.toList.length else none

theorem written?_eq_some {written : String} {text : List Char} {n : Nat} :
    written? written text = some n ↔ written.toList <+: text ∧ n = written.toList.length := by
  rw [written?, Option.ite_none_right_eq_some, List.isPrefixOf_iff_prefix, Option.some.injEq,
    eq_comm (a := n)]

theorem sound_written (written : String) : Sound (written? written) (word written) := by
  intro text n h
  obtain ⟨hPrefix, rfl⟩ := written?_eq_some.1 h
  exact (List.prefix_iff_eq_take.1 hPrefix).symm

theorem covers_written (written : String) : Covers (written? written) (word written) := by
  rintro w rfl rest
  exact ⟨_, written?_eq_some.2 ⟨List.prefix_append _ _, rfl⟩, Nat.le_refl _⟩

/-- The letters and signs that are flags beside the star and the exclamation mark. -/
def flag? : List Char → Option Nat
  | c :: _ => if "PSTCURM?%&".toList.contains c then some 1 else none
  | [] => none

theorem flag?_eq_some {text : List Char} {n : Nat} :
    flag? text = some n ↔ n = 1 ∧ ∃ c ∈ among "PSTCURM?%&", ∃ rest, text = c :: rest := by
  unfold flag?
  split
  · next c rest =>
      rw [Option.ite_none_right_eq_some, List.contains_iff_mem, Option.some.injEq]
      constructor
      · rintro ⟨hc, rfl⟩
        exact ⟨rfl, c, hc, rest, rfl⟩
      · rintro ⟨rfl, d, hd, more, hText⟩
        cases hText
        exact ⟨hd, rfl⟩
  · simp

theorem sound_flag : Sound flag? Pattern.flag.language := by
  intro text n h
  obtain ⟨rfl, c, hc, rest, rfl⟩ := flag?_eq_some.1 h
  exact ⟨c, hc, rfl⟩

theorem covers_flag : Covers flag? Pattern.flag.language := by
  rintro w ⟨c, hc, rfl⟩ rest
  exact ⟨1, flag?_eq_some.2 ⟨rfl, c, hc, rest, rfl⟩, Nat.le_refl 1⟩

theorem sound_newline : Sound newline? Pattern.newline.language := by
  intro text n h
  unfold newline? at h
  split at h
  · cases h
    exact ⟨[], .inl rfl, ['\n'], rfl, rfl⟩
  · cases h
    exact ⟨['\r'], .inr rfl, ['\n'], rfl, rfl⟩
  · cases h

theorem covers_newline : Covers newline? Pattern.newline.language := by
  rintro w ⟨_, hReturn, _, rfl, rfl⟩ rest
  rcases mem_maybe.1 hReturn with rfl | rfl
  · exact ⟨1, rfl, Nat.le_refl 1⟩
  · exact ⟨2, rfl, Nat.le_refl 2⟩

theorem sound_comment : Sound comment? Pattern.comment.language := by
  intro text n h
  obtain ⟨rest, rfl, rfl⟩ := comment?_eq_some h
  rw [Nat.add_comm, List.take_succ_cons, take_length_takeWhile]
  refine Language.append_mem_mul (a := [';']) rfl (mem_one_kstar.2 fun c hc => ?_)
  exact isLineChar_iff.1 (List.all_eq_true.1 List.all_takeWhile c hc)

theorem covers_comment : Covers comment? Pattern.comment.language := by
  rintro w ⟨_, rfl, line, hLine, rfl⟩ rest
  have hRun := le_takeWhile (p := isLineChar)
    (fun c hc => isLineChar_iff.2 (mem_one_kstar.1 hLine c hc)) rest
  refine ⟨1 + ((line ++ rest).takeWhile isLineChar).length, rfl, ?_⟩
  show line.length + 1 ≤ _
  omega

end Lexeme

end LedgerText
