import LedgerText.Proofs.Lexing.Matching
import LedgerText.Proofs.Lexing.Parts

/-!
# The longest match

A scan tries one class of lexemes after the other and takes the first that has
one, and still finds the longest lexeme of all (`scan_of_read?`). Most classes
exclude each other by their first character (`Head`). Dates begin like numbers,
and account names like currencies; there the class that is tried first has the
longer lexeme.

So what becomes a token is the longest text of any pattern (`exists_isTaken`),
no text belongs to two patterns (`eq_of_mem`), and where nothing is read no
pattern has a text (`not_isMatch_of_scan`). A comma behind a number in groups is
read with it although it belongs to no number.
-/

namespace LedgerText

open Lexeme

namespace Pattern

/-- The class of lexemes that a pattern describes. -/
def shape : Pattern → Shape
  | .date => .date
  | .number => .number
  | .string => .string
  | .account => .account
  | .currency => .currency
  | .tag => .tag
  | .link => .link
  | .keyword k => .keyword k
  | .mark m => .mark m
  | .star | .pending | .flag => .flag
  | .newline => .newline
  | .comment => .comment

/-- What is read of a pattern at the head of a text. -/
def read? : Pattern → List Char → Option Nat
  | .date => date?
  | .number => number?
  | .string => quoted?
  | .account => account?
  | .currency => currency?
  | .tag => tagged? '#'
  | .link => tagged? '^'
  | .keyword k => written? k.text
  | .mark m => written? m.text
  | .star => written? "*"
  | .pending => written? "!"
  | .flag => flag?
  | .newline => newline?
  | .comment => comment?

section

variable {p q : Pattern} {text w rest : List Char} {n : Nat}

/-- Apart from numbers, exactly the texts of a pattern are read. -/
theorem sound_covers (h : p ≠ .number) : Sound p.read? p.language ∧ Covers p.read? p.language := by
  cases p with
  | date => exact ⟨sound_date, covers_date⟩
  | number => exact absurd rfl h
  | string => exact ⟨sound_quoted, covers_quoted⟩
  | account => exact ⟨sound_account, covers_account⟩
  | currency => exact ⟨sound_currency, covers_currency⟩
  | tag => exact ⟨sound_tagged '#', covers_tagged '#'⟩
  | link => exact ⟨sound_tagged '^', covers_tagged '^'⟩
  | keyword k => exact ⟨sound_written k.text, covers_written k.text⟩
  | mark m => exact ⟨sound_written m.text, covers_written m.text⟩
  | star => exact ⟨sound_written "*", covers_written "*"⟩
  | pending => exact ⟨sound_written "!", covers_written "!"⟩
  | flag => exact ⟨sound_flag, covers_flag⟩
  | newline => exact ⟨sound_newline, covers_newline⟩
  | comment => exact ⟨sound_comment, covers_comment⟩

/-- Where a text of a pattern begins the input, at least as much is read of that pattern. -/
theorem exists_read? (h : w ∈ p.language) (rest : List Char) :
    ∃ n, p.read? (w ++ rest) = some n ∧ w.length ≤ n := by
  by_cases hNumber : p = .number
  · subst hNumber
    obtain ⟨n, hn⟩ := exists_number? h rest
    obtain ⟨m, hm⟩ := number?_measures hn
    have hLe := hm.le w h (List.prefix_append w rest)
    refine ⟨n, hn, ?_⟩
    rcases hm.reads with ⟨hReads, -⟩ | ⟨hReads, -⟩
    · omega
    · omega
  · exact (sound_covers hNumber).2 w h rest

theorem read?_bounds (h : p.read? text = some n) : 0 < n ∧ n ≤ text.length := by
  have hWord {written : String} (hSome : written.toList ≠ [])
      (hRead : written? written text = some n) : 0 < n ∧ n ≤ text.length := by
    obtain ⟨hPrefix, rfl⟩ := written?_eq_some.1 hRead
    exact ⟨List.length_pos_iff.2 hSome, hPrefix.length_le⟩
  cases p with
  | date =>
      obtain ⟨rfl, hLength⟩ := date?_eq_some h
      exact ⟨by decide, hLength⟩
  | number => exact number?_eq_some h
  | string =>
      obtain ⟨rest, rfl, -, rfl⟩ := quoted?_eq_some h
      have hLiteral := literal_le rest
      rw [List.length_cons]
      omega
  | account => exact account?_le h
  | currency => exact currency?_le h
  | tag => exact tagged?_le h
  | link => exact tagged?_le h
  | keyword k => exact hWord (by cases k <;> decide) h
  | mark m => exact hWord (by cases m <;> decide) h
  | star => exact hWord (by decide) h
  | pending => exact hWord (by decide) h
  | flag =>
      obtain ⟨rfl, c, -, rest, rfl⟩ := flag?_eq_some.1 h
      exact ⟨Nat.one_pos, by simp⟩
  | newline => exact newline?_le h
  | comment => exact comment?_le h

/-- No pattern has an empty text. -/
theorem ne_nil_of_mem (h : w ∈ p.language) : w ≠ [] := by
  rintro rfl
  obtain ⟨n, hn, -⟩ := exists_read? h []
  have hBounds := read?_bounds hn
  rw [List.append_nil, List.length_nil] at hBounds
  omega

end

end Pattern

/-! ## Classes and their first characters -/

namespace Lexeme

/-- What a lexeme may begin with, as far as it tells classes apart. -/
inductive Head where
  | numeral | capital | hash | caret | small | sign | lineEnd | semicolon | quote | other
  deriving DecidableEq

/-- What lexemes of a character's kind begin with. -/
def headOf (c : Char) : Head :=
  if isDecimalDigit c ∨ c = '-' then .numeral
  else if c.isUpper then .capital
  else if c.isLower then .small
  else if c = '#' then .hash
  else if c = '^' then .caret
  else if c ∈ ['|', '@', '\x7b', '\x7d', ',', '/'] then .sign
  else if c = '\n' ∨ c = '\r' then .lineEnd
  else if c = ';' then .semicolon
  else if c = '"' then .quote
  else .other

theorem headOf_numeral {c : Char} (h : isDecimalDigit c = true ∨ c = '-') :
    headOf c = .numeral := if_pos h

theorem headOf_capital {c : Char} (h : c.isUpper = true) : headOf c = .capital := by
  have hDigit := isDecimalDigit_of_isUpper h
  have hMinus : c ≠ '-' := ne_of_class h (by decide)
  rw [headOf, if_neg (by simp [hDigit, hMinus]), if_pos h]

/-- All lexemes that are read begin with a character of the kind. -/
def BeginsWith (head : Head) (read? : List Char → Option (Shape × Nat)) : Prop :=
  ∀ text found, read? text = some found → ∃ c rest, text = c :: rest ∧ headOf c = head

theorem beginsWith_date : BeginsWith .numeral fun text => (date? text).map (.date, ·) := by
  intro text found h
  obtain ⟨n, hn, -⟩ := Option.map_eq_some_iff.1 h
  match text with
  | [] => cases hn
  | c :: rest =>
      refine ⟨c, rest, rfl, headOf_numeral (.inl ?_)⟩
      by_contra hDigit
      rw [date?_of_head (by simpa using hDigit)] at hn
      cases hn

theorem beginsWith_number : BeginsWith .numeral fun text => (number? text).map (.number, ·) := by
  intro text found h
  obtain ⟨n, hn, -⟩ := Option.map_eq_some_iff.1 h
  match text with
  | [] => cases hn
  | c :: rest =>
      refine ⟨c, rest, rfl, headOf_numeral ?_⟩
      by_contra hNone
      rw [not_or] at hNone
      rw [number?_of_head (by simpa using hNone.1) hNone.2] at hn
      cases hn

theorem beginsWith_account : BeginsWith .capital fun text => (account? text).map (.account, ·) := by
  intro text found h
  obtain ⟨n, hn, -⟩ := Option.map_eq_some_iff.1 h
  obtain ⟨root, hRoot, rest, rfl, -⟩ := account?_eq_some hn
  obtain ⟨first, second, others, hText, hFirst, -⟩ := accountRoots_spelled hRoot
  exact ⟨first, second :: others ++ rest, by rw [hText]; rfl, headOf_capital hFirst⟩

theorem beginsWith_currency :
    BeginsWith .capital fun text => (currency? text).map (.currency, ·) := by
  intro text found h
  obtain ⟨n, hn, -⟩ := Option.map_eq_some_iff.1 h
  obtain ⟨c, rest, rfl, hUpper, -⟩ := currency?_eq_some hn
  exact ⟨c, rest, rfl, headOf_capital hUpper⟩

theorem beginsWith_tagged (shape : Shape) (sign : Char) :
    BeginsWith (headOf sign) fun text => (tagged? sign text).map (shape, ·) := by
  intro text found h
  obtain ⟨n, hn, -⟩ := Option.map_eq_some_iff.1 h
  obtain ⟨rest, rfl, -⟩ := tagged?_eq_some hn
  exact ⟨sign, rest, rfl, rfl⟩

theorem beginsWith_words {α : Type} {words : List α} {written : α → String} {shape : α → Shape}
    {head : Head} (h : ∀ word ∈ words, ∃ c rest, (written word).toList = c :: rest ∧
      headOf c = head) :
    BeginsWith head fun text =>
      (word? words written text).map fun word => (shape word.1, word.2) := by
  intro text found hFound
  obtain ⟨⟨word, n⟩, hn, -⟩ := Option.map_eq_some_iff.1 hFound
  obtain ⟨hWord, -, rest, rfl⟩ := word?_eq_some hn
  obtain ⟨c, others, hText, hHead⟩ := h word hWord
  exact ⟨c, others ++ rest, by rw [hText]; rfl, hHead⟩

theorem beginsWith_newline : BeginsWith .lineEnd fun text => (newline? text).map (.newline, ·) := by
  intro text found h
  obtain ⟨n, hn, -⟩ := Option.map_eq_some_iff.1 h
  unfold newline? at hn
  split at hn
  · exact ⟨'\n', _, rfl, by decide⟩
  · exact ⟨'\r', _, rfl, by decide⟩
  · cases hn

theorem beginsWith_comment :
    BeginsWith .semicolon fun text => (comment? text).map (.comment, ·) := by
  intro text found h
  obtain ⟨n, hn, -⟩ := Option.map_eq_some_iff.1 h
  obtain ⟨rest, rfl, -⟩ := comment?_eq_some hn
  exact ⟨';', rest, rfl, by decide⟩

/-- The classes, those together that begin alike. -/
def families : List (Head × List (List Char → Option (Shape × Nat))) :=
  [(.numeral, [fun text => (date? text).map (.date, ·), fun text => (number? text).map (.number, ·)]),
   (.capital,
    [fun text => (account? text).map (.account, ·),
     fun text => (currency? text).map (.currency, ·)]),
   (.hash, [fun text => (tagged? '#' text).map (.tag, ·)]),
   (.caret, [fun text => (tagged? '^' text).map (.link, ·)]),
   (.small,
    [fun text => (word? Keyword.all Keyword.text text).map fun word => (.keyword word.1, word.2)]),
   (.sign, [fun text => (word? Mark.all Mark.text text).map fun word => (.mark word.1, word.2)]),
   (.lineEnd, [fun text => (newline? text).map (.newline, ·)]),
   (.semicolon, [fun text => (comment? text).map (.comment, ·)])]

theorem classes_eq : classes = families.flatMap (·.2) := rfl

theorem beginsWith_of_mem {family : Head × List (List Char → Option (Shape × Nat))}
    (h : family ∈ families) : ∀ read? ∈ family.2, BeginsWith family.1 read? := by
  have hKeyword : ∀ word ∈ Keyword.all, ∃ c rest, (Keyword.text word).toList = c :: rest ∧
      headOf c = .small := by
    intro word hWord
    cases word
    all_goals exact ⟨_, _, rfl, by decide⟩
  have hMark : ∀ word ∈ Mark.all, ∃ c rest, (Mark.text word).toList = c :: rest ∧
      headOf c = .sign := by
    intro word hWord
    cases word
    all_goals exact ⟨_, _, rfl, by decide⟩
  have hAll : ∀ family ∈ families, ∀ read? ∈ family.2, BeginsWith family.1 read? := by
    simp only [families, List.forall_mem_cons]
    exact ⟨⟨beginsWith_date, beginsWith_number, List.forall_mem_nil _⟩,
      ⟨beginsWith_account, beginsWith_currency, List.forall_mem_nil _⟩,
      ⟨beginsWith_tagged .tag '#', List.forall_mem_nil _⟩,
      ⟨beginsWith_tagged .link '^', List.forall_mem_nil _⟩,
      ⟨beginsWith_words hKeyword, List.forall_mem_nil _⟩,
      ⟨beginsWith_words hMark, List.forall_mem_nil _⟩,
      ⟨beginsWith_newline, List.forall_mem_nil _⟩,
      ⟨beginsWith_comment, List.forall_mem_nil _⟩, List.forall_mem_nil _⟩
  exact hAll family h

/-! ## The first class has the longest lexeme -/

/-- Where both read a lexeme, that of the first is longer. -/
def Outreaches (first second : List Char → Option (Shape × Nat)) : Prop :=
  ∀ text found other, first text = some found → second text = some other → other.2 < found.2

theorem date_outreaches_number : Outreaches (fun text => (date? text).map (.date, ·))
    fun text => (number? text).map (.number, ·) := by
  intro text found other hFirst hSecond
  obtain ⟨n, hDate, rfl⟩ := Option.map_eq_some_iff.1 hFirst
  obtain ⟨m, hNumber, rfl⟩ := Option.map_eq_some_iff.1 hSecond
  unfold date? at hDate
  split at hDate
  · next y₁ y₂ y₃ y₄ s₁ m₁ m₂ s₂ d₁ d₂ rest =>
      split at hDate
      · next hChars =>
          cases hDate
          have hYear : [y₁, y₂, y₃, y₄].all isDecimalDigit = true := by
            have hDigits := hChars.1
            simp only [List.all_cons, Bool.and_eq_true] at hDigits
            simp [hDigits]
          have hSeparator : s₁ = '-' ∨ s₁ = '/' := by
            simpa using List.all_eq_true.1 hChars.2 s₁ List.mem_cons_self
          have hStop : isDecimalDigit s₁ = false ∧ s₁ ≠ ',' ∧ s₁ ≠ '.' := by
            rcases hSeparator with rfl | rfl
            · decide
            · decide
          -- The number ends where the year does.
          have hFour : unsigned? ([y₁, y₂, y₃, y₄] ++ s₁ :: m₁ :: m₂ :: s₂ :: d₁ :: d₂ :: rest) =
              some 4 := by
            rw [unsigned?_of_digits (List.cons_ne_nil _ _) hYear hStop.1 hStop.2.1]
            unfold fraction
            split
            · next hPoint =>
                cases hPoint
                exact absurd rfl hStop.2.2
            · rfl
          have hMinus : y₁ ≠ '-' :=
            ne_of_class (List.all_eq_true.1 hYear y₁ List.mem_cons_self) (by decide)
          have hSame : number? (y₁ :: y₂ :: y₃ :: y₄ :: s₁ :: m₁ :: m₂ :: s₂ :: d₁ :: d₂ :: rest) =
              some 4 := by
            rw [← hFour]
            unfold number?
            split
            · next hText =>
                cases hText
                exact absurd rfl hMinus
            · rfl
          rw [hSame] at hNumber
          cases hNumber
          decide
      · cases hDate
  · cases hDate

/-- Only one of the two has a lexeme: the second letter decides. -/
theorem account_outreaches_currency : Outreaches (fun text => (account? text).map (.account, ·))
    fun text => (currency? text).map (.currency, ·) := by
  intro text found other hFirst hSecond
  obtain ⟨n, hAccount, rfl⟩ := Option.map_eq_some_iff.1 hFirst
  obtain ⟨m, hCurrency, rfl⟩ := Option.map_eq_some_iff.1 hSecond
  obtain ⟨c, rest, rfl, -, hSome, -⟩ := currency?_eq_some hCurrency
  match rest with
  | [] => exact absurd rfl hSome
  | d :: rest =>
      have hSecond : isCurrencyChar d = true := by
        by_contra hNot
        exact hSome (List.takeWhile_cons_of_neg hNot)
      rw [account?_of_second (isLower_of_isCurrencyChar hSecond)] at hAccount
      cases hAccount

theorem outreaches_classes : classes.Pairwise Outreaches := by
  have hNodup : (families.map (·.1)).Nodup := by decide
  rw [classes_eq, List.pairwise_flatMap]
  constructor
  · simp only [families, List.forall_mem_cons]
    refine ⟨?_, ?_, ?_, ?_, ?_, ?_, ?_, ?_, List.forall_mem_nil _⟩
    · exact List.pairwise_pair.2 date_outreaches_number
    · exact List.pairwise_pair.2 account_outreaches_currency
    all_goals exact List.pairwise_singleton _ _
  · refine (List.pairwise_map.1 hNodup).imp_of_mem ?_
    intro family other hFamily hOther hNe read? hRead? next? hNext? text found more hFound hMore
    obtain ⟨c, rest, rfl, hHead⟩ := beginsWith_of_mem hFamily read? hRead? text found hFound
    obtain ⟨d, others, hText, hSame⟩ := beginsWith_of_mem hOther next? hNext? _ more hMore
    cases hText
    exact absurd (hHead.symm.trans hSame) hNe

/-- Whatever a class reads, the first class that reads anything reads that or more. -/
theorem classed?_of_mem {read? : List Char → Option (Shape × Nat)} {text : List Char}
    {found : Shape × Nat} (hMem : read? ∈ classes) (h : read? text = some found) :
    ∃ first, classed? text = some first ∧ (first = found ∨ found.2 < first.2) := by
  have hFirst {list : List (List Char → Option (Shape × Nat))} (hMem : read? ∈ list)
      (hPairwise : list.Pairwise Outreaches) :
      ∃ first, (list.findSome? fun read? => read? text) = some first ∧
        (first = found ∨ found.2 < first.2) := by
    induction list with
    | nil => cases hMem
    | cons next? list ih =>
        rw [List.findSome?_cons]
        rw [List.pairwise_cons] at hPairwise
        cases hNext : next? text with
        | none =>
            rcases List.mem_cons.1 hMem with rfl | hOther
            · rw [hNext] at h
              cases h
            · exact ih hOther hPairwise.2
        | some first =>
            refine ⟨first, rfl, ?_⟩
            rcases List.mem_cons.1 hMem with rfl | hOther
            · rw [hNext] at h
              exact .inl (Option.some.inj h)
            · exact .inr (hPairwise.1 read? hOther text first found hNext h)
  exact hFirst hMem outreaches_classes

theorem exists_family {text : List Char} {found : Shape × Nat} (h : classed? text = some found) :
    ∃ family ∈ families, ∃ read? ∈ family.2, read? text = some found := by
  obtain ⟨read?, hMem, hRead⟩ := List.exists_of_findSome?_eq_some h
  rw [classes_eq] at hMem
  obtain ⟨family, hFamily, hRead?⟩ := List.mem_flatMap.1 hMem
  exact ⟨family, hFamily, read?, hRead?, hRead⟩

/-- No class begins with what is no head of a family. -/
theorem classed?_of_head {c : Char} {rest : List Char}
    (h : headOf c ∉ families.map (·.1)) : classed? (c :: rest) = none := by
  cases hFound : classed? (c :: rest) with
  | none => rfl
  | some found =>
      obtain ⟨family, hFamily, read?, hRead?, hRead⟩ := exists_family hFound
      obtain ⟨d, others, hText, hHead⟩ := beginsWith_of_mem hFamily read? hRead? _ found hRead
      cases hText
      exact absurd (List.mem_map.2 ⟨family, hFamily, hHead.symm⟩) h

/-- If no word begins one behind it, the longest word is found. -/
theorem word?_of_isPrefix {α : Type} {words : List α} {written : α → String} {word : α}
    {text : List Char}
    (hWords : words.Pairwise fun a b => ¬ (written a).toList <+: (written b).toList)
    (hMem : word ∈ words) (hPrefix : (written word).toList <+: text) :
    ∃ found n, word? words written text = some (found, n) ∧
      (found = word ∧ n = (written word).toList.length ∨ (written word).toList.length < n) := by
  cases hFind : words.find? fun word => (written word).toList.isPrefixOf text with
  | none =>
      rw [List.find?_eq_none] at hFind
      exact absurd (List.isPrefixOf_iff_prefix.2 hPrefix) (hFind word hMem)
  | some found =>
      obtain ⟨hFound, before, after, rfl, hBefore⟩ := List.find?_eq_some_iff_append.1 hFind
      refine ⟨found, (written found).length, by rw [word?, hFind]; rfl, ?_⟩
      rw [← String.length_toList]
      rcases List.mem_append.1 hMem with hEarlier | hLater
      · have hNot := hBefore word hEarlier
        rw [List.isPrefixOf_iff_prefix.2 hPrefix] at hNot
        cases hNot
      · rcases List.mem_cons.1 hLater with rfl | hBehind
        · exact .inl ⟨rfl, rfl⟩
        · right
          have hNotPrefix := (List.pairwise_cons.1 (List.pairwise_append.1 hWords).2.1).1 word hBehind
          by_contra hLess
          rw [List.isPrefixOf_iff_prefix] at hFound
          exact hNotPrefix (List.prefix_of_prefix_length_le hFound hPrefix (by omega))

theorem known_of_mem {read? : List Char → Option (Shape × Nat)} (h : read? ∈ classes)
    {text : List Char} {found : Shape × Nat} (hFound : read? text = some found) :
    found.1 ≠ .unknown ∧ ∃ p : Pattern, p.shape = found.1 ∧ p.read? text = some found.2 := by
  have hAll : ∀ read? ∈ classes, ∀ found, read? text = some found →
      found.1 ≠ .unknown ∧ ∃ p : Pattern, p.shape = found.1 ∧ p.read? text = some found.2 := by
    simp only [classes, List.forall_mem_cons, Option.map_eq_some_iff]
    refine ⟨?_, ?_, ?_, ?_, ?_, ?_, ?_, ?_, ?_, ?_, List.forall_mem_nil _⟩
    all_goals rintro found ⟨n, hn, rfl⟩
    · exact ⟨Shape.noConfusion, .date, rfl, hn⟩
    · exact ⟨Shape.noConfusion, .number, rfl, hn⟩
    · exact ⟨Shape.noConfusion, .account, rfl, hn⟩
    · exact ⟨Shape.noConfusion, .currency, rfl, hn⟩
    · exact ⟨Shape.noConfusion, .tag, rfl, hn⟩
    · exact ⟨Shape.noConfusion, .link, rfl, hn⟩
    · obtain ⟨-, hLength, rest, rfl⟩ := word?_eq_some hn
      exact ⟨Shape.noConfusion, .keyword n.1, rfl,
        written?_eq_some.2 ⟨List.prefix_append _ _, hLength⟩⟩
    · obtain ⟨-, hLength, rest, rfl⟩ := word?_eq_some hn
      exact ⟨Shape.noConfusion, .mark n.1, rfl,
        written?_eq_some.2 ⟨List.prefix_append _ _, hLength⟩⟩
    · exact ⟨Shape.noConfusion, .newline, rfl, hn⟩
    · exact ⟨Shape.noConfusion, .comment, rfl, hn⟩
  exact hAll read? h found hFound

theorem flagChars_eq {c : Char} :
    c ∈ flagChars ↔ c = '*' ∨ c = '!' ∨ c ∈ Pattern.among "PSTCURM?%&" := by
  simp [flagChars, Pattern.among]

end Lexeme

namespace Pattern

variable {p q : Pattern} {text w rest : List Char} {n : Nat}

/-- Where a flag stands, a flag is read, or a longer name. -/
theorem scan_of_flag {c : Char} (h : c ∈ flagChars) (rest : List Char) :
    scan (c :: rest) = (.flag, 1) ∨
      1 < (scan (c :: rest)).2 ∧ (scan (c :: rest)).1 ≠ .unknown := by
  have hEach : flagChars.all (fun c =>
      decide (c ≠ '"' ∧ (headOf c = .capital ∨ headOf c = .other))) = true := by decide
  obtain ⟨hQuote, hHead⟩ := of_decide_eq_true (List.all_eq_true.1 hEach c h)
  rw [scan_eq]
  cases hFound : classed? (c :: rest) with
  | none =>
      rw [Option.getD_none, unclassed_plain rest hQuote,
        if_pos (List.contains_iff_mem.2 h)]
      exact .inl rfl
  | some found =>
      right
      obtain ⟨family, hFamily, read?, hMem, hRead⟩ := exists_family hFound
      have hClass : read? ∈ classes := List.mem_flatMap.2 ⟨family, hFamily, hMem⟩
      refine ⟨?_, (known_of_mem hClass hRead).1⟩
      obtain ⟨d, others, hText, hSame⟩ := beginsWith_of_mem hFamily read? hMem _ found hRead
      cases hText
      -- Only account names and currencies begin with a letter that is a flag.
      have hLong : ∀ family ∈ families, family.1 = .capital ∨ family.1 = .other →
          ∀ read? ∈ family.2, ∀ text found, read? text = some found → 1 < found.2 := by
        simp only [families, List.forall_mem_cons]
        refine ⟨by simp, fun _ => ⟨?_, ?_, List.forall_mem_nil _⟩, by simp, by simp, by simp,
          by simp, by simp, by simp, List.forall_mem_nil _⟩
        · intro text found h
          obtain ⟨n, hn, rfl⟩ := Option.map_eq_some_iff.1 h
          obtain ⟨root, hRoot, rest, rfl, hParts, rfl⟩ := account?_eq_some hn
          have hLength : ∀ root ∈ accountRoots, 1 < root.toList.length := by decide
          exact Nat.lt_of_lt_of_le (hLength root hRoot) (Nat.le_add_right _ _)
        · intro text found h
          obtain ⟨n, hn, rfl⟩ := Option.map_eq_some_iff.1 h
          obtain ⟨c, rest, rfl, -, hSome, rfl⟩ := currency?_eq_some hn
          have hLength := List.length_pos_iff.2 hSome
          show 1 < 1 + _
          omega
      exact hLong family hFamily (hSame ▸ hHead) read? hMem _ found hRead

/-- What is read of a pattern is what is scanned, or that is longer. -/
theorem scan_of_read? (h : p.read? text = some n) :
    scan text = (p.shape, n) ∨ n < (scan text).2 ∧ (scan text).1 ≠ .unknown := by
  have hClass {read? : List Char → Option (Shape × Nat)} {found : Shape × Nat}
      (hMem : read? ∈ classes) (hRead : read? text = some found)
      (hFound : found = (p.shape, n) ∨ n < found.2) :
      scan text = (p.shape, n) ∨ n < (scan text).2 ∧ (scan text).1 ≠ .unknown := by
    obtain ⟨first, hFirst, hLe⟩ := classed?_of_mem hMem hRead
    obtain ⟨next?, hNext, hReads⟩ := List.exists_of_findSome?_eq_some hFirst
    have hKnown := (known_of_mem hNext hReads).1
    rw [scan_eq, hFirst, Option.getD_some]
    rcases hLe with rfl | hLess
    · rcases hFound with rfl | hLess
      · exact .inl rfl
      · exact .inr ⟨hLess, hKnown⟩
    · refine .inr ⟨?_, hKnown⟩
      rcases hFound with rfl | hMore
      · exact hLess
      · exact Nat.lt_trans hMore hLess
  have hRead {f? : List Char → Option Nat} (hMem : (fun text => (f? text).map (p.shape, ·)) ∈ classes)
      (hf : f? text = some n) :
      scan text = (p.shape, n) ∨ n < (scan text).2 ∧ (scan text).1 ≠ .unknown :=
    hClass hMem (by rw [hf]; rfl) (.inl rfl)
  have hWord {α : Type} (words : List α) {written : α → String} {word : α} (shape : α → Shape)
      (hMem : (fun text => (word? words written text).map fun word => (shape word.1, word.2)) ∈
        classes)
      (hWords : words.Pairwise fun a b => ¬ (written a).toList <+: (written b).toList)
      (hIn : word ∈ words) (hPrefix : (written word).toList <+: text)
      (hShape : p.shape = shape word) (hn : n = (written word).toList.length) :
      scan text = (p.shape, n) ∨ n < (scan text).2 ∧ (scan text).1 ≠ .unknown := by
    obtain ⟨other, m, hFound, hLonger⟩ := word?_of_isPrefix hWords hIn hPrefix
    refine hClass hMem (by rw [hFound]; rfl) ?_
    rcases hLonger with ⟨rfl, rfl⟩ | hLess
    · exact .inl (by rw [hShape, hn])
    · exact .inr (by rw [hn]; exact hLess)
  cases p with
  | date => exact hRead (by simp [classes, shape, read?]) h
  | number => exact hRead (by simp [classes, shape, read?]) h
  | string =>
      obtain ⟨rest, rfl, hClosed, rfl⟩ := quoted?_eq_some h
      rw [scan_eq, classed?_of_head (by decide), Option.getD_none, unclassed_quote, if_pos hClosed]
      exact .inl rfl
  | account => exact hRead (by simp [classes, shape, read?]) h
  | currency => exact hRead (by simp [classes, shape, read?]) h
  | tag => exact hRead (by simp [classes, shape, read?]) h
  | link => exact hRead (by simp [classes, shape, read?]) h
  | keyword k =>
      obtain ⟨hPrefix, rfl⟩ := written?_eq_some.1 h
      exact hWord Keyword.all .keyword (by simp [classes]) (by decide) (by cases k <;> decide) hPrefix
        rfl rfl
  | mark k =>
      obtain ⟨hPrefix, rfl⟩ := written?_eq_some.1 h
      exact hWord Mark.all .mark (by simp [classes]) (by decide) (by cases k <;> decide) hPrefix
        rfl rfl
  | star =>
      obtain ⟨⟨rest, rfl⟩, rfl⟩ := written?_eq_some.1 h
      exact scan_of_flag (by decide) rest
  | pending =>
      obtain ⟨⟨rest, rfl⟩, rfl⟩ := written?_eq_some.1 h
      exact scan_of_flag (by decide) rest
  | flag =>
      obtain ⟨rfl, c, hc, rest, rfl⟩ := flag?_eq_some.1 h
      exact scan_of_flag (flagChars_eq.2 (.inr (.inr hc))) rest
  | newline => exact hRead (by simp [classes, shape, read?]) h
  | comment => exact hRead (by simp [classes, shape, read?]) h

/-- What is scanned is read of a pattern. -/
theorem exists_read?_of_scan (hText : text ≠ []) (h : (scan text).1 ≠ .unknown) :
    ∃ p : Pattern, p.shape = (scan text).1 ∧ p.read? text = some (scan text).2 := by
  rw [scan_eq] at h ⊢
  cases hFound : classed? text with
  | some found =>
      obtain ⟨read?, hMem, hRead⟩ := List.exists_of_findSome?_eq_some hFound
      exact (known_of_mem hMem hRead).2
  | none =>
      rw [hFound, Option.getD_none] at h
      rw [Option.getD_none]
      obtain ⟨c, rest, rfl⟩ := List.exists_cons_of_ne_nil hText
      by_cases hQuote : c = '"'
      · subst hQuote
        rw [unclassed_quote] at h ⊢
        by_cases hClosed : (literal rest).1 = true
        · exact ⟨.string, by rw [if_pos hClosed]; rfl, if_pos hClosed⟩
        · rw [if_neg hClosed] at h
          exact absurd rfl h
      · rw [unclassed_plain rest hQuote] at h ⊢
        by_cases hFlag : flagChars.contains c = true
        · rw [if_pos hFlag]
          rcases flagChars_eq.1 (List.contains_iff_mem.1 hFlag) with rfl | rfl | hLetter
          · exact ⟨.star, rfl, rfl⟩
          · exact ⟨.pending, rfl, rfl⟩
          · exact ⟨.flag, rfl, flag?_eq_some.2 ⟨rfl, c, hLetter, rest, rfl⟩⟩
        · rw [if_neg hFlag] at h
          exact absurd rfl h

/-- A text of a pattern is scanned to its end, as what the pattern describes. -/
theorem scan_of_mem (h : w ∈ p.language) : scan w = (p.shape, w.length) := by
  obtain ⟨n, hn, hLe⟩ := exists_read? h []
  rw [List.append_nil] at hn
  have hEnd := (scan_bounds (ne_nil_of_mem h)).2
  have hSame : n = w.length := Nat.le_antisymm (read?_bounds hn).2 hLe
  rcases scan_of_read? hn with hScan | ⟨hLonger, -⟩
  · rw [hScan, hSame]
  · omega

/-- A flag of one character belongs to the one pattern that has this character. -/
theorem exists_flag (hShape : p.shape = .flag) (h : w ∈ p.language) :
    ∃ c, w = [c] ∧ p = if c = '*' then .star else if c = '!' then .pending else .flag := by
  cases p with
  | star => exact ⟨'*', h, rfl⟩
  | pending => exact ⟨'!', h, rfl⟩
  | flag =>
      obtain ⟨c, hc, rfl⟩ := h
      have hEach : "PSTCURM?%&".toList.all (fun c => decide (c ≠ '*' ∧ c ≠ '!')) = true := by
        decide
      obtain ⟨hStar, hPending⟩ := of_decide_eq_true (List.all_eq_true.1 hEach c hc)
      exact ⟨c, rfl, by rw [if_neg hStar, if_neg hPending]⟩
  | _ => cases hShape

/-- No text belongs to two patterns. -/
theorem eq_of_mem (hp : w ∈ p.language) (hq : w ∈ q.language) : p = q := by
  have hShape : p.shape = q.shape :=
    congrArg Prod.fst ((scan_of_mem hp).symm.trans (scan_of_mem hq))
  by_cases hFlag : p.shape = .flag
  · obtain ⟨c, rfl, hFirst⟩ := exists_flag hFlag hp
    obtain ⟨d, hText, hSecond⟩ := exists_flag (hShape.symm.trans hFlag) hq
    cases hText
    rw [hFirst, hSecond]
  · cases p <;> cases q <;> first
      | exact absurd rfl hFlag
      | cases hShape <;> rfl

/-- Where nothing is read, the input begins with no text of a pattern. -/
theorem not_isMatch_of_scan (h : (scan text).1 = .unknown) : ∀ w, w <+: text → ¬ IsMatch w := by
  rintro w ⟨rest, rfl⟩ ⟨p, hp⟩
  obtain ⟨n, hn, -⟩ := exists_read? hp rest
  rcases scan_of_read? hn with hScan | ⟨-, hKnown⟩
  · rw [hScan] at h
    cases p <;> cases h
  · exact hKnown h

theorem take_append_prefix {m : Nat} {c : Char} :
    text.take m ++ [c] <+: text ↔ (text.drop m).head? = some c := by
  conv => lhs; rhs; rw [← List.take_append_drop m text]
  rw [List.prefix_append_right_inj]
  cases text.drop m with
  | nil => simp
  | cons d rest => simp [List.cons_prefix_cons, eq_comm]

/-- What is scanned is the longest match, but for the comma that a number takes along. -/
theorem exists_isTaken (hText : text ≠ []) (h : (scan text).1 ≠ .unknown) :
    ∃ (p : Pattern) (longest : List Char), p.shape = (scan text).1 ∧ longest ∈ p.language ∧
      IsTaken text longest (text.take (scan text).2) := by
  obtain ⟨p, hShape, hRead⟩ := exists_read?_of_scan hText h
  have hEnd := (scan_bounds hText).2
  have hOther {q : Pattern} {w : List Char} (hw : w ∈ q.language) (hPrefix : w <+: text) :
      w.length < (scan text).2 ∨ w.length ≤ (scan text).2 ∧ q.shape = (scan text).1 := by
    obtain ⟨rest, rfl⟩ := hPrefix
    obtain ⟨n, hn, hLe⟩ := exists_read? hw rest
    rcases scan_of_read? hn with hScan | ⟨hLess, -⟩
    · rw [hScan]
      exact .inr ⟨hLe, rfl⟩
    · exact .inl (Nat.lt_of_le_of_lt hLe hLess)
  by_cases hNumber : p = .number
  · subst hNumber
    obtain ⟨m, hm⟩ := number?_measures hRead
    have hLength : (text.take m).length = m := by
      rw [List.length_take, Nat.min_eq_left]
      rcases hm.reads with ⟨hSame, -⟩ | ⟨hMore, -⟩
      · omega
      · omega
    have hLongest : IsLongest text (text.take m) := by
      refine ⟨List.take_prefix _ _, ⟨_, hm.mem⟩, ?_⟩
      rintro w hPrefix ⟨q, hq⟩
      rw [hLength]
      by_cases hSame : q = .number
      · subst hSame
        exact hm.le w hq hPrefix
      · rcases hOther hq hPrefix with hLess | ⟨-, hShapes⟩
        · rcases hm.reads with ⟨hReads, -⟩ | ⟨hReads, -⟩
          · omega
          · omega
        · rw [← hShape] at hShapes
          cases q <;> first
            | exact absurd rfl hSame
            | cases hShapes
    refine ⟨.number, text.take m, hShape, hm.mem, hLongest, ?_⟩
    rcases hm.reads with ⟨hSame, hNone⟩ | ⟨hMore, hGrouped, hComma⟩
    · rw [← take_append_prefix] at hNone
      rw [hSame]
      exact .inl ⟨rfl, hNone⟩
    · have hTake : text.take (m + 1) = text.take m ++ [','] := by
        rw [List.take_add_one, ← List.head?_drop, hComma]
        rfl
      rw [hMore, hTake]
      exact .inr ⟨rfl, hGrouped, take_append_prefix.2 hComma⟩
  · have hMem := (sound_covers hNumber).1 _ _ hRead
    have hLength : (text.take (scan text).2).length = (scan text).2 := by
      rw [List.length_take, Nat.min_eq_left hEnd]
    refine ⟨p, text.take (scan text).2, hShape, hMem, ⟨List.take_prefix _ _, ⟨p, hMem⟩, ?_⟩, ?_⟩
    · rintro w hPrefix ⟨q, hq⟩
      rw [hLength]
      rcases hOther hq hPrefix with hLess | ⟨hLe, -⟩
      · exact Nat.le_of_lt hLess
      · exact hLe
    · refine .inl ⟨rfl, fun hComma => hNumber (eq_of_mem hMem ?_)⟩
      exact number_of_grouped hComma.1

/-- A lexeme that is no error, and its longest match. -/
theorem exists_isTaken_of_scan {body : List Char} {shape : Shape} (hSome : body ≠ [])
    (hScan : scan (body ++ rest) = (shape, body.length)) (hKnown : shape ≠ .unknown) :
    ∃ (p : Pattern) (longest : List Char), p.shape = shape ∧ longest ∈ p.language ∧
      IsTaken (body ++ rest) longest body := by
  have hRead : (scan (body ++ rest)).1 ≠ .unknown := by
    rw [hScan]
    exact hKnown
  obtain ⟨p, longest, hShape, hMem, hTaken⟩ :=
    exists_isTaken (List.append_ne_nil_of_left_ne_nil hSome rest) hRead
  rw [hScan] at hShape hTaken
  rw [List.take_left] at hTaken
  exact ⟨p, longest, hShape, hMem, hTaken⟩

/-- The token of a lexeme has the kind of its pattern, unless it is a number out of bounds. -/
theorem kind_ofLexeme (p : Pattern) (lexeme : List Char) (span : Span) :
    (Token.ofLexeme p.shape lexeme span).kind = p.kind ∨
      p = .number ∧ Token.number? lexeme = none ∧
        (Token.ofLexeme p.shape lexeme span).kind = .error := by
  cases p with
  | number =>
      cases hNumber : Token.number? lexeme with
      | some number => exact .inl (by simp only [shape, Token.ofLexeme, hNumber, kind])
      | none => exact .inr ⟨rfl, rfl, by simp only [shape, Token.ofLexeme, hNumber]⟩
  | _ => exact .inl rfl

end Pattern

namespace Token

open Pattern

/-- The comma behind a number does not change what it denotes. -/
theorem number?_append_comma (text : List Char) : number? (text ++ [',']) = number? text := by
  rw [number?, number?, List.filter_append]
  simp

/-- Every token is a piece of its source. -/
theorem exists_piece_of_tokens {source : String} {front back : List Token} {token : Token}
    (h : tokens source = front ++ token :: back) (hKind : token.kind ≠ .endOfInput) :
    ∃ before gap body rest after, source.toList = before ++ gap ++ body ++ rest ∧
      Piece (front.getLast?.elim true fun token => decide (token.kind = .lineEnd)) gap body rest
        token after ∧
      token.span = spanAt (Place.origin.advance before) gap body := by
  have hSplit : tokens source = front ++ [token] ++ back := by
    rw [h, List.append_assoc]
    rfl
  obtain ⟨before, part, behind, after, hSource, hPart⟩ := exists_lexed_part hSplit
    (List.cons_ne_nil _ _) (List.forall_mem_singleton.2 hKind)
  cases hPart with
  | @cons _ within _ _ gap body text _ _ hPiece hSpan hMore =>
      cases hMore
      exact ⟨before, gap, body, behind, after, by rw [hSource]; simp, hPiece, hSpan⟩

/-- How the first characters of the input become a token of a kind: they are the longest match, and
that of the pattern of the kind. Where there is none, they become an error, as a number out of
bounds does. -/
inductive Chosen (input body : List Char) : TokenKind → Prop where
  | longest {p : Pattern} {text : List Char} (hMem : text ∈ p.language)
      (hTaken : IsTaken input text body) : Chosen input body p.kind
  | outOfBounds {text : List Char} (hMem : text ∈ Pattern.number.language)
      (hTaken : IsTaken input text body) (hNumber : number? text = none) :
      Chosen input body .error
  | unmatched (hNone : ∀ text, text <+: input → ¬ IsMatch text) : Chosen input body .error

theorem chosen_of_scan {c : Char} {tail rest : List Char} {shape : Shape} (span : Span)
    (hScan : scan (c :: tail ++ rest) = (shape, (c :: tail).length)) :
    Chosen (c :: tail ++ rest) (c :: tail) (ofLexeme shape (c :: tail) span).kind := by
  by_cases hShape : shape = .unknown
  · subst hShape
    exact .unmatched (not_isMatch_of_scan (by rw [hScan]))
  · obtain ⟨p, text, rfl, hMem, hTaken⟩ :=
      exists_isTaken_of_scan (List.cons_ne_nil c tail) hScan hShape
    rcases kind_ofLexeme p (c :: tail) span with hKind | ⟨rfl, hNone, hKind⟩
    · rw [hKind]
      exact .longest hMem hTaken
    · rw [hKind]
      refine .outOfBounds hMem hTaken ?_
      rcases hTaken.taken with ⟨hText, -⟩ | ⟨hText, -⟩
      · rw [← hText]
        exact hNone
      · rw [hText, number?_append_comma] at hNone
        exact hNone

/-- No text belongs to two patterns. The characters of a token that stands for a lexeme are the
longest text of any pattern that the rest of the source begins with, but for the comma that a number
in groups takes along, and its kind is that of the pattern. An error stands where no pattern has a
text, or for a number out of bounds. -/
theorem tokens_longest {source : String} {front back : List Token} {token : Token}
    (h : tokens source = front ++ token :: back) (hKind : token.kind ≠ .endOfInput) :
    (∀ (text : List Char) (p q : Pattern), text ∈ p.language → text ∈ q.language → p = q) ∧
      ∃ before body rest, source.toList = before ++ body ++ rest ∧
        token.span = ⟨Place.origin.advance before, Place.origin.advance (before ++ body)⟩ ∧
        (token.kind = .indent ∨ token.kind = .skipped ∨
          token.kind = .lineEnd ∧ body = [] ∧ rest = [] ∨
          (∀ c ∈ (body ++ rest).head?, isBlank c = false) ∧
            Chosen (body ++ rest) body token.kind) := by
  refine ⟨fun text p q => eq_of_mem, ?_⟩
  obtain ⟨before, gap, body, rest, after, hSource, hPiece, hSpan⟩ := exists_piece_of_tokens h hKind
  refine ⟨before ++ gap, body, rest, hSource, ?_, ?_⟩
  · rw [hSpan, spanAt, Place.advance_append, Place.advance_append, Place.advance_append]
  generalize front.getLast?.elim true (fun token => decide (token.kind = .lineEnd)) = start at hPiece
  cases hPiece with
  | indent => exact .inl rfl
  | heading => exact .inr (.inl rfl)
  | lexeme hBlanks hHead hStart hScan =>
      refine .inr (.inr (.inr ⟨?_, chosen_of_scan _ hScan⟩))
      rintro d hd
      cases hd
      exact hHead
  | close => exact .inr (.inr (.inl ⟨rfl, rfl, rfl⟩))

/-- A number of one thousand and more. -/
def thousands : Token :=
  ⟨.number, .number ⟨true, 1234, 0, by decide, Nat.zero_le _, by decide⟩, ⟨⟨1, 1⟩, ⟨1, 7⟩⟩⟩

theorem tokens_longest_thousands :
    tokens "-1,234 EUR" = [] ++ thousands :: (tokens "-1,234 EUR").tail ∧
      ∃ before body rest, "-1,234 EUR".toList = before ++ body ++ rest ∧
        thousands.span = ⟨Place.origin.advance before, Place.origin.advance (before ++ body)⟩ ∧
        Chosen (body ++ rest) body .number := by
  have hTokens : tokens "-1,234 EUR" = [] ++ thousands :: (tokens "-1,234 EUR").tail := by
    decide +kernel
  obtain ⟨-, before, body, rest, hSource, hSpan, hCases⟩ := tokens_longest hTokens (by decide)
  refine ⟨hTokens, before, body, rest, hSource, hSpan, ?_⟩
  rcases hCases with hKind | hKind | ⟨hKind, -⟩ | ⟨-, hChosen⟩
  · cases hKind
  · cases hKind
  · cases hKind
  · exact hChosen

/-- A number that a comma stands behind. -/
def withComma : Token :=
  ⟨.number, .number ⟨false, 1, 0, by decide, Nat.zero_le _, by decide⟩, ⟨⟨1, 1⟩, ⟨1, 3⟩⟩⟩

/-- The token of the number ends behind the comma, but the longest match ends in front of it, and
with the comma there is no match. -/
theorem withComma_not_longest :
    (tokens "1,\n").head? = some withComma ∧
      withComma.span.charRange "1,\n".toList = ⟨0, 2, Nat.zero_le 2⟩ ∧
      IsLongest "1,\n".toList ['1'] ∧ ¬ IsMatch ['1', ','] := by
  have hNoMatch : ¬ IsMatch ['1', ','] := by
    rintro ⟨p, hp⟩
    have hNumber : p = .number := by
      have hShape : (Shape.number, 2) = (p.shape, 2) := scan_of_mem hp
      cases p <;> first
        | rfl
        | cases hShape
    rw [hNumber, language_number] at hp
    rcases mem_signed.1 hp with hUnsigned | ⟨u, -, hSign⟩
    · have hLe : 2 ≤ extent ['1', ','] := le_extent hUnsigned []
      exact absurd hLe (by decide)
    · cases hSign
  refine ⟨by decide +kernel, by decide +kernel, ?_, hNoMatch⟩
  have hScan : scan (['1', ','] ++ ['\n']) = (.number, 2) := by decide
  obtain ⟨p, text, -, hMem, hTaken⟩ :=
    exists_isTaken_of_scan (List.cons_ne_nil '1' [',']) hScan Shape.noConfusion
  rcases hTaken.taken with ⟨hText, -⟩ | ⟨hText, -⟩
  · rw [← hText] at hMem
    exact absurd ⟨p, hMem⟩ hNoMatch
  · have hBody : ['1'] ++ [','] = text ++ [','] := hText
    have hLongest := hTaken.toIsLongest
    rw [← List.append_cancel_right hBody] at hLongest
    exact hLongest

end Token

end LedgerText
