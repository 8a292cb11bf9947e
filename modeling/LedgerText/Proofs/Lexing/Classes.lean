import LedgerText.Proofs.Grammar.Values
import LedgerText.Proofs.Lexing.Pieces
import LedgerText.Proofs.RoundTrip.WellFormed

/-!
# What the tokens of a text say

A token that was read from a text carries the value that its kind calls for, and
the value is of the class of the kind: names look like names, flags are flag
characters, and if the text of a date names a day, the day has a plain year.
-/

namespace LedgerText

open Lexeme

/-- The token carries a value of the class that is read as its kind. -/
def Token.IsLexical (t : Token) : Prop :=
  match t.kind with
  | .account => ∃ name, t.value = .text name ∧ IsAccount name
  | .currency => ∃ name, t.value = .text name ∧ IsCurrency name
  | .tag => ∃ name, t.value = .text name ∧ IsTagName name
  | .link => ∃ name, t.value = .text name ∧ IsTagName name
  | .date => ∃ text, t.value = .text text ∧ ∀ d, Date.ofText? text = some d → d.HasPlainYear
  | .string => ∃ text, t.value = .text text
  | .number => ∃ number, t.value = .number number
  | .flag => ∃ c, t.value = .char c ∧ c ∈ flagChars
  | _ => True

/-- A token whose kind carries a text has one. -/
theorem Token.IsLexical.exists_text {t : Token} (h : t.IsLexical)
    (hKind : t.kind.carriesText = true) : ∃ text, t.value = .text text := by
  unfold IsLexical at h
  cases hCase : t.kind <;> simp only [hCase] at h hKind
  case string => exact h
  case date | account | currency | tag | link => exact ⟨h.choose, h.choose_spec.1⟩
  all_goals cases hKind

/-! ## Days -/

namespace Digits

theorem number?_lt {text : List Char} {n : Nat} (h : number? text = some n) :
    n < Nat.pow 10 text.length := by
  unfold number? at h
  split at h
  · next hDigits =>
      cases h
      exact ofDigitChars_lt (List.all_eq_true.1 hDigits.2)
  · cases h

theorem signedNumber?_lt {text : List Char} {n : Nat} (h : signedNumber? text = some n) :
    n < Nat.pow 10 text.length := by
  unfold signedNumber? at h
  split at h
  · next digits =>
      have hDigits := number?_lt h
      have hPower : 10 ^ digits.length ≤ 10 ^ ('+' :: digits).length :=
        Nat.pow_le_pow_right (by decide) (by simp)
      exact Nat.lt_of_lt_of_le hDigits hPower
  · exact number?_lt h

end Digits

namespace Date

/-- A year of four digits is plain. -/
theorem hasPlainYear_of_fields {text : String} {year : List Char} {others : List (List Char)}
    {d : Date} (hFields : fields text.toList = year :: others) (hYear : year.length = 4)
    (h : ofText? text = some d) : d.HasPlainYear := by
  unfold ofText? at h
  rw [hFields] at h
  split at h
  · next first month day hParts =>
      cases hParts
      simp only [Option.bind_eq_bind, Option.bind_eq_some_iff] at h
      obtain ⟨y, hy, m, -, n, -, hDate⟩ := h
      have hYears := Digits.signedNumber?_lt hy
      rw [hYear] at hYears
      have hLess : y < 10000 := hYears
      unfold ofParts? at hDate
      split at hDate
      · cases hDate
        exact ⟨Int.natCast_nonneg y, by show (y : Int) ≤ 9999; omega⟩
      · cases hDate
  · cases h

end Date

/-! ## Lexemes of a class -/

/-- The lexeme is one that the token of its class can be made of. -/
def Shape.Fits (lexeme : List Char) : Shape → Prop
  | .account => IsAccount (String.ofList lexeme)
  | .currency => IsCurrency (String.ofList lexeme)
  | .tag => IsTagName (String.ofList lexeme.tail)
  | .link => IsTagName (String.ofList lexeme.tail)
  | .date => ∀ d, Date.ofText? (String.ofList lexeme) = some d → d.HasPlainYear
  | .flag => lexeme.headD '*' ∈ flagChars
  | _ => True

namespace Lexeme

variable {text : List Char} {n : Nat}

theorem fits_date (h : date? text = some n) : Shape.date.Fits (text.take n) := by
  intro d hDate
  unfold date? at h
  split at h
  · next y₁ y₂ y₃ y₄ s₁ m₁ m₂ s₂ d₁ d₂ rest =>
      split at h
      · next hChars =>
          cases h
          have hDigit {c : Char} (hc : isDecimalDigit c = true) : Date.isSeparator c = false := by
            have hMinus : c ≠ '-' := ne_of_class hc (by decide)
            have hSlash : c ≠ '/' := ne_of_class hc (by decide)
            simp [Date.isSeparator, hMinus, hSlash]
          have hSeparator : Date.isSeparator s₁ = true := by
            simpa [Date.isSeparator] using (List.all_eq_true.1 hChars.2) s₁ (by simp)
          have hYear : ∀ c ∈ [y₁, y₂, y₃, y₄], Date.isSeparator c = false := by
            intro c hc
            refine hDigit (List.all_eq_true.1 hChars.1 c ?_)
            exact List.mem_append_left [m₁, m₂, d₁, d₂] hc
          have hFields :
              Date.fields (String.ofList [y₁, y₂, y₃, y₄, s₁, m₁, m₂, s₂, d₁, d₂]).toList =
                [y₁, y₂, y₃, y₄] :: Date.fields [m₁, m₂, s₂, d₁, d₂] := by
            rw [String.toList_ofList]
            exact Date.fields_append_separator hYear hSeparator
          exact Date.hasPlainYear_of_fields hFields rfl hDate
      · cases h
  · cases h

theorem take_length_takeWhile (p : Char → Bool) (text : List Char) :
    text.take (text.takeWhile p).length = text.takeWhile p :=
  (List.prefix_iff_eq_take.1 (List.takeWhile_prefix p)).symm

/-- The parts of an account name are colons, each with a capital letter and more characters. -/
theorem exists_parts (text : List Char) : ∃ parts : List (Char × List Char),
    (∀ part ∈ parts, part.1.isUpper = true ∧ part.2.all isAccountChar = true) ∧
      text.take (accountParts text) = partsText parts := by
  induction text using accountParts.induct with
  | case1 c rest hUpper length ih =>
      obtain ⟨parts, hParts, hText⟩ := ih
      change (rest.drop (rest.takeWhile isAccountChar).length).take
        (accountParts (rest.drop (rest.takeWhile isAccountChar).length)) = _ at hText
      have hPart : (rest.takeWhile isAccountChar).all isAccountChar = true := List.all_takeWhile
      have hLength : accountParts (':' :: c :: rest) = (rest.takeWhile isAccountChar).length +
          accountParts (rest.drop (rest.takeWhile isAccountChar).length) + 1 + 1 := by
        rw [accountParts, if_pos hUpper]
        dsimp only
        omega
      have hRest : rest.take ((rest.takeWhile isAccountChar).length +
          accountParts (rest.drop (rest.takeWhile isAccountChar).length)) =
            rest.takeWhile isAccountChar ++ partsText parts := by
        rw [List.take_add, take_length_takeWhile, hText]
      refine ⟨(c, rest.takeWhile isAccountChar) :: parts,
        List.forall_mem_cons.2 ⟨⟨hUpper, hPart⟩, hParts⟩, ?_⟩
      rw [hLength, List.take_succ_cons, List.take_succ_cons, hRest]
      rfl
  | case2 c rest hUpper =>
      rw [accountParts, if_neg hUpper]
      exact ⟨[], List.forall_mem_nil _, rfl⟩
  | case3 text hText =>
      have hNone : accountParts text = 0 := by
        unfold accountParts
        split
        · next c rest => exact absurd rfl (hText c rest)
        · rfl
      rw [hNone]
      exact ⟨[], List.forall_mem_nil _, rfl⟩

theorem fits_account (h : account? text = some n) : Shape.account.Fits (text.take n) := by
  obtain ⟨root, hRoot, rest, rfl, hParts, rfl⟩ := account?_eq_some h
  obtain ⟨parts, hEach, hText⟩ := exists_parts rest
  refine ⟨root, hRoot, parts, ?_, hEach, ?_⟩
  · rintro rfl
    have hNone : rest.take (accountParts rest) = [] := hText
    rw [List.take_eq_nil_iff] at hNone
    rcases hNone with hZero | rfl
    · exact hParts hZero
    · obtain ⟨c, others, hNil, -⟩ := accountParts_ne_zero.1 hParts
      cases hNil
  · rw [String.toList_ofList, List.take_length_add_append, hText]
    rfl

theorem fits_currency (h : currency? text = some n) : Shape.currency.Fits (text.take n) := by
  obtain ⟨c, rest, rfl, hUpper, hSome, rfl⟩ := currency?_eq_some h
  refine ⟨c, rest.takeWhile isCurrencyChar, ?_, hUpper, hSome, List.all_takeWhile⟩
  rw [String.toList_ofList, Nat.add_comm, List.take_succ_cons, take_length_takeWhile]

theorem isTagName_of_tagged? {sign : Char} (h : tagged? sign text = some n) :
    IsTagName (String.ofList (text.take n).tail) := by
  obtain ⟨rest, rfl, hSome, rfl⟩ := tagged?_eq_some h
  have hTail :
      (String.ofList ((sign :: rest).take (1 + (rest.takeWhile isTagChar).length)).tail).toList =
        rest.takeWhile isTagChar := by
    rw [String.toList_ofList, Nat.add_comm, List.take_succ_cons, List.tail_cons,
      take_length_takeWhile]
  exact ⟨by rw [hTail]; exact hSome, by rw [hTail]; exact List.all_takeWhile⟩

/-- A class of lexemes of which every one fits. -/
theorem scan_fits {text : List Char} (hText : text ≠ []) :
    (scan text).1.Fits (text.take (scan text).2) := by
  have hClasses : ∀ read? ∈ classes, ∀ found, read? text = some found →
      found.1.Fits (text.take found.2) := by
    simp only [classes, List.forall_mem_cons, Option.map_eq_some_iff]
    refine ⟨?_, ?_, ?_, ?_, ?_, ?_, ?_, ?_, ?_, ?_, List.forall_mem_nil _⟩
    all_goals rintro found ⟨n, h, rfl⟩
    · exact fits_date h
    · trivial
    · exact fits_account h
    · exact fits_currency h
    · exact isTagName_of_tagged? h
    · exact isTagName_of_tagged? h
    all_goals trivial
  rw [scan_eq]
  cases hFound : classed? text with
  | some found =>
      obtain ⟨read?, hMem, hRead⟩ := List.exists_of_findSome?_eq_some hFound
      exact hClasses read? hMem found hRead
  | none =>
      obtain ⟨c, rest, rfl⟩ := List.exists_cons_of_ne_nil hText
      rw [Option.getD_none]
      by_cases hQuote : c = '"'
      · subst hQuote
        rw [unclassed_quote]
        split <;> trivial
      · rw [unclassed_plain rest hQuote]
        by_cases hFlag : flagChars.contains c = true
        · rw [if_pos hFlag]
          show c ∈ flagChars
          simpa using hFlag
        · rw [if_neg hFlag]
          trivial

end Lexeme

/-! ## Tokens of a text -/

namespace Token

theorem isLexical_ofLexeme {shape : Shape} {lexeme : List Char} (h : shape.Fits lexeme)
    (span : Span) : (ofLexeme shape lexeme span).IsLexical := by
  cases shape with
  | date => exact ⟨String.ofList lexeme, ⟨rfl, h⟩⟩
  | number =>
      rw [ofLexeme]
      split
      · exact ⟨_, rfl⟩
      · trivial
  | string => exact ⟨_, rfl⟩
  | account => exact ⟨_, rfl, h⟩
  | currency => exact ⟨_, rfl, h⟩
  | tag => exact ⟨_, rfl, h⟩
  | link => exact ⟨_, rfl, h⟩
  | flag => exact ⟨_, rfl, h⟩
  | comment => trivial
  | newline => trivial
  | keyword keyword => trivial
  | mark mark => trivial
  | unknown => trivial

theorem Piece.isLexical {before after : Bool} {gap body rest : List Char} {token : Token}
    (h : Piece before gap body rest token after) : token.IsLexical := by
  cases h with
  | indent => trivial
  | heading => trivial
  | @lexeme _ _ tail _ c shape span hBlanks hHead hStart hScan =>
      have hFits : (scan (c :: tail ++ rest)).1.Fits _ := scan_fits (List.cons_ne_nil _ _)
      rw [hScan, List.take_left] at hFits
      exact isLexical_ofLexeme hFits span
  | close => trivial

theorem Lexed.isLexical {before after : Bool} {place : Place} {text rest : List Char}
    {w : List Token} (h : Lexed rest before place text w after) :
    ∀ token ∈ w, token.IsLexical := by
  induction h with
  | nil => exact List.forall_mem_nil _
  | cons hPiece hSpan hMore ih => exact List.forall_mem_cons.2 ⟨hPiece.isLexical, ih⟩

/-- Whatever the text, its tokens say what their kinds call for. -/
theorem isLexical_of_mem_tokens {source : String} {token : Token} (h : token ∈ tokens source) :
    token.IsLexical := by
  obtain ⟨front, blanks, w, -, -, hLexed, hTokens⟩ := exists_tokens source
  rw [hTokens, List.mem_append, List.mem_singleton] at h
  rcases h with hMem | rfl
  · exact hLexed.isLexical token hMem
  · trivial

end Token

end LedgerText
