import LedgerText.Proofs.Lexing.Joining
import LedgerText.Proofs.RoundTrip.Delimiting

/-!
# Nothing is lost

The tokens of a text cover all of it but blanks, in order and without
overlapping, and what a token carries is a function of the characters that it
covers (`tokens_lossless`). Only one token covers none: the line end that the
last line gets if the text has none there.

The pieces of a text lie one behind the other by definition. What remains is
that the places in their spans are those of their characters
(`Span.charRange_advance`), and what each kind of piece says (`Piece.carries`).
-/

namespace LedgerText.Token

open Lexeme Pattern

/-! ## What a token carries -/

/-- The token carries what its kind makes of the characters that it stands for. -/
def Carries (token : Token) (text : List Char) : Prop :=
  match token.kind with
  | .date | .account | .currency | .comment | .skipped | .error =>
      token.value = .text (String.ofList text)
  | .tag | .link => ∃ sign name, text = sign :: name ∧ token.value = .text (String.ofList name)
  | .string => ∃ body, text = '"' :: (body ++ ['"']) ∧
      token.value = .text (String.ofList (Quoted.unescape body))
  | .flag => ∃ c, text = [c] ∧ token.value = .char c
  | .number => ∃ number, Decimal.ofText? (String.ofList (text.filter (· != ','))) = some number ∧
      token.value = .number number
  | .indent => (∀ c ∈ text, c = ' ' ∨ c = '\t') ∧ token.value = .absent
  | _ => token.value = .absent

section

variable {before after : Bool} {place : Place} {gap body text rest front back : List Char}
  {token : Token} {w : List Token}

theorem isBlank_iff {c : Char} : isBlank c = true ↔ c = ' ' ∨ c = '\t' := by
  rw [isBlank, Bool.or_eq_true, beq_iff_eq, beq_iff_eq]

/-- A flag is one character. -/
theorem length_of_flag {c : Char} {tail : List Char}
    (hScan : scan (c :: tail ++ rest) = (.flag, (c :: tail).length)) : tail = [] := by
  obtain ⟨p, longest, hShape, hMem, hTaken⟩ := exists_isTaken_of_scan (List.cons_ne_nil _ _) hScan Shape.noConfusion
  obtain ⟨d, rfl, -⟩ := Pattern.exists_flag hShape hMem
  rcases hTaken.taken with ⟨hText, -⟩ | ⟨-, hGrouped, -⟩
  · exact (List.cons.inj hText).2
  · cases eq_of_mem hMem (number_of_grouped hGrouped)
    cases hShape

theorem exists_body_of_string {c : Char} {tail : List Char}
    (hScan : scan (c :: tail ++ rest) = (.string, (c :: tail).length)) :
    ∃ inner, c :: tail = '"' :: (inner ++ ['"']) := by
  obtain ⟨p, longest, hShape, hMem, hTaken⟩ := exists_isTaken_of_scan (List.cons_ne_nil _ _) hScan Shape.noConfusion
  have hString : p = .string := by
    cases p <;> first
      | rfl
      | cases hShape
  subst hString
  exact hTaken.exists_quoted hMem

theorem carries_ofLexeme {c : Char} {tail : List Char} {shape : Shape} (span : Span)
    (hScan : scan (c :: tail ++ rest) = (shape, (c :: tail).length)) :
    (ofLexeme shape (c :: tail) span).Carries (c :: tail) := by
  cases shape with
  | number =>
      cases hNumber : number? (c :: tail) with
      | some number =>
          rw [ofLexeme, hNumber]
          exact ⟨number, hNumber, rfl⟩
      | none =>
          rw [ofLexeme, hNumber]
          rfl
  | string =>
      obtain ⟨inner, hText⟩ := exists_body_of_string hScan
      refine ⟨inner, hText, ?_⟩
      rw [hText]
      simp [ofLexeme]
  | tag => exact ⟨c, tail, rfl, rfl⟩
  | link => exact ⟨c, tail, rfl, rfl⟩
  | flag =>
      have hOne := length_of_flag hScan
      subst hOne
      exact ⟨c, rfl, rfl⟩
  | _ => rfl

/-- What a piece stands for is what its token says. -/
theorem Piece.carries (h : Piece before gap body rest token after) : token.Carries body := by
  cases h with
  | indent hBlanks =>
      exact ⟨fun c hc => isBlank_iff.1 (List.all_eq_true.1 hBlanks c hc), rfl⟩
  | heading => rfl
  | lexeme hBlanks hHead hStart hScan => exact carries_ofLexeme _ hScan
  | close => rfl

/-! ## Where the tokens are -/

theorem Piece.gap_blank (h : Piece before gap body rest token after) : gap.all isBlank = true := by
  cases h with
  | indent => rfl
  | heading => rfl
  | lexeme hBlanks => exact hBlanks
  | close hBlanks => exact hBlanks

/-- Only the line end that a text gets at its end stands for no characters. -/
theorem Piece.body_ne_nil (h : Piece before gap body rest token after) :
    body ≠ [] ∨ token.kind = .lineEnd ∧ body = [] ∧ rest = [] ∧ after = true := by
  cases h with
  | indent hBlanks hSome => exact .inl hSome
  | heading => exact .inl (List.cons_ne_nil _ _)
  | lexeme => exact .inl (List.cons_ne_nil _ _)
  | close => exact .inr ⟨rfl, rfl, rfl, rfl⟩

/-- The characters of a piece that stands behind others. -/
theorem charRange_of_span (front text back : List Char)
    (hSpan : token.span = spanAt (Place.origin.advance front) gap body) :
    (token.span.charRange (front ++ (gap ++ body ++ text) ++ back)).start =
        front.length + gap.length ∧
      (token.span.charRange (front ++ (gap ++ body ++ text) ++ back)).stop =
        front.length + gap.length + body.length := by
  have hRange := Span.charRange_advance (front ++ gap) body (text ++ back)
  have hText : front ++ (gap ++ body ++ text) ++ back =
      front ++ gap ++ body ++ (text ++ back) := by simp
  rw [hSpan, spanAt, ← Place.advance_append, ← Place.advance_append, hText, hRange,
    List.length_append]
  exact ⟨rfl, rfl⟩

/-- Each token begins where the one before it has ended, or later. -/
theorem Lexed.ordered (front : List Char)
    (h : Lexed rest before (Place.origin.advance front) text w after) (back : List Char) :
    (∀ t ∈ w, front.length ≤ (t.span.charRange (front ++ text ++ back)).start) ∧
      (w.map fun t => t.span.charRange (front ++ text ++ back)).Pairwise
        fun r s => r.stop ≤ s.start := by
  generalize hPlace : Place.origin.advance front = place at h
  induction h generalizing front with
  | nil => exact ⟨List.forall_mem_nil _, .nil⟩
  | @cons before within after place gap body text token w hPiece hSpan hMore ih =>
      subst hPlace
      obtain ⟨hStarts, hPairwise⟩ := ih (front ++ gap ++ body) (by
        rw [Place.advance_append, Place.advance_append])
      obtain ⟨hStart, hStop⟩ := charRange_of_span front text back hSpan
      have hText : front ++ gap ++ body ++ text ++ back =
          front ++ (gap ++ body ++ text) ++ back := by simp
      rw [hText] at hStarts hPairwise
      rw [List.length_append, List.length_append] at hStarts
      constructor
      · refine List.forall_mem_cons.2 ⟨by omega, fun t ht => ?_⟩
        have hLater := hStarts t ht
        omega
      · rw [List.map_cons, List.pairwise_cons]
        refine ⟨List.forall_mem_map.2 fun t ht => ?_, hPairwise⟩
        rw [hStop]
        exact hStarts t ht

/-- What no token covers is blank. -/
theorem Lexed.covering (front : List Char)
    (h : Lexed rest before (Place.origin.advance front) text w after) (back : List Char) {i : Nat} {c : Char} (hc : (front ++ text ++ back)[i]? = some c)
    (hFront : front.length ≤ i) (hBack : i < front.length + text.length)
    (hOutside : ∀ t ∈ w, ¬ ((t.span.charRange (front ++ text ++ back)).start ≤ i ∧
      i < (t.span.charRange (front ++ text ++ back)).stop)) :
    isBlank c = true := by
  generalize hPlace : Place.origin.advance front = place at h
  induction h generalizing front with
  | nil =>
      rw [List.length_nil] at hBack
      omega
  | @cons before within after place gap body text token w hPiece hSpan hMore ih =>
      subst hPlace
      obtain ⟨hStart, hStop⟩ := charRange_of_span front text back hSpan
      obtain ⟨hFirst, hOthers⟩ := List.forall_mem_cons.1 hOutside
      have hText : front ++ (gap ++ body ++ text) ++ back =
          front ++ gap ++ body ++ text ++ back := by simp
      simp only [List.length_append] at hBack
      rw [hStart, hStop] at hFirst
      by_cases hGap : i < front.length + gap.length
      · -- Blanks are passed over in front of the token.
        have hSource : front ++ (gap ++ body ++ text) ++ back =
            front ++ (gap ++ (body ++ text ++ back)) := by simp
        rw [hSource, List.getElem?_append_right hFront, List.getElem?_append_left (by omega)] at hc
        exact List.all_eq_true.1 hPiece.gap_blank c (List.mem_of_getElem? hc)
      · rw [hText] at hc hOthers
        refine ih _ hc ?_ ?_ hOthers ?_
        · simp only [List.length_append]
          omega
        · simp only [List.length_append]
          omega
        · rw [Place.advance_append, Place.advance_append]

/-- Behind the end of the text, nothing is left to become a token. -/
theorem Lexed.eq_nil (h : Lexed [] true place [] w after) : w = [] := by
  generalize hText : ([] : List Char) = text at h
  cases h with
  | nil => rfl
  | @cons _ _ _ _ gap body text token w hPiece hSpan hMore =>
      obtain ⟨hBoth, rfl⟩ := List.append_eq_nil_iff.1 hText.symm
      obtain ⟨rfl, rfl⟩ := List.append_eq_nil_iff.1 hBoth
      cases hPiece

/-- The first token stands for some characters, or for the end of the text and is the last one. -/
theorem Lexed.nonempty (h : Lexed rest before (Place.origin.advance front) text (token :: w) after) :
    (token.span.charRange (front ++ text ++ rest)).start <
        (token.span.charRange (front ++ text ++ rest)).stop ∨
      w = [] ∧ token.kind = .lineEnd ∧
        (token.span.charRange (front ++ text ++ rest)).start = (front ++ text ++ rest).length ∧
        (token.span.charRange (front ++ text ++ rest)).stop = (front ++ text ++ rest).length := by
  cases h with
  | @cons _ _ _ _ gap body text _ _ hPiece hSpan hMore =>
      obtain ⟨hStart, hStop⟩ := charRange_of_span front text rest hSpan
      rw [hStart, hStop]
      rcases hPiece.body_ne_nil with hSome | ⟨hKind, rfl, hRest, rfl⟩
      · have hLength := List.length_pos_iff.2 hSome
        exact .inl (by omega)
      · obtain ⟨rfl, rfl⟩ := List.append_eq_nil_iff.1 hRest
        exact .inr ⟨hMore.eq_nil, hKind, by simp, by simp⟩

end

/-! ## The tokens of a text -/

/-- How the tokens of a text lie on it. -/
structure Lossless (source : List Char) (w : List Token) : Prop where
  /-- The tokens are in order and do not overlap. -/
  ordered : (w.map fun t => t.span.charRange source).Pairwise fun r s => r.stop ≤ s.start
  /-- Outside of all tokens there are only blanks. -/
  covering : ∀ i c, source[i]? = some c →
    (∀ t ∈ w, ¬ ((t.span.charRange source).start ≤ i ∧ i < (t.span.charRange source).stop)) →
      c = ' ' ∨ c = '\t'
  /-- The places of a token are those of its characters. -/
  placed : ∀ t ∈ w, t.span = ⟨Place.origin.advance (source.take (t.span.charRange source).start),
    Place.origin.advance (source.take (t.span.charRange source).stop)⟩
  /-- Only the line end that the last line gets is empty. -/
  nonempty : ∀ front t back, w = front ++ t :: back →
    (t.span.charRange source).start < (t.span.charRange source).stop ∨
      back = [] ∧ t.kind = .lineEnd ∧ (t.span.charRange source).start = source.length ∧
        (t.span.charRange source).stop = source.length
  /-- Every token carries what its kind makes of its characters. -/
  carries : ∀ t ∈ w, t.Carries (t.span.chars source)

/-- The tokens of a text in front of its end cover it and say what it says. -/
theorem tokens_lossless (source : String) :
    ∃ w, tokens source = w ++ [endOfInput (.point (Place.origin.advance source.toList))] ∧
      (∀ t ∈ w, t.kind ≠ .endOfInput) ∧ Lossless source.toList w := by
  obtain ⟨text, blanks, w, hText, hBlanks, hLexed, hTokens⟩ := exists_tokens source
  have hKinds := hLexed.kind_ne_endOfInput
  have hPlaced (front : List Token) (t : Token) (back : List Token) (hw : w = front ++ t :: back) :
      ∃ before gap body rest start after, source.toList = before ++ (gap ++ body ++ rest) ++ [] ∧
        Piece start gap body rest t after ∧
        t.span = spanAt (Place.origin.advance before) gap body := by
    have hSplit : tokens source = front ++ t ::
        (back ++ [endOfInput (.point (Place.origin.advance source.toList))]) := by
      rw [hTokens, hw, List.append_assoc, List.cons_append]
    have hKind : t.kind ≠ .endOfInput := hKinds t (by rw [hw]; simp)
    obtain ⟨before, gap, body, rest, after, hSource, hPiece, hSpan⟩ :=
      exists_piece_of_tokens hSplit hKind
    exact ⟨before, gap, body, rest, _, after, by rw [hSource]; simp, hPiece, hSpan⟩
  refine ⟨w, hTokens, hKinds, ?_, ?_, ?_, ?_, ?_⟩
  · have hOrdered := (Lexed.ordered [] hLexed blanks).2
    rwa [List.nil_append, ← hText] at hOrdered
  · intro i c hc hOutside
    rw [hText] at hc hOutside
    by_cases hEnd : i < text.length
    · exact isBlank_iff.1 (Lexed.covering [] hLexed blanks hc (Nat.zero_le i)
        (by rwa [List.length_nil, Nat.zero_add]) hOutside)
    · rw [List.getElem?_append_right (by omega)] at hc
      exact isBlank_iff.1 (List.all_eq_true.1 hBlanks c (List.mem_of_getElem? hc))
  · intro t ht
    obtain ⟨front, back, hw⟩ := List.append_of_mem ht
    obtain ⟨before, gap, body, rest, start, after, hSource, -, hSpan⟩ := hPlaced front t back hw
    obtain ⟨hStart, hStop⟩ := charRange_of_span before rest [] hSpan
    have hAll : before ++ (gap ++ body ++ rest) ++ [] = before ++ gap ++ body ++ rest := by simp
    have hFront : (before ++ gap ++ body ++ rest).take (before.length + gap.length) =
        before ++ gap := by
      rw [← List.length_append, List.append_assoc (before ++ gap), List.take_left]
    have hBoth : (before ++ gap ++ body ++ rest).take
        (before.length + gap.length + body.length) = before ++ gap ++ body := by
      rw [← List.length_append, ← List.length_append, List.take_left]
    rw [hSource, hStart, hStop, hAll, hFront, hBoth, hSpan, spanAt, Place.advance_append,
      Place.advance_append, Place.advance_append]
  · intro front t back hw
    rw [hw] at hLexed
    obtain ⟨before, behind, within, rfl, -, hBehind⟩ := lexed_append.1 hLexed
    rw [hText]
    exact hBehind.nonempty
  · intro t ht
    obtain ⟨front, back, hw⟩ := List.append_of_mem ht
    obtain ⟨before, gap, body, rest, start, after, hSource, hPiece, hSpan⟩ := hPlaced front t back hw
    have hChars : t.span.chars source.toList = body := by
      have hAll := Span.chars_advance (before ++ gap) body rest
      rw [hSpan, spanAt, ← Place.advance_append, ← Place.advance_append, hSource]
      simpa using hAll
    rw [hChars]
    exact hPiece.carries

/-- A token that does not stand for the layout of a line stands for a lexeme. -/
theorem exists_lexeme_of_mem {source : String} {token : Token} (h : token ∈ tokens source)
    (hKind : token.kind ∉ [.endOfInput, .indent, .skipped, .lineEnd]) :
    ∃ front lexeme rest shape, source.toList = front ++ lexeme ++ rest ∧ lexeme ≠ [] ∧
      scan (lexeme ++ rest) = (shape, lexeme.length) ∧
      token = ofLexeme shape lexeme
        ⟨Place.origin.advance front, Place.origin.advance (front ++ lexeme)⟩ ∧
      token.span.chars source.toList = lexeme := by
  simp only [List.mem_cons, List.not_mem_nil, or_false, not_or] at hKind
  obtain ⟨earlier, later, hTokens⟩ := List.append_of_mem h
  obtain ⟨before, gap, body, rest, after, hSource, hPiece, hSpan⟩ :=
    exists_piece_of_tokens hTokens hKind.1
  have hChars : token.span.chars source.toList = body := by
    have hPart := Span.chars_advance (before ++ gap) body rest
    rw [hSpan, spanAt, ← Place.advance_append, ← Place.advance_append, hSource]
    exact hPart
  generalize (earlier.getLast?.elim true fun token => decide (token.kind = .lineEnd)) = start at hPiece
  cases hPiece with
  | indent => exact absurd rfl hKind.2.1
  | heading => exact absurd rfl hKind.2.2.1
  | @lexeme _ _ tail _ c shape span hBlanks hHead hStart hScan =>
      rw [ofLexeme_span] at hSpan
      refine ⟨before ++ gap, c :: tail, rest, shape, hSource, List.cons_ne_nil _ _, hScan, ?_,
        hChars⟩
      rw [hSpan, spanAt, ← Place.advance_append, ← Place.advance_append]
  | close => exact absurd rfl hKind.2.2.2

end LedgerText.Token
