import LedgerText.Proofs.Lexing.Extent
import LedgerText.Proofs.RoundTrip.Cutting

/-!
# Texts as pieces

A text is a sequence of pieces, one for each token: the blanks that are passed
over, and the characters that the token stands for. Two of the tokens stand for
no lexeme, the blanks of a line and the line end that the last line gets.

`Lexed` puts pieces together. A text is `Lexed` up to the blanks at its end
(`exists_lexed`), and every part of its tokens is again the tokens of a part of
it (`lexed_append`).
-/

namespace LedgerText.Token

open Lexeme

/-! ## Pieces -/

/--
In front of `rest`, the characters `body` behind the blanks `gap` become a token, wherever they
stand in the text. The first of the two truth values says whether a line begins in front of the
blanks, and the last whether one begins behind the token.
-/
inductive Piece : Bool → List Char → List Char → List Char → Token → Bool → Prop where
  | indent {blanks rest : List Char} {c : Char} {span : Span} (hBlanks : blanks.all isBlank = true)
      (hSome : blanks ≠ []) (hHead : isBlank c = false)
      (hShape : (scan (c :: rest)).1 ≠ .newline ∧ (scan (c :: rest)).1 ≠ .comment) :
      Piece true [] blanks (c :: rest) (bare .indent span) false
  | heading {line rest : List Char} {span : Span} (hLine : line.all isLineChar = true)
      (hEnd : rest.takeWhile isLineChar = []) :
      Piece true [] ('*' :: line) rest ⟨.skipped, .text (String.ofList ('*' :: line)), span⟩ false
  | lexeme {before : Bool} {blanks tail rest : List Char} {c : Char} {shape : Shape} {span : Span}
      (hBlanks : blanks.all isBlank = true) (hHead : isBlank c = false)
      (hStart : before = true → (blanks = [] ∨ shape = .newline ∨ shape = .comment) ∧
        ¬ (blanks = [] ∧ c = '*'))
      (hScan : scan (c :: tail ++ rest) = (shape, (c :: tail).length)) :
      Piece before blanks (c :: tail) rest (ofLexeme shape (c :: tail) span) (shape = .newline)
  | close {blanks : List Char} {span : Span} (hBlanks : blanks.all isBlank = true) :
      Piece false blanks [] [] (bare .lineEnd span) true

/-- There are no line feeds among blanks. -/
theorem not_mem_of_blanks {gap : List Char} (h : gap.all isBlank = true) : '\n' ∉ gap :=
  fun hMem => Bool.false_ne_true (List.all_eq_true.1 h _ hMem)

/-- The part of a text that `body` covers if it stands behind `gap`. -/
def spanAt (place : Place) (gap body : List Char) : Span :=
  ⟨place.advance gap, (place.advance gap).advance body⟩

section

variable {before after : Bool} {place : Place} {gap body rest text : List Char} {token : Token}

/-- What a lexeme stands for does not depend on its place. -/
theorem ofLexeme_span (shape : Shape) (lexeme : List Char) (span : Span) :
    (ofLexeme shape lexeme span).span = span := by
  cases shape with
  | number =>
      rw [ofLexeme]
      split <;> rfl
  | _ => rfl

theorem ofLexeme_placed (shape : Shape) (lexeme : List Char) (span other : Span) :
    { ofLexeme shape lexeme span with span := other } = ofLexeme shape lexeme other := by
  cases shape with
  | number =>
      simp only [ofLexeme]
      split <;> rfl
  | _ => rfl

theorem ofLexeme_kind_eq_lineEnd (shape : Shape) (lexeme : List Char) (span : Span) :
    (ofLexeme shape lexeme span).kind = .lineEnd ↔ shape = .newline := by
  cases shape with
  | number =>
      rw [ofLexeme]
      split <;> simp
  | _ => simp [ofLexeme, bare]

theorem ofLexeme_kind_ne (shape : Shape) (lexeme : List Char) (span : Span) :
    (ofLexeme shape lexeme span).kind ≠ .endOfInput ∧
      (ofLexeme shape lexeme span).kind ≠ .indent ∧
        (ofLexeme shape lexeme span).kind ≠ .skipped := by
  cases shape with
  | number =>
      rw [ofLexeme]
      split <;> simp
  | _ => simp [ofLexeme, bare]

/-- A piece is one anywhere in a text. -/
theorem Piece.placed (h : Piece before gap body rest token after) (span : Span) :
    Piece before gap body rest { token with span := span } after := by
  cases h with
  | indent hBlanks hSome hHead hShape => exact .indent hBlanks hSome hHead hShape
  | heading hLine hEnd => exact .heading hLine hEnd
  | lexeme hBlanks hHead hStart hScan =>
      rw [ofLexeme_placed]
      exact .lexeme hBlanks hHead hStart hScan
  | close hBlanks => exact .close hBlanks

/-- A line begins behind line ends, and nowhere else. -/
theorem Piece.after_eq (h : Piece before gap body rest token after) :
    after = decide (token.kind = .lineEnd) := by
  cases h with
  | indent => rfl
  | heading => rfl
  | lexeme hBlanks hHead hStart hScan =>
      rw [decide_eq_decide, ofLexeme_kind_eq_lineEnd]
  | close => rfl

theorem Piece.kind_ne_endOfInput (h : Piece before gap body rest token after) :
    token.kind ≠ .endOfInput := by
  cases h with
  | indent => exact TokenKind.noConfusion
  | heading => exact TokenKind.noConfusion
  | lexeme => exact (ofLexeme_kind_ne _ _ _).1
  | close => exact TokenKind.noConfusion

/-- Only a line that begins with blanks has a token for them. -/
theorem Piece.before_of_indent (h : Piece before gap body rest token after)
    (hKind : token.kind = .indent) : before = true := by
  cases h with
  | indent => rfl
  | heading => cases hKind
  | lexeme => exact absurd hKind (ofLexeme_kind_ne _ _ _).2.1
  | close => cases hKind

/-- A star at the start of a line, and the rest of it. -/
theorem tokensFrom_heading (hLine : body.all isLineChar = true)
    (hEnd : rest.takeWhile isLineChar = []) :
    tokensFrom true place ('*' :: body ++ rest) =
      ⟨.skipped, .text (String.ofList ('*' :: body)), ⟨place, place.advance ('*' :: body)⟩⟩ ::
        tokensFrom false (place.advance ('*' :: body)) rest := by
  have hStar : isBlank '*' = false := by decide
  have hTake : (body ++ rest).takeWhile isLineChar = body := by
    rw [List.takeWhile_append_of_pos (List.all_eq_true.1 hLine), hEnd, List.append_nil]
  have hDrop : (body ++ rest).dropWhile isLineChar = rest := by
    have hWhole := List.takeWhile_append_dropWhile (p := isLineChar) (l := body ++ rest)
    rw [hTake] at hWhole
    exact List.append_cancel_left hWhole
  rw [List.cons_append, tokensFrom]
  split
  · next hRest =>
      rw [List.dropWhile_cons_of_neg (by simp [hStar])] at hRest
      cases hRest
  · next hRest =>
      rw [List.dropWhile_cons_of_neg (by simp [hStar])] at hRest
      cases hRest
      rw [List.takeWhile_cons_of_neg (by simp [hStar]), if_pos ⟨rfl, rfl, rfl⟩, hTake, hDrop]
      rfl

/-- Blanks that nothing follows. -/
theorem tokensFrom_blanks (hBlanks : text.all isBlank = true) :
    tokensFrom before place text =
      (if before then [] else [bare .lineEnd (.point (place.advance text))]) ++
        [endOfInput (.point (place.advance text))] := by
  have hTake : text.takeWhile isBlank = text := by
    have hWhole : (text ++ []).takeWhile isBlank = text ++ [].takeWhile isBlank :=
      List.takeWhile_append_of_pos (List.all_eq_true.1 hBlanks)
    simpa using hWhole
  have hDrop : text.dropWhile isBlank = [] := by
    have hWhole := List.takeWhile_append_dropWhile (p := isBlank) (l := text)
    rw [hTake] at hWhole
    simpa using hWhole
  rw [tokensFrom]
  split
  · rw [hTake]
  · next hRest =>
      rw [hDrop] at hRest
      cases hRest

/-- A piece is cut off the text that it begins. -/
theorem Piece.tokensFrom_eq (h : Piece before gap body rest token after)
    (hSpan : token.span = spanAt place gap body) :
    tokensFrom before place (gap ++ body ++ rest) =
      token :: tokensFrom after ((place.advance gap).advance body) rest := by
  cases h with
  | @indent _ tail c span hBlanks hSome hHead hShape =>
      have hLine : tokensFrom false (place.advance body) (c :: tail) = _ :=
        tokensFrom_cons List.all_nil hHead (by simp)
      cases hSpan
      rw [List.nil_append, tokensFrom_cons hBlanks hHead (by simp [hSome]), Place.advance_nil,
        hLine]
      simp [Token.indent, hSome, hShape]
  | heading hLine hEnd =>
      cases hSpan
      exact tokensFrom_heading hLine hEnd
  | @lexeme _ _ tail _ c shape span hBlanks hHead hStart hScan =>
      rw [ofLexeme_span] at hSpan
      rw [List.cons_append] at hScan
      have hHeading : ¬ (before = true ∧ gap = [] ∧ c = '*') := fun hAll => (hStart hAll.1).2 hAll.2
      have hIndent (span : Span) : Token.indent before shape gap span = [] := by
        rw [Token.indent, if_neg]
        rintro ⟨hBefore, hSome, hLine, hComment⟩
        rcases (hStart hBefore).1 with hNone | hNewline | hOther
        · exact hSome hNone
        · exact hLine hNewline
        · exact hComment hOther
      rw [List.append_assoc, List.cons_append, tokensFrom_cons hBlanks hHead hHeading, hScan,
        hIndent]
      simp [hSpan, spanAt]
  | close hBlanks =>
      cases hSpan
      rw [List.append_nil, List.append_nil, tokensFrom_blanks hBlanks, tokensFrom_nil]
      rfl

theorem not_of_dropWhile {p : Char → Bool} {c : Char} {others : List Char}
    (h : text.dropWhile p = c :: others) : p c = false := by
  have hSome : text.dropWhile p ≠ [] := by
    rw [h]
    exact List.cons_ne_nil _ _
  have hNot := List.head_dropWhile_not p hSome
  simpa only [h, List.head_cons] using hNot

/-- Behind blanks, a lexeme is a piece where neither an indentation nor a heading is. -/
theorem exists_lexeme_piece {before : Bool} {gap tail : List Char} {c : Char} (place : Place)
    (hBlanks : gap.all isBlank = true) (hHead : isBlank c = false)
    (hStart : before = true →
      (gap = [] ∨ (scan (c :: tail)).1 = .newline ∨ (scan (c :: tail)).1 = .comment) ∧
        ¬ (gap = [] ∧ c = '*')) :
    ∃ body rest token after, gap ++ c :: tail = gap ++ body ++ rest ∧
      Piece before gap body rest token after ∧ token.span = spanAt place gap body ∧
      rest.length < (c :: tail).length := by
  obtain ⟨hPos, hLe⟩ := scan_bounds (List.cons_ne_nil c tail)
  generalize hScan : scan (c :: tail) = found at hPos hLe hStart
  obtain ⟨shape, n⟩ := found
  have hWhole : c :: tail.take (n - 1) ++ tail.drop (n - 1) = c :: tail := by
    rw [List.cons_append, List.take_append_drop]
  have hTaken : (c :: tail.take (n - 1)).length = n := by
    rw [List.length_cons] at hLe ⊢
    rw [List.length_take]
    omega
  refine ⟨c :: tail.take (n - 1), tail.drop (n - 1), ofLexeme shape _ (spanAt place gap _), _, ?_,
    .lexeme hBlanks hHead hStart (by rw [hWhole, hScan, hTaken]), ofLexeme_span _ _ _, ?_⟩
  · rw [List.append_assoc, hWhole]
  · rw [List.length_drop, List.length_cons]
    omega

/-- A text begins with a piece, or nothing is left of it but blanks. Behind the piece there is less
of it, or only the end of its last line is behind it. -/
theorem exists_piece (before : Bool) (place : Place) (text : List Char) :
    (before = true ∧ text.all isBlank = true) ∨
      ∃ gap body rest token after, text = gap ++ body ++ rest ∧
        Piece before gap body rest token after ∧ token.span = spanAt place gap body ∧
        (rest.length < text.length ∨ before = false ∧ after = true ∧ rest = []) := by
  generalize hGap : text.takeWhile isBlank = gap
  generalize hRest : text.dropWhile isBlank = others
  have hText : text = gap ++ others := by
    rw [← hGap, ← hRest, List.takeWhile_append_dropWhile]
  have hBlanks : gap.all isBlank = true := by
    rw [← hGap]
    exact List.all_takeWhile
  cases others with
  | nil =>
      rw [List.append_nil] at hText
      cases before with
      | true => exact .inl ⟨rfl, by rw [hText]; exact hBlanks⟩
      | false =>
          exact .inr ⟨gap, [], [], bare .lineEnd (spanAt place gap []), true, by simp [hText],
            .close hBlanks, rfl, .inr ⟨rfl, rfl, rfl⟩⟩
  | cons c tail =>
      have hHead : isBlank c = false := not_of_dropWhile hRest
      right
      have hLength : text.length = gap.length + (tail.length + 1) := by
        rw [hText, List.length_append, List.length_cons]
      by_cases hHeading : before = true ∧ gap = [] ∧ c = '*'
      · obtain ⟨rfl, rfl, rfl⟩ := hHeading
        have hLine : (tail.dropWhile isLineChar).takeWhile isLineChar = [] := by
          cases hStop : tail.dropWhile isLineChar with
          | nil => rfl
          | cons d more => exact List.takeWhile_cons_of_neg (by simp [not_of_dropWhile hStop])
        have hShorter := (List.dropWhile_sublist (l := tail) isLineChar).length_le
        refine ⟨[], '*' :: tail.takeWhile isLineChar, tail.dropWhile isLineChar,
          ⟨.skipped, .text _, spanAt place [] _⟩, false, ?_,
          .heading List.all_takeWhile hLine, rfl, .inl (by omega)⟩
        rw [hText]
        simp [List.takeWhile_append_dropWhile]
      · by_cases hIndent : before = true ∧ gap ≠ [] ∧ (scan (c :: tail)).1 ≠ .newline ∧
            (scan (c :: tail)).1 ≠ .comment
        · obtain ⟨rfl, hSome, hShape⟩ := hIndent
          have hGapLength := List.length_pos_iff.2 hSome
          refine ⟨[], gap, c :: tail, bare .indent (spanAt place [] gap), false, hText,
            .indent hBlanks hSome hHead hShape, rfl, .inl (by rw [List.length_cons]; omega)⟩
        · have hStart : before = true →
              (gap = [] ∨ (scan (c :: tail)).1 = .newline ∨ (scan (c :: tail)).1 = .comment) ∧
                ¬ (gap = [] ∧ c = '*') := by
            intro hBefore
            refine ⟨?_, fun hStar => hHeading ⟨hBefore, hStar⟩⟩
            by_cases hNone : gap = []
            · exact .inl hNone
            · by_cases hLine : (scan (c :: tail)).1 = .newline
              · exact .inr (.inl hLine)
              · exact .inr (.inr (Classical.byContradiction fun hComment =>
                  hIndent ⟨hBefore, hNone, hLine, hComment⟩))
          obtain ⟨body, rest, token, after, hSame, hPiece, hSpan, hLess⟩ :=
            exists_lexeme_piece place hBlanks hHead hStart
          rw [List.length_cons] at hLess
          exact ⟨gap, body, rest, token, after, hText.trans hSame, hPiece, hSpan,
            .inl (by omega)⟩

end

/-! ## Texts -/

/-- In front of `rest`, a text is cut into tokens. The truth values say whether a line begins in
front of the text, and behind it. -/
inductive Lexed (rest : List Char) : Bool → Place → List Char → List Token → Bool → Prop where
  | nil {before : Bool} {place : Place} : Lexed rest before place [] [] before
  | cons {before within after : Bool} {place : Place} {gap body text : List Char} {token : Token}
      {w : List Token} (hPiece : Piece before gap body (text ++ rest) token within)
      (hSpan : token.span = spanAt place gap body)
      (hMore : Lexed rest within ((place.advance gap).advance body) text w after) :
      Lexed rest before place (gap ++ body ++ text) (token :: w) after

section

variable {before within after : Bool} {place : Place} {text rest : List Char} {v w : List Token}

/-- The tokens of a text are cut off where the text is. -/
theorem Lexed.cut (h : Lexed rest before place text w after) :
    Cut before after place text rest w := by
  induction h with
  | nil => exact cut_nil
  | @cons before within after place gap body text token w hPiece hSpan hMore ih =>
      rw [Cut] at ih ⊢
      rw [List.append_assoc, hPiece.tokensFrom_eq hSpan, ih, List.cons_append, Place.advance_append,
        Place.advance_append]

/-- Every text is cut into tokens, up to the blanks at its end. -/
theorem exists_lexed (before : Bool) (place : Place) (text : List Char) :
    ∃ front blanks w, text = front ++ blanks ∧ blanks.all isBlank = true ∧
      Lexed blanks before place front w true := by
  -- What decreases is the text, or a last line end is all that is left.
  generalize hSize : 2 * text.length + (if before then 0 else 1) = size
  induction size using Nat.strongRecOn generalizing before place text with
  | _ size ih =>
      subst hSize
      rcases exists_piece before place text with ⟨rfl, hBlanks⟩ |
        ⟨gap, body, rest, token, after, rfl, hPiece, hSpan, hLess⟩
      · exact ⟨[], text, [], rfl, hBlanks, .nil⟩
      · have hSize : 2 * rest.length + (if after then 0 else 1) <
            2 * (gap ++ body ++ rest).length + (if before then 0 else 1) := by
          rcases hLess with hLess | ⟨rfl, rfl, rfl⟩
          · split <;> split <;> omega
          · simp
        obtain ⟨front, blanks, w, rfl, hBlanks, hMore⟩ :=
          ih _ hSize after ((place.advance gap).advance body) rest rfl
        exact ⟨gap ++ body ++ front, blanks, token :: w, (List.append_assoc _ _ _).symm, hBlanks,
          .cons hPiece hSpan hMore⟩

/-- The tokens of a whole text: those of its pieces, and one for its end. -/
theorem exists_tokens (source : String) :
    ∃ front blanks w, source.toList = front ++ blanks ∧ blanks.all isBlank = true ∧
      Lexed blanks true .origin front w true ∧
      tokens source = w ++ [endOfInput (.point (Place.origin.advance source.toList))] := by
  obtain ⟨front, blanks, w, hText, hBlanks, hLexed⟩ := exists_lexed true .origin source.toList
  refine ⟨front, blanks, w, hText, hBlanks, hLexed, ?_⟩
  rw [tokens, hText, hLexed.cut, tokensFrom_blanks hBlanks, Place.advance_append]
  rfl

/-- Tokens that follow each other are those of texts that follow each other. -/
theorem lexed_append : Lexed rest before place text (v ++ w) after ↔
    ∃ front back within, text = front ++ back ∧ Lexed (back ++ rest) before place front v within ∧
      Lexed rest within (place.advance front) back w after := by
  constructor
  · intro h
    induction v generalizing before place text with
    | nil => exact ⟨[], text, before, rfl, .nil, h⟩
    | cons token v ih =>
        cases h with
        | cons hPiece hSpan hMore =>
            obtain ⟨front, back, within, rfl, hFront, hBack⟩ := ih hMore
            rw [List.append_assoc] at hPiece
            refine ⟨_, back, within, (List.append_assoc _ _ _).symm, .cons hPiece hSpan hFront, ?_⟩
            rw [Place.advance_append, Place.advance_append]
            exact hBack
  · rintro ⟨front, back, within, rfl, hFront, hBack⟩
    induction hFront with
    | nil => exact hBack
    | @cons before within after place gap body text token w hPiece hSpan hMore ih =>
        rw [Place.advance_append, Place.advance_append] at hBack
        rw [List.append_assoc]
        refine .cons ?_ hSpan (ih hBack)
        rw [List.append_assoc]
        exact hPiece

/-- A line begins behind the line ends among the tokens, and nowhere else. -/
theorem Lexed.after_eq (h : Lexed rest before place text w after) :
    after = w.getLast?.elim before fun token => decide (token.kind = .lineEnd) := by
  induction h with
  | nil => rfl
  | @cons before within after place gap body text token w hPiece hSpan hMore ih =>
      cases w with
      | nil =>
          cases hMore
          exact hPiece.after_eq
      | cons other w =>
          rw [ih, List.getLast?_cons_cons]
          rfl

/-- The end of a text is not one of its pieces. -/
theorem Lexed.kind_ne_endOfInput (h : Lexed rest before place text w after) :
    ∀ token ∈ w, token.kind ≠ .endOfInput := by
  induction h with
  | nil => exact List.forall_mem_nil _
  | cons hPiece hSpan hMore ih => exact List.forall_mem_cons.2 ⟨hPiece.kind_ne_endOfInput, ih⟩

end

end LedgerText.Token
