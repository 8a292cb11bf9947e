import LedgerText.Parse.Run
import LedgerText.Proofs.Lexing.Lines

/-!
# Carriage returns

A carriage return in front of a line feed is part of the line end. Comments and
headings end in front of it (`tokens_restOfLine`), and a text reads the same
with carriage returns in front of all of its line feeds (`text_withReturns`).

On its own a carriage return is an error. Comments and headings end in front of
such a one as well, although no line ends there.
-/

namespace LedgerText

open Lexeme

namespace Lexeme

/-- A carriage return comes next, and no line feed behind it. -/
def LoneReturn (text : List Char) : Prop :=
  text.head? = some '\r' ∧ text.tail.head? ≠ some '\n'

instance (text : List Char) : Decidable (LoneReturn text) :=
  inferInstanceAs (Decidable (_ ∧ _))

theorem scan_return (text : List Char) :
    scan ('\r' :: text) = if text.head? = some '\n' then (.newline, 2) else (.unknown, 1) := by
  have hBare : IsBare '\r' := by decide
  have hFlag : '\r' ∉ flagChars := by decide
  unfold scan
  simp only [hBare.unnamed, hBare.unsigned]
  cases text with
  | nil => rfl
  | cons c text =>
      by_cases hLine : c = '\n'
      · subst hLine
        rfl
      · simp [newline?, comment?, hLine, hFlag]

/-- What does not go on the line is a line end or an error. -/
theorem scan_of_lineBreak {c : Char} (text : List Char) (h : isLineChar c = false) :
    (scan (c :: text)).1 = .newline ∧ ¬ LoneReturn (c :: text) ∨
      scan (c :: text) = (.unknown, 1) ∧ c = '\r' ∧ LoneReturn (c :: text) := by
  by_cases hFeed : c = '\n'
  · subst hFeed
    exact .inl ⟨by rw [scan_newline], by simp [LoneReturn]⟩
  · obtain rfl := (eq_of_lineBreak h).resolve_left hFeed
    rw [scan_return]
    by_cases hNext : text.head? = some '\n'
    · exact .inl ⟨by rw [if_pos hNext], fun hLone => hLone.2 hNext⟩
    · exact .inr ⟨if_neg hNext, rfl, rfl, hNext⟩

theorem scan_semicolon (text : List Char) :
    scan (';' :: text) = (.comment, 1 + (text.takeWhile isLineChar).length) := by
  have hBare : IsBare ';' := by decide
  have hNewline : newline? (';' :: text) = none := by simp [newline?]
  unfold scan
  simp only [hBare.unnamed, hBare.unsigned, hNewline, comment?]

theorem all_isLineChar {text : List Char} (hFeed : '\n' ∉ text) (hReturn : '\r' ∉ text) :
    text.all isLineChar = true := by
  refine List.all_eq_true.2 fun c hc => isLineChar_of_ne ?_ ?_
  · exact fun hSame => hFeed (hSame ▸ hc)
  · exact fun hSame => hReturn (hSame ▸ hc)

theorem comment?_of_scan {text : List Char} {n : Nat} (hText : text ≠ [])
    (h : scan text = (.comment, n)) : comment? text = some n :=
  Token.read?_of_scan (p := .comment) (by intro q hq; cases q <;> cases hq; rfl)
    Shape.noConfusion hText h

/-- A comment has all the rest of its line, and nothing else. -/
theorem line_of_comment {body rest : List Char} (hSome : body ≠ [])
    (hScan : scan (body ++ rest) = (.comment, body.length)) :
    body.all isLineChar = true ∧ rest.takeWhile isLineChar = [] := by
  obtain ⟨line, hText, hLength⟩ := comment?_eq_some (comment?_of_scan
    (List.append_ne_nil_of_left_ne_nil hSome rest) hScan)
  obtain ⟨c, tail, rfl⟩ := List.exists_cons_of_ne_nil hSome
  rw [List.cons_append] at hText
  obtain ⟨rfl, rfl⟩ := List.cons.inj hText
  have hTake : (tail ++ rest).takeWhile isLineChar = tail := by
    have hPrefix := List.prefix_iff_eq_take.1 (List.takeWhile_prefix isLineChar (l := tail ++ rest))
    have hSame : ((tail ++ rest).takeWhile isLineChar).length = tail.length := by
      rw [List.length_cons] at hLength
      omega
    rw [hPrefix, hSame, List.take_left]
  have hAll : ∀ d ∈ tail, isLineChar d = true := by
    rw [← hTake]
    exact List.all_eq_true.1 List.all_takeWhile
  refine ⟨List.all_eq_true.2 (List.forall_mem_cons.2 ⟨rfl, hAll⟩), ?_⟩
  rw [List.takeWhile_append_of_pos hAll] at hTake
  exact List.append_cancel_left (hTake.trans (List.append_nil tail).symm)

end Lexeme

namespace Token

section

variable {before after : Bool} {place : Place} {gap body text rest front : List Char}
  {token : Token} {w : List Token}

/-- A comment or a heading is all the rest of its line. -/
theorem Piece.restOfLine (h : Piece before gap body rest token after)
    (hKind : token.kind = .comment ∨ token.kind = .skipped) :
    after = false ∧ body.all isLineChar = true ∧ rest.takeWhile isLineChar = [] := by
  cases h with
  | indent => simp [bare] at hKind
  | heading hLine hEnd =>
      exact ⟨rfl, List.all_eq_true.2 (List.forall_mem_cons.2 ⟨rfl, List.all_eq_true.1 hLine⟩), hEnd⟩
  | lexeme hBlanks hHead hStart hScan =>
      rcases hKind with hComment | hSkipped
      · obtain rfl := (ofLexeme_kind_eq_comment _ _ _).1 hComment
        exact ⟨rfl, line_of_comment (List.cons_ne_nil _ _) hScan⟩
      · exact absurd hSkipped (ofLexeme_kind_ne _ _ _).2.2
  | close => simp [bare] at hKind

/-- Where nothing is left of a line, there is a token at once. It is a line end, or a carriage
return that is none. -/
theorem Lexed.exists_next (h : Lexed rest false place text w true)
    (hEnd : (text ++ rest).takeWhile isLineChar = []) :
    ∃ next others, w = next :: others ∧ next.span.start = place ∧
      (¬ LoneReturn (text ++ rest) → next.kind = .lineEnd) ∧
      (LoneReturn (text ++ rest) → next.kind = .error ∧ next.value = .text "\r") := by
  cases h with
  | @cons _ within _ _ gap body text token w hPiece hSpan hMore =>
      -- Blanks would go on the line.
      have hNone : gap = [] := by
        cases gap with
        | nil => rfl
        | cons c gap =>
            have hBlank := List.all_eq_true.1 hPiece.gap_blank c List.mem_cons_self
            rcases isBlank_iff.1 hBlank with rfl | rfl
            · cases hEnd
            · cases hEnd
      subst hNone
      refine ⟨token, w, rfl, by rw [hSpan]; rfl, ?_⟩
      rw [List.nil_append, List.append_assoc] at hEnd ⊢
      generalize text ++ rest = behind at hPiece hEnd ⊢
      cases hPiece with
      | @lexeme _ _ tail _ c shape span hBlanks hHead hStart hScan =>
          have hBreak : isLineChar c = false := by
            by_contra hLine
            rw [Bool.not_eq_false] at hLine
            rw [List.cons_append, List.takeWhile_cons_of_pos hLine] at hEnd
            cases hEnd
          rcases scan_of_lineBreak (tail ++ behind) hBreak with
            ⟨hNewline, hOther⟩ | ⟨hUnknown, rfl, hLone⟩
          · obtain rfl : shape = .newline := by
              rw [← hNewline, ← List.cons_append, hScan]
            exact ⟨fun _ => rfl, fun hLone => absurd hLone hOther⟩
          · refine ⟨fun hOther => absurd hLone hOther, fun _ => ?_⟩
            obtain ⟨rfl, hLength⟩ := Prod.mk.inj (hScan.symm.trans hUnknown)
            have hOne : tail = [] := List.eq_nil_of_length_eq_zero (Nat.succ_injective hLength)
            subst hOne
            exact ⟨rfl, rfl⟩
      | close => exact ⟨fun _ => rfl, fun hLone => by cases hLone.1⟩

end

/-- Comments and headings go on up to the next carriage return or line feed, or to the end of the
text. There the line ends, unless no line feed comes behind the carriage return. -/
theorem tokens_restOfLine {source : String} {front back : List Token} {token : Token}
    (h : tokens source = front ++ token :: back)
    (hKind : token.kind = .comment ∨ token.kind = .skipped) :
    ∃ before line rest next others, source.toList = before ++ line ++ rest ∧
      token.span = ⟨Place.origin.advance before, Place.origin.advance (before ++ line)⟩ ∧
      line.all isLineChar = true ∧ rest.takeWhile isLineChar = [] ∧
      back = next :: others ∧ next.span.start = token.span.stop ∧
      (¬ LoneReturn rest → next.kind = .lineEnd) ∧
      (LoneReturn rest → next.kind = .error ∧ next.value = .text "\r") := by
  have hInput : token.kind ≠ .endOfInput := by
    rcases hKind with hComment | hSkipped
    · simp [hComment]
    · simp [hSkipped]
  obtain ⟨before, gap, body, text, blanks, after, w, last, hSource, hPiece, hSpan, -, hLexed,
    rfl⟩ := exists_lexed_behind h hInput
  obtain ⟨rfl, hLine, hEnd⟩ := hPiece.restOfLine hKind
  obtain ⟨next, others, rfl, hStart, hFeed, hLone⟩ := hLexed.exists_next hEnd
  refine ⟨before ++ gap, body, text ++ blanks, next, others ++ [last], hSource, ?_, hLine, hEnd,
    rfl, ?_, hFeed, hLone⟩
  · rw [hSpan, Place.advance_append, Place.advance_append, Place.advance_append]
    rfl
  · rw [hStart, hSpan, Place.advance_append, Place.advance_append]
    rfl

theorem tokens_restOfLine_heading :
    tokens "* a\r\n" = [] ++ ⟨.skipped, .text "* a", ⟨⟨1, 1⟩, ⟨1, 4⟩⟩⟩ :: (tokens "* a\r\n").tail ∧
      ∃ before line rest next others, "* a\r\n".toList = before ++ line ++ rest ∧
        (⟨⟨1, 1⟩, ⟨1, 4⟩⟩ : Span) =
          ⟨Place.origin.advance before, Place.origin.advance (before ++ line)⟩ ∧
        line.all isLineChar = true ∧ rest.takeWhile isLineChar = [] ∧
        (tokens "* a\r\n").tail = next :: others ∧ next.span.start = ⟨1, 4⟩ ∧
        (¬ LoneReturn rest → next.kind = .lineEnd) ∧
        (LoneReturn rest → next.kind = .error ∧ next.value = .text "\r") := by
  have hTokens : tokens "* a\r\n" =
      [] ++ ⟨.skipped, .text "* a", ⟨⟨1, 1⟩, ⟨1, 4⟩⟩⟩ :: (tokens "* a\r\n").tail := by
    decide +kernel
  exact ⟨hTokens, tokens_restOfLine hTokens (.inr rfl)⟩

/-- The text behind a carriage return is not part of the comment, although its line goes on. -/
theorem loneReturn_ends_comment :
    ∃ front token next back, tokens "; a\rb\n" = front ++ token :: next :: back ∧
      token.kind = .comment ∧ next.kind ≠ .lineEnd := by
  have hKinds : (tokens "; a\rb\n").map Token.kind =
      [.comment, .error, .error, .lineEnd, .endOfInput] := by
    decide +kernel
  obtain ⟨token, others, hTokens, hComment, hOthers⟩ := List.map_eq_cons_iff.1 hKinds
  obtain ⟨next, back, rfl, hError, -⟩ := List.map_eq_cons_iff.1 hOthers
  exact ⟨[], token, next, back, hTokens, hComment, by rw [hError]; decide⟩

end Token

/-! ## Carriage returns in front of line feeds -/

/-- A text with a carriage return in front of every line feed. -/
def withReturns (text : List Char) : List Char :=
  text.flatMap fun c => if c = '\n' then ['\r', '\n'] else [c]

section

variable {text front back : List Char}

@[simp] theorem withReturns_nil : withReturns [] = [] := rfl

theorem withReturns_append (front back : List Char) :
    withReturns (front ++ back) = withReturns front ++ withReturns back :=
  List.flatMap_append

theorem withReturns_cons {c : Char} (h : c ≠ '\n') (text : List Char) :
    withReturns (c :: text) = c :: withReturns text := by
  rw [withReturns, List.flatMap_cons, if_neg h]
  rfl

/-- A line stays as it is. -/
theorem withReturns_of_line (h : '\n' ∉ text) : withReturns text = text := by
  induction text with
  | nil => rfl
  | cons c text ih =>
      rw [List.mem_cons, not_or] at h
      rw [withReturns_cons (Ne.symm h.1), ih h.2]

/-- Places go by line feeds, so that they do not change. -/
theorem Place.advance_withReturns (p : Place) (text : List Char) :
    p.advance (withReturns text) = p.advance text := by
  induction text generalizing p with
  | nil => rfl
  | cons c text ih =>
      by_cases hFeed : c = '\n'
      · subst hFeed
        exact ih _
      · rw [withReturns_cons hFeed]
        exact ih _

/-- Where a line ends, it ends with a carriage return in front of the line feed as well. -/
theorem takeWhile_withReturns (h : text.takeWhile isLineChar = []) :
    (withReturns text).takeWhile isLineChar = [] := by
  cases text with
  | nil => rfl
  | cons c text =>
      by_cases hFeed : c = '\n'
      · subst hFeed
        rfl
      · by_cases hLine : isLineChar c = true
        · rw [List.takeWhile_cons_of_pos hLine] at h
          cases h
        · rw [withReturns_cons hFeed, List.takeWhile_cons_of_neg hLine]

end

namespace Lexeme

open Pattern

variable {text body rest back : List Char} {shape : Shape}

/-- A lexeme that begins on a line and is not quoted does not go on behind it. -/
theorem scan_le_of_line (hSome : text ≠ []) (hLine : text.all isLineChar = true)
    (hQuote : text.head? ≠ some '"') (hBack : back.takeWhile isLineChar = [])
    (hKnown : (scan (text ++ back)).1 ≠ .unknown) : (scan (text ++ back)).2 ≤ text.length := by
  have hWhole : text ++ back ≠ [] := List.append_ne_nil_of_left_ne_nil hSome back
  obtain ⟨p, longest, -, hMem, hTaken⟩ := exists_isTaken hWhole hKnown
  have hEnd := (scan_bounds hWhole).2
  by_contra hLong
  rw [Nat.not_le] at hLong
  obtain ⟨b, behind, rfl⟩ : ∃ b behind, back = b :: behind := by
    refine List.exists_cons_of_ne_nil ?_
    rintro rfl
    rw [List.append_nil] at hEnd hLong
    exact Nat.not_lt.2 hEnd hLong
  have hBreak : isLineChar b = false := by
    by_contra hMore
    rw [Bool.not_eq_false] at hMore
    rw [List.takeWhile_cons_of_pos hMore] at hBack
    cases hBack
  -- What comes behind the line would be within the lexeme.
  have hWithin : b ∈ (text ++ b :: behind).take (scan (text ++ b :: behind)).2 := by
    refine List.mem_of_getElem? (i := text.length) ?_
    rw [List.getElem?_take_of_lt hLong, List.getElem?_append_right (Nat.le_refl _), Nat.sub_self]
    rfl
  have hNone : b ∉ longest := by
    obtain ⟨c, tail, rfl⟩ := List.exists_cons_of_ne_nil hSome
    have hFirst := List.all_eq_true.1 hLine c List.mem_cons_self
    rw [List.cons_append] at hTaken
    exact avoids_lineBreak (hTaken.ne_string hMem fun hSame => hQuote (congrArg some hSame))
      (hTaken.ne_newline hMem hFirst) hBreak longest hMem
  rcases hTaken.taken with ⟨hBody, -⟩ | ⟨hBody, -⟩
  · rw [hBody] at hWithin
    exact hNone hWithin
  · rw [hBody, List.mem_append, List.mem_singleton] at hWithin
    rw [hWithin.resolve_left hNone] at hBreak
    cases hBreak

/-- It does not matter either what ends the line. -/
theorem scan_of_line (hSome : text ≠ []) (hLine : text.all isLineChar = true)
    (hQuote : text.head? ≠ some '"') (hBack : back.takeWhile isLineChar = []) :
    scan (text ++ back) = scan text := by
  by_cases hKnown : (scan (text ++ back)).1 = .unknown
  · -- Nothing is read of the line alone either.
    have hAlone : (scan text).1 = .unknown := by
      by_contra hRead
      obtain ⟨p, longest, -, hMem, hTaken⟩ := exists_isTaken hSome hRead
      exact not_isMatch_of_scan hKnown longest
        (hTaken.isPrefix.trans (List.prefix_append _ _)) ⟨p, hMem⟩
    obtain ⟨c, tail, rfl⟩ := List.exists_cons_of_ne_nil hSome
    have hOther : c ≠ '"' := fun hSame => hQuote (congrArg some hSame)
    obtain ⟨-, hBoth⟩ := (Token.scan_unknown hKnown).resolve_left fun h => hOther h.1
    obtain ⟨-, hOne⟩ := (Token.scan_unknown hAlone).resolve_left fun h => hOther h.1
    exact Prod.ext (hKnown.trans hAlone.symm) (hBoth.trans hOne.symm)
  · exact (scan_of_append hKnown (scan_le_of_line hSome hLine hQuote hBack hKnown)).symm

/-- A literal that has ended is the same in front of anything. -/
theorem scan_quoted (hKnown : shape ≠ .unknown)
    (hScan : scan ('"' :: (body ++ rest)) = (shape, body.length + 1)) (other : List Char) :
    scan ('"' :: (body ++ other)) = (shape, body.length + 1) := by
  have hNone (text : List Char) : scan ('"' :: text) = unclassed ('"' :: text) := by
    rw [scan_eq, classed?_of_head (by decide), Option.getD_none]
  rw [hNone, unclassed_quote] at hScan ⊢
  obtain ⟨hShape, hLength⟩ := Prod.mk.inj hScan
  have hClosed : (literal (body ++ rest)).1 = true := by
    by_contra hOpen
    rw [if_neg hOpen] at hShape
    exact hKnown hShape.symm
  have hAlone := literal_of_append hClosed (Nat.le_of_eq (Nat.succ_injective hLength))
  rw [← hAlone] at hClosed hShape hLength
  rw [literal_append_of_closed hClosed, hShape, hLength]

/-- What is read on a line is the same if the line ends with a carriage return. -/
theorem scan_withReturns (hSome : body ≠ []) (hLine : body.all isLineChar = true)
    (hQuote : shape = .unknown → body.head? ≠ some '"')
    (hScan : scan (body ++ rest) = (shape, body.length)) :
    scan (body ++ withReturns rest) = (shape, body.length) := by
  obtain ⟨c, tail, rfl⟩ := List.exists_cons_of_ne_nil hSome
  by_cases hc : c = '"'
  · subst hc
    exact scan_quoted (fun hNone => hQuote hNone rfl) hScan _
  · generalize hStart : rest.takeWhile isLineChar = line
    generalize hEnd : rest.dropWhile isLineChar = behind
    obtain rfl : line ++ behind = rest := by
      rw [← hStart, ← hEnd, List.takeWhile_append_dropWhile]
    have hAll : ∀ d ∈ line, isLineChar d = true := by
      rw [← hStart]
      exact List.all_eq_true.1 List.all_takeWhile
    have hBehind : behind.takeWhile isLineChar = [] := by
      rw [List.takeWhile_append_of_pos hAll] at hStart
      exact List.append_cancel_left (hStart.trans (List.append_nil line).symm)
    have hFeed : '\n' ∉ line := fun hMem => Bool.false_ne_true (hAll '\n' hMem)
    have hWhole : (c :: tail ++ line).all isLineChar = true := by
      rw [List.all_append, hLine, List.all_eq_true.2 hAll]
      rfl
    have hHead : (c :: tail ++ line).head? ≠ some '"' := fun hSame => hc (Option.some.inj hSame)
    rw [withReturns_append, withReturns_of_line hFeed, ← List.append_assoc,
      scan_of_line (by simp) hWhole hHead (takeWhile_withReturns hBehind)]
    rw [← List.append_assoc, scan_of_line (by simp) hWhole hHead hBehind] at hScan
    exact hScan

end Lexeme

namespace Token

section

variable {before after : Bool} {place : Place} {gap body text rest front : List Char}
  {token : Token} {w : List Token}

/-- Whether something is a line end or a comment depends on its first character only. -/
theorem shape_of_start {c : Char} (hFeed : c ≠ '\n') (hReturn : c ≠ '\r') (hSign : c ≠ ';')
    (text : List Char) : (scan (c :: text)).1 ≠ .newline ∧ (scan (c :: text)).1 ≠ .comment := by
  constructor
  · intro hShape
    have hRead := newline?_of_scan (List.cons_ne_nil c text) (Prod.ext hShape rfl)
    simp [newline?, hFeed, hReturn] at hRead
  · intro hShape
    have hRead := comment?_of_scan (List.cons_ne_nil c text) (Prod.ext hShape rfl)
    simp [comment?, hSign] at hRead

/-- Apart from line ends, only quoted text has line feeds. -/
theorem not_mem_of_scan {shape : Shape} (hSome : body ≠ [])
    (hScan : scan (body ++ rest) = (shape, body.length)) (hShape : shape ≠ .newline)
    (hString : shape = .string → '\n' ∉ body) (hQuote : shape = .unknown → body.head? ≠ some '"') :
    '\n' ∉ body := by
  by_cases hKnown : shape = .unknown
  · obtain ⟨c, tail, rfl⟩ := List.exists_cons_of_ne_nil hSome
    obtain rfl := hKnown
    rw [List.cons_append] at hScan
    obtain ⟨-, hOne⟩ := (scan_unknown (congrArg Prod.fst hScan)).resolve_left fun h =>
      hQuote rfl (congrArg some h.1)
    have hTail : tail = [] := List.eq_nil_of_length_eq_zero
      (Nat.succ_injective ((congrArg Prod.snd hScan).symm.trans hOne))
    subst hTail
    rw [List.mem_singleton]
    rintro rfl
    rw [scan_newline] at hScan
    cases hScan
  · intro hMem
    obtain ⟨p, longest, hSame, hLanguage, hTaken⟩ :=
      Pattern.exists_isTaken_of_scan hSome hScan hKnown
    have hOther : p ≠ .string := by
      rintro rfl
      exact hString hSame.symm hMem
    obtain ⟨front, back, hBody⟩ := List.append_of_mem hMem
    obtain ⟨rfl, -⟩ := hTaken.eq_nil_of_newline hLanguage hOther hBody
    exact hShape hSame.symm

/-- A piece of a text is one with carriage returns as well. -/
theorem Piece.withReturns (h : Piece before gap body rest token after)
    (hReturn : '\r' ∉ body ++ rest) (hString : token.kind = .string → '\n' ∉ body)
    (hError : token.kind = .error → body.head? ≠ some '"') :
    Piece before gap (withReturns body) (withReturns rest) token after := by
  rw [List.mem_append, not_or] at hReturn
  cases h with
  | @indent _ tail c span hBlanks hSome hHead hShape =>
      have hFirst : c ≠ '\n' := by
        rintro rfl
        exact hShape.1 (by rw [scan_newline])
      have hSecond : c ≠ '\r' := fun hSame => hReturn.2 (hSame ▸ List.mem_cons_self)
      have hThird : c ≠ ';' := by
        rintro rfl
        exact hShape.2 (by rw [scan_semicolon])
      rw [withReturns_of_line (not_mem_of_blanks hBlanks), withReturns_cons hFirst]
      exact .indent hBlanks hSome hHead (shape_of_start hFirst hSecond hThird _)
  | @heading line _ span hLine hEnd =>
      have hFeed : '\n' ∉ '*' :: line := by
        rw [List.mem_cons, not_or]
        exact ⟨by decide, fun hMem => Bool.false_ne_true (List.all_eq_true.1 hLine _ hMem)⟩
      rw [withReturns_of_line hFeed]
      exact .heading hLine (takeWhile_withReturns hEnd)
  | @lexeme _ _ tail _ c shape span hBlanks hHead hStart hScan =>
      by_cases hShape : shape = .newline
      · subst hShape
        rcases eq_of_scan_newline (List.cons_ne_nil c tail) hScan with hBody | hBody
        · obtain ⟨rfl, rfl⟩ := List.cons.inj hBody
          refine @Piece.lexeme _ _ ['\n'] _ '\r' _ _ hBlanks rfl
            (fun hBefore => ⟨.inr (.inl rfl), fun hBoth => by cases hBoth.2⟩) ?_
          rw [List.cons_append, scan_return]
          rfl
        · obtain ⟨rfl, -⟩ := List.cons.inj hBody
          exact absurd List.mem_cons_self hReturn.1
      · have hQuote (hNone : shape = .unknown) : (c :: tail).head? ≠ some '"' := by
          subst hNone
          exact hError rfl
        have hFeed : '\n' ∉ c :: tail := not_mem_of_scan (List.cons_ne_nil _ _) hScan hShape
          (by rintro rfl; exact hString rfl) hQuote
        have hLine := all_isLineChar hFeed hReturn.1
        rw [withReturns_of_line hFeed]
        exact .lexeme hBlanks hHead hStart
          (scan_withReturns (List.cons_ne_nil _ _) hLine hQuote hScan)
  | close hBlanks => exact .close hBlanks

/-- The tokens of a text with carriage returns are those that it has without. -/
theorem Lexed.withReturns (front : List Char)
    (h : Lexed rest before (Place.origin.advance front) text w after)
    (hReturn : '\r' ∉ text ++ rest)
    (hString : ∀ t ∈ w, t.kind = .string → '\n' ∉ t.span.chars (front ++ text ++ rest))
    (hError : ∀ t ∈ w, t.kind = .error → (t.span.chars (front ++ text ++ rest)).head? ≠ some '"') :
    Lexed (withReturns rest) before (Place.origin.advance front) (withReturns text) w after := by
  generalize hPlace : Place.origin.advance front = place at h
  induction h generalizing front with
  | nil => exact .nil
  | @cons before within after place gap body text token w hPiece hSpan hMore ih =>
      subst hPlace
      obtain ⟨hString, hStrings⟩ := List.forall_mem_cons.1 hString
      obtain ⟨hError, hErrors⟩ := List.forall_mem_cons.1 hError
      have hText : front ++ gap ++ body ++ text ++ rest =
          front ++ (gap ++ body ++ text) ++ rest := by simp
      have hChars : token.span.chars (front ++ (gap ++ body ++ text) ++ rest) = body := by
        have hAll := Span.chars_advance (front ++ gap) body (text ++ rest)
        rw [hSpan, spanAt, ← Place.advance_append, ← Place.advance_append]
        simpa using hAll
      rw [hChars] at hString hError
      rw [List.append_assoc, List.append_assoc, List.mem_append, not_or] at hReturn
      have hLater := ih (front ++ gap ++ body)
        (fun hMem => hReturn.2 (List.mem_append_right _ hMem))
        (by rw [hText]; exact hStrings) (by rw [hText]; exact hErrors)
        (by rw [Place.advance_append, Place.advance_append])
      rw [withReturns_append, withReturns_append,
        withReturns_of_line (not_mem_of_blanks hPiece.gap_blank)]
      have hNew := hPiece.withReturns hReturn.2 hString hError
      rw [withReturns_append] at hNew
      refine .cons hNew ?_ ?_
      · rw [hSpan, spanAt, spanAt, Place.advance_withReturns]
      · rw [Place.advance_withReturns]
        exact hLater

/-- The tokens of a text do not depend on whether its lines end with carriage returns. -/
theorem tokens_withReturns {source : String} (hReturn : '\r' ∉ source.toList)
    (hString : ∀ t ∈ tokens source, t.kind = .string → '\n' ∉ t.span.chars source.toList)
    (hError : ∀ t ∈ tokens source, t.kind = .error →
      (t.span.chars source.toList).head? ≠ some '"') :
    tokens (String.ofList (withReturns source.toList)) = tokens source := by
  obtain ⟨text, blanks, w, hText, hBlanks, hLexed, hTokens⟩ := exists_tokens source
  have hMem (t : Token) (ht : t ∈ w) : t ∈ tokens source := by
    rw [hTokens]
    exact List.mem_append_left _ ht
  have hNew := Lexed.withReturns [] hLexed (by rw [← hText]; exact hReturn)
    (fun t ht => by rw [List.nil_append, ← hText]; exact hString t (hMem t ht))
    (fun t ht => by rw [List.nil_append, ← hText]; exact hError t (hMem t ht))
  have hCut := hNew.cut
  rw [Cut, ← withReturns_append, ← hText, Place.advance_nil, Place.advance_withReturns] at hCut
  rw [hTokens, tokens, String.toList_ofList, hCut, withReturns_of_line (not_mem_of_blanks hBlanks),
    tokensFrom_blanks hBlanks, ← Place.advance_append, ← hText]
  rfl

end

end Token

/-- A text is parsed alike with line feeds and with carriage returns in front of them, if none of
its string literals goes on over a line end and each of them ends. -/
theorem Parse.text_withReturns {source : String} (options : Options)
    (hReturn : '\r' ∉ source.toList)
    (hString : ∀ t ∈ Token.tokens source, t.kind = .string → '\n' ∉ t.span.chars source.toList)
    (hError : ∀ t ∈ Token.tokens source, t.kind = .error →
      (t.span.chars source.toList).head? ≠ some '"') :
    text (String.ofList (withReturns source.toList)) options = text source options := by
  rw [text, text, Token.tokens_withReturns hReturn hString hError]

theorem Parse.text_withReturns_option :
    '\r' ∉ "option \"a\" \"b\" ;\n!\n".toList ∧
      (∀ t ∈ Token.tokens "option \"a\" \"b\" ;\n!\n", t.kind = .string →
        '\n' ∉ t.span.chars "option \"a\" \"b\" ;\n!\n".toList) ∧
      (∀ t ∈ Token.tokens "option \"a\" \"b\" ;\n!\n", t.kind = .error →
        (t.span.chars "option \"a\" \"b\" ;\n!\n".toList).head? ≠ some '"') ∧
      text (String.ofList (withReturns "option \"a\" \"b\" ;\n!\n".toList)) {} =
        text "option \"a\" \"b\" ;\n!\n" {} := by
  have hReturn : '\r' ∉ "option \"a\" \"b\" ;\n!\n".toList := by decide +kernel
  have hString : ∀ t ∈ Token.tokens "option \"a\" \"b\" ;\n!\n", t.kind = .string →
      '\n' ∉ t.span.chars "option \"a\" \"b\" ;\n!\n".toList := by
    decide +kernel
  have hError : ∀ t ∈ Token.tokens "option \"a\" \"b\" ;\n!\n", t.kind = .error →
      (t.span.chars "option \"a\" \"b\" ;\n!\n".toList).head? ≠ some '"' := by
    decide +kernel
  exact ⟨hReturn, hString, hError, text_withReturns {} hReturn hString hError⟩

end LedgerText
