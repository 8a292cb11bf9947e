import LedgerText.Place.Offset
import LedgerText.Proofs.Grammar.Moving
import LedgerText.Proofs.Lexing.Pieces

/-!
# Parts of a text

What becomes of some tokens of a text if the part of it that they stand for is
a text of its own. The places of the tokens are then counted from where the part
begins (`Place.since`), and nothing else about them changes (`exists_part`). The
part gets a line end if it has none, as the last line of a text does.

This needs that none of the tokens looks at what is behind them. A lexeme does
not, because it is the longest one already; blanks at the start of a line do,
so the part must not end with them.
-/

namespace LedgerText

/-! ## Places -/

namespace Place

variable {p q : Place}

theorem le_refl (p : Place) : p ≤ p := .inr ⟨rfl, Nat.le_refl _⟩

theorem le_trans {r : Place} (hFirst : p ≤ q) (hSecond : q ≤ r) : p ≤ r := by
  rcases hFirst with hLine | ⟨hLine, hColumn⟩
  · rcases hSecond with hMore | ⟨hSame, -⟩
    · exact .inl (Nat.lt_trans hLine hMore)
    · exact .inl (hSame ▸ hLine)
  · rcases hSecond with hMore | ⟨hSame, hColumns⟩
    · exact .inl (hLine ▸ hMore)
    · exact .inr ⟨hLine.trans hSame, Nat.le_trans hColumn hColumns⟩

theorem le_after (p : Place) (c : Char) : p ≤ p.after c := by
  unfold after
  split
  · exact .inl (Nat.lt_succ_self _)
  · exact .inr ⟨rfl, Nat.le_succ _⟩

theorem not_after_le (p : Place) (c : Char) : ¬ p.after c ≤ p := by
  unfold after
  split
  · rintro (hLine | ⟨hLine, -⟩)
    · exact absurd hLine (Nat.not_lt_of_le (Nat.le_succ _))
    · exact absurd hLine (Nat.succ_ne_self _)
  · rintro (hLine | ⟨-, hColumn⟩)
    · exact absurd hLine (Nat.lt_irrefl _)
    · exact absurd hColumn (Nat.not_succ_le_self _)

/-- The place behind a text is not in front of it. -/
theorem le_advance (p : Place) (text : List Char) : p ≤ p.advance text := by
  induction text generalizing p with
  | nil => exact p.le_refl
  | cons c text ih => exact le_trans (p.le_after c) (ih (p.after c))

/-- As many characters come before the place behind a text as the text has. -/
theorem offsetFrom_advance (here : Place) (front back : List Char) :
    offsetFrom here (here.advance front) (front ++ back) = front.length := by
  induction front generalizing here with
  | nil =>
      cases back with
      | nil => rfl
      | cons c back => exact if_pos here.le_refl
  | cons c front ih =>
      have hBehind : ¬ (here.after c).advance front ≤ here := fun hLe =>
        here.not_after_le c (le_trans ((here.after c).le_advance front) hLe)
      rw [List.cons_append, advance_cons, offsetFrom, if_neg hBehind, ih, List.length_cons]

theorem offset_advance (front back : List Char) :
    (origin.advance front).offset (front ++ back) = front.length :=
  offsetFrom_advance origin front back

/-- A text without line breaks only moves the column. -/
theorem advance_of_line {text : List Char} (h : ∀ c ∈ text, Lexeme.isLineChar c = true)
    (p : Place) : p.advance text = ⟨p.line, p.column + text.length⟩ := by
  induction text generalizing p with
  | nil => rfl
  | cons c text ih =>
      have hFeed : c ≠ '\n' := ne_of_class (h c List.mem_cons_self) (by decide)
      rw [advance_cons, ih fun d hd => h d (List.mem_cons_of_mem c hd), after, if_neg hFeed,
        List.length_cons, Nat.add_right_comm, Nat.add_assoc]

/-- A place, counted from where a part of the text begins. -/
def since (start p : Place) : Place :=
  if p.line = start.line then ⟨1, p.column - start.column + 1⟩
  else ⟨p.line - start.line + 1, p.column⟩

theorem since_after {start : Place} (h : start ≤ p) (c : Char) :
    since start (p.after c) = (since start p).after c := by
  have hLine : start.line ≤ p.line := by
    rcases h with hLess | ⟨hSame, -⟩
    · exact Nat.le_of_lt hLess
    · exact Nat.le_of_eq hSame
  by_cases hBreak : c = '\n'
  · have hNext : p.line + 1 ≠ start.line := by omega
    have hCount : p.line + 1 - start.line = p.line - start.line + 1 := by omega
    rw [after, if_pos hBreak, after, if_pos hBreak, since, if_neg hNext, since, hCount]
    split
    · next hSame => rw [hSame, Nat.sub_self]
    · rfl
  · rw [after, if_neg hBreak, after, if_neg hBreak, since, since]
    by_cases hSame : p.line = start.line
    · have hColumn : start.column ≤ p.column := by
        rcases h with hLess | ⟨-, hColumn⟩
        · omega
        · exact hColumn
      rw [if_pos hSame, if_pos hSame, Nat.sub_add_comm hColumn]
    · rw [if_neg hSame, if_neg hSame]

/-- Counted from the start of a part, the place behind a text in it is as if nothing came before
the part. -/
theorem since_advance (start : Place) (text : List Char) :
    since start (start.advance text) = origin.advance text := by
  have hFrom : ∀ p, start ≤ p → since start (p.advance text) = (since start p).advance text := by
    induction text with
    | nil => exact fun p _ => rfl
    | cons c text ih =>
        intro p hp
        rw [advance_cons, advance_cons, ih _ (le_trans hp (p.le_after c)), since_after hp]
  have hStart : since start start = origin := by
    rw [since, if_pos rfl, Nat.sub_self]
    rfl
  rw [hFrom start start.le_refl, hStart]

end Place

/-- A span, counted from where a part of the text begins. -/
def Span.since (start : Place) (s : Span) : Span := ⟨start.since s.start, start.since s.stop⟩

namespace Token

open Lexeme

/-! ## Pieces on their own -/

section

variable {before within after : Bool} {start place : Place}
  {front gap body text rest : List Char} {token : Token} {v w : List Token}

/-- In a part that begins with them, tokens are those of the whole text, counted from there. -/
theorem Lexed.since (h : Lexed rest before (start.advance front) text w after) :
    Lexed rest before (Place.origin.advance front) text (w.map (moved (Span.since start)))
      after := by
  generalize hPlace : start.advance front = place at h
  induction h generalizing front with
  | nil => exact .nil
  | cons hPiece hSpan hMore ih =>
      subst hPlace
      refine .cons (hPiece.placed _) ?_ ?_
      · show Span.since start _ = _
        rw [hSpan, spanAt, ← Place.advance_append, ← Place.advance_append, Span.since,
          Place.since_advance, Place.since_advance, Place.advance_append, Place.advance_append,
          Place.advance_append]
        rfl
      · rw [← Place.advance_append, ← Place.advance_append]
        exact ih (by rw [Place.advance_append, Place.advance_append])

/-- A token other than the blanks of a line is the same in front of a shorter text. -/
theorem Piece.alone (h : Piece before gap body (text ++ rest) token within)
    (hError : token.kind ≠ .error) (hIndent : token.kind ≠ .indent) :
    Piece before gap body text token within := by
  generalize hWhole : text ++ rest = whole at h
  cases h with
  | indent => exact absurd rfl hIndent
  | heading hLine hEnd =>
      refine .heading hLine ?_
      rw [← hWhole] at hEnd
      cases text with
      | nil => rfl
      | cons c text =>
          by_cases hc : isLineChar c = true
          · rw [List.cons_append, List.takeWhile_cons_of_pos hc] at hEnd
            cases hEnd
          · exact List.takeWhile_cons_of_neg hc
  | @lexeme _ _ tail _ c shape span hBlanks hHead hStart hScan =>
      have hKnown : shape ≠ .unknown := by
        rintro rfl
        exact hError rfl
      rw [← hWhole, ← List.append_assoc] at hScan
      have hSame : scan (c :: tail ++ text) = scan (c :: tail ++ text ++ rest) := by
        refine scan_of_append ?_ ?_
        · rw [hScan]
          exact hKnown
        · rw [hScan, List.length_append]
          exact Nat.le_add_right _ _
      exact .lexeme hBlanks hHead hStart (hSame.trans hScan)
  | close hBlanks =>
      rw [(List.append_eq_nil_iff.1 hWhole).1]
      exact .close hBlanks

/-- Behind the blanks of a line, the next token begins with what is not blank. -/
theorem Piece.scan_of_head {c : Char} {others : List Char}
    (h : Piece false gap body rest token after) (hText : gap ++ body ++ rest = c :: others)
    (hHead : isBlank c = false) (hError : token.kind ≠ .error) :
    gap = [] ∧ (scan (body ++ rest)).1 ≠ .unknown ∧ (scan (body ++ rest)).2 = body.length := by
  -- The gap is blank, and the text does not begin with a blank.
  have hGap (hBlanks : gap.all isBlank = true) : gap = [] := by
    cases gap with
    | nil => rfl
    | cons d gap =>
        cases hText
        rw [List.all_cons, hHead] at hBlanks
        cases hBlanks
  cases h with
  | lexeme hBlanks hFirst hStart hScan =>
      refine ⟨hGap hBlanks, ?_, by rw [hScan]⟩
      rw [hScan]
      rintro rfl
      exact hError rfl
  | close hBlanks =>
      rw [hGap hBlanks] at hText
      cases hText

/-- The blanks of a line are the same in front of a shorter text, if it still has the next token. -/
theorem Piece.indent_alone {other : Token} {blanks next : List Char}
    (h : Piece before gap body (blanks ++ next ++ text ++ rest) token within)
    (hKind : token.kind = .indent) (hNext : Piece within blanks next (text ++ rest) other after)
    (hError : other.kind ≠ .error) :
    Piece before gap body (blanks ++ next ++ text) token within := by
  generalize hWhole : blanks ++ next ++ text ++ rest = whole at h
  cases h with
  | @indent _ others c span hBlanks hSome hHead hShape =>
      rw [List.append_assoc] at hWhole
      obtain ⟨rfl, hKnown, hLength⟩ := hNext.scan_of_head hWhole hHead hError
      rw [List.nil_append] at hWhole
      rw [← List.append_assoc] at hKnown hLength hWhole
      have hSame : scan (next ++ text) = scan (next ++ text ++ rest) := by
        refine scan_of_append hKnown ?_
        rw [hLength, List.length_append]
        exact Nat.le_add_right _ _
      have hFirst : ∃ more, next ++ text = c :: more := by
        cases next with
        | cons d next => exact ⟨_, congrArg (· :: _) (List.cons.inj hWhole).1⟩
        | nil =>
            -- A lexeme has at least one character.
            have hWholeSome : [] ++ text ++ rest ≠ [] := by
              rw [hWhole]
              exact List.cons_ne_nil _ _
            have hPos := (scan_bounds hWholeSome).1
            rw [hLength] at hPos
            exact absurd hPos (Nat.lt_irrefl _)
      obtain ⟨more, hFirst⟩ := hFirst
      rw [List.nil_append, hFirst]
      rw [← hWhole, ← hSame, hFirst] at hShape
      exact .indent hBlanks hSome hHead hShape
  | heading => cases hKind
  | lexeme => exact absurd hKind (ofLexeme_kind_ne _ _ _).2.1
  | close => cases hKind

/-- The tokens of a text stay the same where nothing is behind it, unless blanks of a line are the
last of them. -/
theorem Lexed.alone (h : Lexed rest before place text w after)
    (hError : ∀ token ∈ w, token.kind ≠ .error)
    (hLast : ∀ token ∈ w.getLast?, token.kind ≠ .indent) :
    Lexed [] before place text w after := by
  induction h with
  | nil => exact .nil
  | @cons before within after place gap body text token w hPiece hSpan hMore ih =>
      rw [List.forall_mem_cons] at hError
      have hRest : Lexed [] within ((place.advance gap).advance body) text w after := by
        refine ih hError.2 fun last hMem => hLast last ?_
        rw [List.getLast?_cons]
        rw [Option.mem_def] at hMem ⊢
        rw [hMem]
        rfl
      refine .cons ?_ hSpan hRest
      rw [List.append_nil]
      by_cases hIndent : token.kind = .indent
      · cases hMore with
        | nil => exact absurd hIndent (hLast token rfl)
        | cons hNext hNextSpan hOthers =>
            exact hPiece.indent_alone hIndent hNext (hError.2 _ List.mem_cons_self)
      · exact hPiece.alone hError.1 hIndent

/-- A statement that begins within a line, or behind blanks, can begin a text. -/
theorem Lexed.exists_anew (h : Lexed rest before place text (token :: w) after)
    (hKind : token.kind = .date ∨ token.kind = .keyword .option) :
    ∃ gap part, text = gap ++ part ∧ token.span.start = place.advance gap ∧
      Lexed rest true (place.advance gap) part (token :: w) after := by
  cases h with
  | @cons _ within _ _ gap body text _ _ hPiece hSpan hMore =>
      have hAnew : Piece true [] body (text ++ rest) token within := by
        generalize text ++ rest = whole at hPiece
        cases hPiece with
        | indent => simp [bare] at hKind
        | heading => simp at hKind
        | @lexeme _ _ tail _ c shape span hBlanks hHead hStart hScan =>
            have hStar : c ≠ '*' := by
              rintro rfl
              have hFlag : shape = .flag := by
                rw [← scan_star, ← List.cons_append, hScan]
              rw [hFlag] at hKind
              simp [ofLexeme] at hKind
            exact .lexeme List.all_nil hHead (fun _ => ⟨.inl rfl, fun hBoth => hStar hBoth.2⟩) hScan
        | close => simp [bare] at hKind
      exact ⟨gap, body ++ text, List.append_assoc _ _ _, by rw [hSpan]; rfl,
        .cons hAnew hSpan hMore⟩

/-- The last token of a text ends where the text does. -/
theorem Lexed.stop_eq (h : Lexed rest before place text w after) :
    ∀ token ∈ w.getLast?, token.span.stop = place.advance text := by
  induction h with
  | nil => simp
  | @cons before within after place gap body text token w hPiece hSpan hMore ih =>
      rw [List.append_assoc, Place.advance_append, Place.advance_append]
      cases hMore with
      | nil =>
          intro last hMem
          cases hMem
          show token.span.stop = _
          rw [hSpan]
          rfl
      | cons hNext hNextSpan hOthers =>
          intro last hMem
          rw [List.getLast?_cons_cons] at hMem
          exact ih last hMem

/-! ## Parts of a whole text -/

/-- Tokens in the middle of a text are those of a part of it, which begins a line behind a line end
and at the start of the text. -/
theorem exists_lexed_part {source : String} {front : List Token}
    (hTokens : tokens source = front ++ w ++ v) (hSome : w ≠ [])
    (hEnd : ∀ token ∈ w, token.kind ≠ .endOfInput) :
    ∃ before part behind after, source.toList = before ++ part ++ behind ∧
      Lexed behind (front.getLast?.elim true fun token => decide (token.kind = .lineEnd))
        (Place.origin.advance before) part w after := by
  obtain ⟨text, blanks, pieces, hText, -, hLexed, hAll⟩ := exists_tokens source
  have hPieces : ∃ others, pieces = front ++ w ++ others := by
    rcases List.append_eq_append_iff.1 (hAll.symm.trans hTokens) with
      ⟨more, hFront, hRest⟩ | ⟨others, hFront, -⟩
    · -- The end of the text is not one of the tokens.
      cases more with
      | nil => exact ⟨[], by rw [hFront, List.append_nil, List.append_nil]⟩
      | cons last more =>
          obtain ⟨rfl, hNone⟩ := List.cons.inj hRest
          obtain ⟨rfl, -⟩ := List.append_eq_nil_iff.1 hNone.symm
          obtain ⟨others, token, rfl⟩ := List.eq_nil_or_concat w |>.resolve_left hSome
          have hKind : token.kind ≠ .endOfInput := hEnd token (by simp)
          rw [List.concat_eq_append, ← List.append_assoc] at hFront
          obtain ⟨-, hLast⟩ := List.append_inj' hFront rfl
          cases hLast
          exact absurd rfl hKind
    · exact ⟨others, hFront⟩
  obtain ⟨others, rfl⟩ := hPieces
  obtain ⟨text, behind, within, rfl, hFirst, -⟩ := lexed_append.1 hLexed
  obtain ⟨before, part, start, rfl, hFront, hPart⟩ := lexed_append.1 hFirst
  refine ⟨before, part, behind ++ blanks, within, by rw [hText]; simp, ?_⟩
  rw [← hFront.after_eq]
  exact hPart

/-- Behind a token come the tokens of the rest of its text, and then the end of the text. -/
theorem exists_lexed_behind {source : String} {front : List Token}
    (hTokens : tokens source = front ++ token :: v) (hKind : token.kind ≠ .endOfInput) :
    ∃ before gap body text blanks after w last,
      source.toList = before ++ gap ++ body ++ (text ++ blanks) ∧
      Piece (front.getLast?.elim true fun token => decide (token.kind = .lineEnd)) gap body
        (text ++ blanks) token after ∧
      token.span = spanAt (Place.origin.advance before) gap body ∧ blanks.all isBlank = true ∧
      Lexed blanks after (Place.origin.advance (before ++ gap ++ body)) text w true ∧
      v = w ++ [last] := by
  obtain ⟨text, blanks, pieces, hText, hBlanks, hLexed, hAll⟩ := exists_tokens source
  have hPieces : ∃ w, pieces = front ++ token :: w ∧
      v = w ++ [endOfInput (.point (Place.origin.advance source.toList))] := by
    rcases List.append_eq_append_iff.1 (hAll.symm.trans hTokens) with
      ⟨more, hFront, hRest⟩ | ⟨others, hFront, hRest⟩
    · -- The end of the text is not the token.
      cases more with
      | nil =>
          obtain ⟨rfl, -⟩ := List.cons.inj hRest
          exact absurd rfl hKind
      | cons last more =>
          obtain ⟨-, hNone⟩ := List.cons.inj hRest
          simp at hNone
    · cases others with
      | nil =>
          obtain ⟨rfl, -⟩ := List.cons.inj hRest
          exact absurd rfl hKind
      | cons first others =>
          obtain ⟨rfl, hBack⟩ := List.cons.inj hRest
          exact ⟨others, hFront, hBack⟩
  obtain ⟨w, rfl, rfl⟩ := hPieces
  obtain ⟨before, behind, within, rfl, hFront, hBehind⟩ := lexed_append.1 hLexed
  rw [hFront.after_eq] at hBehind
  cases hBehind with
  | @cons _ after _ _ gap body text _ _ hPiece hSpan hMore =>
      refine ⟨before, gap, body, text, blanks, after, w, _, by rw [hText]; simp, hPiece, hSpan,
        hBlanks, ?_, rfl⟩
      rw [Place.advance_append, Place.advance_append]
      exact hMore

/-- Blanks have a token only where a line begins. -/
theorem kind_of_indent {source : String} {front : List Token} {other : Token}
    (hTokens : tokens source = front ++ other :: token :: v) (hKind : token.kind = .indent) :
    other.kind = .lineEnd := by
  have hSplit : tokens source = (front ++ [other]) ++ [token] ++ v := by
    rw [hTokens]
    simp
  obtain ⟨before, part, behind, after, -, hPart⟩ := exists_lexed_part hSplit
    (List.cons_ne_nil _ _) (by rw [List.forall_mem_singleton, hKind]; decide)
  cases hPart with
  | cons hPiece hSpan hMore =>
      have hStart := hPiece.before_of_indent hKind
      rw [List.getLast?_concat] at hStart
      exact of_decide_eq_true hStart

/-- Where a statement is a text of its own, it has the same tokens, counted from where it begins. A
line end follows if it does not end with one, and then the end of the text. -/
theorem exists_part {source : String} {front : List Token}
    (hTokens : tokens source = front ++ token :: w ++ v)
    (hKind : token.kind = .date ∨ token.kind = .keyword .option)
    (hEnd : ∀ t ∈ token :: w, t.kind ≠ .endOfInput ∧ t.kind ≠ .error)
    (hLast : (w.getLastD token).kind ≠ .indent) :
    ∃ before part behind, source.toList = before ++ part ++ behind ∧
      token.span.start = Place.origin.advance before ∧
      (w.getLastD token).span.stop = Place.origin.advance (before ++ part) ∧
      tokens (String.ofList part) = (token :: w).map (moved (Span.since token.span.start)) ++
        (if (w.getLastD token).kind = .lineEnd then [] else
          [bare .lineEnd (.point (Place.origin.advance part))]) ++
        [endOfInput (.point (Place.origin.advance part))] := by
  obtain ⟨before, text, behind, after, hSource, hLexed⟩ := exists_lexed_part hTokens
    (List.cons_ne_nil _ _) fun t ht => (hEnd t ht).1
  have hGetLast : (token :: w).getLast? = some (w.getLastD token) := by
    rw [List.getLast?_cons, List.getLastD_eq_getLast?]
  obtain ⟨gap, part, rfl, hStart, hAnew⟩ := hLexed.exists_anew hKind
  have hAlone : Lexed [] true (Place.origin.advance (before ++ gap)) part (token :: w) after := by
    rw [Place.advance_append]
    refine hAnew.alone (fun t ht => (hEnd t ht).2) ?_
    rw [hGetLast]
    rintro last ⟨⟩
    exact hLast
  have hStop := hAlone.stop_eq _ hGetLast
  rw [← Place.advance_append] at hStart hStop
  refine ⟨before ++ gap, part, behind, by rw [hSource]; simp, hStart, hStop, ?_⟩
  have hMoved : Lexed [] true .origin part
      ((token :: w).map (moved (Span.since token.span.start))) after := by
    have hHere : Lexed [] true ((Place.origin.advance (before ++ gap)).advance []) part
        (token :: w) after := hAlone
    rw [hStart]
    exact hHere.since
  have hCut := hMoved.cut
  have hAfter : after = decide ((w.getLastD token).kind = .lineEnd) := by
    rw [hAlone.after_eq, hGetLast]
    rfl
  rw [Cut, List.append_nil] at hCut
  rw [tokens, String.toList_ofList, hCut, tokensFrom_blanks List.all_nil, hAfter]
  simp

end

end Token

end LedgerText
