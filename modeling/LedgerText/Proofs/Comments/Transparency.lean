import LedgerText.Proofs.Comments.Parallel
import LedgerText.Proofs.Lexing.Returns

/-!
# Comment lines are transparent

A comment line between two lines of a text changes nothing but places
(`text_commentLine`). The lexer has two tokens for it and none for the blanks in
front of it. Wherever a line may begin, one of three loops passes over the two:
the one over the statements, the one over the postings of a transaction, or the
one that looks for a statement to go on with after an error.
-/

namespace LedgerText

namespace Parse

open Grammar Step

variable {σ : Type} {setup : Setup σ} {s t : State σ}

/-! ## Recovery -/

theorem Ready.stops_iff (h : Ready s.spot t.spot) : s.spot.Stops ↔ t.spot.Stops := by
  have hKind : nextKind s.input = nextKind t.input := by
    rw [← s.lookahead_kind, ← t.lookahead_kind, h.kind_eq]
  unfold Spot.Stops
  rw [hKind, h.begins]

/-- A token that is passed over does not change where recovery goes on. -/
theorem resumed_of_passed (h : ¬ s.spot.Stops) :
    s.next.spot.resumed = s.spot.resumed ∧ s.next.input.length < s.input.length := by
  have hEnd : s.lookahead.kind ≠ .endOfInput := fun hEnd =>
    h (.inl (s.lookahead_kind.symm.trans hEnd))
  obtain ⟨rest, hInput, hNext⟩ := Spot.exists_next hEnd
  have hSpot : s.spot = (s.lookahead :: rest, s.previous) := by rw [State.spot, hInput]
  refine ⟨?_, State.next_input_lt hEnd⟩
  rw [hSpot] at h
  rw [hNext, hSpot, Spot.resumed_cons h]

theorem not_stops {kind : TokenKind} (h : s.lookahead.kind = kind) (hEnd : kind ≠ .endOfInput)
    (hStart : kind.startsStatement = false) : ¬ s.spot.Stops := by
  have hKind : nextKind s.input = kind := s.lookahead_kind.symm.trans h
  rintro (hNone | ⟨-, hSome⟩)
  · exact hEnd (hKind.symm.trans hNone)
  · rw [hKind, hStart] at hSome
    cases hSome

/-- Recovery goes on at the same token in both texts. The induction is on the tokens that the second
text has left. -/
theorem Behind.resumed (h : Behind s.spot t.spot) : Behind s.spot.resumed t.spot.resumed := by
  generalize hLength : t.input.length = length
  induction length using Nat.strongRecOn generalizing s t with
  | _ length ih =>
      subst hLength
      rcases h.cases with hReady | hAhead
      · by_cases hStops : t.spot.Stops
        · rw [Spot.resumed_of_stops hStops, Spot.resumed_of_stops (hReady.stops_iff.2 hStops)]
          exact h
        · obtain ⟨hLeft, -⟩ := resumed_of_passed fun hHere => hStops (hReady.stops_iff.1 hHere)
          obtain ⟨hRight, hLess⟩ := resumed_of_passed hStops
          rw [← hLeft, ← hRight]
          exact ih _ hLess hReady.behind_next rfl
      · obtain ⟨hComment, hEnd, hNext⟩ := hAhead.behind_line
        obtain ⟨hFirst, hLess⟩ := resumed_of_passed (not_stops hComment (by decide) rfl)
        obtain ⟨hSecond, hLater⟩ := resumed_of_passed (not_stops hEnd (by decide) rfl)
        rw [← hFirst, ← hSecond]
        exact ih _ (Nat.lt_trans hLater hLess) (.inl hNext) rfl

/-! ## Statements -/

theorem Halt.Same.problem_eq {g h : Halt} (hSame : g.Same h) :
    g.error.problem = h.error.problem := by
  cases hSame with
  | statement h => exact h
  | fatal h => exact h

/-- Without notes on what is passed over, recovery leaves the two parses alike. -/
theorem corresponds_recover {e f : ParseError} (hTrace : setup.options.traceRecovery = false)
    (h : e.problem = f.problem) (hNear : s.Near t) (hSpots : Behind s.spot t.spot) :
    Corresponds Eq Behind (recover setup e s) (recover setup f t) := by
  have hReport := hNear.report h
  unfold recover
  rw [hTrace]
  cases setup.options.recovery with
  | abort => exact .error (.fatal rfl) hReport hSpots
  | resynchronize =>
      refine .ok rfl { hReport with depth := ?_, problems := ?_ } hSpots.resumed
      · exact congrArg (min · 1) hReport.depth
      · show List.map _ (_ ++ []) = List.map _ (_ ++ [])
        rw [List.append_nil, List.append_nil]
        exact hReport.problems

section

variable (hBuilder : setup.builder.IgnoresLines) (hTrace : setup.options.traceRecovery = false)
include hBuilder hTrace

theorem parallel_statement : Parallel Ready Eq (statement setup) (statement setup) Behind := by
  intro s t hNear hSpots
  have hStep := parallel_declaration hBuilder s t hNear hSpots
  unfold statement
  revert hStep
  generalize declaration setup s = first
  generalize declaration setup t = second
  rintro (⟨hSame, hNear, hEnd⟩ | ⟨hHalt, hNear, hEnd⟩)
  · exact .ok hSame hNear hEnd
  · cases hHalt with
    | statement h => exact corresponds_recover hTrace h hNear hEnd
    | fatal h => exact .error (.fatal h) hNear hEnd

/-- Between two statements, a comment line is a statement that says nothing. -/
theorem parallel_file : Parallel Behind Eq (file setup) (file setup) Behind := by
  refine parallel_nested (fun _ _ h => h) (parallel_bind (parallel_repeatWhile (Q := Ready)
    (fun _ => (none : Option Unit)) ?_ ?_) fun _ _ _ => parallel_pure rfl)
  · intro s t hNear hSpots
    rcases hSpots.cases with hReady | hAhead
    · refine .inl ⟨?_, fun _ => hReady⟩
      unfold moreAhead
      rw [hReady.kind_eq]
    · obtain ⟨hKind, -, hNext⟩ := hAhead.behind_line
      refine .inr ⟨(), t.next.next, ?_, ?_, rfl, { hNear with }, .inl hNext⟩
      · simp [moreAhead, hKind]
      · refine statement_eq_ok.2 (.inl ?_)
        rw [declaration, peek_bind, hKind]
        exact hAhead.lineEnd_eq
  · exact (parallel_statement hBuilder hTrace).imp fun _ _ _ => rfl

/-- The whole parses end alike. -/
theorem run_near (builder : σ) (tags : TagContext) {first second : List Token}
    (h : Behind (first, none) (second, none)) :
    (run setup builder tags first).phase = (run setup builder tags second).phase ∧
      (run setup builder tags first).Near (run setup builder tags second) := by
  have hStart : (State.start builder tags first).Near (State.start builder tags second) :=
    ⟨rfl, rfl, rfl, rfl, rfl⟩
  have hFile := parallel_file hBuilder hTrace _ _ hStart h
  unfold run
  revert hFile
  generalize file setup (State.start builder tags first) = left
  generalize file setup (State.start builder tags second) = right
  rintro (⟨-, hNear, -⟩ | ⟨hSame, hNear, -⟩)
  · exact ⟨rfl, { hNear with }⟩
  · exact ⟨rfl, { hNear.report hSame.problem_eq with }⟩

end

end Parse

/-! ## The tokens of a comment line -/

/-- A line with nothing but a comment behind some blanks. -/
def commentLine (blanks remark : List Char) : List Char := blanks ++ ';' :: remark ++ ['\n']

namespace Token

open Lexeme

section

variable {front : String} {blanks remark : List Char}

/-- The blanks in front of a comment are no token. -/
theorem senses_commentLine (hBlanks : blanks.all isBlank = true)
    (hRemark : remark.all isLineChar = true) (place : Place) (back : List Char) :
    (tokensFrom true place (commentLine blanks remark ++ back)).map sense =
      (.comment, .text (String.ofList (';' :: remark))) :: (.lineEnd, .absent) ::
        (tokensFrom true (place.advance (commentLine blanks remark)) back).map sense := by
  have hScan : scan (';' :: remark ++ '\n' :: back) = (.comment, (';' :: remark).length) := by
    rw [List.cons_append, scan_semicolon, takeWhile_of_cons hRemark (by decide), List.length_cons,
      Nat.add_comm]
  have hComment : Piece true blanks (';' :: remark) ('\n' :: back)
      (ofLexeme .comment (';' :: remark) (spanAt place blanks (';' :: remark))) false :=
    .lexeme hBlanks (by decide) (fun _ => ⟨.inr (.inr rfl), fun hBoth => by cases hBoth.2⟩) hScan
  have hEnd (here : Place) : Piece false [] ['\n'] back
      (ofLexeme .newline ['\n'] (spanAt here [] ['\n'])) true :=
    .lexeme rfl (by decide) (fun hBefore => by cases hBefore) (scan_newline back)
  have hText : commentLine blanks remark ++ back = blanks ++ ';' :: remark ++ '\n' :: back := by
    simp [commentLine]
  have hMore (here : Place) : tokensFrom false here ('\n' :: back) =
      _ :: tokensFrom true (here.advance ['\n']) back :=
    (hEnd here).tokensFrom_eq rfl
  rw [hText, hComment.tokensFrom_eq rfl, hMore, commentLine, Place.advance_append,
    Place.advance_append]
  rfl

/-- Where a text ends a line and has no error, its tokens are the first ones of every text that
begins with it, and behind them a line begins. -/
theorem exists_lexed_lines (hLine : ∀ c ∈ front.toList.getLast?, c = '\n')
    (hError : ∀ token ∈ tokens front, token.kind ≠ .error) :
    ∃ w, ∀ back, Lexed back true .origin front.toList w true := by
  obtain ⟨text, blanks, w, hText, hBlanks, hLexed, hTokens⟩ := exists_tokens front
  rw [hText] at hLine
  have hNone : blanks = [] :=
    eq_nil_of_blanks hBlanks fun c hc => hLine c (getLast?_append_of_mem hc)
  subst hNone
  rw [List.append_nil] at hText hLine
  rw [hTokens, List.forall_mem_append] at hError
  refine ⟨w, ?_⟩
  rw [hText]
  exact hLexed.extended hError.1 (fun _ => rfl) hLine

/-- Behind lines, a text has the tokens that it has on its own, up to places. -/
theorem senses_behind {lines : List Char} (hLine : ∀ c ∈ lines.getLast?, c = '\n')
    (back : List Char) : (tokensFrom true (Place.origin.advance lines) back).map sense =
      (tokensFrom true .origin back).map sense := by
  rw [Place.advance_of_newline hLine, tokensFrom_lower, List.map_map]
  rfl

end

end Token

namespace Parse

section

variable {front : String} {blanks remark : List Char}

/-- A comment line puts two tokens into a text, where a line begins. -/
theorem behind_commentLine (hLine : ∀ c ∈ front.toList.getLast?, c = '\n')
    (hError : ∀ token ∈ Token.tokens front, token.kind ≠ .error)
    (hBlanks : blanks.all isBlank = true) (hRemark : remark.all Lexeme.isLineChar = true)
    (back : String) :
    Behind (Token.tokens (front ++ back), none)
      (Token.tokens (front ++ String.ofList (commentLine blanks remark) ++ back), none) := by
  obtain ⟨w, hLexed⟩ := Token.exists_lexed_lines hLine hError
  have hBoth : ∀ c ∈ (front.toList ++ commentLine blanks remark).getLast?, c = '\n' := by
    rw [commentLine, ← List.append_assoc, List.getLast?_concat]
    rintro c ⟨⟩
    rfl
  have hFirst := (hLexed back.toList).cut
  have hSecond := (hLexed (commentLine blanks remark ++ back.toList)).cut
  rw [Token.Cut] at hFirst hSecond
  have hPlain : (Token.tokens (front ++ back)).map Token.sense =
      w.map Token.sense ++ (Token.tokens back).map Token.sense := by
    rw [Token.tokens, String.toList_append, hFirst, List.map_append, Token.senses_behind hLine]
    rfl
  have hCommented :
      (Token.tokens (front ++ String.ofList (commentLine blanks remark) ++ back)).map Token.sense =
        w.map Token.sense ++ (.comment, .text (String.ofList (';' :: remark))) ::
          (.lineEnd, .absent) :: (Token.tokens back).map Token.sense := by
    rw [Token.tokens, String.toList_append, String.toList_append, String.toList_ofList,
      List.append_assoc, hSecond, List.map_append, Token.senses_commentLine hBlanks hRemark,
      ← Place.advance_append, Token.senses_behind hBoth]
    rfl
  refine .inr ⟨w.map Token.sense, ⟨_, _, _, hPlain, hCommented⟩, rfl, ?_⟩
  rw [List.getLast?_map]
  have hStart := (hLexed []).after_eq
  revert hStart
  cases w.getLast? with
  | none => exact fun _ => rfl
  | some last => exact fun hStart => hStart.symm

/-- A comment line between two lines of a text is not seen by the parser, wherever it stands, except
that it moves what comes behind it. -/
theorem text_commentLine {front : String} {blanks remark : List Char} {options : Options}
    (hLine : front = "" ∨ front.toList.getLast? = some '\n')
    (hError : ∀ token ∈ Token.tokens front, token.kind ≠ .error)
    (hBlanks : ∀ c ∈ blanks, c = ' ' ∨ c = '\t') (hFeed : '\n' ∉ remark) (hReturn : '\r' ∉ remark)
    (hTrace : options.traceRecovery = false) (back : String) :
    let plain := text (front ++ back) options
    let commented := text (front ++ String.ofList (commentLine blanks remark) ++ back) options
    commented.phase = plain.phase ∧
      (commented.directives.map fun directive => directive.value.unlined) =
        (plain.directives.map fun directive => directive.value.unlined) ∧
      commented.errors.map ParseError.problem = plain.errors.map ParseError.problem := by
  have hLast : ∀ c ∈ front.toList.getLast?, c = '\n' := by
    rcases hLine with rfl | hEnd
    · simp
    · rw [hEnd]
      rintro c ⟨⟩
      rfl
  have hAll : blanks.all isBlank = true :=
    List.all_eq_true.2 fun c hc => by simpa [isBlank] using hBlanks c hc
  obtain ⟨hPhase, hNear⟩ := @run_near _ ⟨.standard, options⟩
    Builder.standard_ignoresLines hTrace () .empty _ _
    (behind_commentLine hLast hError hAll (Lexeme.all_isLineChar hFeed hReturn) back)
  exact ⟨hPhase.symm, hNear.directives.symm, hNear.problems.symm⟩

theorem text_commentLine_posting :
    ("2024-01-01 * \"a\"\n" = "" ∨ "2024-01-01 * \"a\"\n".toList.getLast? = some '\n') ∧
      (∀ token ∈ Token.tokens "2024-01-01 * \"a\"\n", token.kind ≠ .error) ∧
      (∀ c ∈ [' ', '\t'], c = ' ' ∨ c = '\t') ∧ '\n' ∉ [' ', 'b'] ∧ '\r' ∉ [' ', 'b'] ∧
      ({} : Options).traceRecovery = false ∧
      (let plain := text ("2024-01-01 * \"a\"\n" ++ "  Assets:A\n") {}
        let commented := text ("2024-01-01 * \"a\"\n" ++
          String.ofList (commentLine [' ', '\t'] [' ', 'b']) ++ "  Assets:A\n") {}
        commented.phase = plain.phase ∧
          (commented.directives.map fun directive => directive.value.unlined) =
            (plain.directives.map fun directive => directive.value.unlined) ∧
          commented.errors.map ParseError.problem = plain.errors.map ParseError.problem) := by
  have hLine : "2024-01-01 * \"a\"\n" = "" ∨
      "2024-01-01 * \"a\"\n".toList.getLast? = some '\n' := .inr rfl
  have hError : ∀ token ∈ Token.tokens "2024-01-01 * \"a\"\n", token.kind ≠ .error := by
    decide +kernel
  have hBlanks : ∀ c ∈ [' ', '\t'], c = ' ' ∨ c = '\t' := by simp
  have hFeed : '\n' ∉ [' ', 'b'] := by decide
  have hReturn : '\r' ∉ [' ', 'b'] := by decide
  exact ⟨hLine, hError, hBlanks, hFeed, hReturn, rfl,
    text_commentLine hLine hError hBlanks hFeed hReturn rfl _⟩

end

end Parse

end LedgerText
