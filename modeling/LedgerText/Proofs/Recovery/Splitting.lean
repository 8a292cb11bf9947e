import LedgerText.Proofs.Parse.Excerpt
import LedgerText.Proofs.Parse.Course

/-!
# A parse splits where a statement begins

Cut a text in two behind the end of a line, where the first token of a statement
comes next. A parse of the whole is a parse of the front and then, unless that
was ended by an error, one of the back, which takes over the builder's state and
the active tags and nothing else.

The front and the back are excerpts of the whole. In the front, the parse of the
part sees the end of the text where that of the whole sees the beginning of a
statement. No production and no recovery tells these apart behind the end of a
line: neither of the two can be a part of what was begun. In the back, the parse
of the whole has a token behind it where that of the part has none. That token
ends a line, and what begins a line is the first token of a text as well.
-/

namespace LedgerText.Parse

open Grammar Step

variable {σ : Type}

/-! ## Part and whole -/

section Inside

variable {w : Surroundings} {s : State σ}

/-- Where tokens are left, the first of them comes next. -/
theorem exists_lookahead (h : s.input ≠ []) :
    ∃ rest, s.input = s.lookahead :: rest ∧ s.next.input = rest := by
  obtain ⟨token, rest, hInput⟩ := List.exists_cons_of_ne_nil h
  refine ⟨rest, ?_, ?_⟩
  · rw [State.lookahead, hInput]
    rfl
  · rw [State.next, hInput]
    rfl

theorem lookahead_inside (h : s.input ≠ []) : (s.inside w).lookahead = s.lookahead := by
  obtain ⟨token, rest, hInput⟩ := List.exists_cons_of_ne_nil h
  simp [State.lookahead, State.inside, hInput]

theorem next_inside (hLookahead : (s.inside w).lookahead = s.lookahead)
    (hTail : (s.input ++ w.after).tail = s.input.tail ++ w.after) :
    (s.inside w).next = s.next.inside w := by
  unfold State.next
  rw [hLookahead]
  unfold State.inside
  rw [hTail]
  rfl

theorem lastSpan_inside (hBefore : w.before = none) : (s.inside w).lastSpan = s.lastSpan := by
  unfold State.lastSpan State.inside
  rw [hBefore, Option.or_none]

theorem atLineStart_inside_front (hBefore : w.before = none) :
    (s.inside w).atLineStart = s.atLineStart := by
  unfold State.atLineStart State.inside
  rw [hBefore, Option.or_none]

theorem postingAhead_inside (hBefore : w.before = none) (h : s.input ≠ []) :
    postingAhead (s.inside w) = postingAhead s := by
  unfold postingAhead
  rw [lookahead_inside h, atLineStart_inside_front hBefore]

/-- What is passed over comes first, and the rest is left. -/
theorem discarded_append_drop (lineStart : Bool) (input : List Token) :
    discarded lineStart input ++ input.drop (discarded lineStart input).length = input := by
  induction input generalizing lineStart with
  | nil => rfl
  | cons token rest ih =>
      unfold discarded
      by_cases hStop : token.kind = .endOfInput ∨ lineStart ∧ token.kind.startsStatement
      · rw [if_pos hStop]
        rfl
      · rw [if_neg hStop]
        show token :: (_ ++ rest.drop _) = token :: rest
        rw [ih]

/-- The end of the text is not passed over. -/
theorem ne_end_of_mem_discarded (lineStart : Bool) (input : List Token) :
    ∀ token ∈ discarded lineStart input, token.kind ≠ .endOfInput := by
  induction input generalizing lineStart with
  | nil => exact List.forall_mem_nil _
  | cons token rest ih =>
      unfold discarded
      split
      · exact List.forall_mem_nil _
      · next hGoes => exact List.forall_mem_cons.2 ⟨fun hEnd => hGoes (.inl hEnd), ih _⟩

/-- Recovery that passes over the same tokens goes on in part and whole alike. -/
theorem resume_inside {trace : Bool}
    (hPassed : discarded (s.inside w).atLineStart (s.inside w).input =
      discarded s.atLineStart s.input) :
    (s.inside w).resume trace = (s.resume trace).inside w := by
  have hSplit := discarded_append_drop s.atLineStart s.input
  have hLess : (discarded s.atLineStart s.input).length ≤ s.input.length := by
    rw [← congrArg List.length hSplit, List.length_append]
    omega
  unfold State.resume
  rw [hPassed]
  simp only [State.inside, List.drop_append_of_le_length hLess, Option.or_assoc,
    List.append_assoc]

end Inside

/-! ## The front -/

/-- Whole lines: no token for the end of the text, and the end of a line at the end. -/
structure Lines (tokens : List Token) : Prop where
  ne_end : ∀ token ∈ tokens, token.kind ≠ .endOfInput
  last : ∀ token, tokens.getLast? = some token → token.kind = .lineEnd

theorem Lines.tail {token : Token} {rest : List Token} (h : Lines (token :: rest)) :
    Lines rest where
  ne_end := fun other hOther => h.ne_end other (List.mem_cons_of_mem _ hOther)
  last := by
    intro other hOther
    apply h.last
    rw [List.getLast?_cons, hOther]
    rfl

/-- What is left of whole lines behind some of their tokens. -/
theorem Lines.drop {tokens : List Token} (h : Lines tokens) (count : Nat) :
    Lines (tokens.drop count) := by
  induction count generalizing tokens with
  | zero => exact h
  | succ count ih =>
      cases tokens with
      | nil => exact h
      | cons token rest => exact ih h.tail

/-- Recovery stops at the beginning of a statement behind whole lines, if not before. -/
theorem discarded_append {back : List Token} (hBack : (nextKind back).startsStatement = true) :
    ∀ (front : List Token) (lineStart : Bool), Lines front → (front = [] → lineStart = true) →
      discarded lineStart (front ++ back) = discarded lineStart front := by
  intro front
  induction front with
  | nil =>
      intro lineStart _ hStart
      rw [List.nil_append, hStart rfl]
      cases back with
      | nil => rfl
      | cons token rest =>
          unfold discarded
          exact if_pos (.inr ⟨rfl, hBack⟩)
  | cons token rest ih =>
      intro lineStart hLines _
      have hMore : discarded (token.kind = .lineEnd) (rest ++ back) =
          discarded (token.kind = .lineEnd) rest := by
        refine ih _ hLines.tail fun hNil => ?_
        subst hNil
        exact decide_eq_true (hLines.last token rfl)
      show (if token.kind = .endOfInput ∨ lineStart ∧ token.kind.startsStatement then [] else
        token :: discarded (token.kind = .lineEnd) (rest ++ back)) = _
      rw [hMore]
      rfl

/-- A statement begins where the text ends, too, as far as recovery can tell; a posting does
not. -/
theorem postingAhead_of_startsStatement {s : State σ}
    (h : (nextKind s.input).startsStatement = true) : postingAhead s = false := by
  have hIndent : nextKind s.input ≠ .indent := by
    intro hKind
    rw [hKind] at h
    exact absurd h (by decide)
  have hComment : nextKind s.input ≠ .comment := by
    intro hKind
    rw [hKind] at h
    exact absurd h (by decide)
  simp [postingAhead, State.lookahead_kind, hIndent, hComment]

/-- The token in front of the end of whole lines ends a line, if it was read from them or was
there before. -/
def Closed (p : Spot) : Prop :=
  Lines p.1 ∧ (p.1 = [] → ∃ token, p.2 = some token ∧ token.kind = .lineEnd)

section Closed

variable {s : State σ}

/-- A token that does not end its line is not the last of whole lines. -/
theorem ne_nil_of_next (hNe : s.input ≠ []) (hLines : Lines s.input)
    (hKind : s.lookahead.kind ≠ .lineEnd) : s.next.input ≠ [] := by
  obtain ⟨rest, hInput, hRest⟩ := exists_lookahead hNe
  intro hNil
  apply hKind
  apply hLines.last
  rw [hInput, ← hRest, hNil]
  rfl

theorem lines_next (hNe : s.input ≠ []) (hLines : Lines s.input) : Lines s.next.input := by
  obtain ⟨rest, hInput, hRest⟩ := exists_lookahead hNe
  rw [hInput] at hLines
  rw [hRest]
  exact hLines.tail

theorem closed_next (hNe : s.input ≠ []) (hLines : Lines s.input) : Closed s.next.spot := by
  refine ⟨lines_next hNe hLines, fun hNil => ⟨s.lookahead, rfl, ?_⟩⟩
  by_cases hKind : s.lookahead.kind = .lineEnd
  · exact hKind
  · exact absurd hNil (ne_nil_of_next hNe hLines hKind)

theorem atLineStart_of_closed (h : Closed s.spot) (hNil : s.input = []) :
    s.atLineStart = true := by
  obtain ⟨token, hPrevious, hKind⟩ := h.2 hNil
  have hToken : s.previous = some token := hPrevious
  rw [State.atLineStart, hToken]
  exact decide_eq_true hKind

/-- If all tokens that are left are passed over, the last of them ends a line. -/
theorem closed_resume {trace : Bool} (h : Closed s.spot) : Closed (s.resume trace).spot := by
  refine ⟨h.1.drop _, fun hNil => ?_⟩
  have hPassed : discarded s.atLineStart s.input = s.input := by
    have hSplit := discarded_append_drop s.atLineStart s.input
    have hDrop : s.input.drop (discarded s.atLineStart s.input).length = [] := hNil
    rw [hDrop, List.append_nil] at hSplit
    exact hSplit
  show ∃ token, (discarded s.atLineStart s.input).getLast?.or s.previous = some token ∧ _
  rw [hPassed]
  cases hLast : s.input.getLast? with
  | some token => exact ⟨token, rfl, h.1.last token hLast⟩
  | none => exact h.2 (List.getLast?_eq_none_iff.1 hLast)

end Closed

/-- Whole lines with the beginning of a statement behind them. -/
def frontExcerpt (back : List Token) (hBack : (nextKind back).startsStatement = true) :
    Excerpt where
  around := ⟨none, back, [], []⟩
  Ready p := p.1 ≠ [] ∧ Lines p.1
  Inline p := p.1 ≠ [] ∧ Lines p.1
  Behind := Closed
  Stopped := Closed
  ready_of_inline _ h := h
  behind_of_inline _ h := ⟨h.2, fun hNil => absurd hNil h.1⟩
  stopped_of_ready _ h := ⟨h.2, fun hNil => absurd hNil h.1⟩
  stopped_of_behind _ h := h
  lookahead_eq _ h := lookahead_inside h.1
  next_eq _ h := next_inside (lookahead_inside h.1) (List.tail_append_of_ne_nil h.1)
  inline_next _ h hKind := ⟨ne_nil_of_next h.1 h.2 hKind.1, lines_next h.1 h.2⟩
  behind_next _ h _ := closed_next h.1 h.2
  lastSpan_eq _ _ := lastSpan_inside rfl
  postingAhead_eq := by
    intro σ s h
    by_cases hNil : s.input = []
    · have hWhole : (s.inside ⟨none, back, [], []⟩).input = back := by
        unfold State.inside
        rw [hNil, List.nil_append]
      rw [postingAhead_of_startsStatement (by rw [hWhole]; exact hBack),
        postingAhead_of_startsStatement (by rw [hNil]; rfl)]
    · exact postingAhead_inside rfl hNil
  inline_of_postingAhead := by
    intro σ s h hAhead
    refine ⟨fun hNil => ?_, h.1⟩
    have hInput : s.input = [] := hNil
    rw [postingAhead_of_startsStatement (by rw [hInput]; rfl)] at hAhead
    exact absurd hAhead (by decide)
  resume_eq := by
    intro σ s trace h
    apply resume_inside
    rw [atLineStart_inside_front rfl]
    exact discarded_append hBack s.input _ h.1 (atLineStart_of_closed h)
  stopped_resume _ _ h := closed_resume h

/-! ## The back -/

/-- Behind the end of a line, the next token is the first of its line, as it is where nothing has
been read. -/
theorem atLineStart_inside {before : Token} (hBefore : before.kind = .lineEnd)
    {directives : List (Spanned Directive)} {errors : List ParseError} (s : State σ) :
    (s.inside ⟨some before, [], directives, errors⟩).atLineStart = s.atLineStart := by
  unfold State.atLineStart State.inside
  cases s.previous with
  | some token => rfl
  | none => exact decide_eq_true hBefore

theorem lookahead_inside_back {w : Surroundings} {s : State σ} (hAfter : w.after = [])
    (h : s.input ≠ [] ∨ s.previous.isSome = true) :
    (s.inside w).lookahead = s.lookahead := by
  by_cases hNil : s.input = []
  · obtain ⟨token, hToken⟩ := Option.isSome_iff_exists.1 (h.resolve_left (absurd hNil))
    simp [State.lookahead, State.inside, State.lastSpan, hNil, hToken, hAfter]
  · exact lookahead_inside hNil

/-- Once a token has been read, or where one is left, one has been read behind recovery or one is
left. -/
theorem started_resume {s : State σ} (trace : Bool)
    (h : s.input ≠ [] ∨ s.previous.isSome = true) :
    (s.resume trace).input ≠ [] ∨ (s.resume trace).previous.isSome = true := by
  unfold State.resume
  by_cases hPassed : discarded s.atLineStart s.input = []
  · simp only [hPassed, List.length_nil, List.drop_zero, List.getLast?_nil, Option.none_or]
    exact h
  · right
    show ((discarded s.atLineStart s.input).getLast?.or s.previous).isSome = true
    rw [List.getLast?_eq_some_getLast hPassed]
    rfl

/-- A text with whole lines in front of it. -/
def backExcerpt (before : Token) (hBefore : before.kind = .lineEnd)
    (directives : List (Spanned Directive)) (errors : List ParseError) : Excerpt where
  around := ⟨some before, [], directives, errors⟩
  Ready p := p.1 ≠ [] ∨ p.2.isSome = true
  Inline p := p.2.isSome = true
  Behind p := p.2.isSome = true
  Stopped p := p.1 ≠ [] ∨ p.2.isSome = true
  ready_of_inline _ h := .inr h
  behind_of_inline _ h := h
  stopped_of_ready _ h := h
  stopped_of_behind _ h := .inr h
  lookahead_eq _ h := lookahead_inside_back rfl h
  next_eq s h := by
    refine next_inside (lookahead_inside_back rfl h) ?_
    rw [List.append_nil, List.append_nil]
  inline_next _ _ _ := rfl
  behind_next _ _ _ := rfl
  lastSpan_eq := by
    intro σ s h
    obtain ⟨token, hToken⟩ := Option.isSome_iff_exists.1 h
    have hPrevious : s.previous = some token := hToken
    unfold State.lastSpan State.inside
    rw [hPrevious]
    rfl
  postingAhead_eq s h := by
    unfold postingAhead
    rw [lookahead_inside_back rfl (.inr h), atLineStart_inside hBefore]
  inline_of_postingAhead _ h _ := h
  resume_eq := by
    intro σ s trace h
    apply resume_inside
    rw [atLineStart_inside hBefore]
    unfold State.inside
    rw [List.append_nil]
  stopped_resume _ trace h := started_resume trace h

/-! ## Front and back -/

/-- Behind whole lines the text ends; before, it goes on. -/
theorem moreAhead_of_closed {s : State σ} (h : Closed s.spot) :
    moreAhead s = true ↔ s.input ≠ [] := by
  rw [moreAhead, State.lookahead_kind, decide_eq_true_eq]
  constructor
  · intro hKind hNil
    rw [hNil] at hKind
    exact hKind rfl
  · intro hNe
    have hLines : Lines s.input := h.1
    obtain ⟨rest, hInput, -⟩ := exists_lookahead hNe
    rw [hInput] at hLines ⊢
    exact hLines.ne_end _ List.mem_cons_self

/-- A parse of the front comes to the end of it, from where a parse of the whole goes on, or both
are ended by the same error. The induction is on the tokens that are left of the front. -/
theorem statements_front (setup : Setup σ) {back : List Token}
    (hBack : (nextKind back).startsStatement = true) {s : State σ} (hs : Closed s.spot)
    (hDepth : s.depth = 1) :
    ∃ result t, statements setup s = (result, t) ∧
      match result with
      | .ok _ => t.input = [] ∧ Closed t.spot ∧ t.depth = 1 ∧
          statements setup (s.inside ⟨none, back, [], []⟩) =
            statements setup (t.inside ⟨none, back, [], []⟩)
      | .error halt => statements setup (s.inside ⟨none, back, [], []⟩) =
          (.error halt, t.inside ⟨none, back, [], []⟩) := by
  generalize hLength : s.input.length = length
  induction length using Nat.strongRecOn generalizing s with
  | _ length ih =>
      subst hLength
      by_cases hNil : s.input = []
      · have hEnd : moreAhead s = false := by
          rw [← Bool.not_eq_true, moreAhead_of_closed hs]
          exact fun hNe => hNe hNil
        exact ⟨.ok (), s, statements_of_false hEnd, hNil, hs, hDepth, rfl⟩
      · have hMore := (moreAhead_of_closed hs).2 hNil
        have hMoreWhole : moreAhead (s.inside ⟨none, back, [], []⟩) = true := by
          rw [moreAhead, lookahead_inside hNil]
          exact hMore
        have hFits : Fits (frontExcerpt back hBack) (frontExcerpt back hBack).Ready
            (statement setup) (frontExcerpt back hBack).Stopped := fits_statement
        obtain ⟨result, t, hPart, hWhole, hLeaves⟩ := hFits s ⟨hNil, hs.1⟩
        cases result with
        | error halt =>
            exact ⟨.error halt, t, statements_of_error hMore hPart,
              statements_of_error hMoreWhole hWhole⟩
        | ok v =>
            have hLess := consumes_statement setup s v t (moreAhead_ne s hMore) hPart
            have hNext : Advances setup s t := ⟨hMore, hPart⟩
            obtain ⟨last, u, hRun, hEnd⟩ := ih _ hLess hLeaves (hNext.depth_eq hDepth) rfl
            refine ⟨last, u, (statements_of_ok hMore hPart).trans hRun, ?_⟩
            rw [statements_of_ok hMoreWhole hWhole]
            exact hEnd

/-- If what comes next is known wherever a statement may end, all statements are read alike in part
and whole. -/
theorem Excerpt.fits_all {setup : Setup σ} (x : Excerpt) (h : ∀ p, x.Stopped p → x.Ready p) :
    Fits x x.Ready (statements setup) x.Ready := by
  refine fits_bind (fits_repeatWhile (fun s hs => ?_) (fun _ hs _ => hs)
    (fits_statement.weaken (fun _ hp => hp) h)) fun _ => fits_pure ()
  unfold moreAhead
  rw [x.lookahead_eq s hs]

/-- A parse of the back on its own and one behind the front do the same. -/
theorem fits_statements {setup : Setup σ} {before : Token} (hBefore : before.kind = .lineEnd)
    (directives : List (Spanned Directive)) (errors : List ParseError) :
    Fits (backExcerpt before hBefore directives errors)
      (backExcerpt before hBefore directives errors).Ready (statements setup)
      (backExcerpt before hBefore directives errors).Ready :=
  (backExcerpt before hBefore directives errors).fits_all fun _ h => h

/-- What is told about a parse once it is over. -/
structure Outcome (σ : Type) where
  directives : List (Spanned Directive)
  errors : List ParseError
  /-- How many of the errors count, as notes on tokens that were passed over do not. -/
  errorCount : Nat
  phase : Phase
  tags : TagContext
  builder : σ

/-- The outcome of a parse. -/
def State.outcome (s : State σ) : Outcome σ :=
  ⟨s.directives, s.errors, ParseError.count s.errors, s.phase, s.tags, s.builder⟩

/-- The outcome of a parse that goes on where another one has ended. -/
def Outcome.append (first second : Outcome σ) : Outcome σ :=
  { second with
    directives := first.directives ++ second.directives
    errors := first.errors ++ second.errors
    errorCount := first.errorCount + second.errorCount }

/-- A parse of a part that is accepted adds its outcome to what was there before. -/
theorem outcome_accept (first : Outcome σ) (w : Surroundings) (s : State σ)
    (hDirectives : first.directives = w.directives) (hErrors : first.errors = w.errors)
    (hCount : first.errorCount = ParseError.count w.errors) (depth : Nat) :
    State.outcome { s.inside w with depth := depth, phase := .accepted } =
      first.append (State.outcome { s with depth := depth, phase := .accepted }) := by
  simp [State.inside, State.outcome, Outcome.append, hDirectives, hErrors, hCount,
    ParseError.count]

/-- A parse of a part that is aborted does so as well. -/
theorem outcome_abort (first : Outcome σ) (w : Surroundings) (s : State σ) (error : ParseError)
    (hDirectives : first.directives = w.directives) (hErrors : first.errors = w.errors)
    (hCount : first.errorCount = ParseError.count w.errors) :
    ((s.inside w).abort error).outcome = first.append (s.abort error).outcome := by
  simp [State.abort, State.report, State.inside, State.outcome, Outcome.append, hDirectives,
    hErrors, hCount, ParseError.count]

/-- Behind the front, where nothing of it is left, a parse of the whole is at the beginning of the
back. -/
theorem inside_front_eq {back : List Token} {before : Token} {t : State σ} (hNil : t.input = [])
    (hBefore : t.previous = some before) (hDepth : t.depth = 1) :
    t.inside ⟨none, back, [], []⟩ =
      (State.begin t.builder t.tags back).inside ⟨some before, [], t.directives, t.errors⟩ := by
  simp [State.inside, State.begin, State.start, hNil, hBefore, hDepth]

/-- Let a text begin with whole lines, and go on with the first token of a statement. If a parse of
these lines alone is accepted, a parse of the text ends as one does of the rest alone that begins
with the builder's state and the tags the first has left: its directives and errors are those of
the two, one after the other. Otherwise the first is aborted, and so is the parse of the text, with
the same outcome. -/
theorem run_append (setup : Setup σ) (builder : σ) (tags : TagContext) {front back : List Token}
    (hFront : front ≠ []) (hLines : Lines front) (hBack : back ≠ [])
    (hStart : (nextKind back).startsStatement = true) :
    ((run setup builder tags front).phase = .accepted ∧
      (run setup builder tags (front ++ back)).outcome =
        (run setup builder tags front).outcome.append
          (run setup (run setup builder tags front).builder (run setup builder tags front).tags
            back).outcome) ∨
    ((run setup builder tags front).phase = .aborted ∧
      (run setup builder tags (front ++ back)).outcome =
        (run setup builder tags front).outcome) := by
  by_cases hDepth : 0 < setup.options.maxDepth
  · have hClosed : Closed (State.begin builder tags front).spot :=
      ⟨hLines, fun hNil => absurd hNil hFront⟩
    have hWhole : State.begin builder tags (front ++ back) =
        (State.begin builder tags front).inside ⟨none, back, [], []⟩ := rfl
    obtain ⟨result, t, hRun, hEnd⟩ := statements_front setup hStart hClosed rfl
    cases result with
    | error halt =>
        right
        rw [run_of_error hDepth hRun, run_of_error hDepth (hWhole ▸ hEnd)]
        refine ⟨rfl, ?_⟩
        simp [State.abort, State.report, State.inside, State.outcome]
    | ok v =>
        left
        obtain ⟨hNil, hLast, hSame, hRest⟩ := hEnd
        obtain ⟨before, hBefore, hKind⟩ := hLast.2 hNil
        rw [run_of_ok hDepth hRun]
        refine ⟨rfl, ?_⟩
        have hFits : Fits (backExcerpt before hKind t.directives t.errors) _ (statements setup) _ :=
          fits_statements hKind t.directives t.errors
        obtain ⟨last, u, hPart, hJoint, -⟩ := hFits (.begin t.builder t.tags back) (.inl hBack)
        have hAll : statements setup (.begin builder tags (front ++ back)) =
            (last, u.inside ⟨some before, [], t.directives, t.errors⟩) := by
          rw [hWhole, hRest, inside_front_eq hNil hBefore hSame]
          exact hJoint
        cases last with
        | ok v =>
            rw [run_of_ok hDepth hAll, run_of_ok hDepth hPart]
            exact outcome_accept _ _ u rfl rfl rfl _
        | error halt =>
            rw [run_of_error hDepth hAll, run_of_error hDepth hPart]
            exact outcome_abort _ _ u _ rfl rfl rfl
  · right
    have hNe : front ++ back ≠ [] := List.append_ne_nil_of_left_ne_nil hFront back
    have hLookahead : (State.start builder tags (front ++ back)).lookahead =
        (State.start builder tags front).lookahead :=
      lookahead_inside (w := ⟨none, back, [], []⟩) (s := .start builder tags front) hFront
    rw [run_of_no_room hDepth, run_of_no_room hDepth, hLookahead]
    exact ⟨rfl, rfl⟩

/-- A line that switches a tag off. -/
def poptagLine : List Token :=
  [⟨.keyword .poptag, .absent, .origin⟩, ⟨.tag, .text "trip", .origin⟩,
   ⟨.lineEnd, .absent, .origin⟩]

/-- A tag is switched off before it is switched on. -/
theorem run_append_poptagLine :
    ((run (.standard {}) () .empty poptagLine).phase = .accepted ∧
      (run (.standard {}) () .empty
        (poptagLine ++ [⟨.keyword .pushtag, .absent, .origin⟩])).outcome =
        (run (.standard {}) () .empty poptagLine).outcome.append
          (run (.standard {}) (run (.standard {}) () .empty poptagLine).builder
            (run (.standard {}) () .empty poptagLine).tags
            [⟨.keyword .pushtag, .absent, .origin⟩]).outcome) ∨
    ((run (.standard {}) () .empty poptagLine).phase = .aborted ∧
      (run (.standard {}) () .empty
        (poptagLine ++ [⟨.keyword .pushtag, .absent, .origin⟩])).outcome =
        (run (.standard {}) () .empty poptagLine).outcome) := by
  refine run_append (.standard {}) () .empty (List.cons_ne_nil _ _) ⟨?_, ?_⟩
    (List.cons_ne_nil _ _) rfl
  · simp [poptagLine]
  · simp [poptagLine]

end LedgerText.Parse
