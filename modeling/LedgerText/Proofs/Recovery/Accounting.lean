import LedgerText.Proofs.Recovery.Segments
import Mathlib.Logic.Basic
import Mathlib.Logic.ExistsUnique

/-!
# No statement is lost silently

Where a parse goes on after errors and has room enough, it accounts for every
segment of the text (`run_accounts`): the statement that the segment begins with
has added a directive, switched a tag on or off, or been reported. If it failed,
that is all there is of the whole segment. What comes behind a statement that
succeeded is read as further statements of the same segment.
-/

namespace LedgerText.Parse

open Grammar Step

variable {σ : Type} {setup : Setup σ} {s t u : State σ}

/-! ## Fates -/

/-- What becomes of the statement that a segment begins with. -/
inductive Fate where
  /-- A directive was added for it. -/
  | added
  /-- It has switched a tag on. -/
  | pushed
  /-- It has switched a tag off, or it was reported that the tag was not on. -/
  | popped
  /-- It was malformed and has been reported. -/
  | failed

/-- The second token of a segment is a tag. -/
def Segment.Names (x : Segment) (tag : String) : Prop :=
  ∃ token rest, x.body = token :: rest ∧ token.kind = .tag ∧ token.value.text? = some tag

/-- In the parse, `s` is the state in front of a segment, `u` the one behind the statement that it
begins with, and `t` the one behind the segment. -/
def Fate.Holds (setup : Setup σ) (x : Segment) (s u t : State σ) : Fate → Prop
  | .added => (x.head.kind = .date ∨ x.head.kind = .keyword .option) ∧
      declaration setup s = (.ok (), u) ∧
        ∃ directive : Spanned Directive, directive.span.start = x.head.span.start ∧
          u.directives = s.directives ++ [directive]
  | .pushed => x.head.kind = .keyword .pushtag ∧ declaration setup s = (.ok (), u) ∧
      ∃ tag, x.Names tag ∧ u.tags = s.tags.push tag
  | .popped => x.head.kind = .keyword .poptag ∧ declaration setup s = (.ok (), u) ∧
      ∃ tag, x.Names tag ∧
        ((s.tags.contains tag = true ∧ u.tags = s.tags.pop tag ∧ u.errors = s.errors) ∨
          (s.tags.contains tag = false ∧ u.tags = s.tags ∧
            ∃ span, u.errors = s.errors ++ [⟨.unbalancedPoptag tag, span⟩]))
  | .failed => ∃ error stopped notes, declaration setup s = (.error (.statement error), stopped) ∧
      error.problem.isMalformation = true ∧ t.errors = s.errors ++ error :: notes ∧
        (∀ note ∈ notes, ∃ token, note = discardedNote token) ∧
          t.directives = s.directives ∧ t.tags = s.tags

/-- No statement has two fates. -/
theorem Fate.eq_of_holds {x : Segment} {f g : Fate} (hf : f.Holds setup x s u t)
    (hg : g.Holds setup x s u t) : f = g := by
  cases f <;> cases g <;> simp_all [Holds]

/-- What recovery would not stop at, it passes over. -/
theorem Segment.names_of_tag {token : Token} {rest : List Token} {tag : String}
    (hInput : s.input = token :: rest) (hKind : s.next.lookahead.kind = .tag)
    (hText : s.next.lookahead.value.text? = some tag) :
    Segment.Names ⟨token, Spot.passed (rest, some token)⟩ tag := by
  have hEnd : s.next.lookahead.kind ≠ .endOfInput := by
    rw [hKind]
    decide
  obtain ⟨others, hNext, -⟩ := Spot.exists_next hEnd
  have hRest : rest = s.next.lookahead :: others := by
    rw [← hNext]
    simp [State.next, hInput]
  have hGoes : ¬ Spot.Stops (s.next.lookahead :: others, some token) := by
    rintro (hLast | ⟨-, hStart⟩)
    · exact hEnd hLast
    · have hStarts : s.next.lookahead.kind.startsStatement = true := hStart
      rw [hKind] at hStarts
      cases hStarts
  refine ⟨s.next.lookahead, Spot.passed (others, some s.next.lookahead), ?_, hKind, hText⟩
  show Spot.passed (rest, some token) = _
  rw [hRest]
  exact Spot.passed_cons hGoes

/-- A statement that succeeds has a fate, if it begins with the first token of its segment. -/
theorem exists_fate_of_ok {token : Token} {rest : List Token} (hInput : s.input = token :: rest)
    (hStart : token.kind.startsStatement = true) (hOk : declaration setup s = (.ok (), u))
    (t : State σ) :
    ∃ f : Fate, f.Holds setup ⟨token, Spot.passed (rest, some token)⟩ s u t := by
  have hHead : s.lookahead = token := by simp [State.lookahead, hInput]
  obtain ⟨e, v, hState, hBegins, hEffect⟩ := exists_effect hOk
  cases e with
  | nothing =>
      have hOther : s.lookahead.kind.startsStatement = false := hBegins
      rw [hHead, hStart] at hOther
      cases hOther
  | adds x =>
      obtain ⟨hKind, hSpan⟩ := hBegins
      rw [hHead] at hKind hSpan
      refine ⟨.added, hKind, hOk, x, hSpan, ?_⟩
      rw [hEffect, ← hState.directives_eq]
      rfl
  | pushes tag =>
      obtain ⟨hKind, hTag, hText⟩ := hBegins
      rw [hHead] at hKind
      refine ⟨.pushed, hKind, hOk, tag, Segment.names_of_tag hInput hTag hText, ?_⟩
      rw [hEffect, ← hState.tags_eq]
      rfl
  | pops tag span =>
      obtain ⟨hKind, hTag, hText⟩ := hBegins
      rw [hHead] at hKind
      refine ⟨.popped, hKind, hOk, tag, Segment.names_of_tag hInput hTag hText, ?_⟩
      rw [hEffect, Effect.applyTo, ← hState.tags_eq, ← hState.errors_eq]
      cases hActive : v.tags.contains tag with
      | true => exact .inl ⟨rfl, rfl, rfl⟩
      | false => exact .inr ⟨rfl, rfl, span, rfl⟩

/-- A statement that fails has been reported, and nothing else has come of it. -/
theorem failed_of_error {x : Segment} {error : ParseError}
    (hError : declaration setup s = (.error (.statement error), t))
    (hResume : u = (t.report error).resume setup.options.traceRecovery) :
    Fate.failed.Holds setup x s u u := by
  have hState := (unmoved_of_error hError).1
  refine ⟨error, t, notes setup t, hError, malformed_of_error hError, ?_,
    fun note hNote => exists_of_mem_notes hNote, ?_, ?_⟩
  · rw [hResume]
    exact errors_of_resume hState
  · rw [hResume, ← hState.directives_eq]
    rfl
  · rw [hResume, ← hState.tags_eq]
    rfl

/-! ## All segments -/

/-- Some segments are accounted for on the way from one state of a parse to another, and what came
of them is there in the state `last`, too. -/
inductive Accounted (setup : Setup σ) (last : State σ) : State σ → List Segment → Prop where
  | done : Accounted setup last last []
  | segment {s u t : State σ} {x : Segment} {others : List Segment}
      (input_eq : s.input = x.tokens ++ t.input)
      (statement : Advances setup s u)
      (rest : Reaches setup u t)
      (fate : ∃! f : Fate, f.Holds setup x s u t)
      (grows : u.Grows t)
      (stays : t.Grows last)
      (accounted : Accounted setup last t others) : Accounted setup last s (x :: others)

/-- Where a parse has room enough and goes on after errors, it goes on in front of every statement. -/
theorem exists_advance (hRoom : 7 ≤ setup.options.maxDepth)
    (hMode : setup.options.recovery = .resynchronize) (hDepth : s.depth = 1)
    (hMore : moreAhead s = true) : ∃ t, Advances setup s t := by
  rcases hStep : declaration setup s with ⟨result, t⟩
  cases result with
  | ok v => exact ⟨t, hMore, statement_of_ok hStep⟩
  | error halt =>
      have hDeep : s.depth + 6 ≤ setup.options.maxDepth := by omega
      obtain ⟨-, error, rfl, -⟩ := declaration_eq_error hDeep hStep
      exact ⟨_, hMore, statement_of_error hMode hStep⟩

/-- A parse that is inside a segment comes to the end of it. The induction is on the tokens that
are left. -/
theorem exists_segment_end (hRoom : 7 ≤ setup.options.maxDepth)
    (hMode : setup.options.recovery = .resynchronize) (s : State σ) (hDepth : s.depth = 1) :
    ∃ t, Reaches setup s t ∧ t.spot = s.spot.resumed := by
  generalize hLength : s.input.length = length
  induction length using Nat.strongRecOn generalizing s with
  | _ length ih =>
      subst hLength
      by_cases hStops : s.spot.Stops
      · exact ⟨s, .refl, (Spot.resumed_of_stops hStops).symm⟩
      · have hMore : moreAhead s = true := (moreAhead_iff s).2 fun hEnd => hStops (.inl hEnd)
        obtain ⟨u, hStep⟩ := exists_advance hRoom hMode hDepth hMore
        obtain ⟨t, hReaches, hSpot⟩ := ih _ hStep.input_lt u (hStep.depth_eq hDepth) rfl
        exact ⟨t, .head hStep hReaches, hSpot.trans (resumed_of_advances hStep hStops)⟩

/-- Behind the statement that begins a segment, a parse comes to the end of the segment, and the
statement has a fate. -/
theorem exists_fate (hRoom : 7 ≤ setup.options.maxDepth)
    (hMode : setup.options.recovery = .resynchronize) (hDepth : s.depth = 1) {token : Token}
    {rest : List Token} (hInput : s.input = token :: rest) (hStops : s.spot.Stops)
    (hStep : Advances setup s u) :
    ∃ t, Reaches setup u t ∧ t.spot = Spot.resumed (rest, some token) ∧
      ∃! f : Fate, f.Holds setup ⟨token, Spot.passed (rest, some token)⟩ s u t := by
  have hGoal := resumed_of_opening hStep hStops
  rw [Spot.spot_next hInput] at hGoal
  have hEnd : nextKind s.input ≠ .endOfInput := (moreAhead_iff s).1 hStep.1
  have hStart : token.kind.startsStatement = true := by
    have hNext : (nextKind s.input).startsStatement = true := (hStops.resolve_left hEnd).2
    rw [hInput] at hNext
    exact hNext
  rcases statement_eq_ok.1 hStep.2 with hOk | ⟨error, v, hError, -, hResume⟩
  · obtain ⟨t, hReaches, hSpot⟩ := exists_segment_end hRoom hMode u (hStep.depth_eq hDepth)
    obtain ⟨f, hFate⟩ := exists_fate_of_ok hInput hStart hOk t
    exact ⟨t, hReaches, hSpot.trans hGoal, f, hFate, fun g hOther => Fate.eq_of_holds hOther hFate⟩
  · -- Recovery has come to the end of the segment already.
    have hHere : u.spot = u.spot.resumed := by
      rw [hResume]
      exact (v.spot.resumed_resumed).symm
    have hFate := failed_of_error (x := ⟨token, Spot.passed (rest, some token)⟩) hError hResume
    exact ⟨u, .refl, hHere.trans hGoal, .failed, hFate, fun g hOther => Fate.eq_of_holds hOther hFate⟩

/-- From where a segment begins, all segments that are left are accounted for. The induction is on
the tokens that are left. -/
theorem exists_accounted (hRoom : 7 ≤ setup.options.maxDepth)
    (hMode : setup.options.recovery = .resynchronize) (s : State σ) (hDepth : s.depth = 1)
    (hStops : s.spot.Stops) :
    ∃ t, Reaches setup s t ∧ moreAhead t = false ∧ Accounted setup t s s.spot.segments := by
  generalize hLength : s.input.length = length
  induction length using Nat.strongRecOn generalizing s with
  | _ length ih =>
      subst hLength
      cases hMore : moreAhead s with
      | false =>
          have hEnd : nextKind s.spot.1 = .endOfInput := by
            refine not_not.1 fun hNext => ?_
            rw [(moreAhead_iff s).2 hNext] at hMore
            cases hMore
          rw [Spot.segments_of_end hEnd]
          exact ⟨s, .refl, hMore, .done⟩
      | true =>
          have hEnd := moreAhead_ne s hMore
          obtain ⟨rest, hInput, -⟩ := Spot.exists_next hEnd
          obtain ⟨u, hStep⟩ := exists_advance hRoom hMode hDepth hMore
          obtain ⟨t, hReaches, hSpot, hFate⟩ := exists_fate hRoom hMode hDepth hInput hStops hStep
          have hAll : Reaches setup s t := .head hStep hReaches
          have hLess : t.input.length < s.input.length :=
            Nat.lt_of_le_of_lt hReaches.input_le hStep.input_lt
          obtain ⟨last, hRest, hLast, hOthers⟩ := ih _ hLess t (hAll.depth_eq hDepth)
            (hSpot ▸ Spot.stops_resumed _) rfl
          have hSegments : s.spot.segments =
              ⟨s.lookahead, Spot.passed (rest, some s.lookahead)⟩ :: t.spot.segments := by
            rw [hSpot]
            show Spot.segments (s.input, s.previous) = _
            rw [hInput]
            refine Spot.segments_of_head ?_ hEnd
            rw [← hInput]
            exact hStops
          rw [hSegments]
          refine ⟨last, hAll.trans hRest, hLast, .segment ?_ hStep hReaches hFate
            hReaches.grows hRest.grows hOthers⟩
          have hBody := Spot.passed_append (rest, some s.lookahead)
          rw [← hSpot] at hBody
          show s.input = s.lookahead :: (_ ++ t.input)
          exact hInput.trans (congrArg _ hBody)

/-- Where a parse goes on after errors and has room enough, it reaches the end of the text, and
every segment of the text is accounted for on the way. -/
theorem run_accounts (setup : Setup σ) (hRoom : 7 ≤ setup.options.maxDepth)
    (hMode : setup.options.recovery = .resynchronize) (builder : σ) (tags : TagContext)
    (input : List Token) :
    ∃ s t, Reaches setup (.begin builder tags input) s ∧ input = preamble input ++ s.input ∧
      Accounted setup t s (segments input) ∧
        run setup builder tags input = { t with depth := 0, phase := .accepted } := by
  have hBegin : (State.begin builder tags input).depth = 1 := rfl
  obtain ⟨s, hReaches, hSpot⟩ := exists_segment_end hRoom hMode (.begin builder tags input) hBegin
  have hDepth := hReaches.depth_eq hBegin
  obtain ⟨t, hRest, hStop, hAccounted⟩ := exists_accounted hRoom hMode s hDepth
    (hSpot ▸ Spot.stops_resumed _)
  have hCut : cut true (beforeEnd input) = (Spot.passed (input, none), s.spot.segments) := by
    rw [hSpot]
    exact Spot.cut_eq (input, none)
  refine ⟨s, t, hReaches, ?_, ?_, ?_⟩
  · have hPassed : input = Spot.passed (input, none) ++ s.spot.1 := by
      rw [hSpot]
      exact Spot.passed_append (input, none)
    rw [preamble, hCut]
    exact hPassed
  · rw [segments, hCut]
    exact hAccounted
  · have hEnds : t.depth - 1 = 0 := by rw [hRest.depth_eq hDepth]
    rw [run_of_stop (Nat.lt_of_lt_of_le (by decide) hRoom) (hReaches.trans hRest) hStop, hEnds]

/-- A word that switches no tag on, in front of a statement. -/
def danglingPushtag : List Token :=
  [⟨.keyword .pushtag, .absent, .origin⟩, ⟨.lineEnd, .absent, .origin⟩] ++ closingStatement

theorem run_accounts_danglingPushtag :
    7 ≤ ({} : Options).maxDepth ∧ ({} : Options).recovery = .resynchronize ∧
      preamble danglingPushtag = [] ∧
      segments danglingPushtag =
        [⟨⟨.keyword .pushtag, .absent, .origin⟩, [⟨.lineEnd, .absent, .origin⟩]⟩,
         ⟨⟨.date, .text "2024-01-31", .origin⟩,
           [⟨.keyword .closing, .absent, .origin⟩, ⟨.account, .text "Assets:Cash", .origin⟩,
            ⟨.lineEnd, .absent, .origin⟩]⟩] ∧
      ∃ s t, Reaches (.standard {}) (.begin () .empty danglingPushtag) s ∧
        danglingPushtag = preamble danglingPushtag ++ s.input ∧
        Accounted (.standard {}) t s (segments danglingPushtag) ∧
          run (.standard {}) () .empty danglingPushtag =
            { t with depth := 0, phase := .accepted } :=
  ⟨by decide, rfl, by decide, by decide,
    run_accounts (.standard {}) (by decide) rfl () .empty danglingPushtag⟩

end LedgerText.Parse
