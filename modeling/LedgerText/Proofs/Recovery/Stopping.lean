import LedgerText.Proofs.Parse.Effects

/-!
# Parses that stop early

Two settings can end a parse before the end of the text: to stop at the first
error in a statement, and the limit on nested productions. Neither of them does
anything else. A parse that stops early goes the same way as one that does not,
statement by statement, up to the one that stops it (`run_stopping`, `run_limited`);
if there is none, it is the same parse.

That the limit has to do with the depth of a statement alone, and not with how
many there were before, is because every statement begins at the same depth. What
a statement has begun it finishes, and what it leaves unfinished when it fails is
given up before the next one (`Reaches.depth_eq`).
-/

namespace LedgerText.Parse

open Step

variable {σ : Type} {setup : Setup σ} {s t : State σ}

/-! ## Stopping at the first error -/

/-- The same setup for a parse that goes on after errors, without notes on what is passed over. -/
def Setup.resuming (setup : Setup σ) : Setup σ :=
  { setup with options :=
    { setup.options with recovery := .resynchronize, traceRecovery := false } }

/-- The same setup for a parse that stops at the first error in a statement. -/
def Setup.stopping (setup : Setup σ) : Setup σ :=
  { setup with options := { setup.options with recovery := .abort } }

/-- A parse that would stop at an error and goes on has found none. -/
theorem Advances.declaration_eq (h : Advances setup.stopping s t) :
    declaration setup.stopping s = (.ok (), t) := by
  rcases h.inv with ⟨hOk, -⟩ | ⟨-, -, -, -, -, hMode, -⟩
  · exact hOk
  · cases hMode

theorem Advances.resuming (h : Advances setup.stopping s t) : Advances setup.resuming s t :=
  ⟨h.1, statement_of_ok h.declaration_eq⟩

theorem Reaches.resuming (h : Reaches setup.stopping s t) : Reaches setup.resuming s t :=
  Relation.ReflTransGen.mono (fun _ _ hStep => Advances.resuming hStep) s t h

/-- As long as it goes on, a parse that would stop at an error in a statement reports none. -/
theorem Reaches.sound (h : Reaches setup.stopping s t)
    (hs : ∀ error ∈ s.errors, error.problem.isMalformation = false) :
    ∀ error ∈ t.errors, error.problem.isMalformation = false := by
  induction h with
  | refl => exact hs
  | tail _ hStep ih =>
      rcases hStep.errors_cases with ⟨-, hSame | ⟨tag, span, hMore⟩⟩ | ⟨error, u, hError, -⟩
      · exact hSame ▸ ih
      · rw [hMore, List.forall_mem_append, List.forall_mem_singleton]
        exact ⟨ih, rfl⟩
      · rw [hStep.declaration_eq] at hError
        cases hError

/-- A parse that stops at the first error in a statement is one that goes on, cut off there. If
there is no such error, both are the same. Otherwise the first of them is in the statement that
follows some state `s` of the parse that goes on: the other one has the directives, the tags and
the errors of that state, reports the same error there, and then that it stops. -/
theorem run_stopping (setup : Setup σ) (builder : σ) (tags : TagContext) (input : List Token) :
    ((∀ error ∈ (run setup.resuming builder tags input).errors,
        error.problem.isMalformation = false) ∧
      run setup.stopping builder tags input = run setup.resuming builder tags input) ∨
    ∃ s error failed others, Reaches setup.resuming (.begin builder tags input) s ∧
      moreAhead s = true ∧ declaration setup.resuming s = (.error (.statement error), failed) ∧
      (∀ earlier ∈ s.errors, earlier.problem.isMalformation = false) ∧
      error.problem.isMalformation = true ∧
      (run setup.resuming builder tags input).errors = s.errors ++ error :: others ∧
      s.directives <+: (run setup.resuming builder tags input).directives ∧
      (run setup.stopping builder tags input).phase = .aborted ∧
      (run setup.stopping builder tags input).directives = s.directives ∧
      (run setup.stopping builder tags input).errors =
        s.errors ++ [error, ⟨.recoveryExhausted, error.span⟩] ∧
      (run setup.stopping builder tags input).tags = s.tags := by
  by_cases hDepth : 0 < setup.options.maxDepth
  · have hRoom : 0 < setup.resuming.options.maxDepth := hDepth
    have hRoom' : 0 < setup.stopping.options.maxDepth := hDepth
    rcases run_of_reaches hRoom' .refl with ⟨t, hReaches, hStop, hRun⟩ |
      ⟨t, halt, u, hReaches, hMore, hStep, hRun⟩
    · left
      rw [run_of_stop hRoom hReaches.resuming hStop, hRun]
      exact ⟨hReaches.sound (List.forall_mem_nil _), rfl⟩
    · have hBefore := hReaches.sound (List.forall_mem_nil _)
      rcases statement_eq_error.1 hStep with ⟨error, hError, rfl⟩ |
        ⟨error, failed, hError, -, rfl, rfl⟩
      · -- The statement is nested too deep, whatever is to be done after errors.
        left
        have hSame : statement setup.resuming t = (.error (.fatal error), u) :=
          statement_eq_error.2 (.inl ⟨error, hError, rfl⟩)
        obtain ⟨limit, hLimit⟩ := exhausted_of_error hError
        rw [run_of_halt hRoom hReaches.resuming hMore hSame, hRun]
        refine ⟨?_, rfl⟩
        show ∀ error' ∈ u.errors ++ [error], _
        rw [(unmoved_of_error hError).1.errors_eq, List.forall_mem_append,
          List.forall_mem_singleton, hLimit]
        exact ⟨hBefore, rfl⟩
      · -- The statement is malformed, and the parse that goes on reports that first.
        right
        have hState : t.Unmoved failed := (unmoved_of_error hError).1
        have hNext : Advances setup.resuming t _ := ⟨hMore, statement_of_error rfl hError⟩
        have hGrows := grows_run hRoom (hReaches.resuming.tail hNext)
        obtain ⟨others, hOthers⟩ := hGrows.errors
        rw [errors_of_resume hState] at hOthers
        refine ⟨t, error, failed, others, hReaches.resuming, hMore, hError, hBefore,
          malformed_of_error hError, ?_, (grows_run hRoom hReaches.resuming).directives, ?_⟩
        · rw [← hOthers, List.append_assoc]
          rfl
        · rw [hRun]
          refine ⟨rfl, hState.directives_eq, ?_, hState.tags_eq⟩
          show (failed.errors ++ [error]) ++ [_] = _
          rw [hState.errors_eq, List.append_assoc]
          rfl
  · left
    have hRoom : ¬ 0 < setup.resuming.options.maxDepth := hDepth
    have hRoom' : ¬ 0 < setup.stopping.options.maxDepth := hDepth
    rw [run_of_no_room hRoom, run_of_no_room hRoom']
    exact ⟨List.forall_mem_singleton.2 rfl, rfl⟩

/-! ## The nesting limit -/

/-- The same setup with another limit on nested productions. -/
def Setup.limited (setup : Setup σ) (limit : Nat) : Setup σ :=
  { setup with options := { setup.options with maxDepth := limit } }

theorem Setup.raised_eq {limit : Nat} (h : setup.options.maxDepth < limit) :
    setup.raised limit = setup.limited limit := by
  rw [raised, limited, Nat.max_eq_right (Nat.le_of_lt h)]

/-- A higher limit makes no difference to a statement that lets the parse go on. -/
theorem Advances.raised {limit : Nat} (h : Advances setup s t) :
    Advances (setup.raised limit) s t := by
  rcases statement_eq_ok.1 h.2 with hOk | ⟨error, u, hError, hMode, hState⟩
  · exact ⟨h.1, statement_of_ok (declaration_raised hOk)⟩
  · exact ⟨h.1, statement_eq_ok.2 (.inr ⟨error, u, error_raised hError, hMode, hState⟩)⟩

theorem Reaches.raised {limit : Nat} (h : Reaches setup s t) :
    Reaches (setup.raised limit) s t :=
  Relation.ReflTransGen.mono (fun _ _ hStep => Advances.raised hStep) s t h

/-- More productions are nested in each other than allowed. -/
def Exhausted (error : ParseError) : Prop := ∃ limit, error.problem = .stackExhausted limit

theorem not_exhausted_of_not_fatal {error : ParseError} (h : error.problem.isFatal = false) :
    ¬ Exhausted error := by
  rintro ⟨limit, hLimit⟩
  rw [hLimit] at h
  cases h

/-- A parse exceeds the limit where it ends, or not at all. -/
theorem run_raised (setup : Setup σ) (limit : Nat) (builder : σ) (tags : TagContext)
    (input : List Token) :
    ((∀ error ∈ (run setup builder tags input).errors, ¬ Exhausted error) ∧
      run (setup.raised limit) builder tags input = run setup builder tags input) ∨
    ∃ t error, Reaches setup (.begin builder tags input) t ∧ ¬ 7 ≤ setup.options.maxDepth ∧
      Exhausted error ∧ (∀ earlier ∈ t.errors, ¬ Exhausted earlier) ∧
      (run setup builder tags input).errors = t.errors ++ [error] ∧
      (run setup builder tags input).directives = t.directives := by
  by_cases hRoom : 0 < setup.options.maxDepth
  · have hHigher : 0 < (setup.raised limit).options.maxDepth :=
      Nat.lt_of_lt_of_le hRoom (Nat.le_max_left _ _)
    have hBefore (t : State σ) (h : Reaches setup (.begin builder tags input) t) :
        ∀ error ∈ t.errors, ¬ Exhausted error := fun error hMem =>
      not_exhausted_of_not_fatal (h.not_fatal (List.forall_mem_nil _) error hMem)
    rcases run_of_reaches hRoom .refl with ⟨t, hReaches, hStop, hRun⟩ |
      ⟨t, halt, u, hReaches, hMore, hStep, hRun⟩
    · left
      rw [run_of_stop hHigher hReaches.raised hStop, hRun]
      exact ⟨hBefore t hReaches, rfl⟩
    · rcases statement_eq_error.1 hStep with ⟨error, hError, rfl⟩ |
        ⟨error, failed, hError, hMode, rfl, rfl⟩
      · right
        obtain ⟨hState, -, hEnough⟩ := unmoved_of_error hError
        refine ⟨t, error, hReaches, fun hSeven => ?_, exhausted_of_error hError,
          hBefore t hReaches, ?_, ?_⟩
        · have hDeep : t.depth + 6 ≤ setup.options.maxDepth := by
            rw [hReaches.depth_eq rfl]
            exact hSeven
          obtain ⟨cause, hHalt, -⟩ := hEnough hDeep
          cases hHalt
        · rw [hRun, ← hState.errors_eq]
          rfl
        · rw [hRun, ← hState.directives_eq]
          rfl
      · left
        have hSame : statement (setup.raised limit) t =
            (.error (.fatal ⟨.recoveryExhausted, error.span⟩), failed.report error) :=
          statement_eq_error.2 (.inr ⟨error, failed, error_raised hError, hMode, rfl, rfl⟩)
        rw [run_of_halt hHigher hReaches.raised hMore hSame, hRun]
        refine ⟨?_, rfl⟩
        have hFatal := not_fatal_of_malformation (malformed_of_error hError)
        show ∀ error' ∈ (failed.errors ++ [error]) ++ [_], _
        rw [(unmoved_of_error hError).1.errors_eq]
        simp only [List.forall_mem_append, List.forall_mem_singleton]
        exact ⟨⟨hBefore t hReaches, not_exhausted_of_not_fatal hFatal⟩,
          fun ⟨_, hLimit⟩ => Problem.noConfusion hLimit⟩
  · right
    refine ⟨.begin builder tags input, ⟨.stackExhausted setup.options.maxDepth,
      (State.start builder tags input).lookahead.span⟩, .refl, by omega, ⟨_, rfl⟩,
      List.forall_mem_nil _, ?_, ?_⟩
    · rw [run_of_no_room hRoom]
      rfl
    · rw [run_of_no_room hRoom]
      rfl

/-- The limit on nested productions cuts a parse off and does nothing else. Every statement begins
where only the production that reads the statements has been begun. So a limit of seven is never
exceeded, however long the text is. If a limit is not exceeded in a parse, the parse is the same
under every higher one. If it is, that is reported last, and what was read and reported before is
what a parse under a higher limit begins with. -/
theorem run_limited (setup : Setup σ) {limit : Nat} (hLimit : setup.options.maxDepth < limit)
    (builder : σ) (tags : TagContext) (input : List Token) :
    (∀ s, Reaches setup (.begin builder tags input) s → s.depth = 1) ∧
    (7 ≤ setup.options.maxDepth →
      ∀ error ∈ (run setup builder tags input).errors, ¬ Exhausted error) ∧
    ((∀ error ∈ (run setup builder tags input).errors, ¬ Exhausted error) →
      run (setup.limited limit) builder tags input = run setup builder tags input) ∧
    ∀ error ∈ (run setup builder tags input).errors, Exhausted error →
      ∃ before, (run setup builder tags input).errors = before ++ [error] ∧
        (∀ earlier ∈ before, ¬ Exhausted earlier) ∧
        before <+: (run (setup.limited limit) builder tags input).errors ∧
        (run setup builder tags input).directives <+:
          (run (setup.limited limit) builder tags input).directives := by
  refine ⟨fun s hReaches => hReaches.depth_eq rfl, ?_⟩
  rw [← Setup.raised_eq hLimit]
  rcases run_raised setup limit builder tags input with ⟨hNone, hSame⟩ |
    ⟨t, last, hReaches, hFew, hLast, hBefore, hErrors, hDirectives⟩
  · exact ⟨fun _ => hNone, fun _ => hSame, fun error hMem hHit => absurd hHit (hNone error hMem)⟩
  · have hMem : last ∈ (run setup builder tags input).errors := by
      rw [hErrors]
      exact List.mem_append_right _ (List.mem_singleton_self last)
    refine ⟨fun hEnough => absurd hEnough hFew, fun hNone => absurd hLast (hNone last hMem),
      fun error hError hHit => ?_⟩
    have hRoom : 0 < (setup.raised limit).options.maxDepth :=
      Nat.lt_of_lt_of_le (Nat.zero_lt_of_lt hLimit) (Nat.le_max_right _ _)
    have hGrows := grows_run hRoom hReaches.raised
    rw [hErrors, List.mem_append, List.mem_singleton] at hError
    rcases hError with hEarlier | rfl
    · exact absurd hHit (hBefore error hEarlier)
    · exact ⟨t.errors, hErrors, hBefore, hGrows.errors, hDirectives ▸ hGrows.directives⟩

/-- A limit of one leaves no room for any dated statement. -/
theorem run_limited_closing :
    1 < 7 ∧
    (∀ s, Reaches (.standard { maxDepth := 1 }) (.begin () .empty closingStatement) s →
      s.depth = 1) ∧
    (7 ≤ 1 → ∀ error ∈ (run (.standard { maxDepth := 1 }) () .empty closingStatement).errors,
      ¬ Exhausted error) ∧
    ((∀ error ∈ (run (.standard { maxDepth := 1 }) () .empty closingStatement).errors,
        ¬ Exhausted error) →
      run (.standard { maxDepth := 7 }) () .empty closingStatement =
        run (.standard { maxDepth := 1 }) () .empty closingStatement) ∧
    ∀ error ∈ (run (.standard { maxDepth := 1 }) () .empty closingStatement).errors,
      Exhausted error → ∃ before,
        (run (.standard { maxDepth := 1 }) () .empty closingStatement).errors =
          before ++ [error] ∧
        (∀ earlier ∈ before, ¬ Exhausted earlier) ∧
        before <+: (run (.standard { maxDepth := 7 }) () .empty closingStatement).errors ∧
        (run (.standard { maxDepth := 1 }) () .empty closingStatement).directives <+:
          (run (.standard { maxDepth := 7 }) () .empty closingStatement).directives :=
  ⟨by decide, run_limited (.standard { maxDepth := 1 }) (by decide : 1 < 7) () .empty
    closingStatement⟩

end LedgerText.Parse
