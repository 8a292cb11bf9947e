import LedgerText.Proofs.Parse.Effects
import LedgerText.Proofs.Parse.Orderly
import LedgerText.Proofs.Recovery.Splitting
import LedgerText.Proofs.Recovery.Surviving

/-!
# How a parse of a text ends

A parse of a text is settled: it reaches the end of the text, or its last error
says why it does not. `Settled` lists what its errors can be, and how they go
with the phase it ends in.

One statement at a time, the errors so far are those that do not end the parse
(`Steady`, kept by `Steady.advance`); at most the last statement adds others.
-/

namespace LedgerText

/-- What can be reported of a text: its tokens have their values, so a value is refused only where
a day does not exist; its end is never in the wrong place; and there are notes only if asked for. -/
def Problem.IsReportable (options : Parse.Options) : Problem → Prop
  | .unexpected found _ => found ≠ .endOfInput
  | .invalidValue refusal => ∃ text, refusal = .invalidDate text
  | .missingValue _ => False
  | .discardedToken _ => options.traceRecovery = true
  | _ => True

/-- What can be reported before a parse ends. Where nothing is set to go on after an error, these
are not errors that make a statement fail. -/
structure Problem.IsPassing (options : Parse.Options) (problem : Problem) : Prop where
  reportable : problem.IsReportable options
  notFatal : problem.isFatal = false
  resumed : options.recovery = .abort → ∃ tag, problem = .unbalancedPoptag tag

namespace Parse

open Grammar Step

variable {options : Options} {tokens : List Token} {s t : State Unit}

/-! ## One statement -/

/-- A state of a parse of a text between two of its statements. -/
structure Steady (options : Options) (tokens : List Token) (s : State Unit) : Prop where
  within : s.spot.IsWithin tokens
  depth : s.depth = 1
  errors : ∀ error ∈ s.errors, error.problem.IsPassing options

/-- What is passed over ends in front of the end of the text. -/
theorem isWithin_resume (hTidy : Tidy tokens) (trace : Bool) (h : s.spot.IsWithin tokens) :
    (s.resume trace).spot.IsWithin tokens := by
  obtain ⟨hSome, front, hTokens, hFront⟩ := h
  change s.input ≠ [] at hSome
  change tokens = front ++ s.input at hTokens
  change s.previous = front.getLast? at hFront
  have hSplit := discarded_append_drop s.atLineStart s.input
  refine ⟨?_, front ++ discarded s.atLineStart s.input, ?_, ?_⟩
  · show s.input.drop (discarded s.atLineStart s.input).length ≠ []
    intro hNone
    rw [hNone, List.append_nil] at hSplit
    obtain ⟨lines, last, hClosed, hKind, -, -⟩ := hTidy.closed
    -- The last of the tokens ahead is the last of the text.
    rcases List.eq_nil_or_concat s.input with hNil | ⟨others, token, hInput⟩
    · exact hSome hNil
    · rw [List.concat_eq_append] at hInput
      have hSame : (front ++ others) ++ [token] = lines ++ [last] := by
        rw [← hClosed, hTokens, hInput, List.append_assoc]
      obtain ⟨-, hLast⟩ := List.append_inj' hSame rfl
      have hMem : token ∈ discarded s.atLineStart s.input := by
        rw [hSplit, hInput]
        simp
      cases hLast
      exact ne_end_of_mem_discarded _ _ _ hMem hKind
  · show tokens = _ ++ s.input.drop (discarded s.atLineStart s.input).length
    rw [List.append_assoc, hSplit, hTokens]
  · show (discarded s.atLineStart s.input).getLast?.or s.previous = _
    rw [List.getLast?_append, hFront]

/-- The error of a statement that is malformed for an ordinary reason. -/
theorem malformation_of_ordinary {error : ParseError} (h : (Halt.statement error).IsOrdinary) :
    error.problem.isMalformation = true := by
  rcases h with ⟨found, expected, hProblem, -⟩ | ⟨text, hProblem⟩
  · rw [hProblem]
    rfl
  · rw [hProblem]
    rfl

theorem isReportable_of_ordinary {error : ParseError} (h : (Halt.statement error).IsOrdinary) :
    error.problem.IsReportable options := by
  rcases h with ⟨found, expected, hProblem, hFound⟩ | ⟨text, hProblem⟩
  · rw [hProblem]
    exact hFound
  · rw [hProblem]
    exact ⟨text, rfl⟩

/-- A declaration that begins in a steady state halts for an ordinary reason if it fails. -/
theorem Steady.of_error (hTidy : Tidy tokens) (h : Steady options tokens s)
    (hMore : moreAhead s = true) {halt : Halt}
    (hStep : declaration (.standard options) s = (.error halt, t)) :
    t.spot.IsWithin tokens ∧ halt.IsOrdinary ∧ t.errors = s.errors := by
  have hDeclaration : OrderlyTo tokens _ (declaration (.standard options)) _ :=
    orderly_declaration hTidy
  have hOrderly := hDeclaration s ⟨h.within, (moreAhead_iff s).1 hMore⟩
  rw [hStep] at hOrderly
  have hState := (unmoved_of_error hStep).1
  exact ⟨hOrderly.1, hOrderly.2, hState.errors_eq⟩

/-- A statement leads from one steady state to another. -/
theorem Steady.advance (hTidy : Tidy tokens) (h : Steady options tokens s)
    (hStep : Advances (.standard options) s t) : Steady options tokens t := by
  have hDepth := hStep.depth_eq h.depth
  have hMore := hStep.1
  rcases hStep.inv with ⟨hOk, e, u, hState, -, rfl⟩ | ⟨error, u, hError, -, hState, hMode, rfl⟩
  · have hDeclaration : OrderlyTo tokens _ (declaration (.standard options)) _ :=
      orderly_declaration hTidy
    have hOrderly := hDeclaration s ⟨h.within, (moreAhead_iff s).1 hMore⟩
    rw [hOk] at hOrderly
    refine ⟨hOrderly, hDepth, ?_⟩
    rcases e.errors_applyTo u with hSame | ⟨tag, span, hUnbalanced⟩
    · rw [hSame, hState.errors_eq]
      exact h.errors
    · rw [hUnbalanced, hState.errors_eq, List.forall_mem_append, List.forall_mem_singleton]
      exact ⟨h.errors, trivial, rfl, fun _ => ⟨tag, rfl⟩⟩
  · obtain ⟨hWithin, hHalt, -⟩ := h.of_error hTidy hMore hError
    have hResumes : options.recovery ≠ .abort := by
      rw [show options.recovery = .resynchronize from hMode]
      exact Recovery.noConfusion
    refine ⟨isWithin_resume hTidy _ hWithin, hDepth, ?_⟩
    rw [errors_of_resume hState, List.forall_mem_append, List.forall_mem_cons]
    refine ⟨h.errors, ?_, fun note hNote => ?_⟩
    · exact ⟨isReportable_of_ordinary hHalt,
        not_fatal_of_malformation (malformation_of_ordinary hHalt),
        fun hAbort => absurd hAbort hResumes⟩
    · unfold notes at hNote
      split at hNote
      · next hTrace =>
          obtain ⟨token, -, rfl⟩ := List.mem_map.1 hNote
          exact ⟨hTrace, rfl, fun hAbort => absurd hAbort hResumes⟩
      · cases hNote

theorem steady_of_reaches (hTidy : Tidy tokens) (h : Steady options tokens s)
    (hReaches : Reaches (.standard options) s t) : Steady options tokens t := by
  induction hReaches with
  | refl => exact h
  | tail hFront hStep ih => exact ih.advance hTidy hStep

theorem steady_begin (hTidy : Tidy tokens) (tags : TagContext) :
    Steady options tokens (.begin () tags tokens) := by
  refine ⟨⟨?_, [], rfl, rfl⟩, rfl, List.forall_mem_nil _⟩
  obtain ⟨lines, last, rfl, -⟩ := hTidy.closed
  exact List.append_ne_nil_of_right_ne_nil _ (List.cons_ne_nil _ _)

/-! ## The whole text -/

/-- How a parse of a text ends, and what it has reported. -/
structure Settled (options : Options) (s : State Unit) : Prop where
  ends : s.phase = .accepted ∨ s.phase = .aborted
  /-- Where a parse goes on after errors and has room enough, it comes to the end of the text. -/
  accepts : options.recovery = .resynchronize → 7 ≤ options.maxDepth → s.phase = .accepted
  aborted_iff : s.phase = .aborted ↔ ∃ error ∈ s.errors, error.problem.isFatal = true
  /-- Nothing is reported behind an error that ends the parse. -/
  fatal_last : ∀ front error back, s.errors = front ++ error :: back →
    error.problem.isFatal = true → back = []
  /-- A parse that is not set to go on stops right behind the error of a statement. -/
  exhausted : ∀ front error back, s.errors = front ++ error :: back →
    error.problem = .recoveryExhausted → options.recovery = .abort ∧
      ∃ before cause, front = before ++ [cause] ∧ cause.problem.isMalformation = true ∧
        cause.span = error.span
  reportable : ∀ error ∈ s.errors, error.problem.IsReportable options
  /-- A parse that would stop at the first error of a statement, and does not, has found none. -/
  unbalanced : options.recovery = .abort → s.phase = .accepted →
    ∀ error ∈ s.errors, ∃ tag, error.problem = .unbalancedPoptag tag

/-- At the end of the text, nothing has been reported that ends a parse. -/
theorem settled_of_accepted (hPhase : s.phase = .accepted)
    (hErrors : ∀ error ∈ s.errors, error.problem.IsPassing options) : Settled options s where
  ends := .inl hPhase
  accepts := fun _ _ => hPhase
  aborted_iff := by
    constructor
    · intro hAborted
      rw [hPhase] at hAborted
      cases hAborted
    · rintro ⟨error, hMem, hFatal⟩
      rw [(hErrors error hMem).notFatal] at hFatal
      cases hFatal
  fatal_last := by
    intro front error back hSplit hFatal
    have hMem : error ∈ s.errors := by
      rw [hSplit]
      exact List.mem_append_right _ List.mem_cons_self
    rw [(hErrors error hMem).notFatal] at hFatal
    cases hFatal
  exhausted := by
    intro front error back hSplit hProblem
    have hMem : error ∈ s.errors := by
      rw [hSplit]
      exact List.mem_append_right _ List.mem_cons_self
    have hPassing := (hErrors error hMem).notFatal
    rw [hProblem] at hPassing
    cases hPassing
  reportable := fun error hMem => (hErrors error hMem).reportable
  unbalanced := fun hMode _ error hMem => (hErrors error hMem).resumed hMode

/-- What ends a parse is the last of its errors, and the only one of its sort. -/
theorem settled_of_aborted (before : List ParseError) (last : ParseError)
    (hPhase : s.phase = .aborted) (hErrors : s.errors = before ++ [last])
    (hBefore : ∀ error ∈ before,
      error.problem.IsReportable options ∧ error.problem.isFatal = false)
    (hFatal : last.problem.isFatal = true)
    (hRoom : options.recovery = .resynchronize → ¬ 7 ≤ options.maxDepth)
    (hCause : last.problem = .recoveryExhausted → options.recovery = .abort ∧
      ∃ others cause, before = others ++ [cause] ∧ cause.problem.isMalformation = true ∧
        cause.span = last.span) : Settled options s where
  ends := .inr hPhase
  accepts := fun hMode hEnough => absurd hEnough (hRoom hMode)
  aborted_iff := by
    refine ⟨fun _ => ⟨last, ?_, hFatal⟩, fun _ => hPhase⟩
    rw [hErrors]
    exact List.mem_append_right _ (List.mem_singleton_self _)
  fatal_last := by
    intro front error back hSplit hEnds
    rcases split_concat (hErrors.symm.trans hSplit) with ⟨rfl, -, -⟩ | hMem
    · rfl
    · rw [(hBefore error hMem).2] at hEnds
      cases hEnds
  exhausted := by
    intro front error back hSplit hProblem
    rcases split_concat (hErrors.symm.trans hSplit) with ⟨-, rfl, rfl⟩ | hMem
    · exact hCause hProblem
    · have hPassing := (hBefore error hMem).2
      rw [hProblem] at hPassing
      cases hPassing
  reportable := by
    intro error hMem
    rw [hErrors, List.mem_append, List.mem_singleton] at hMem
    rcases hMem with hMem | rfl
    · exact (hBefore error hMem).1
    · cases hProblem : error.problem with
      | recoveryExhausted => trivial
      | stackExhausted limit => trivial
      | _ =>
          rw [hProblem] at hFatal
          cases hFatal
  unbalanced := by
    intro _ hAccepted
    rw [hPhase] at hAccepted
    cases hAccepted

/-- Every parse of a text is settled, whatever the text and however it is parsed. -/
theorem text_settled (source : String) (options : Options) :
    Settled options (text source options) := by
  have hTidy := tidy_tokens source
  have hBegin : Steady options (Token.tokens source) (.begin () .empty (Token.tokens source)) :=
    steady_begin hTidy .empty
  have hText : text source options =
      run (.standard options) () .empty (Token.tokens source) := rfl
  rcases run_cases (.standard options) () .empty (Token.tokens source) with ⟨hNone, hRun⟩ |
    ⟨t, hReaches, -, hRun⟩ | ⟨t, halt, u, hReaches, hMore, hStep, hRun⟩
  · rw [hText, hRun]
    have hZero : options.maxDepth = 0 := hNone
    refine settled_of_aborted [] _ rfl rfl (List.forall_mem_nil _) rfl ?_ ?_
    · omega
    · exact fun h => absurd h Problem.noConfusion
  · rw [hText, hRun]
    exact settled_of_accepted rfl (steady_of_reaches hTidy hBegin hReaches).errors
  · have hSteady := steady_of_reaches hTidy hBegin hReaches
    have hPassed : ∀ error ∈ t.errors,
        error.problem.IsReportable options ∧ error.problem.isFatal = false := fun error hMem =>
      ⟨(hSteady.errors error hMem).reportable, (hSteady.errors error hMem).notFatal⟩
    rw [hText, hRun]
    rcases statement_eq_error.1 hStep with ⟨error, hError, rfl⟩ |
      ⟨error, w, hError, hMode, rfl, rfl⟩
    · -- The last statement is nested too deep.
      obtain ⟨-, ⟨limit, hProblem⟩, hErrors⟩ := hSteady.of_error hTidy hMore hError
      refine settled_of_aborted t.errors error rfl ?_ hPassed ?_ ?_ ?_
      · show u.errors ++ [error] = _
        rw [hErrors]
      · show error.problem.isFatal = true
        rw [hProblem]
        rfl
      · intro _ hEnough
        have hRoom : t.depth + 6 ≤ options.maxDepth := by
          rw [hSteady.depth]
          exact hEnough
        have hMalformed : Malformed (.fatal error) := (declaration_eq_error hRoom hError).2
        obtain ⟨cause, hHalt, -⟩ := hMalformed
        cases hHalt
      · intro hExhausted
        change error.problem = _ at hExhausted
        rw [hProblem] at hExhausted
        cases hExhausted
    · -- The last statement is malformed, and nothing is set to go on.
      obtain ⟨-, hHalt, hErrors⟩ := hSteady.of_error hTidy hMore hError
      have hAbort : options.recovery = .abort := hMode
      have hMalformed := malformation_of_ordinary hHalt
      refine settled_of_aborted (t.errors ++ [error]) ⟨.recoveryExhausted, error.span⟩ rfl ?_ ?_
        rfl ?_ ?_
      · show (w.errors ++ [error]) ++ [_] = _
        rw [hErrors]
        rfl
      · rw [List.forall_mem_append, List.forall_mem_singleton]
        exact ⟨hPassed, isReportable_of_ordinary hHalt, not_fatal_of_malformation hMalformed⟩
      · intro hOther
        rw [hAbort] at hOther
        cases hOther
      · exact fun _ => ⟨hAbort, t.errors, error, rfl, hMalformed, rfl⟩

end Parse

end LedgerText
