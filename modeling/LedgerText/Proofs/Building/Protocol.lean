import LedgerText.Proofs.Building.Recording

/-!
# What builders can rely on

A parse is run with a builder that records its calls (`run_recorded`). It comes
to the same as a parse with the builder itself, and the calls keep to the
`Protocol`. The input falls into turns, one for each statement. In its turn a
statement visits its parse tree: the calls are in post-order of the tree, and
the call about the whole statement comes with the tags that the statements
before it have left active.

No call is made behind one that was refused, and of that statement nothing but
the refusal is reported, apart from notes on the tokens that are passed over.
What was refused in a whole parse is what it reports as invalid, one for one,
and its directives are what the calls about whole statements have yielded.
-/

namespace LedgerText.Parse

open Grammar Step Visit

variable {σ : Type} {builder : Builder σ} {filename : String} {active last : TagContext}
  {turns : List Turn}

/-! ## One turn -/

/-- Among the calls of one statement, only the last one can be refused, and what is reported is that
refusal. The tokens that were read are those of the tree, or the first of them; what the statement
adds is what the calls yielded; and a call about a whole statement comes with the active tags. -/
structure Turn.Orderly (active : TagContext) (turn : Turn) : Prop where
  trace : TraceOf turn.tree.tokens active turn.read turn.calls turn.upshot.value?
  accepted : ∀ call ∈ turn.calls.dropLast, call.refusal? = none
  refusals_eq : turn.calls.filterMap Call.refusal? = turn.upshot.refusal?.toList
  reported : turn.Reported

theorem refusal?_of_isAftermath {error : ParseError} (h : IsAftermath error) :
    error.problem.refusal? = none := by
  rcases h with ⟨kind, hProblem⟩ | hProblem <;> rw [hProblem] <;> rfl

/-- What is reported of a statement is what was refused. -/
theorem Turn.Reported.refusals_eq {turn : Turn} (h : turn.Reported) :
    turn.reports.filterMap (fun error => error.problem.refusal?) =
      turn.upshot.refusal?.toList := by
  have hNone {errors : List ParseError} (hErrors : ∀ error ∈ errors, IsAftermath error) :
      errors.filterMap (fun error => error.problem.refusal?) = [] :=
    List.filterMap_eq_nil_iff.2 fun error hError => refusal?_of_isAftermath (hErrors error hError)
  unfold Turn.Reported at h
  split at h
  · rename_i d hUpshot
    rw [hUpshot]
    refine List.filterMap_eq_nil_iff.2 fun error hError => ?_
    obtain ⟨tag, hProblem⟩ := h.2 error hError
    rw [hProblem]
    rfl
  · rename_i refusal hUpshot
    obtain ⟨span, others, hReports, hOthers⟩ := h
    rw [hUpshot, hReports, List.filterMap_cons, hNone hOthers]
    rfl
  · rename_i hUpshot
    obtain ⟨error, others, hReports, hError, hOthers⟩ := h
    rw [hUpshot, hReports, List.filterMap_cons, hError, hNone hOthers]
    rfl

/-! ## All turns -/

section

variable {state after : σ}

theorem Turns.refusals_eq (h : Turns builder filename active state turns last after) :
    (turns.flatMap Turn.calls).filterMap Call.refusal? =
      (turns.flatMap Turn.reports).filterMap fun error => error.problem.refusal? := by
  induction h with
  | nil active state => rfl
  | cons visit reported rest ih =>
      rw [List.flatMap_cons, List.flatMap_cons, List.filterMap_append, List.filterMap_append,
        visit.refusals_eq, reported.refusals_eq, ih]

theorem Turns.directives_eq (h : Turns builder filename active state turns last after) :
    (turns.flatMap Turn.calls).filterMap Call.directive? = turns.filterMap Turn.directive? := by
  induction h with
  | nil active state => rfl
  | @cons active last state between after turn turns visit reported rest ih =>
      rw [List.flatMap_cons, List.filterMap_append,
        (DeclarationNode.trace_of_runs visit).directives_eq, ih, List.filterMap_cons]
      show turn.directive?.toList ++ _ = _
      cases turn.directive? <;> rfl

/-- Every turn is orderly, with the tags that the turns before it have left active. -/
theorem Turns.orderly {before rest : List Turn} {turn : Turn}
    (h : Turns builder filename active state turns last after)
    (hSplit : turns = before ++ turn :: rest) :
    turn.Orderly (before.foldl Turn.retag active) := by
  induction h generalizing before with
  | nil active state => cases before <;> cases hSplit
  | cons visit reported more ih =>
      cases before with
      | nil =>
          cases hSplit
          exact ⟨DeclarationNode.trace_of_runs visit, visit.accepted, visit.refusals_eq, reported⟩
      | cons first others =>
          cases hSplit
          exact ih rfl

end

/-- What is recorded in the course of the turns are their calls. -/
theorem Turns.of_recorded {state after : σ × List Call}
    (h : Turns builder.recorded filename active state turns last after) :
    Turns builder filename active state.1 turns last after.1 ∧
      after.2 = state.2 ++ turns.flatMap Turn.calls := by
  induction h with
  | nil active state => exact ⟨.nil active state.1, (List.append_nil _).symm⟩
  | cons visit reported rest ih =>
      obtain ⟨hVisit, hLog⟩ := visit.of_recorded
      refine ⟨.cons hVisit reported ih.1, ?_⟩
      rw [ih.2, hLog, List.flatMap_cons, List.append_assoc]

/-! ## The protocol -/

/-- The setup with all calls recorded. -/
def Setup.recorded (setup : Setup σ) : Setup (σ × List Call) :=
  ⟨setup.builder.recorded, setup.options⟩

/-- What the calls to a builder have to do with the parse that they were made in. -/
structure Protocol (setup : Setup σ) (tags : TagContext) (state : σ) (input : List Token)
    (parse : State (σ × List Call)) (turns : List Turn) : Prop where
  /-- The statements take turns with the builder, each visiting its parse tree in post-order. -/
  taken : Turns setup.builder setup.options.filename tags state turns parse.tags parse.builder.1
  /-- The statements are those of the input, up to where the parse ends. -/
  input_eq : input = turns.flatMap Turn.tokens ++ parse.input
  /-- No call was made outside of them. -/
  calls_eq : parse.builder.2 = turns.flatMap Turn.calls
  /-- Nothing else was reported, except that there was no room for any statement. -/
  errors_eq : ∃ final, parse.errors = turns.flatMap Turn.reports ++ final ∧
    ∀ error ∈ final, ∃ limit, error.problem = .stackExhausted limit
  /-- What was refused is what was reported as invalid. -/
  refusals_eq : parse.builder.2.filterMap Call.refusal? =
    parse.errors.filterMap fun error => error.problem.refusal?
  /-- The directives are what the calls about whole statements yielded. -/
  directives_eq : parse.directives.map Spanned.value = parse.builder.2.filterMap Call.directive?
  /-- Every turn is orderly, with the tags that the statements before it have left active. -/
  orderly : ∀ before turn after, turns = before ++ turn :: after →
    turn.Orderly (before.foldl Turn.retag tags)

theorem exists_protocol (setup : Setup σ) (state : σ) (tags : TagContext) (input : List Token) :
    ∃ turns, Protocol setup tags state input (run setup.recorded (state, []) tags input) turns := by
  obtain ⟨turns, hPassage | ⟨rfl, hRun⟩⟩ := exists_turns setup.recorded (state, []) tags input
  · obtain ⟨hTurns, hLog⟩ := hPassage.taken.of_recorded
    have hCalls : (run setup.recorded (state, []) tags input).builder.2 =
        turns.flatMap Turn.calls := hLog.trans (List.nil_append _)
    have hReports : (run setup.recorded (state, []) tags input).errors =
        turns.flatMap Turn.reports := hPassage.errors_eq.trans (List.nil_append _)
    have hDirectives : (run setup.recorded (state, []) tags input).directives.map Spanned.value =
        turns.filterMap Turn.directive? := hPassage.directives_eq.trans (List.nil_append _)
    refine ⟨turns, hTurns, hPassage.input_eq, hCalls,
      ⟨[], hReports.trans (List.append_nil _).symm, List.forall_mem_nil _⟩, ?_, ?_,
      fun before turn after hSplit => hTurns.orderly hSplit⟩
    · rw [hCalls, hReports, hTurns.refusals_eq]
    · rw [hCalls, hDirectives, hTurns.directives_eq]
  · rw [hRun]
    refine ⟨[], .nil _ _, rfl, rfl, ⟨[_], rfl, List.forall_mem_singleton.2 ⟨_, rfl⟩⟩, rfl, rfl, ?_⟩
    rintro (_ | ⟨first, before⟩) turn after hSplit <;> cases hSplit

/-- Whatever the builder does with the values that it is asked about, it does not show in a parse
that its calls are recorded; and the calls of every parse keep to the protocol. -/
theorem run_recorded (setup : Setup σ) (state : σ) (tags : TagContext) (input : List Token) :
    (run setup.recorded (state, []) tags input).mapBuilder Prod.fst = run setup state tags input ∧
      ∃ turns, Protocol setup tags state input (run setup.recorded (state, []) tags input) turns :=
  ⟨(run_mapBuilder setup.builder.recorded_mapsTo (state, []) tags input).symm,
    exists_protocol setup state tags input⟩

end LedgerText.Parse
