import LedgerText.Proofs.Recovery.Framing
import LedgerText.Proofs.Parse.Naming

/-!
# Notes and names

A parse can be asked to note the tokens that it passes over after an error, and
it is told the name of the text. Neither makes a difference to what is read and
what is wrong with it (`run_indifferent`): two parses that differ in these
settings alone go through states that are alike, statement by statement.

The notes that follow an error are on the tokens between the one where the
statement failed and the one where the parse goes on (`run_noted`). They are not
counted: `ParseError.tally` is the count of errors as a parse keeps it, report by
report.
-/

namespace LedgerText

/-- Whether this is about a token that was passed over. -/
def Problem.isDiscarded : Problem → Bool
  | .discardedToken _ => true
  | _ => false

namespace ParseError

/-- The report is a note, and not an error. -/
def isNote (e : ParseError) : Bool := !e.problem.isError

/-- A count of errors behind another report. -/
def raise (n : Nat) (e : ParseError) : Nat := if e.problem.isError then n + 1 else n

/-- The count of errors when some have been reported, one after the other. -/
def tally (errors : List ParseError) : Nat := errors.foldl raise 0

theorem foldl_raise (errors : List ParseError) (n : Nat) :
    errors.foldl raise n = n + count errors := by
  induction errors generalizing n with
  | nil => rfl
  | cons e rest ih =>
      rw [List.foldl_cons, ih, raise, count, count, List.countP_cons]
      split <;> omega

theorem tally_eq {errors : List ParseError} : tally errors = count errors := by
  rw [tally, foldl_raise, Nat.zero_add]

theorem isError_eq (problem : Problem) : problem.isError = !problem.isDiscarded := by
  cases problem <;> rfl

/-- All reports are counted but those on tokens that were passed over. -/
theorem tally_eq_countP (errors : List ParseError) :
    tally errors = errors.countP fun e => !e.problem.isDiscarded := by
  rw [tally_eq, count]
  congr 1
  funext e
  exact isError_eq e.problem

end ParseError

namespace Parse

open Step

variable {σ : Type} {setup : Setup σ} {name : String} {trace : Bool} {s t u s' t' : State σ}

/-! ## States that are alike -/

namespace State.Alike

theorem moreAhead_eq (h : s.Alike t) : moreAhead s = moreAhead t := by
  show moreAhead s.bare = moreAhead t.bare
  rw [h.bare_eq]

theorem phase_eq (h : s.Alike t) : s.phase = t.phase := by
  show s.bare.phase = t.bare.phase
  rw [h.bare_eq]

theorem report (h : s.Alike t) (error : ParseError) : (s.report error).Alike (t.report error) where
  bare_eq := h.bare_eq
  directives_eq := h.directives_eq
  errors_eq := by
    show List.filter _ (_ ++ _) = List.filter _ (_ ++ _)
    rw [List.filter_append, List.filter_append, h.errors_eq]

theorem abort (h : s.Alike t) (error : ParseError) : (s.abort error).Alike (t.abort error) where
  bare_eq := congrArg (fun v : State σ => { v with phase := .aborted }) h.bare_eq
  directives_eq := h.directives_eq
  errors_eq := (h.report error).errors_eq

theorem accept (h : s.Alike t) : State.Alike { s with depth := s.depth - 1, phase := .accepted }
    { t with depth := t.depth - 1, phase := .accepted } where
  bare_eq := congrArg (fun v : State σ => { v with depth := v.depth - 1, phase := .accepted })
    h.bare_eq
  directives_eq := h.directives_eq
  errors_eq := h.errors_eq

/-- Notes are no errors. -/
theorem filter_notes (trace : Bool) (passed : List Token) :
    ((if trace then passed.map discardedNote else []).filter fun error => error.problem.isError) =
      [] := by
  cases trace with
  | false => rfl
  | true =>
      refine List.filter_eq_nil_iff.2 fun note hNote => ?_
      obtain ⟨token, -, rfl⟩ := List.mem_map.1 hNote
      exact Bool.false_ne_true

/-- Where a parse goes on does not depend on whether it notes what it passes over. -/
theorem resume (h : s.Alike t) (trace other : Bool) : (s.resume trace).Alike (t.resume other) where
  bare_eq := by
    show (s.bare.resume false).bare = (t.bare.resume false).bare
    rw [h.bare_eq]
  directives_eq := h.directives_eq
  errors_eq := by
    show List.filter _ (_ ++ _) = List.filter _ (_ ++ _)
    rw [List.filter_append, List.filter_append, filter_notes, filter_notes, h.errors_eq]

theorem inside {directives others : List (Spanned Directive)} {errors reported : List ParseError}
    (h : s.Alike t) (hDirectives : directives.map unnamed = others.map unnamed)
    (hErrors : (errors.filter fun error => error.problem.isError) =
      reported.filter fun error => error.problem.isError) :
    (s.inside (besides directives errors)).Alike (t.inside (besides others reported)) := by
  rw [inside_besides, inside_besides]
  refine ⟨congrArg (fun v : State σ => { v with phase := .running }) h.bare_eq, ?_, ?_⟩
  · show List.map _ (_ ++ _) = List.map _ (_ ++ _)
    rw [List.map_append, List.map_append, hDirectives, h.directives_eq]
  · show List.filter _ (_ ++ _) = List.filter _ (_ ++ _)
    rw [List.filter_append, List.filter_append, hErrors, h.errors_eq]

end State.Alike

/-! ## Two parses -/

theorem inside_bare (hs : s.phase = .running) :
    s.bare.inside (besides s.directives s.errors) = s := by
  rw [inside_besides, State.bare, ← hs, List.append_nil, List.append_nil]

/-- A declaration goes on from what was read and reported before. -/
theorem declaration_of_bare (setup : Setup σ) (hs : s.phase = .running) :
    declaration setup s = ((declaration setup s.bare).1,
      (declaration setup s.bare).2.inside (besides s.directives s.errors)) := by
  have hWhole := declaration_besides setup s.directives s.errors s.bare
  rwa [inside_bare hs] at hWhole

section

variable (hBuilder : setup.builder.IgnoresNames)
include hBuilder

theorem declaration_alike (h : s.Alike s') (hs : s.phase = .running)
    {result : Except Halt Unit} (hStep : declaration setup s = (result, t)) :
    ∃ t', declaration (setup.named name trace) s' = (result, t') ∧ t.Alike t' ∧
      t.phase = .running := by
  obtain ⟨hResult, hState⟩ := declaration_named hBuilder name trace s.bare
  rw [declaration_of_bare setup hs] at hStep
  rw [declaration_of_bare (setup.named name trace) (h.phase_eq.symm.trans hs), ← h.bare_eq]
  cases hStep
  exact ⟨_, congrArg (Prod.mk · _) hResult.symm, hState.inside h.directives_eq h.errors_eq, rfl⟩

/-- Where one parse goes on, so does the other. -/
theorem Advances.alike (h : s.Alike s') (hs : s.phase = .running) (hStep : Advances setup s t) :
    ∃ t', Advances (setup.named name trace) s' t' ∧ t.Alike t' ∧ t.phase = .running := by
  have hMore : moreAhead s' = true := h.moreAhead_eq.symm.trans hStep.1
  rcases statement_eq_ok.1 hStep.2 with hOk | ⟨error, u, hError, hMode, rfl⟩
  · obtain ⟨t', hOther, hAlike, hPhase⟩ := declaration_alike hBuilder h hs hOk
    exact ⟨t', ⟨hMore, statement_of_ok hOther⟩, hAlike, hPhase⟩
  · obtain ⟨u', hOther, hAlike, hPhase⟩ := declaration_alike hBuilder h hs hError
    exact ⟨_, ⟨hMore, statement_of_error hMode hOther⟩, (hAlike.report error).resume _ _, hPhase⟩

/-- Where one parse ends, so does the other. -/
theorem statement_alike (h : s.Alike s') (hs : s.phase = .running) {halt : Halt}
    (hStep : statement setup s = (.error halt, t)) :
    ∃ t', statement (setup.named name trace) s' = (.error halt, t') ∧ t.Alike t' := by
  rcases statement_eq_error.1 hStep with ⟨error, hError, rfl⟩ | ⟨error, u, hError, hMode, rfl, rfl⟩
  · obtain ⟨t', hOther, hAlike, -⟩ := declaration_alike hBuilder h hs hError
    exact ⟨t', statement_eq_error.2 (.inl ⟨error, hOther, rfl⟩), hAlike⟩
  · obtain ⟨u', hOther, hAlike, -⟩ := declaration_alike hBuilder h hs hError
    exact ⟨_, statement_eq_error.2 (.inr ⟨error, u', hOther, hMode, rfl, rfl⟩),
      hAlike.report error⟩

theorem Reaches.alike (h : s.Alike s') (hs : s.phase = .running) (hReaches : Reaches setup s t) :
    ∃ t', Reaches (setup.named name trace) s' t' ∧ t.Alike t' ∧ t.phase = .running := by
  induction hReaches with
  | refl => exact ⟨s', .refl, h, hs⟩
  | tail _ hStep ih =>
      obtain ⟨u', hFront, hAlike, hPhase⟩ := ih
      obtain ⟨t', hOther, hEnd⟩ := hStep.alike hBuilder hAlike hPhase
      exact ⟨t', hFront.tail hOther, hEnd⟩

/-- Neither the name of a text nor the notes make a difference to a parse. -/
theorem run_alike (builder : σ) (tags : TagContext) (input : List Token) :
    (run setup builder tags input).Alike (run (setup.named name trace) builder tags input) := by
  by_cases hRoom : 0 < setup.options.maxDepth
  · have hRoom' : 0 < (setup.named name trace).options.maxDepth := hRoom
    have hSame : (State.begin builder tags input).Alike (.begin builder tags input) := .refl _
    rcases run_of_reaches hRoom .refl with ⟨t, hReaches, hStop, hRun⟩ |
      ⟨t, halt, u, hReaches, hMore, hStep, hRun⟩
    · obtain ⟨t', hOther, hAlike, -⟩ := Reaches.alike hBuilder hSame rfl hReaches
      rw [hRun, run_of_stop hRoom' hOther (hAlike.moreAhead_eq.symm.trans hStop)]
      exact hAlike.accept
    · obtain ⟨t', hOther, hAlike, hPhase⟩ := Reaches.alike hBuilder hSame rfl hReaches
      obtain ⟨u', hHalts, hEnd⟩ := statement_alike hBuilder hAlike hPhase hStep
      rw [hRun, run_of_halt hRoom' hOther (hAlike.moreAhead_eq.symm.trans hMore) hHalts]
      exact hEnd.abort halt.error
  · have hRoom' : ¬ 0 < (setup.named name trace).options.maxDepth := hRoom
    rw [run_of_no_room hRoom, run_of_no_room hRoom']
    exact .refl _

end

/-! ## Notes -/

/-- Errors that begin with one that is not a note. -/
def BeginAnew (errors : List ParseError) : Prop := ∀ first ∈ errors.head?, first.isNote = false

theorem beginAnew_append {errors others : List ParseError} (h : BeginAnew errors)
    (hOthers : BeginAnew others) : BeginAnew (errors ++ others) := by
  cases errors with
  | nil => exact hOthers
  | cons first rest => exact h

theorem Reaches.exists_new (h : Reaches setup s t) :
    ∃ new, t.errors = s.errors ++ new ∧ BeginAnew new := by
  induction h with
  | refl => exact ⟨[], (List.append_nil _).symm, fun first hFirst => nomatch hFirst⟩
  | tail _ hStep ih =>
      obtain ⟨front, hFront, hAnew⟩ := ih
      obtain ⟨back, hBack, hHead, -⟩ := hStep.exists_new
      refine ⟨front ++ back, ?_, beginAnew_append hAnew fun first hFirst => ?_⟩
      · rw [hBack, hFront, List.append_assoc]
      · rw [ParseError.isNote, hHead first hFirst]
        rfl

theorem takeWhile_of_beginAnew {errors : List ParseError} (h : BeginAnew errors) :
    errors.takeWhile ParseError.isNote = [] := by
  cases errors with
  | nil => rfl
  | cons first rest =>
      exact List.takeWhile_cons_of_neg (by rw [h first rfl]; exact Bool.false_ne_true)

/-- The notes in front of other reports. -/
theorem takeWhile_notes {passed : List Token} {errors : List ParseError} (h : BeginAnew errors) :
    (passed.map discardedNote ++ errors).takeWhile ParseError.isNote =
      passed.map discardedNote := by
  have hNotes : ∀ note ∈ passed.map discardedNote, note.isNote = true := by
    intro note hNote
    obtain ⟨token, -, rfl⟩ := List.mem_map.1 hNote
    rfl
  rw [List.takeWhile_append_of_pos hNotes, takeWhile_of_beginAnew h, List.append_nil]

/-- The statement that begins in a state fails with an error, and the notes at the front of `rest`,
which is reported next, are on the tokens between the one where the statement fails and the one
where the parse goes on. There are none if it does not go on. -/
def Noted (setup : Setup σ) (s : State σ) (error : ParseError) (rest : List ParseError) : Prop :=
  moreAhead s = true ∧ ∃ failed, declaration setup s = (.error (.statement error), failed) ∧
    ((setup.options.recovery = .abort ∧ rest.takeWhile ParseError.isNote = []) ∨
      ∃ passed t, Advances setup s t ∧ failed.input = passed ++ t.input ∧
        rest.takeWhile ParseError.isNote = passed.map discardedNote)

/-- Behind a statement that failed, the tokens are noted that are passed over. -/
theorem noted_of_advances {error : ParseError} {failed : State σ} {errors : List ParseError}
    (hTrace : setup.options.traceRecovery = true) (h : Advances setup s t)
    (hError : declaration setup s = (.error (.statement error), failed))
    (hErrors : BeginAnew errors) : Noted setup s error (notes setup failed ++ errors) := by
  refine ⟨h.1, failed, hError, .inr ⟨discarded failed.atLineStart failed.input, t, h, ?_, ?_⟩⟩
  · rw [h.eq_resume hError]
    exact (discarded_append_drop failed.atLineStart failed.input).symm
  · rw [notes, if_pos hTrace]
    exact takeWhile_notes hErrors

/-- Where a statement of a parse has failed, notes follow its error. -/
theorem noted_of_reaches {front rest errors : List ParseError} {error : ParseError}
    (hTrace : setup.options.traceRecovery = true) (h : Reaches setup s t) (hStart : s.errors = [])
    (hSplit : t.errors = front ++ error :: rest) (hError : error.problem.isMalformation = true)
    (hErrors : BeginAnew errors) :
    ∃ u, Reaches setup s u ∧ u.errors = front ∧ Noted setup u error (rest ++ errors) := by
  obtain ⟨u, v, failed, hReaches, hStep, hLater, hFront, hFailed⟩ :=
    exists_failed h hStart hSplit hError
  obtain ⟨new, hNew, hAnew⟩ := hLater.exists_new
  have hThere : v.errors = front ++ error :: notes setup failed := by
    rw [hStep.eq_resume hFailed, ← hFront]
    exact errors_of_resume (unmoved_of_error hFailed).1
  have hRest : rest = notes setup failed ++ new := by
    rw [hNew, hThere, List.append_assoc] at hSplit
    exact (List.cons.inj (List.append_cancel_left hSplit)).2.symm
  refine ⟨u, hReaches, hFront, ?_⟩
  rw [hRest, List.append_assoc]
  exact noted_of_advances hTrace hStep hFailed (beginAnew_append hAnew hErrors)

/-! ### Where a parse ends -/

theorem Final.beginAnew {errors : List ParseError} (h : Final setup t errors) :
    BeginAnew errors := by
  cases h with
  | accepted =>
      rintro first ⟨⟩
  | exhausted hMore hFatal =>
      rintro first ⟨⟩
      obtain ⟨limit, hLimit⟩ := exhausted_of_error hFatal
      rw [ParseError.isNote, hLimit]
      rfl
  | stopped hMore hError hMode =>
      rintro first ⟨⟩
      rw [ParseError.isNote, isError_of_malformation (malformed_of_error hError)]
      rfl

theorem Final.tail_sound {errors : List ParseError} (h : Final setup t errors) :
    ∀ other ∈ errors.tail, other.problem.isMalformation = false := by
  cases h with
  | stopped => exact List.forall_mem_singleton.2 rfl
  | _ => exact List.forall_mem_nil _

/-- Behind the error of a statement that ends a parse, nothing is noted. -/
theorem Final.noted {errors rest : List ParseError} {error : ParseError}
    (h : Final setup t errors) (hErrors : errors = error :: rest)
    (hError : error.problem.isMalformation = true) : Noted setup t error rest := by
  cases h with
  | accepted => cases hErrors
  | exhausted hMore hFatal =>
      obtain ⟨limit, hLimit⟩ := exhausted_of_error hFatal
      cases hErrors
      rw [hLimit] at hError
      cases hError
  | stopped hMore hFailed hMode =>
      cases hErrors
      exact ⟨hMore, _, hFailed, .inl ⟨hMode, rfl⟩⟩

section Run

variable {builder : σ} {tags : TagContext} {input : List Token}

/-- In a parse that notes what it passes over, the notes behind an error in a statement are on the
tokens between the one where the statement fails and the one where the parse goes on. -/
theorem run_noted (hTrace : setup.options.traceRecovery = true) {front rest : List ParseError}
    {error : ParseError} (hSplit : (run setup builder tags input).errors = front ++ error :: rest)
    (hError : error.problem.isMalformation = true) :
    ∃ s, Reaches setup (.begin builder tags input) s ∧ s.errors = front ∧
      Noted setup s error rest := by
  by_cases hRoom : 0 < setup.options.maxDepth
  · obtain ⟨t, final, hReaches, hFinal, hErrors⟩ := exists_final hRoom .refl
    have hTail := not_mem_of_sound hError hFinal.tail_sound
    rcases split_of_append (hErrors.symm.trans hSplit) hTail with
      ⟨others, hOld, rfl⟩ | ⟨hFront, hNew⟩
    · exact noted_of_reaches hTrace hReaches rfl hOld hError hFinal.beginAnew
    · exact ⟨t, hReaches, hFront, hFinal.noted hNew hError⟩
  · rw [run_of_no_room hRoom] at hSplit
    have hMem : error ∈ front ++ error :: rest := List.mem_append_right front List.mem_cons_self
    rw [← hSplit] at hMem
    rw [List.mem_singleton.1 hMem] at hError
    cases hError

end Run

/-! ## Both settings -/

/-- Two parses have ended in the same way, but for the name of the text and the notes. -/
structure State.EndsLike (s t : State σ) : Prop where
  phase_eq : s.phase = t.phase
  tags_eq : s.tags = t.tags
  builder_eq : s.builder = t.builder
  directives_eq : s.directives.map unnamed = t.directives.map unnamed
  errors_eq : (s.errors.filter fun error => error.problem.isError) =
    t.errors.filter fun error => error.problem.isError
  count_eq : ParseError.count s.errors = ParseError.count t.errors

theorem State.Alike.endsLike (h : s.Alike t) : s.EndsLike t where
  phase_eq := h.phase_eq
  tags_eq := by
    show s.bare.tags = t.bare.tags
    rw [h.bare_eq]
  builder_eq := by
    show s.bare.builder = t.bare.builder
    rw [h.bare_eq]
  directives_eq := h.directives_eq
  errors_eq := h.errors_eq
  count_eq := by
    rw [ParseError.count, ParseError.count, List.countP_eq_length_filter,
      List.countP_eq_length_filter, h.errors_eq]

/-- Noting what is passed over and naming the text do not influence a parse. Two parses under the
same limit that treat errors alike end in the same way. A parse that notes what it passes over
notes, behind each error in a statement, the tokens between the one where the statement fails and
the one where the parse goes on. -/
theorem run_indifferent {builder : Builder σ} (hBuilder : builder.IgnoresNames) {o p : Options}
    (hRecovery : o.recovery = p.recovery) (hDepth : o.maxDepth = p.maxDepth) (state : σ)
    (tags : TagContext) (input : List Token) :
    (run ⟨builder, o⟩ state tags input).EndsLike (run ⟨builder, p⟩ state tags input) ∧
    (o.traceRecovery = true → ∀ front error rest,
      (run ⟨builder, o⟩ state tags input).errors = front ++ error :: rest →
        error.problem.isMalformation = true →
          ∃ s, Reaches ⟨builder, o⟩ (.begin state tags input) s ∧ s.errors = front ∧
            Noted ⟨builder, o⟩ s error rest) := by
  have hSetup : (⟨builder, p⟩ : Setup σ) =
      (⟨builder, o⟩ : Setup σ).named p.filename p.traceRecovery := by
    show _ = (⟨builder, ⟨p.filename, o.maxDepth, o.recovery, p.traceRecovery⟩⟩ : Setup σ)
    rw [hRecovery, hDepth]
  refine ⟨?_, fun hTrace front error rest hSplit hError => run_noted hTrace hSplit hError⟩
  rw [hSetup]
  exact (run_alike hBuilder state tags input).endsLike

/-- A line where no statement can begin. -/
def strayLine : List Token :=
  [⟨.string, .text "stray", .origin⟩, ⟨.lineEnd, .absent, .origin⟩]

theorem run_indifferent_strayLine :
    Builder.standard.IgnoresNames ∧
    ({ traceRecovery := true } : Options).recovery = ({ filename := "stray" } : Options).recovery ∧
    ({ traceRecovery := true } : Options).maxDepth = ({ filename := "stray" } : Options).maxDepth ∧
    (run (.standard { traceRecovery := true }) () .empty strayLine).EndsLike
      (run (.standard { filename := "stray" }) () .empty strayLine) ∧
    (true = true → ∀ front error rest,
      (run (.standard { traceRecovery := true }) () .empty strayLine).errors =
          front ++ error :: rest →
        error.problem.isMalformation = true →
          ∃ s, Reaches (.standard { traceRecovery := true }) (.begin () .empty strayLine) s ∧
            s.errors = front ∧ Noted (.standard { traceRecovery := true }) s error rest) :=
  ⟨Builder.standard_ignoresNames, rfl, rfl, run_indifferent (o := { traceRecovery := true })
    (p := { filename := "stray" }) Builder.standard_ignoresNames rfl rfl () .empty strayLine⟩

end Parse

end LedgerText
