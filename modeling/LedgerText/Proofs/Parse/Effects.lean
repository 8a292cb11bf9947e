import LedgerText.Proofs.Parse.Course

/-!
# What statements do

A declaration that succeeds moves on in the text and has one more effect: it
adds a directive, switches a tag on or off, or does nothing else. Which of these
it is depends on its first token (`exists_effect`). A declaration that fails has
no effect, and is malformed or nested too deep (`malformed_of_error`). This holds
with every builder and under every nesting limit.

`Advances.inv` says the same of a statement, with what is reported if it fails.
From it follows what holds along a whole parse: directives and errors are added
behind those that are there and never taken back (`Reaches.grows`, `grows_run`),
and every error in a statement was reported where that statement failed
(`exists_failed`). What is reported last says how the parse ends (`Final`).
-/

namespace LedgerText.Parse

open Step

variable {σ α β : Type} {setup : Setup σ} {s t u : State σ}

/-! ## Declarations that succeed -/

/-- What a declaration does besides moving on in the text. -/
inductive Effect where
  | nothing
  | adds (directive : Spanned Directive)
  | pushes (tag : String)
  | pops (tag : String) (span : Span)

namespace Effect

/-- Brings an effect about. A tag that is not active cannot be switched off, which is reported. -/
def applyTo : Effect → State σ → State σ
  | .nothing, s => s
  | .adds x, s => { s with directives := s.directives ++ [x] }
  | .pushes tag, s => { s with tags := s.tags.push tag }
  | .pops tag span, s =>
      if s.tags.contains tag then
        { s with tags := s.tags.pop tag }
      else
        s.report ⟨.unbalancedPoptag tag, span⟩

/-- A declaration with the effect can begin in a state: its first token is the next one. -/
def BeginsAt : Effect → State σ → Prop
  | .nothing, s => s.lookahead.kind.startsStatement = false
  | .adds x, s => (s.lookahead.kind = .date ∨ s.lookahead.kind = .keyword .option) ∧
      x.span.start = s.lookahead.span.start
  | .pushes tag, s => s.lookahead.kind = .keyword .pushtag ∧ s.next.lookahead.kind = .tag ∧
      s.next.lookahead.value.text? = some tag
  | .pops tag _, s => s.lookahead.kind = .keyword .poptag ∧ s.next.lookahead.kind = .tag ∧
      s.next.lookahead.value.text? = some tag

end Effect

theorem exists_of_nested_eq_ok {m : Step σ α} {a : α} (h : nested setup m s = (.ok a, t)) :
    ∃ u, m { s with depth := s.depth + 1 } = (.ok a, u) ∧ t = { u with depth := u.depth - 1 } := by
  by_cases hDepth : s.depth < setup.options.maxDepth
  · exact (nested_eq_ok hDepth).1 h
  · rw [nested_of_no_room hDepth] at h
    cases h

/-- A dated statement covers the text from its date up to the token read last. -/
theorem span_of_entry {x : Spanned Directive} (h : entry setup s = (.ok x, t)) :
    x.span = s.lookahead.span.upTo t.lastSpan := by
  obtain ⟨u, hInner, rfl⟩ := exists_of_nested_eq_ok h
  rw [advance_bind] at hInner
  obtain ⟨date, v, -, hInner⟩ := bind_eq_ok.1 hInner
  obtain ⟨directive, w, -, hInner⟩ := bind_eq_ok.1 hInner
  cases hInner
  rfl

/-- An option covers the text from its keyword up to the token read last. -/
theorem span_of_option {x : Spanned Directive} (h : option setup s = (.ok x, t)) :
    x.span = s.lookahead.span.upTo t.lastSpan := by
  obtain ⟨u, hInner, rfl⟩ := exists_of_nested_eq_ok h
  rw [advance_bind] at hInner
  obtain ⟨key, v, -, hInner⟩ := bind_eq_ok.1 hInner
  obtain ⟨value, w, -, hInner⟩ := bind_eq_ok.1 hInner
  obtain ⟨-, p, -, hInner⟩ := bind_eq_ok.1 hInner
  obtain ⟨directive, q, -, hInner⟩ := bind_eq_ok.1 hInner
  cases hInner
  rfl

theorem Quiet.of_ok {room : Nat} {m : Step σ α} (hm : Quiet setup room m) {a : α}
    (h : m s = (.ok a, t)) : s.Unmoved t := by
  have hState := hm.unmoved s
  rw [h] at hState
  exact hState

/-- The tag behind a word, and what is done with it. -/
theorem exists_of_tag {f : String → Step σ Unit} {v : Unit}
    (h : (takeText .tag [.tag] >>= f) s.next = (.ok v, t)) :
    ∃ tag, s.next.lookahead.kind = .tag ∧ s.next.lookahead.value.text? = some tag ∧
      f tag s.next.next = (.ok v, t) := by
  obtain ⟨tag, u, hTake, hMore⟩ := bind_eq_ok.1 h
  obtain ⟨token, w, hToken, hText⟩ := bind_eq_ok.1 hTake
  obtain ⟨hValue, rfl⟩ := textOf_eq_ok.1 hText
  unfold take at hToken
  split at hToken
  · rename_i hKind
    cases hToken
    exact ⟨tag, hKind, hValue, hMore⟩
  · exact absurd hToken unexpected_ne_ok

/-- A declaration that succeeds has the effect that its first token stands for, and leaves alone
what it does not have to do with. -/
theorem exists_effect {v : Unit} (h : declaration setup s = (.ok v, t)) :
    ∃ (e : Effect) (u : State σ), s.Unmoved u ∧ e.BeginsAt s ∧ t = e.applyTo u := by
  have hEntry : Quiet setup 6 (entry setup) := quiet_entry
  have hOption : Quiet setup 1 (option setup) := quiet_option
  have hLineEnd : Quiet setup 0 (lineEnd []) := quiet_lineEnd []
  have hTwo : s.Unmoved s.next.next := (State.Unmoved.next s).trans (.next s.next)
  rw [declaration, peek_bind] at h
  generalize hKind : s.lookahead.kind = kind at h
  split at h
  · obtain ⟨x, u, hStep, hAccept⟩ := bind_eq_ok.1 h
    cases hAccept
    exact ⟨.adds x, u, hEntry.of_ok hStep, ⟨.inl hKind, by rw [span_of_entry hStep]; rfl⟩, rfl⟩
  · obtain ⟨x, u, hStep, hAccept⟩ := bind_eq_ok.1 h
    cases hAccept
    exact ⟨.adds x, u, hOption.of_ok hStep, ⟨.inr hKind, by rw [span_of_option hStep]; rfl⟩, rfl⟩
  · obtain ⟨tag, hTag, hText, hPush⟩ := exists_of_tag h
    cases hPush
    exact ⟨.pushes tag, s.next.next, hTwo, ⟨hKind, hTag, hText⟩, rfl⟩
  · obtain ⟨tag, hTag, hText, hPop⟩ := exists_of_tag h
    refine ⟨.pops tag (s.lookahead.span.upTo s.next.next.lastSpan), s.next.next, hTwo,
      ⟨hKind, hTag, hText⟩, ?_⟩
    change (if s.next.next.tags.contains tag = true then _ else _ : Except Halt Unit × State σ) = _
      at hPop
    rw [Effect.applyTo]
    by_cases hActive : s.next.next.tags.contains tag = true
    · rw [if_pos hActive] at hPop ⊢
      cases hPop
      rfl
    · rw [if_neg hActive] at hPop ⊢
      cases hPop
      rfl
  · exact ⟨.nothing, t, hLineEnd.of_ok h, by rw [Effect.BeginsAt, hKind]; rfl, rfl⟩
  · exact ⟨.nothing, t, hLineEnd.of_ok h, by rw [Effect.BeginsAt, hKind]; rfl, rfl⟩
  · exact ⟨.nothing, t, hLineEnd.of_ok h, by rw [Effect.BeginsAt, hKind]; rfl, rfl⟩
  · cases h
    exact ⟨.nothing, s.next, .next s, by rw [Effect.BeginsAt, hKind]; rfl, rfl⟩
  · exact absurd h unexpected_ne_ok

/-- What is read before it is added covers the text up to the token read last. -/
theorem span_of_accept {room : Nat} {m : Step σ (Spanned Directive)} {v : Unit}
    {x : Spanned Directive} (hQuiet : Quiet setup room m)
    (hSpan : ∀ y u, m s = (.ok y, u) → y.span = s.lookahead.span.upTo u.lastSpan)
    (h : (m >>= accept) s = (.ok v, t)) (hAdded : t.directives = s.directives ++ [x]) :
    x.span = s.lookahead.span.upTo t.lastSpan := by
  obtain ⟨y, u, hStep, hAccept⟩ := bind_eq_ok.1 h
  cases hAccept
  have hSame : u.directives ++ [y] = s.directives ++ [x] := hAdded
  rw [(hQuiet.of_ok hStep).directives_eq] at hSame
  cases List.append_cancel_left hSame
  exact hSpan x u hStep

/-- A directive covers the text from the first token of its statement up to the last. -/
theorem span_of_added {v : Unit} {x : Spanned Directive} (h : declaration setup s = (.ok v, t))
    (hKind : s.lookahead.kind = .date ∨ s.lookahead.kind = .keyword .option)
    (hAdded : t.directives = s.directives ++ [x]) :
    x.span = s.lookahead.span.upTo t.lastSpan := by
  have hEntry : Quiet setup 6 (entry setup) := quiet_entry
  have hOption : Quiet setup 1 (option setup) := quiet_option
  rw [declaration, peek_bind] at h
  rcases hKind with hDate | hWord
  · rw [hDate] at h
    exact span_of_accept hEntry (fun _ _ => span_of_entry) h hAdded
  · rw [hWord] at h
    exact span_of_accept hOption (fun _ _ => span_of_option) h hAdded

/-! ## Declarations that fail -/

/-- Under every limit, an error in a statement is that the statement is malformed. -/
theorem malformed_of_error {error : ParseError}
    (h : declaration setup s = (.error (.statement error), t)) :
    error.problem.isMalformation = true := by
  have hRoom : s.depth + 6 ≤ (setup.raised (s.depth + 6)).options.maxDepth := Nat.le_max_right _ _
  obtain ⟨-, cause, hCause, hProblem⟩ := declaration_eq_error hRoom (error_raised h)
  cases hCause
  exact hProblem

/-- What ends a parse in the middle of a statement is the nesting limit. -/
theorem exhausted_of_error {error : ParseError}
    (h : declaration setup s = (.error (.fatal error), t)) :
    ∃ limit, error.problem = .stackExhausted limit :=
  (unmoved_of_error h).2.1

/-! ## Statements -/

/-- A statement that lets the parse go on has succeeded, with some effect, or is malformed. Then
its error is reported, and nothing else but notes on what is passed over. -/
theorem Advances.inv (h : Advances setup s t) :
    (declaration setup s = (.ok (), t) ∧
      ∃ (e : Effect) (u : State σ), s.Unmoved u ∧ e.BeginsAt s ∧ t = e.applyTo u) ∨
    ∃ error u, declaration setup s = (.error (.statement error), u) ∧
      error.problem.isMalformation = true ∧ s.Unmoved u ∧
        setup.options.recovery = .resynchronize ∧
          t = (u.report error).resume setup.options.traceRecovery := by
  rcases statement_eq_ok.1 h.2 with hOk | ⟨error, u, hError, hMode, hState⟩
  · exact .inl ⟨hOk, exists_effect hOk⟩
  · exact .inr ⟨error, u, hError, malformed_of_error hError, (unmoved_of_error hError).1, hMode,
      hState⟩

/-- Where the declaration failed, the parse goes on behind what is passed over. -/
theorem Advances.eq_resume {error : ParseError} {failed : State σ} (h : Advances setup s t)
    (hError : declaration setup s = (.error (.statement error), failed)) :
    t = (failed.report error).resume setup.options.traceRecovery := by
  rcases statement_eq_ok.1 h.2 with hOk | ⟨other, u, hOther, -, hState⟩
  · rw [hOk] at hError
    cases hError
  · rw [hOther] at hError
    cases hError
    exact hState

/-- The notes on what is passed over behind a failed statement. -/
def notes (setup : Setup σ) (s : State σ) : List ParseError :=
  if setup.options.traceRecovery then (discarded s.atLineStart s.input).map discardedNote else []

/-- Behind a failed statement, its error has been reported, and notes. -/
theorem errors_of_resume {error : ParseError} (h : s.Unmoved u) :
    ((u.report error).resume setup.options.traceRecovery).errors =
      s.errors ++ error :: notes setup u := by
  rw [← h.errors_eq, ← List.singleton_append, ← List.append_assoc]
  rfl

theorem exists_of_mem_notes {note : ParseError} (h : note ∈ notes setup s) :
    ∃ token, note = discardedNote token := by
  unfold notes at h
  split at h
  · obtain ⟨token, -, rfl⟩ := List.mem_map.1 h
    exact ⟨token, rfl⟩
  · cases h

theorem Effect.errors_applyTo (e : Effect) (s : State σ) : (e.applyTo s).errors = s.errors ∨
    ∃ tag span, (e.applyTo s).errors = s.errors ++ [⟨.unbalancedPoptag tag, span⟩] := by
  cases e with
  | pops tag span =>
      rw [Effect.applyTo]
      split
      · exact .inl rfl
      · exact .inr ⟨tag, span, rfl⟩
  | _ => exact .inl rfl

/-- A statement adds no directive, or one and reports nothing. -/
theorem Advances.adds_cases (h : Advances setup s t) : t.directives = s.directives ∨
    ∃ x, declaration setup s = (.ok (), t) ∧
      (s.lookahead.kind = .date ∨ s.lookahead.kind = .keyword .option) ∧
        t.directives = s.directives ++ [x] ∧ t.errors = s.errors := by
  rcases h.inv with ⟨hOk, e, u, hState, hBegins, rfl⟩ | ⟨error, u, -, -, hState, -, rfl⟩
  · cases e with
    | adds x =>
        exact .inr ⟨x, hOk, hBegins.1, congrArg (· ++ [x]) hState.directives_eq, hState.errors_eq⟩
    | pops tag span =>
        left
        rw [Effect.applyTo]
        split
        · exact hState.directives_eq
        · exact hState.directives_eq
    | _ => exact .inl hState.directives_eq
  · exact .inl hState.directives_eq

/-- A statement reports at most that a tag was not active, or it is malformed. -/
theorem Advances.errors_cases (h : Advances setup s t) :
    (declaration setup s = (.ok (), t) ∧ (t.errors = s.errors ∨
      ∃ tag span, t.errors = s.errors ++ [⟨.unbalancedPoptag tag, span⟩])) ∨
    ∃ error u, declaration setup s = (.error (.statement error), u) ∧
      error.problem.isMalformation = true ∧ t.errors = s.errors ++ error :: notes setup u := by
  rcases h.inv with ⟨hOk, e, u, hState, -, rfl⟩ | ⟨error, u, hError, hProblem, hState, -, rfl⟩
  · exact .inl ⟨hOk, hState.errors_eq ▸ e.errors_applyTo u⟩
  · exact .inr ⟨error, u, hError, hProblem, errors_of_resume hState⟩

/-- What a statement reports that lets the parse go on does not end it. -/
theorem Advances.not_fatal (h : Advances setup s t)
    (hs : ∀ error ∈ s.errors, error.problem.isFatal = false) :
    ∀ error ∈ t.errors, error.problem.isFatal = false := by
  rcases h.errors_cases with ⟨-, hSame | ⟨tag, span, hMore⟩⟩ | ⟨error, u, -, hProblem, hMore⟩
  · exact hSame ▸ hs
  · rw [hMore, List.forall_mem_append, List.forall_mem_singleton]
    exact ⟨hs, rfl⟩
  · rw [hMore, List.forall_mem_append, List.forall_mem_cons]
    refine ⟨hs, not_fatal_of_malformation hProblem, fun note hNote => ?_⟩
    obtain ⟨token, rfl⟩ := exists_of_mem_notes hNote
    rfl

theorem Reaches.not_fatal (h : Reaches setup s t)
    (hs : ∀ error ∈ s.errors, error.problem.isFatal = false) :
    ∀ error ∈ t.errors, error.problem.isFatal = false := by
  induction h with
  | refl => exact hs
  | tail _ hStep ih => exact hStep.not_fatal ih

/-! ## Growth -/

/-- Directives and errors have been added, and none taken back. -/
structure State.Grows (s t : State σ) : Prop where
  directives : s.directives <+: t.directives
  errors : s.errors <+: t.errors

namespace State.Grows

theorem refl (s : State σ) : s.Grows s := ⟨List.prefix_refl _, List.prefix_refl _⟩

theorem trans (h : s.Grows t) (k : t.Grows u) : s.Grows u :=
  ⟨h.directives.trans k.directives, h.errors.trans k.errors⟩

theorem of_unmoved (h : s.Unmoved t) : s.Grows t :=
  ⟨h.directives_eq ▸ List.prefix_refl _, h.errors_eq ▸ List.prefix_refl _⟩

theorem report (s : State σ) (error : ParseError) : s.Grows (s.report error) :=
  ⟨List.prefix_refl _, List.prefix_append _ _⟩

theorem abort (s : State σ) (error : ParseError) : s.Grows (s.abort error) :=
  ⟨List.prefix_refl _, List.prefix_append _ _⟩

theorem resume (s : State σ) (trace : Bool) : s.Grows (s.resume trace) :=
  ⟨List.prefix_refl _, List.prefix_append _ _⟩

theorem applyTo (e : Effect) (s : State σ) : s.Grows (e.applyTo s) := by
  cases e with
  | nothing => exact refl s
  | adds x => exact ⟨List.prefix_append _ _, List.prefix_refl _⟩
  | pushes tag => exact ⟨List.prefix_refl _, List.prefix_refl _⟩
  | pops tag span =>
      rw [Effect.applyTo]
      split
      · exact ⟨List.prefix_refl _, List.prefix_refl _⟩
      · exact report _ _

end State.Grows

theorem Advances.grows (h : Advances setup s t) : s.Grows t := by
  rcases h.inv with ⟨-, e, u, hState, -, rfl⟩ | ⟨error, u, -, -, hState, -, rfl⟩
  · exact (State.Grows.of_unmoved hState).trans (.applyTo e u)
  · exact ((State.Grows.of_unmoved hState).trans (.report u error)).trans (.resume _ _)

theorem Reaches.grows (h : Reaches setup s t) : s.Grows t := by
  induction h with
  | refl => exact .refl s
  | tail _ hStep ih => exact ih.trans hStep.grows

/-! ## Where errors come from -/

/-- Where a list with one element at its end is split, that element is where it is split, or the
element there is in front of it. -/
theorem split_concat {α : Type} {before front back : List α} {last a : α}
    (h : before ++ [last] = front ++ a :: back) :
    (back = [] ∧ a = last ∧ front = before) ∨ a ∈ before := by
  rcases List.eq_nil_or_concat back with rfl | ⟨others, b, rfl⟩
  · obtain ⟨rfl, hLast⟩ := List.append_inj' h rfl
    cases hLast
    exact .inl ⟨rfl, rfl, rfl⟩
  · have hSame : before ++ [last] = (front ++ a :: others) ++ [b] := by
      rw [h]
      simp
    obtain ⟨rfl, -⟩ := List.append_inj' hSame rfl
    exact .inr (List.mem_append_right _ List.mem_cons_self)

/-- Where errors are added, one that can be only the first of them was there before, or it is the
first one. -/
theorem split_of_append {old new front rest : List ParseError} {error : ParseError}
    (h : old ++ new = front ++ error :: rest) (hNew : error ∉ new.tail) :
    (∃ others, old = front ++ error :: others ∧ rest = others ++ new) ∨
      old = front ∧ new = error :: rest := by
  rcases List.append_eq_append_iff.1 h with ⟨before, rfl, hBefore⟩ | ⟨after, rfl, hAfter⟩
  · cases before with
    | nil => exact .inr ⟨(List.append_nil old).symm, hBefore⟩
    | cons first others =>
        apply absurd _ hNew
        rw [hBefore]
        exact List.mem_append_right others List.mem_cons_self
  · cases after with
    | nil => exact .inr ⟨List.append_nil front, hAfter.symm⟩
    | cons first others =>
        cases hAfter
        exact .inl ⟨others, rfl, rfl⟩

theorem not_mem_of_sound {errors : List ParseError} {error : ParseError}
    (hError : error.problem.isMalformation = true)
    (h : ∀ other ∈ errors, other.problem.isMalformation = false) : error ∉ errors := by
  intro hMem
  rw [h error hMem] at hError
  cases hError

/-- What a statement reports begins with an error, which is its own if it is malformed. No other one
is about a malformed statement. -/
theorem Advances.exists_new (h : Advances setup s t) : ∃ new, t.errors = s.errors ++ new ∧
    (∀ first ∈ new.head?, first.problem.isError = true) ∧
    (∀ other ∈ new.tail, other.problem.isMalformation = false) ∧
    ∀ error rest, new = error :: rest → error.problem.isMalformation = true →
      ∃ failed, declaration setup s = (.error (.statement error), failed) := by
  rcases h.errors_cases with ⟨-, hSame | ⟨tag, span, hMore⟩⟩ | ⟨error, u, hError, hProblem, hMore⟩
  · refine ⟨[], hSame.trans (List.append_nil _).symm, ?_, List.forall_mem_nil _, ?_⟩
    · rintro first ⟨⟩
    · rintro error rest ⟨⟩
  · refine ⟨_, hMore, ?_, List.forall_mem_nil _, ?_⟩
    · rintro first ⟨⟩
      rfl
    · rintro error rest ⟨⟩ hProblem
      cases hProblem
  · refine ⟨_, hMore, ?_, fun note hNote => ?_, ?_⟩
    · rintro first ⟨⟩
      exact isError_of_malformation hProblem
    · obtain ⟨token, rfl⟩ := exists_of_mem_notes hNote
      rfl
    · rintro other rest ⟨⟩ -
      exact ⟨u, hError⟩

/-- Every error in a statement was reported where that statement failed. -/
theorem exists_failed {front rest : List ParseError} {error : ParseError} (h : Reaches setup s t)
    (hStart : s.errors = []) (hSplit : t.errors = front ++ error :: rest)
    (hError : error.problem.isMalformation = true) :
    ∃ u v failed, Reaches setup s u ∧ Advances setup u v ∧ Reaches setup v t ∧ u.errors = front ∧
      declaration setup u = (.error (.statement error), failed) := by
  induction h generalizing rest with
  | refl =>
      rw [hStart] at hSplit
      cases front <;> cases hSplit
  | @tail p q hReaches hStep ih =>
      obtain ⟨new, hAdded, -, hTail, hFirst⟩ := hStep.exists_new
      rcases split_of_append (hAdded.symm.trans hSplit) (not_mem_of_sound hError hTail) with
        ⟨others, hOld, -⟩ | ⟨hFront, hNew⟩
      · obtain ⟨u, v, failed, hu, hv, hRest, hThere⟩ := ih hOld
        exact ⟨u, v, failed, hu, hv, hRest.tail hStep, hThere⟩
      · obtain ⟨failed, hFailed⟩ := hFirst error rest hNew hError
        exact ⟨p, q, failed, hReaches, hStep, .refl, hFront, hFailed⟩

/-! ## Statements that end a parse -/

/-- A statement that ends the parse reports nothing but its error. -/
theorem grows_of_statement {halt : Halt} (h : statement setup s = (.error halt, t)) :
    s.Grows t := by
  rcases statement_eq_error.1 h with ⟨error, hError, -⟩ | ⟨error, u, hError, -, -, rfl⟩
  · exact .of_unmoved (unmoved_of_error hError).1
  · exact (State.Grows.of_unmoved (unmoved_of_error hError).1).trans (.report u error)

/-! ## The rest of a parse -/

section Run

variable {builder : σ} {tags : TagContext} {input : List Token}

theorem statements_of_reaches (h : Reaches setup s t) : statements setup s = statements setup t := by
  induction h with
  | refl => rfl
  | tail _ hStep ih => exact ih.trans (statements_of_ok hStep.1 hStep.2)

/-- A parse that reaches the end of the text ends there. -/
theorem run_of_stop (hRoom : 0 < setup.options.maxDepth)
    (h : Reaches setup (.begin builder tags input) t) (hStop : moreAhead t = false) :
    run setup builder tags input = { t with depth := t.depth - 1, phase := .accepted } :=
  run_of_ok hRoom ((statements_of_reaches h).trans (statements_of_false hStop))

/-- A parse that reaches a statement which ends it ends there. -/
theorem run_of_halt {halt : Halt} (hRoom : 0 < setup.options.maxDepth)
    (h : Reaches setup (.begin builder tags input) t) (hMore : moreAhead t = true)
    (hStep : statement setup t = (.error halt, u)) :
    run setup builder tags input = u.abort halt.error :=
  run_of_error hRoom ((statements_of_reaches h).trans (statements_of_error hMore hStep))

/-- From every state that it reaches, a parse goes on to its end. -/
theorem run_of_reaches (hRoom : 0 < setup.options.maxDepth)
    (h : Reaches setup (.begin builder tags input) s) :
    (∃ t, Reaches setup s t ∧ moreAhead t = false ∧
      run setup builder tags input = { t with depth := t.depth - 1, phase := .accepted }) ∨
    ∃ t halt u, Reaches setup s t ∧ moreAhead t = true ∧ statement setup t = (.error halt, u) ∧
      run setup builder tags input = u.abort halt.error := by
  obtain ⟨t, hReaches, hEnd⟩ := exists_course setup s
  rcases hEnd with ⟨hStop, -⟩ | ⟨halt, u, hMore, hStep, -⟩
  · exact .inl ⟨t, hReaches, hStop, run_of_stop hRoom (h.trans hReaches) hStop⟩
  · exact .inr ⟨t, halt, u, hReaches, hMore, hStep, run_of_halt hRoom (h.trans hReaches) hMore hStep⟩

/-- What is reported in the last state that a parse reaches. -/
inductive Final (setup : Setup σ) (t : State σ) : List ParseError → Prop where
  /-- The text ends there. -/
  | accepted (stop : moreAhead t = false) : Final setup t []
  /-- The next statement is nested too deep. -/
  | exhausted {error : ParseError} {u : State σ} (more : moreAhead t = true)
      (failed : declaration setup t = (.error (.fatal error), u)) : Final setup t [error]
  /-- The next statement is malformed, and nothing is set to go on after that. -/
  | stopped {error : ParseError} {u : State σ} (more : moreAhead t = true)
      (failed : declaration setup t = (.error (.statement error), u))
      (mode : setup.options.recovery = .abort) :
      Final setup t [error, ⟨.recoveryExhausted, error.span⟩]

/-- The errors of a parse are those of the last state that it reaches, and what is reported
there. -/
theorem exists_final (hRoom : 0 < setup.options.maxDepth)
    (h : Reaches setup (.begin builder tags input) s) : ∃ t final, Reaches setup s t ∧
      Final setup t final ∧ (run setup builder tags input).errors = t.errors ++ final := by
  rcases run_of_reaches hRoom h with ⟨t, hReaches, hStop, hRun⟩ |
    ⟨t, halt, u, hReaches, hMore, hStep, hRun⟩
  · refine ⟨t, [], hReaches, .accepted hStop, ?_⟩
    rw [hRun, List.append_nil]
  · rcases statement_eq_error.1 hStep with ⟨error, hFatal, rfl⟩ |
      ⟨error, failed, hError, hMode, rfl, rfl⟩
    · refine ⟨t, [error], hReaches, .exhausted hMore hFatal, ?_⟩
      rw [hRun, ← (unmoved_of_error hFatal).1.errors_eq]
      rfl
    · refine ⟨t, _, hReaches, .stopped hMore hError hMode, ?_⟩
      rw [hRun, ← (unmoved_of_error hError).1.errors_eq]
      exact List.append_assoc failed.errors [error] _

/-- All that was added when a parse reached a state is still there when it ends. -/
theorem grows_run (hRoom : 0 < setup.options.maxDepth)
    (h : Reaches setup (.begin builder tags input) s) :
    s.Grows (run setup builder tags input) := by
  rcases run_of_reaches hRoom h with ⟨t, hReaches, -, hRun⟩ | ⟨t, halt, u, hReaches, -, hStep, hRun⟩
  · rw [hRun]
    exact ⟨hReaches.grows.directives, hReaches.grows.errors⟩
  · rw [hRun]
    exact (hReaches.grows.trans (grows_of_statement hStep)).trans (.abort u _)

end Run

end LedgerText.Parse
