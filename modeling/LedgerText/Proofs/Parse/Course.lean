import LedgerText.Proofs.Parse.Ledger
import LedgerText.Proofs.Parse.Nesting
import LedgerText.Proofs.Parse.Quiet
import Mathlib.Logic.Relation

/-!
# The course of a parse

A parse goes from statement to statement. `Reaches` relates the states in front
of its statements, whatever becomes of them; it is the relation by which facts
about all states of a parse are proved, one statement at a time. A parse ends in
the last of these states, at the end of the text or with an error in the
statement that begins there (`run_cases`).

With the standard builder, every directive of a parse was added by a declaration
that succeeded in one of these states (`exists_added`).
-/

namespace LedgerText.Parse

open Grammar Step

variable {σ : Type} {setup : Setup σ} {s t u : State σ}

/-- A statement leads from one state to another. -/
def Advances (setup : Setup σ) (s t : State σ) : Prop :=
  moreAhead s = true ∧ statement setup s = (.ok (), t)

/-- Whole statements lead from one state to another. -/
abbrev Reaches (setup : Setup σ) : State σ → State σ → Prop :=
  Relation.ReflTransGen (Advances setup)

/-! ## One statement -/

/-- A statement that lets the parse go on has succeeded, or was malformed and is passed over. -/
theorem statement_eq_ok {v : Unit} : statement setup s = (.ok v, t) ↔
    declaration setup s = (.ok v, t) ∨ ∃ error u,
      declaration setup s = (.error (.statement error), u) ∧
        setup.options.recovery = .resynchronize ∧
          t = (u.report error).resume setup.options.traceRecovery := by
  rcases hStep : declaration setup s with ⟨result, u⟩
  unfold statement
  rw [hStep]
  cases result with
  | ok a => simp
  | error halt =>
      cases halt with
      | fatal error => simp
      | statement error =>
          unfold recover
          cases hMode : setup.options.recovery with
          | resynchronize => simp [eq_comm, and_assoc]
          | abort => simp

/-- A statement ends the parse where it is nested too deep, or if it is malformed and nothing is set
to go on after that. -/
theorem statement_eq_error {halt : Halt} : statement setup s = (.error halt, t) ↔
    (∃ error, declaration setup s = (.error (.fatal error), t) ∧ halt = .fatal error) ∨
      ∃ error u, declaration setup s = (.error (.statement error), u) ∧
        setup.options.recovery = .abort ∧ halt = .fatal ⟨.recoveryExhausted, error.span⟩ ∧
          t = u.report error := by
  rcases hStep : declaration setup s with ⟨result, u⟩
  unfold statement
  rw [hStep]
  cases result with
  | ok a => simp
  | error stopped =>
      cases stopped with
      | fatal error =>
          simp only [Prod.mk.injEq, Except.error.injEq, Halt.fatal.injEq, reduceCtorEq, false_and,
            exists_false, or_false]
          constructor
          · rintro ⟨rfl, rfl⟩
            exact ⟨error, ⟨rfl, rfl⟩, rfl⟩
          · rintro ⟨other, ⟨rfl, rfl⟩, rfl⟩
            exact ⟨rfl, rfl⟩
      | statement error =>
          unfold recover
          cases hMode : setup.options.recovery with
          | resynchronize => simp
          | abort => simp [eq_comm, and_assoc]

/-- Every statement begins where only the production that reads the statements has been begun. -/
theorem Advances.depth_eq (h : Advances setup s t) (hDepth : s.depth = 1) : t.depth = 1 := by
  rcases statement_eq_ok.1 h.2 with hStep | ⟨error, u, hStep, -, rfl⟩
  · exact (depth_of_ok hStep).trans hDepth
  · have hDeep : 1 ≤ u.depth := hDepth ▸ depth_of_error hStep
    exact Nat.min_eq_right hDeep

theorem Reaches.depth_eq (h : Reaches setup s t) (hDepth : s.depth = 1) : t.depth = 1 := by
  induction h with
  | refl => exact hDepth
  | tail _ hStep ih => exact hStep.depth_eq ih

theorem Advances.input_lt (h : Advances setup s t) : t.input.length < s.input.length :=
  consumes_statement setup s () t (moreAhead_ne s h.1) h.2

theorem Reaches.input_le (h : Reaches setup s t) : t.input.length ≤ s.input.length := by
  induction h with
  | refl => exact Nat.le_refl _
  | tail _ hStep ih => exact Nat.le_trans (Nat.le_of_lt hStep.input_lt) ih

/-! ## All statements -/

/-- The statements of a text come to the end of it, or to one that ends the parse. -/
theorem exists_course (setup : Setup σ) (s : State σ) : ∃ t, Reaches setup s t ∧
    ((moreAhead t = false ∧ statements setup s = (.ok (), t)) ∨
      ∃ halt u, moreAhead t = true ∧ statement setup t = (.error halt, u) ∧
        statements setup s = (.error halt, u)) := by
  generalize hLength : s.input.length = length
  induction length using Nat.strongRecOn generalizing s with
  | _ length ih =>
      subst hLength
      by_cases hs : moreAhead s = true
      · rcases hStep : statement setup s with ⟨result, u⟩
        cases result with
        | error halt =>
            exact ⟨s, .refl, .inr ⟨halt, u, hs, hStep, statements_of_error hs hStep⟩⟩
        | ok v =>
            have hLess := consumes_statement setup s v u (moreAhead_ne s hs) hStep
            obtain ⟨t, hReaches, hEnd⟩ := ih _ hLess u rfl
            rw [statements_of_ok hs hStep]
            exact ⟨t, .head ⟨hs, hStep⟩ hReaches, hEnd⟩
      · have hStop : moreAhead s = false := by simpa using hs
        exact ⟨s, .refl, .inl ⟨hStop, statements_of_false hStop⟩⟩

/-- A parse has no room for any statement, or reaches the end of the text, or a statement that ends
it. -/
theorem run_cases (setup : Setup σ) (builder : σ) (tags : TagContext) (input : List Token) :
    (setup.options.maxDepth = 0 ∧ run setup builder tags input =
      (State.start builder tags input).abort ⟨.stackExhausted setup.options.maxDepth,
        (State.start builder tags input).lookahead.span⟩) ∨
    (∃ t, Reaches setup (.begin builder tags input) t ∧ moreAhead t = false ∧
      run setup builder tags input = { t with depth := t.depth - 1, phase := .accepted }) ∨
    ∃ t halt u, Reaches setup (.begin builder tags input) t ∧ moreAhead t = true ∧
      statement setup t = (.error halt, u) ∧
        run setup builder tags input = u.abort halt.error := by
  by_cases hDepth : 0 < setup.options.maxDepth
  · obtain ⟨t, hReaches, hEnd⟩ := exists_course setup (.begin builder tags input)
    rcases hEnd with ⟨hStop, hRun⟩ | ⟨halt, u, hMore, hStep, hRun⟩
    · exact .inr (.inl ⟨t, hReaches, hStop, run_of_ok hDepth hRun⟩)
    · exact .inr (.inr ⟨t, halt, u, hReaches, hMore, hStep, run_of_error hDepth hRun⟩)
  · exact .inl ⟨Nat.le_zero.1 (Nat.le_of_not_lt hDepth), run_of_no_room hDepth⟩

/-! ## Directives -/

section Standard

variable {options : Options} {s t u : State Unit} {before after : List (Spanned Directive)}
  {x : Spanned Directive}

/-- A tree adds at most one directive. -/
theorem directives_of_applyTo? {n : DeclarationNode} {filename : String}
    (h : n.applyTo? filename s = some t) :
    t.directives = s.directives ∨ ∃ (m : StatementNode) (x : Spanned Directive),
      n = .statement m ∧ m.directive? filename s.tags = some x ∧
        t.directives = s.directives ++ [x] := by
  cases n with
  | statement m =>
      obtain ⟨x, hValue, rfl⟩ := Option.map_eq_some_iff.1 h
      exact .inr ⟨m, x, rfl, hValue, rfl⟩
  | pushtag word tag =>
      obtain ⟨text, -, rfl⟩ := Option.map_eq_some_iff.1 h
      exact .inl rfl
  | poptag word tag =>
      obtain ⟨text, -, rfl⟩ := Option.map_eq_some_iff.1 h
      left
      split <;> rfl
  | lineEnd e =>
      cases h
      exact .inl rfl
  | skipped line =>
      cases h
      exact .inl rfl

/-- A declaration that adds a directive has read a statement that stands for it. -/
def Adds (options : Options) (s : State Unit) (x : Spanned Directive) : Prop :=
  ∃ (n : StatementNode) (u : State Unit), s.Reads n.tokens u ∧ n.Greedy u.input ∧
    n.directive? options.filename s.tags = some x

/-- A statement adds at most one directive, and none if it is malformed. -/
theorem Advances.directives_cases (h : Advances (.standard options) s t) :
    t.directives = s.directives ∨ ∃ x, Adds options s x ∧ t.directives = s.directives ++ [x] := by
  rcases statement_eq_ok.1 h.2 with hStep | ⟨error, u, hStep, -, rfl⟩
  · obtain ⟨n, u, hReads, hGreedy, hState⟩ := exists_node hStep
    rcases directives_of_applyTo? hState with hSame | ⟨m, x, rfl, hValue, hAdded⟩
    · left
      rw [hSame, hReads.state_eq]
    · right
      rw [hReads.tags_eq] at hValue
      refine ⟨x, ⟨m, u, hReads, hGreedy, hValue⟩, ?_⟩
      rw [hAdded, hReads.state_eq]
  · exact .inl (unmoved_of_error hStep).1.directives_eq

/-- Every directive was added by a statement that led from one state of the parse to the next. -/
theorem exists_added (h : Reaches (.standard options) s t) (hStart : s.directives = [])
    (hSplit : t.directives = before ++ x :: after) :
    ∃ u v, Reaches (.standard options) s u ∧ Advances (.standard options) u v ∧
      u.directives = before ∧ v.directives = before ++ [x] ∧ Adds options u x := by
  induction h generalizing after with
  | refl =>
      rw [hStart] at hSplit
      exact absurd hSplit.symm (by simp)
  | @tail p q hReaches hStep ih =>
      rcases hStep.directives_cases with hSame | ⟨y, hAdds, hAdded⟩
      · exact ih (hSame.symm.trans hSplit)
      · rw [hAdded] at hSplit
        -- The directive is the last one, or was there before.
        rcases List.eq_nil_or_concat after with rfl | ⟨others, z, rfl⟩
        · obtain ⟨hBefore, hLast⟩ := List.append_inj' hSplit rfl
          cases hLast
          exact ⟨p, q, hReaches, hStep, hBefore, hAdded.trans (hBefore ▸ rfl), hAdds⟩
        · have hFront : p.directives ++ [y] = (before ++ x :: others) ++ [z] := by
            rw [hSplit]
            simp
          exact ih (List.append_inj' hFront rfl).1

/-- The directives of a parse are those of the last state it reaches. -/
theorem exists_last (options : Options) (tags : TagContext) (input : List Token) :
    ∃ t, Reaches (.standard options) (.begin () tags input) t ∧
      (run (.standard options) () tags input).directives = t.directives := by
  rcases run_cases (.standard options) () tags input with ⟨-, hRun⟩ | ⟨t, hReaches, -, hRun⟩ |
    ⟨t, halt, u, hReaches, -, hStep, hRun⟩
  · exact ⟨_, .refl, by rw [hRun]; rfl⟩
  · exact ⟨t, hReaches, by rw [hRun]⟩
  · refine ⟨t, hReaches, ?_⟩
    rw [hRun]
    show u.directives = t.directives
    rcases statement_eq_error.1 hStep with ⟨error, hError, -⟩ | ⟨error, w, hError, -, -, rfl⟩
    · exact (unmoved_of_error hError).1.directives_eq
    · exact (unmoved_of_error hError).1.directives_eq

end Standard

end LedgerText.Parse
