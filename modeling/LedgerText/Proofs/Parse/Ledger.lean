import LedgerText.Parse.Run
import LedgerText.Proofs.Grammar.Reading

/-!
# A parse as a sequence of statements

A text is one statement after the other. `statements` is the part of a parse
that is about them, without the level of nesting and the phase that the text as
a whole accounts for. It does nothing at the end of the text, and before it
reads a statement and begins again (`statements_of_false`, `statements_of_true`).
-/

namespace LedgerText.Parse

open Grammar Step

variable {σ : Type} {setup : Setup σ} {s t : State σ}

theorem moreAhead_iff (s : State σ) : moreAhead s = true ↔ nextKind s.input ≠ .endOfInput := by
  rw [moreAhead, State.lookahead_kind, decide_eq_true_eq]

theorem statement_of_ok {s t : State σ} {v : Unit} (h : declaration setup s = (.ok v, t)) :
    statement setup s = (.ok v, t) := by
  rw [statement, h]

theorem statement_of_error {s t : State σ} {error : ParseError}
    (hMode : setup.options.recovery = .resynchronize)
    (h : declaration setup s = (.error (.statement error), t)) :
    statement setup s = (.ok (), (t.report error).resume setup.options.traceRecovery) := by
  rw [statement, h]
  show recover setup error t = _
  rw [recover, hMode]

/-- The statements of a text, up to its end. -/
def statements (setup : Setup σ) : Step σ Unit := do
  let _ ← repeatWhile moreAhead (statement setup) moreAhead_ne (consumes_statement setup)
  pure ()

theorem statements_of_false (hs : moreAhead s = false) :
    statements setup s = (.ok (), s) := by
  rw [statements, bind_of_ok (repeatWhile_of_false hs)]
  rfl

theorem statements_of_true (hs : moreAhead s = true) :
    statements setup s = (statement setup >>= fun _ => statements setup) s := by
  have hUnfold : repeatWhile moreAhead (statement setup) moreAhead_ne (consumes_statement setup) s =
      (statement setup >>= fun a => repeatWhile moreAhead (statement setup) moreAhead_ne
        (consumes_statement setup) >>= fun others => pure (a :: others)) s :=
    repeatWhile_of_true hs
  rcases hStep : statement setup s with ⟨result, t⟩
  cases result with
  | error halt =>
      rw [bind_of_error hStep] at hUnfold ⊢
      rw [statements, bind_of_error hUnfold]
  | ok v =>
      rw [bind_of_ok hStep] at hUnfold ⊢
      rw [statements]
      rcases hRest : repeatWhile moreAhead (statement setup) moreAhead_ne
        (consumes_statement setup) t with ⟨others, u⟩
      cases others with
      | error halt =>
          rw [bind_of_error hRest] at hUnfold ⊢
          rw [bind_of_error hUnfold]
      | ok values =>
          rw [bind_of_ok hRest] at hUnfold ⊢
          rw [bind_of_ok hUnfold]

theorem statements_of_ok {v : Unit} (hs : moreAhead s = true)
    (h : statement setup s = (.ok v, t)) : statements setup s = statements setup t := by
  rw [statements_of_true hs, bind_of_ok h]

theorem statements_of_error {halt : Halt} (hs : moreAhead s = true)
    (h : statement setup s = (.error halt, t)) : statements setup s = (.error halt, t) := by
  rw [statements_of_true hs, bind_of_error h]

/-! ## The whole text -/

/-- The state before the first statement. -/
def State.begin (builder : σ) (tags : TagContext) (input : List Token) : State σ :=
  { State.start builder tags input with depth := 1 }

section Run

variable {builder : σ} {tags : TagContext} {input : List Token}

/-- A text is accepted where its statements come to an end. -/
theorem run_of_ok {v : Unit} (hDepth : 0 < setup.options.maxDepth)
    (h : statements setup (.begin builder tags input) = (.ok v, t)) :
    run setup builder tags input = { t with depth := t.depth - 1, phase := .accepted } := by
  have hFile : file setup (.start builder tags input) =
      (.ok v, { t with depth := t.depth - 1 }) := nested_of_ok hDepth h
  rw [run, hFile]

/-- An error that ends the statements of a text ends the parse. -/
theorem run_of_error {halt : Halt} (hDepth : 0 < setup.options.maxDepth)
    (h : statements setup (.begin builder tags input) = (.error halt, t)) :
    run setup builder tags input = t.abort halt.error := by
  have hFile : file setup (.start builder tags input) = (.error halt, t) :=
    nested_of_error hDepth h
  rw [run, hFile]

/-- Without room for a single statement, a parse ends where it begins. -/
theorem run_of_no_room (hDepth : ¬ 0 < setup.options.maxDepth) :
    run setup builder tags input = (State.start builder tags input).abort
      ⟨.stackExhausted setup.options.maxDepth,
        (State.start builder tags input).lookahead.span⟩ := by
  have hFile : file setup (.start builder tags input) = (.error (.fatal
      ⟨.stackExhausted setup.options.maxDepth,
        (State.start builder tags input).lookahead.span⟩), .start builder tags input) :=
    nested_of_no_room hDepth (statements setup)
  rw [run, hFile]
  rfl

end Run

end LedgerText.Parse
