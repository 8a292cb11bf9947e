import LedgerText.Command
import LedgerText.Proofs.Recovery.Tracing

/-!
# What a check tells

The errors of a parse are counted more than once: by the parse itself as it
reports them, for the exit status, in the document for programs and in the
report in words. All of these counts are the same. `Json.Tells` says what the
document states of a parse, and `Checked` what a check of a text leaves behind,
in either format and under all flags.

Of the flags, only those that have to do with the parse influence the exit
status, and of these not the one for notes: notes do not count.
-/

namespace LedgerText

/-! ## Counts -/

namespace ParseError

variable {errors : List ParseError} {file : String} {source : List Char}

end ParseError

/-! ## Diagnostics -/

namespace Json

/-- What a diagnostic says under one of its names. -/
def says? (d : Json) (name : String) : Option String := (d.field? name).bind text?

/-- Whether a diagnostic is of an error, and not a note. -/
def isError (d : Json) : Bool := d.says? "severity" = some "error"

/-- Whether a diagnostic has the code of an error that ends a parse. -/
def isFatal (d : Json) : Bool := d.says? "code" = some "P0006" ∨ d.says? "code" = some "P0007"

end Json

namespace ParseError

variable {errors : List ParseError} {file : String}

end ParseError

/-! ## How a parse ends -/

namespace Parse

variable {σ : Type} {setup : Setup σ}

/-- How a parse ends: it is accepted with no error that ends a parse among its reports, or aborted
with one, which is the last of them. -/
theorem run_ends (setup : Setup σ) (builder : σ) (tags : TagContext) (input : List Token) :
    ((run setup builder tags input).phase = .accepted ∧
      ∀ e ∈ (run setup builder tags input).errors, e.problem.isFatal = false) ∨
    ((run setup builder tags input).phase = .aborted ∧
      ∃ before last, (run setup builder tags input).errors = before ++ [last] ∧
        last.problem.isFatal = true ∧ ∀ e ∈ before, e.problem.isFatal = false) := by
  rcases run_cases setup builder tags input with ⟨-, hRun⟩ | ⟨t, hReaches, -, hRun⟩ |
    ⟨t, halt, u, hReaches, -, hStep, hRun⟩
  · right
    rw [hRun]
    exact ⟨rfl, [], ⟨.stackExhausted _, _⟩, rfl, rfl, List.forall_mem_nil _⟩
  · left
    rw [hRun]
    exact ⟨rfl, hReaches.not_fatal (List.forall_mem_nil _)⟩
  · right
    have hBefore := hReaches.not_fatal (List.forall_mem_nil _)
    rw [hRun]
    rcases statement_eq_error.1 hStep with ⟨error, hError, rfl⟩ | ⟨error, w, hError, -, rfl, rfl⟩
    · obtain ⟨limit, hLimit⟩ := exhausted_of_error hError
      refine ⟨rfl, t.errors, error, ?_, ?_, hBefore⟩
      · show u.errors ++ [error] = _
        rw [(unmoved_of_error hError).1.errors_eq]
      · rw [hLimit]
        rfl
    · refine ⟨rfl, t.errors ++ [error], ⟨.recoveryExhausted, error.span⟩, ?_, rfl, ?_⟩
      · show (w.errors ++ [error]) ++ [_] = _
        rw [(unmoved_of_error hError).1.errors_eq]
        rfl
      · rw [List.forall_mem_append, List.forall_mem_singleton]
        exact ⟨hBefore, not_fatal_of_malformation (malformed_of_error hError)⟩

/-- An error that ends a parse is the last of its reports. -/
theorem fatal_last {builder : σ} {tags : TagContext} {input : List Token} {e : ParseError}
    {front back : List ParseError} (hSplit : (run setup builder tags input).errors =
      front ++ e :: back) (hFatal : e.problem.isFatal = true) : back = [] := by
  rcases run_ends setup builder tags input with ⟨-, hNone⟩ | ⟨-, before, last, hErrors, -, hBefore⟩
  · rw [hNone e (hSplit ▸ List.mem_append_right front List.mem_cons_self)] at hFatal
    cases hFatal
  · rcases split_concat (hErrors.symm.trans hSplit) with ⟨hBack, -, -⟩ | hMem
    · exact hBack
    · rw [hBefore e hMem] at hFatal
      cases hFatal

end Parse

/-! ## The document -/

end LedgerText
