import LedgerText.Proofs.Recovery.Splitting

/-!
# What a statement does not look at

A statement is read alike whatever directives have been read and whatever errors
have been reported before. In terms of excerpts: a text is an excerpt of itself,
with other directives and errors in front of it (`besides`). As nothing is cut
off, all spots are alike, and the laws of an excerpt that are about the text hold
of any four conditions on spots.
-/

namespace LedgerText.Parse

open Grammar Step

variable {σ α : Type}

/-- Nothing is around a text but directives and errors. -/
def besides (directives : List (Spanned Directive)) (errors : List ParseError) : Surroundings :=
  ⟨none, [], directives, errors⟩

section

variable {directives : List (Spanned Directive)} {errors : List ParseError} (s : State σ)

theorem inside_besides : s.inside (besides directives errors) =
    { s with
      directives := directives ++ s.directives
      errors := errors ++ s.errors
      phase := .running } := by
  unfold State.inside besides
  rw [List.append_nil, Option.or_none]

theorem lookahead_besides : (s.inside (besides directives errors)).lookahead = s.lookahead := by
  rw [inside_besides]
  rfl

theorem next_besides : (s.inside (besides directives errors)).next =
    s.next.inside (besides directives errors) := by
  rw [inside_besides, inside_besides]
  rfl

theorem lastSpan_besides : (s.inside (besides directives errors)).lastSpan = s.lastSpan := by
  rw [inside_besides]
  rfl

theorem postingAhead_besides :
    postingAhead (s.inside (besides directives errors)) = postingAhead s := by
  rw [inside_besides]
  rfl

theorem resume_besides (trace : Bool) : (s.inside (besides directives errors)).resume trace =
    (s.resume trace).inside (besides directives errors) := by
  apply resume_inside
  rw [inside_besides]
  rfl

end

/-- A text with other directives and errors in front of it. -/
def anywhere (directives : List (Spanned Directive)) (errors : List ParseError) : Excerpt where
  around := besides directives errors
  Ready _ := True
  Inline _ := True
  Behind _ := True
  Stopped _ := True
  ready_of_inline _ h := h
  behind_of_inline _ h := h
  stopped_of_ready _ h := h
  stopped_of_behind _ h := h
  lookahead_eq s _ := lookahead_besides s
  next_eq s _ := next_besides s
  inline_next _ _ _ := trivial
  behind_next _ _ _ := trivial
  lastSpan_eq s _ := lastSpan_besides s
  postingAhead_eq s _ := postingAhead_besides s
  inline_of_postingAhead _ _ _ := trivial
  resume_eq s trace _ := resume_besides s trace
  stopped_resume _ _ _ := trivial

/-- A declaration does the same whatever was read and reported before. -/
theorem declaration_besides (setup : Setup σ) (directives : List (Spanned Directive))
    (errors : List ParseError) (s : State σ) :
    declaration setup (s.inside (besides directives errors)) =
      ((declaration setup s).1,
        (declaration setup s).2.inside (besides directives errors)) := by
  have hFits : Fits (anywhere directives errors) (anywhere directives errors).Ready
      (declaration setup) (anywhere directives errors).Behind := fits_declaration
  obtain ⟨result, t, hPart, hWhole, -⟩ := hFits s trivial
  rw [hPart]
  exact hWhole

end LedgerText.Parse
