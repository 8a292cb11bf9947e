import LedgerText.Report
import LedgerText.Proofs.Building.Turns
import LedgerText.Proofs.Places.Results
import LedgerText.Proofs.Places.Showing
import LedgerText.Proofs.Recovery.Ending

/-!
# Where errors begin

Every error that counts begins where a token does (`Pointed`). It cannot be the
line end behind an error of the lexer: no statement reads such an error, so one
that fails has not come so far (`Steady.pointed_of_error`). Nor can it be the end
of a text that has other tokens, because a parse is never told where the end is
(`run_append_end`).

So errors begin at places that readers are shown (`text_isShown`), and if the
lines of a text are plain, its errors are reported at the same places in words
and for programs (`text_namedAt`).
-/

namespace LedgerText

namespace Parse

open Grammar Step

/-- An error can begin at a token, but not at a line end behind an error of the lexer. -/
def Pointed (tokens : List Token) (p : Place) : Prop :=
  ∃ front token back, tokens = front ++ token :: back ∧ p = token.span.start ∧
    (token.kind = .lineEnd → ∀ other ∈ front.getLast?, other.kind ≠ .error)

/-! ## One statement -/

section

variable {σ : Type} {setup : Setup σ} {s t : State σ} {w : List Token}

/-- A declaration reads no error of the lexer. -/
theorem kind_ne_of_read {result : Except Halt Unit} (h : declaration setup s = (result, t))
    (hInput : s.input = w ++ t.input) : ∀ token ∈ w, token.kind ≠ .error := by
  obtain ⟨n, tokens, calls, upshot, hRead, hRuns, -⟩ := visits_declaration setup s
  rw [h] at hRead
  obtain rfl := List.append_cancel_right (hInput.symm.trans hRead)
  intro token hToken
  obtain ⟨hPrefix, -⟩ := DeclarationNode.trace_of_runs hRuns
  exact (n.kind_ne token (hPrefix.subset hToken)).2

/-- A line end on its own is a declaration. -/
theorem kind_ne_of_error {halt : Halt} (h : declaration setup s = (.error halt, t)) :
    s.lookahead.kind ≠ .lineEnd := by
  intro hKind
  have hLine : declaration setup s = (.ok (), s.next) := by
    rw [declaration, peek_bind, hKind]
    show lineEnd [] s = _
    rw [lineEnd, peek_bind, hKind]
    rfl
  rw [hLine] at h
  cases h

end

variable {tokens : List Token} {options : Options} {s t u : State Unit}

/-- An error can begin at a token that is left in a state if no error of the lexer is in front of
it, and it is not a line end that comes next. -/
theorem pointed_of_input {front back : List Token} {token : Token}
    (hWithin : s.spot.IsWithin tokens) (hInput : s.input = front ++ token :: back)
    (hFront : ∀ other ∈ front, other.kind ≠ .error) (hFirst : s.lookahead.kind ≠ .lineEnd) :
    Pointed tokens token.span.start := by
  obtain ⟨-, before, hTokens, -⟩ := hWithin
  change tokens = before ++ s.input at hTokens
  refine ⟨before ++ front, token, back, ?_, rfl, fun hKind other hOther => ?_⟩
  · rw [hTokens, hInput, List.append_assoc]
  · have hSome : front ≠ [] := by
      rintro rfl
      have hToken : s.lookahead = token := by simp [State.lookahead, hInput]
      exact hFirst (hToken ▸ hKind)
    rw [List.getLast?_append_of_ne_nil _ hSome] at hOther
    exact hFront other (List.mem_of_getLast? hOther)

/-- The error that a statement halts with begins at a token that the statement has read, or at the
next one. -/
theorem Steady.pointed_of_error (hTidy : Tidy tokens) (h : Steady options tokens s)
    (hMore : moreAhead s = true) {halt : Halt}
    (hError : declaration (.standard options) s = (.error halt, u)) :
    Pointed tokens halt.error.span.start := by
  obtain ⟨hWithin, -, -⟩ := h.of_error hTidy hMore hError
  obtain ⟨w, hInput, hPrevious⟩ := exists_between h.within hWithin (input_le_of_error hError)
  have hKinds := kind_ne_of_read hError hInput
  have hFirst := kind_ne_of_error hError
  rcases span_of_error hMore hError with hSpan | ⟨hRead, hSpan⟩
  · obtain ⟨rest, hRest, -⟩ := exists_lookahead hWithin.1
    rw [hSpan]
    rw [hRest] at hInput
    exact pointed_of_input h.within hInput hKinds hFirst
  · rcases List.eq_nil_or_concat w with rfl | ⟨others, last, rfl⟩
    · rw [hInput] at hRead
      exact absurd hRead (Nat.lt_irrefl _)
    · rw [List.concat_eq_append] at hInput hPrevious hKinds
      have hLast : u.lastSpan = last.span := by
        rw [State.lastSpan, hPrevious, List.getLast?_concat, Option.some_or]
      rw [List.append_assoc, List.singleton_append] at hInput
      rw [hSpan, hLast]
      exact pointed_of_input h.within hInput
        (fun other hOther => hKinds other (List.mem_append_left _ hOther)) hFirst

/-- What a statement on a tag reports begins at its word. -/
theorem Advances.pointed_of_unbalanced {tag : String} {span : Span}
    (hWithin : s.spot.IsWithin tokens) (h : Advances (.standard options) s t)
    (hMore : t.errors = s.errors ++ [⟨.unbalancedPoptag tag, span⟩]) :
    Pointed tokens span.start := by
  obtain ⟨hAhead, -, hSpan⟩ := h.unbalanced hMore
  obtain ⟨name, -, ⟨-, hOther⟩ | ⟨hWord, -⟩⟩ := ahead?_eq_some.1 hAhead
  · cases hOther
  · obtain ⟨rest, hRest, -⟩ := exists_lookahead hWithin.1
    have hInput : s.input = [] ++ s.lookahead :: rest := hRest
    rw [hSpan]
    exact pointed_of_input hWithin hInput (List.forall_mem_nil _) (by simp [hWord])

/-! ## A whole parse -/

/-- The errors so far that count begin at tokens. -/
def AllPointed (tokens : List Token) (errors : List ParseError) : Prop :=
  ∀ e ∈ errors, e.problem.isError = true → Pointed tokens e.span.start

theorem allPointed_append {tokens : List Token} {front back : List ParseError} :
    AllPointed tokens (front ++ back) ↔ AllPointed tokens front ∧ AllPointed tokens back :=
  List.forall_mem_append

theorem allPointed_singleton {e : ParseError} (h : Pointed tokens e.span.start) :
    AllPointed tokens [e] :=
  List.forall_mem_singleton.2 fun _ => h

/-- A statement keeps it so that all errors that count begin at tokens. -/
theorem Advances.allPointed (hTidy : Tidy tokens) (hSteady : Steady options tokens s)
    (h : Advances (.standard options) s t) (hs : AllPointed tokens s.errors) :
    AllPointed tokens t.errors := by
  rcases h.errors_cases with ⟨-, hSame | ⟨tag, span, hMore⟩⟩ | ⟨error, u, hError, -, hMore⟩
  · rw [hSame]
    exact hs
  · rw [hMore]
    exact allPointed_append.2
      ⟨hs, allPointed_singleton (h.pointed_of_unbalanced hSteady.within hMore)⟩
  · have hFirst : Pointed tokens error.span.start := hSteady.pointed_of_error hTidy h.1 hError
    rw [hMore, ← List.singleton_append]
    refine allPointed_append.2 ⟨hs, allPointed_append.2 ⟨allPointed_singleton hFirst, ?_⟩⟩
    -- Notes do not count.
    intro note hNote hCounts
    obtain ⟨token, rfl⟩ := exists_of_mem_notes hNote
    cases hCounts

theorem allPointed_of_reaches (hTidy : Tidy tokens) (hSteady : Steady options tokens s)
    (h : Reaches (.standard options) s t) (hs : AllPointed tokens s.errors) :
    AllPointed tokens t.errors := by
  induction h with
  | refl => exact hs
  | tail hFront hStep ih =>
      exact hStep.allPointed hTidy (steady_of_reaches hTidy hSteady hFront) ih

/-- All errors that count begin at tokens, if there is room for any statement. -/
theorem run_allPointed (hTidy : Tidy tokens) (hRoom : 0 < options.maxDepth) (tags : TagContext) :
    AllPointed tokens (run (.standard options) () tags tokens).errors := by
  have hBegin : Steady options tokens (.begin () tags tokens) := steady_begin hTidy tags
  have hSome : 0 < (Setup.standard options).options.maxDepth := hRoom
  obtain ⟨t, final, hReaches, hFinal, hErrors⟩ := exists_final hSome .refl
  have hSteady := steady_of_reaches hTidy hBegin hReaches
  rw [hErrors]
  refine allPointed_append.2
    ⟨allPointed_of_reaches hTidy hBegin hReaches (List.forall_mem_nil _), ?_⟩
  cases hFinal with
  | accepted => exact List.forall_mem_nil _
  | exhausted hMore hFailed =>
      exact allPointed_singleton (hSteady.pointed_of_error hTidy hMore hFailed)
  | @stopped error u hMore hFailed _ =>
      -- That the parse stops is reported in the same place as the error.
      have hLast : Pointed tokens error.span.start := hSteady.pointed_of_error hTidy hMore hFailed
      rw [← List.singleton_append]
      exact allPointed_append.2 ⟨allPointed_singleton hLast, allPointed_singleton hLast⟩

/-! ## The end of the text -/

/-- Errors that count begin at tokens in front of the end of the text, unless there is no room even
for the first statement. -/
theorem text_pointed (source : String) {options : Options} (hRoom : 0 < options.maxDepth)
    {e : ParseError} (he : e ∈ (text source options).errors) (hCounts : e.problem.isError = true) :
    ∃ front token back, Token.tokens source = front ++ token :: back ∧
      e.span.start = token.span.start ∧ token.kind ≠ .endOfInput ∧
        (token.kind = .lineEnd → ∀ other ∈ front.getLast?, other.kind ≠ .error) := by
  have hTidy := tidy_tokens source
  obtain ⟨w, last, hClosed, hEnd, hKinds, hLines⟩ := hTidy.closed
  -- Put the end of the text where the error does not begin. It is reported all the same.
  let fresh : Token := .endOfInput (.point ⟨e.span.start.line + 1, 1⟩)
  have hSame : (run (.standard options) () .empty (w ++ [fresh])).errors =
      (text source options).errors := by
    have hSome : 0 < (Setup.standard options).options.maxDepth := hRoom
    have hOutcome (token : Token) (hToken : token.kind = .endOfInput) :
        (run (.standard options) () .empty (w ++ [token])).outcome =
          (run (.standard options) () .empty w).outcome :=
      run_append_end hSome ⟨hKinds, hLines⟩ hToken
    rw [text, hClosed]
    exact congrArg Outcome.errors ((hOutcome fresh rfl).trans (hOutcome last hEnd).symm)
  rw [hClosed] at hTidy
  have hFresh : Tidy (w ++ [fresh]) := hTidy.endAt _
  obtain ⟨front, token, back, hSplit, hStart, hLine⟩ :=
    run_allPointed hFresh hRoom .empty e (hSame ▸ he) hCounts
  rcases List.eq_nil_or_concat back with rfl | ⟨others, other, rfl⟩
  · obtain ⟨-, hToken⟩ := List.append_inj' hSplit rfl
    obtain rfl := List.singleton_inj.1 hToken
    exact absurd (congrArg Place.line hStart) (Nat.ne_of_lt (Nat.lt_succ_self _))
  · rw [List.concat_eq_append, ← List.cons_append, ← List.append_assoc] at hSplit
    obtain ⟨rfl, -⟩ := List.append_inj' hSplit rfl
    refine ⟨front, token, others ++ [last], ?_, hStart, ?_, hLine⟩
    · rw [hClosed, List.append_assoc, List.cons_append]
    · exact hKinds token (List.mem_append_right front List.mem_cons_self)

/-- Errors that count begin at places that readers are shown, however a text is parsed. -/
theorem text_isShown (source : String) (options : Options) {e : ParseError}
    (he : e ∈ (text source options).errors) (hCounts : e.problem.isError = true) :
    e.span.start.IsShown source.toList := by
  by_cases hRoom : 0 < options.maxDepth
  · obtain ⟨front, token, back, hSplit, hStart, hEnd, hLine⟩ :=
      text_pointed source hRoom he hCounts
    rw [hStart]
    exact Token.isShown_of_split hSplit (fun hKind => absurd hKind hEnd) hLine
  · -- All that is reported is the first token, whatever it is.
    have hBegin : Steady options (Token.tokens source) (.begin () .empty _) :=
      steady_begin (tidy_tokens source) .empty
    obtain ⟨rest, hRest, -⟩ := exists_lookahead hBegin.within.1
    have hSplit : Token.tokens source = [] ++ _ :: rest := hRest
    have hText : text source options = _ := run_of_no_room hRoom
    rw [hText] at he
    obtain rfl := List.mem_singleton.1 he
    exact Token.isShown_of_split hSplit (fun _ => rfl) fun _ other hOther => by cases hOther

end Parse

/-! ## Two reports -/

/-- The report of an error in words and the one for programs name a place. -/
structure ParseError.NamedAt (file : String) (source : List Char) (e : ParseError)
    (place : Place) : Prop where
  /-- It is where the first character that the error covers is shown. -/
  located : Lines.locate (e.span.charRange source).start source = place
  headline : e.headline file source =
    "[" ++ e.code ++ "] " ++ "Error" ++ ": " ++ e.message ++ "\n" ++
      "at " ++ file ++ ":" ++ toString place.line ++ ":" ++ toString place.column ++ "\n"
  line : (e.diagnostic file).field? "line" = some (.nat place.line)
  column : (e.diagnostic file).field? "column" = some (.nat place.column)

/-- Of a text with plain lines, both reports of an error name the same place, that where the error
begins. -/
theorem Parse.text_namedAt {source : String} (hPlain : Lines.Plain source.toList)
    (options : Options) (file : String) {e : ParseError} (he : e ∈ (text source options).errors)
    (hCounts : e.problem.isError = true) : e.NamedAt file source.toList e.span.start := by
  have hLocated : Lines.locate (e.span.charRange source.toList).start source.toList =
      e.span.start := Place.locate_offset hPlain (text_isShown source options he hCounts)
  refine ⟨hLocated, ?_, rfl, rfl⟩
  unfold ParseError.headline
  rw [hLocated, if_pos hCounts]

/-- A literal with two lines, and nothing behind it: neither the value of the option nor the end of
its line. -/
def unendedOption : String := "option \"caf\u00e9\r\nbar\""

/-- What is missing is reported at the end, one column behind the quote. -/
def unendedOptionError : ParseError where
  problem := .unexpected .lineEnd [.string]
  span := .point ⟨2, 5⟩

theorem Parse.text_namedAt_unendedOption :
    Lines.Plain unendedOption.toList ∧
      unendedOptionError ∈ (text unendedOption {}).errors ∧
      unendedOptionError.problem.isError = true ∧
      unendedOptionError.NamedAt "books" unendedOption.toList ⟨2, 5⟩ := by
  have hPlain : Lines.Plain unendedOption.toList := by decide +kernel
  have hMem : unendedOptionError ∈ (text unendedOption {}).errors := by decide +kernel
  exact ⟨hPlain, hMem, rfl, text_namedAt hPlain {} "books" hMem rfl⟩

end LedgerText
