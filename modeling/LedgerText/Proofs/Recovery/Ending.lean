import LedgerText.Proofs.Lexing.Lines
import LedgerText.Proofs.Parse.Orderly
import LedgerText.Proofs.Recovery.Segments

/-!
# Where a text ends

Tokens can be handed to a parse by a lexer, which supplies the end of the text
where its last character is, or as a list, which ends where its last token does.
Behind blanks these are different places. No parse can tell them apart: what it
is told of the end of the text is that it is there, and it looks at it behind a
line end, where nothing is left to fail (`run_append_end`).
-/

namespace LedgerText.Parse

open Grammar Step

variable {σ : Type} {setup : Setup σ} {builder : σ} {tags : TagContext}

/-- A parse of no tokens does nothing and is accepted, if there is room for it. -/
theorem outcome_of_end (hRoom : 0 < setup.options.maxDepth) {input : List Token}
    (hEnd : nextKind input = .endOfInput) :
    (run setup builder tags input).outcome = ⟨[], [], 0, .accepted, tags, builder⟩ := by
  have hStop : moreAhead (State.begin builder tags input) = false := by
    rw [← Bool.not_eq_true, moreAhead_iff]
    exact fun hMore => hMore hEnd
  rw [run_of_stop hRoom .refl hStop]
  rfl

/-- Behind whole lines, it makes no difference which token stands for the end of the text and what
comes behind it, nor whether there is one. -/
theorem run_append_end (hRoom : 0 < setup.options.maxDepth) {front back : List Token}
    (hLines : Lines front) (hEnd : nextKind back = .endOfInput) :
    (run setup builder tags (front ++ back)).outcome = (run setup builder tags front).outcome := by
  by_cases hFront : front = []
  · subst hFront
    rw [List.nil_append, outcome_of_end hRoom hEnd, outcome_of_end hRoom rfl]
  · have hStart : (nextKind back).startsStatement = true := by
      rw [hEnd]
      rfl
    have hClosed : Closed (State.begin builder tags front).spot :=
      ⟨hLines, fun hNil => absurd hNil hFront⟩
    have hWhole : State.begin builder tags (front ++ back) =
        (State.begin builder tags front).inside ⟨none, back, [], []⟩ := rfl
    obtain ⟨result, t, hRun, hFits⟩ := statements_front setup hStart hClosed rfl
    cases result with
    | error halt =>
        rw [run_of_error hRoom hRun, run_of_error hRoom (hWhole ▸ hFits)]
        simp [State.abort, State.report, State.inside, State.outcome]
    | ok v =>
        obtain ⟨hNil, -, -, hRest⟩ := hFits
        -- Behind the front, the parse of the whole is at the end of the text as well.
        have hStop : moreAhead (t.inside ⟨none, back, [], []⟩) = false := by
          rw [← Bool.not_eq_true, moreAhead_iff]
          intro hMore
          apply hMore
          show nextKind (t.input ++ back) = .endOfInput
          rw [hNil]
          exact hEnd
        have hAll : statements setup (.begin builder tags (front ++ back)) =
            (.ok (), t.inside ⟨none, back, [], []⟩) := by
          rw [hWhole, hRest]
          exact statements_of_false hStop
        rw [run_of_ok hRoom hRun, run_of_ok hRoom hAll]
        simp [State.inside, State.outcome]

/-! ## The two sources -/

/-- What is in front of the first token that ends the text, where there is one. -/
theorem beforeEnd_append {front : List Token} (h : ∀ token ∈ front, token.kind ≠ .endOfInput)
    {back : List Token} (hBack : nextKind back = .endOfInput) :
    beforeEnd (front ++ back) = front := by
  induction front with
  | nil => exact beforeEnd_of_end hBack
  | cons token rest ih =>
      obtain ⟨hFirst, hRest⟩ := List.forall_mem_cons.1 h
      rw [List.cons_append, beforeEnd_cons hFirst, ih hRest]

/-- Where a list ends without a token for it, the supply goes on with the end of its last token. -/
theorem supply_eq {tokens : List Token} (h : ∀ token ∈ tokens, token.kind ≠ .endOfInput)
    (stop : Span) {count : Nat} (hCount : tokens.length ≤ count) :
    Token.supply stop count tokens = tokens ++ List.replicate (count - tokens.length)
      (.endOfInput (tokens.getLast?.elim stop fun last => last.span.endPoint)) := by
  induction tokens generalizing stop count with
  | nil => exact Token.supply_nil stop count
  | cons token rest ih =>
      obtain ⟨hFirst, hRest⟩ := List.forall_mem_cons.1 h
      cases count with
      | zero => exact absurd hCount (Nat.not_succ_le_zero _)
      | succ count =>
          have hLess : rest.length ≤ count := Nat.le_of_succ_le_succ hCount
          rw [Token.supply, if_neg hFirst, ih hRest _ hLess, List.length_cons,
            Nat.add_sub_add_right, List.getLast?_cons, Option.elim_some]
          cases rest.getLast? with
          | none => rfl
          | some last => rfl

/-- However many ends of the text are supplied, the first of them comes next. -/
theorem nextKind_replicate (count : Nat) {token : Token} (h : token.kind = .endOfInput) :
    nextKind (List.replicate count token) = .endOfInput := by
  cases count with
  | zero => rfl
  | succ count => exact h

/-- A parse of a text ends like one of its tokens up to the end of the text, however often the
source of either is asked for another token: with the same directives and errors, as many errors
that count, in the same phase and with the same tags. -/
theorem text_collected (source : String) (options : Options) (hRoom : 1 ≤ options.maxDepth)
    (count : Nat) (hCount : (beforeEnd (Token.tokens source)).length ≤ count) :
    (run (.standard options) () .empty
      (Token.supply .origin count (beforeEnd (Token.tokens source)))).outcome =
        (text source options).outcome ∧
    (run (.standard options) () .empty
      (Token.supply .origin count (Token.tokens source))).outcome =
        (text source options).outcome := by
  obtain ⟨front, blanks, w, -, -, hLexed, hTokens⟩ := Token.exists_tokens source
  have hKinds := hLexed.kind_ne_endOfInput
  have hLines : Lines w := by
    obtain ⟨lines, other, hClosed, -, -, hLast⟩ := (tidy_tokens source).closed
    obtain ⟨rfl, -⟩ := List.append_inj' (hTokens.symm.trans hClosed) rfl
    exact ⟨hKinds, hLast⟩
  have hBefore : beforeEnd (Token.tokens source) = w := by
    rw [hTokens]
    exact beforeEnd_append hKinds rfl
  rw [hBefore] at hCount
  have hSome : 0 < (Setup.standard options).options.maxDepth := hRoom
  have hAppend (back : List Token) (hBack : nextKind back = .endOfInput) :
      (run (.standard options) () .empty (w ++ back)).outcome = (text source options).outcome := by
    rw [text, hTokens, run_append_end hSome hLines hBack]
    exact (run_append_end hSome hLines rfl).symm
  constructor
  · rw [hBefore, supply_eq hKinds .origin hCount]
    exact hAppend _ (nextKind_replicate _ rfl)
  · rw [hTokens, Token.supply_append hKinds, List.take_of_length_le hCount]
    exact hAppend _ (nextKind_replicate _ rfl)

/-- A text that ends in blanks, behind a pop that it reports. -/
def blankEnd : String := "poptag #trip\n  "

/-- The two sources put the end of the text in different places. -/
theorem text_collected_blankEnd :
    1 ≤ ({} : Options).maxDepth ∧ (beforeEnd (Token.tokens blankEnd)).length ≤ 4 ∧
    (Token.supply .origin 4 (beforeEnd (Token.tokens blankEnd))).getLast? ≠
      (Token.supply .origin 4 (Token.tokens blankEnd)).getLast? ∧
    (run (.standard {}) () .empty
      (Token.supply .origin 4 (beforeEnd (Token.tokens blankEnd)))).outcome =
        (text blankEnd {}).outcome ∧
    (run (.standard {}) () .empty
      (Token.supply .origin 4 (Token.tokens blankEnd))).outcome =
        (text blankEnd {}).outcome := by
  have hLength : (beforeEnd (Token.tokens blankEnd)).length ≤ 4 := by decide +kernel
  exact ⟨by decide, hLength, by decide +kernel, text_collected blankEnd {} (by decide) 4 hLength⟩

end LedgerText.Parse
