import LedgerText.Parse.Statement
import LedgerText.Token.Layout

/-!
# Parsing a ledger

A ledger is a list of statements. A malformed statement is reported once and
discarded, together with all tokens up to the next one that begins a statement
at the start of a line; there the parse goes on, unless it is set up to stop at
the first error. A parse ends at the end of the text or with a fatal error.
-/

namespace LedgerText.Parse

open Step

variable {σ : Type}

/-! ## Recovery -/

/-- The tokens to pass over after an error: all up to the end of the text, or to a token that
begins a statement and a line. `lineStart` says whether the first of the tokens begins a line. -/
def discarded (lineStart : Bool) : List Token → List Token
  | [] => []
  | token :: rest =>
      if token.kind = .endOfInput ∨ lineStart ∧ token.kind.startsStatement then
        []
      else
        token :: discarded (token.kind = .lineEnd) rest

/-- The note on a token that is passed over. -/
def discardedNote (token : Token) : ParseError := ⟨.discardedToken token.kind, token.span⟩

/-- The state where the parse goes on after an error. All productions that were begun are given up
but the first, which reads the statements. If asked to, the parse reports every token that is passed
over on the way. -/
def State.resume (trace : Bool) (s : State σ) : State σ :=
  let passed := discarded s.atLineStart s.input
  { s with
    input := s.input.drop passed.length
    previous := passed.getLast?.or s.previous
    depth := min s.depth 1
    errors := s.errors ++ (if trace then passed.map discardedNote else []) }

/-- Reports an error in a statement, and goes on behind the statement or stops. -/
def recover (setup : Setup σ) (error : ParseError) : Step σ Unit := fun s =>
  let reported := s.report error
  match setup.options.recovery with
  | .resynchronize => (.ok (), reported.resume setup.options.traceRecovery)
  | .abort => (.error (.fatal ⟨.recoveryExhausted, error.span⟩), reported)

/-- One statement, and recovery if it is malformed. -/
def statement (setup : Setup σ) : Step σ Unit := fun s =>
  match declaration setup s with
  | (.error (.statement error), t) => recover setup error t
  | result => result

/-! ## Progress of statements -/

theorem forward_conclude (setup : Setup σ) (heading : Heading) (content : Content) :
    Forward (conclude setup heading content) := fun s => forward_reviewFrom _ _ s

theorem forward_title : Forward (title : Step σ Title) := by
  refine forward_bind (forward_takeText _ _) fun first => ?_
  refine forward_bind forward_peek fun kind => ?_
  split
  · exact forward_bind forward_skip fun _ => forward_bind (forward_takeText _ _) fun _ =>
      forward_pure _
  · exact forward_bind (forward_takeText _ _) fun _ => forward_pure _
  · exact forward_pure _

theorem forward_texts (kind : TokenKind) (h : kind ≠ .endOfInput) :
    Forward (texts kind h : Step σ (List String)) :=
  forward_repeatWhile (forward_takeText _ _)

theorem forward_postingLines (setup : Setup σ) : Forward (postingLines setup) :=
  forward_bind (forward_repeatWhile (forward_postingLine setup)) fun _ => forward_pure _

theorem forward_transaction (setup : Setup σ) (heading : Heading) (date : Date) :
    Forward (transaction setup heading date) :=
  forward_nested setup <| forward_bind forward_flag fun _ =>
    forward_bind forward_title fun _ =>
      forward_bind (forward_texts _ _) fun _ =>
        forward_bind (forward_texts _ _) fun _ =>
          forward_bind (forward_lineEnd _) fun _ =>
            forward_bind (forward_postingLines setup) fun _ => forward_conclude _ _ _

theorem forward_dated (setup : Setup σ) (heading : Heading) (date : Date) :
    Forward (dated setup heading date) := by
  have hText : ∀ kind expected, Forward (takeText kind expected : Step σ String) :=
    forward_takeText
  have hEnd : ∀ content, Forward (lineEnd [] >>= fun _ => conclude setup heading content) :=
    fun content => forward_bind (forward_lineEnd _) fun _ => forward_conclude _ _ _
  refine forward_bind forward_peek fun kind => ?_
  split
  · exact forward_transaction setup heading date
  · exact forward_transaction setup heading date
  · exact forward_bind forward_skip fun _ => forward_bind (hText _ _) fun _ =>
      forward_bind (forward_repeatWhile forward_listedCurrency) fun _ =>
        forward_bind (forward_lineEnd _) fun _ => forward_conclude _ _ _
  · exact forward_bind forward_skip fun _ => forward_bind (hText _ _) fun _ => hEnd _
  · exact forward_bind forward_skip fun _ => forward_bind (hText _ _) fun _ =>
      forward_bind (hText _ _) fun _ => hEnd _
  · exact forward_bind forward_skip fun _ => forward_bind (hText _ _) fun _ =>
      forward_bind (forward_amount setup) fun _ => hEnd _
  · exact forward_bind forward_skip fun _ => forward_bind (hText _ _) fun _ =>
      forward_bind (forward_amount setup) fun _ => hEnd _
  · exact forward_bind forward_skip fun _ => forward_bind (hText _ _) fun _ =>
      forward_bind (hText _ _) fun _ => hEnd _
  · exact forward_bind forward_skip fun _ => forward_bind (hText _ _) fun _ =>
      forward_bind (hText _ _) fun _ => hEnd _
  · exact forward_bind forward_skip fun _ => forward_bind (hText _ _) fun _ =>
      forward_bind (hText _ _) fun _ => hEnd _
  · exact forward_unexpected _

theorem strict_entry (setup : Setup σ) : Strict (entry setup) :=
  strict_nested setup <| strict_advance_bind fun token =>
    forward_bind (forward_day setup token) fun date =>
      forward_bind (forward_dated setup _ date) fun _ =>
        forward_bind (fun _ => Nat.le_refl _) fun _ => forward_pure _

theorem strict_option (setup : Setup σ) : Strict (option setup) :=
  strict_nested setup <| strict_advance_bind fun _ =>
    forward_bind (forward_takeText _ _) fun _ =>
      forward_bind (forward_takeText _ _) fun _ =>
        forward_bind (forward_lineEnd _) fun _ =>
          forward_bind (forward_conclude _ _ _) fun _ =>
            forward_bind (fun _ => Nat.le_refl _) fun _ => forward_pure _

theorem strict_pushtag : Strict (pushtag : Step σ Unit) :=
  strict_skip_bind fun _ => forward_bind (forward_takeText _ _) fun _ _ => Nat.le_refl _

theorem strict_poptag : Strict (poptag : Step σ Unit) :=
  strict_here_bind fun _ => strict_skip_bind fun _ =>
    forward_bind (forward_takeText _ _) fun _ =>
      forward_bind (fun _ => Nat.le_refl _) fun _ s => by
        split <;> exact Nat.le_refl _

/-- A line end that has its first token ahead reads it. -/
theorem strict_lineEnd {s : State σ} (also : List TokenKind)
    (h : s.lookahead.kind = .lineEnd ∨ s.lookahead.kind = .indent ∨
      s.lookahead.kind = .comment) :
    (lineEnd also s).2.input.length < s.input.length := by
  have hNe : s.lookahead.kind ≠ .endOfInput := by rcases h with h | h | h <;> simp [h]
  have hNext := State.next_input_lt hNe
  have hSkipIf := forward_skipIf (σ := σ) .lineEnd s.next
  rw [lineEnd, peek_bind]
  rcases h with h | h | h
  · rw [h]; exact hNext
  · rw [h]; exact Nat.lt_of_le_of_lt hSkipIf hNext
  · rw [h]; exact Nat.lt_of_le_of_lt hSkipIf hNext

/-- Before the end of the text, a declaration ends the parse or reads a token, or its first token
is refused and does not begin a statement. -/
theorem declaration_cases (setup : Setup σ) (s : State σ)
    (hs : s.lookahead.kind ≠ .endOfInput) :
    (EndsParse (declaration setup s).1 ∨
      (declaration setup s).2.input.length < s.input.length) ∨
    (declaration setup s = unexpected declarationStart s ∧
      s.lookahead.kind.startsStatement = false) := by
  have hStrict : ∀ {m : Step σ Unit}, Strict m → declaration setup s = m s →
      EndsParse (declaration setup s).1 ∨
        (declaration setup s).2.input.length < s.input.length := by
    intro m hm hEq
    rw [hEq]
    exact hm s hs
  cases hKind : s.lookahead.kind with
  | date =>
      have hEq : declaration setup s = (entry setup >>= accept) s := by
        rw [declaration, peek_bind, hKind]
      exact .inl (hStrict (strict_bind (strict_entry setup) forward_accept) hEq)
  | keyword k =>
      cases k with
      | option =>
          have hEq : declaration setup s = (option setup >>= accept) s := by
            rw [declaration, peek_bind, hKind]
          exact .inl (hStrict (strict_bind (strict_option setup) forward_accept) hEq)
      | pushtag =>
          have hEq : declaration setup s = pushtag s := by rw [declaration, peek_bind, hKind]
          exact .inl (hStrict strict_pushtag hEq)
      | poptag =>
          have hEq : declaration setup s = poptag s := by rw [declaration, peek_bind, hKind]
          exact .inl (hStrict strict_poptag hEq)
      | _ =>
          have hEq : declaration setup s = unexpected declarationStart s := by
            rw [declaration, peek_bind, hKind]
          exact .inr ⟨hEq, rfl⟩
  | lineEnd =>
      have hEq : declaration setup s = lineEnd [] s := by rw [declaration, peek_bind, hKind]
      exact .inl (.inr (hEq ▸ strict_lineEnd _ (.inl hKind)))
  | indent =>
      have hEq : declaration setup s = lineEnd [] s := by rw [declaration, peek_bind, hKind]
      exact .inl (.inr (hEq ▸ strict_lineEnd _ (.inr (.inl hKind))))
  | comment =>
      have hEq : declaration setup s = lineEnd [] s := by rw [declaration, peek_bind, hKind]
      exact .inl (.inr (hEq ▸ strict_lineEnd _ (.inr (.inr hKind))))
  | skipped =>
      have hEq : declaration setup s = skip s := by rw [declaration, peek_bind, hKind]
      exact .inl (hStrict strict_skip hEq)
  | endOfInput => exact absurd hKind hs
  | _ =>
      have hEq : declaration setup s = unexpected declarationStart s := by
        rw [declaration, peek_bind, hKind]
      exact .inr ⟨hEq, rfl⟩

/-- Going on after an error never brings tokens back. -/
theorem resume_input_le (trace : Bool) (s : State σ) :
    (s.resume trace).input.length ≤ s.input.length := by
  simp [State.resume]

/-- A token that begins no statement is passed over. -/
theorem resume_input_lt (trace : Bool) {s : State σ} (hs : s.lookahead.kind ≠ .endOfInput)
    (hStart : s.lookahead.kind.startsStatement = false) :
    (s.resume trace).input.length < s.input.length := by
  cases hInput : s.input with
  | nil => simp [State.lookahead, hInput, Token.endOfInput, Token.bare] at hs
  | cons token rest =>
      simp only [State.lookahead, hInput, List.headD_cons] at hs hStart
      simp only [State.resume, hInput, discarded, hs, hStart, Bool.false_eq_true, and_false,
        or_false, if_false, List.length_cons, List.drop_succ_cons, List.length_drop]
      omega

theorem consumes_statement (setup : Setup σ) : Consumes (statement setup) := by
  intro s a t hs hEq
  have hCases := declaration_cases setup s hs
  unfold statement at hEq
  split at hEq
  · rename_i error u hHalt
    rw [hHalt] at hCases
    unfold recover at hEq
    cases hRecovery : setup.options.recovery with
    | abort => simp [hRecovery] at hEq
    | resynchronize =>
        simp only [hRecovery, Prod.mk.injEq, true_and] at hEq
        subst hEq
        rcases hCases with (⟨other, hFatal⟩ | hLess) | ⟨hSame, hStart⟩
        · exact absurd hFatal (by simp)
        · exact Nat.lt_of_le_of_lt (resume_input_le _ (u.report error)) hLess
        · have hState : u = s := congrArg Prod.snd hSame
          subst hState
          exact resume_input_lt (s := u.report error) _ hs hStart
  · rw [hEq] at hCases
    rcases hCases with (⟨other, hFatal⟩ | hLess) | ⟨hSame, hStart⟩
    · exact absurd hFatal (by simp)
    · exact hLess
    · simp [unexpected, fail] at hSame

/-! ## The whole text -/

/-- Whether the text goes on. -/
def moreAhead (s : State σ) : Bool := s.lookahead.kind ≠ .endOfInput

theorem moreAhead_ne (s : State σ) (hs : moreAhead s) : s.lookahead.kind ≠ .endOfInput := by
  simpa [moreAhead] using hs

/-- `file := declaration*`, each with recovery -/
def file (setup : Setup σ) : Step σ Unit := nested setup do
  let _ ← repeatWhile moreAhead (statement setup) moreAhead_ne (consumes_statement setup)
  pure ()

/-- Parses tokens, with a builder in a given state and some tags already active. -/
def run (setup : Setup σ) (builder : σ) (tags : TagContext) (input : List Token) : State σ :=
  match file setup (State.start builder tags input) with
  | (.ok _, s) => { s with phase := .accepted }
  | (.error halt, s) => s.abort halt.error

/-- Parses a text with the standard builder. -/
def text (source : String) (options : Options) : State Unit :=
  run ⟨.standard, options⟩ () .empty (Token.tokens source)

/-- Whether a parse reached the end of the text. -/
def State.isSuccess (s : State σ) : Bool := s.phase = .accepted

/-- Whether a parse reported anything. -/
def State.hasErrors (s : State σ) : Bool := !s.errors.isEmpty

/-- The keys and values of the options among the directives of a parse. -/
def State.optionPairs (s : State σ) : List (String × String) :=
  s.directives.filterMap fun directive => directive.value.option?

end LedgerText.Parse
