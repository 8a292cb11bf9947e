import LedgerText.Parse.State

/-!
# Steps of a parse

A step reads some tokens and yields a value, or halts: because the statement
being read is malformed, or because the parse cannot go on at all. Either way
it leaves a state behind, with the tokens it has read, the errors it has
reported and what the builder has done.

Steps only move forward: `Forward` says that a step never brings tokens back,
and `Strict` that it reads at least one unless it ends the parse. Repetition is
defined for strict steps alone, so it comes to an end.
-/

namespace LedgerText.Parse

/-- Why a step yields no value. -/
inductive Halt where
  /-- The statement is malformed; the next one may be read. -/
  | statement (error : ParseError)
  /-- The parse cannot go on. -/
  | fatal (error : ParseError)
  deriving DecidableEq, Repr

/-- The error behind a halt. -/
def Halt.error : Halt → ParseError
  | .statement error => error
  | .fatal error => error

/-- From a state to a value, or the reason why there is none, and the state left behind. -/
def Step (σ α : Type) : Type := State σ → Except Halt α × State σ

namespace Step

variable {σ α β : Type}

/-- Goes on with what a step yields. -/
def andThen (m : Step σ α) (f : α → Step σ β) : Step σ β := fun s =>
  match m s with
  | (.ok a, t) => f a t
  | (.error halt, t) => (.error halt, t)

instance : Monad (Step σ) where
  pure a s := (.ok a, s)
  bind := andThen

/-! ## Looking ahead -/

/-- The kind of the next token. -/
def peek : Step σ TokenKind := fun s => (.ok s.lookahead.kind, s)

/-- The span of the next token. -/
def here : Step σ Span := fun s => (.ok s.lookahead.span, s)

/-- From the start of a span to the end of the token read last. -/
def spanFrom (start : Span) : Step σ Span := fun s => (.ok (start.upTo s.lastSpan), s)

/-! ## Halting -/

/-- Halts the statement with an error. -/
def fail (error : ParseError) : Step σ α := fun s => (.error (.statement error), s)

/-- Halts the statement because the next token cannot stand here. -/
def unexpected (expected : List TokenKind) : Step σ α := fun s =>
  fail ⟨.unexpected s.lookahead.kind expected, s.lookahead.span⟩ s

/-- Halts the statement because a token has no value, or one of the wrong sort. -/
def missing (token : Token) : Step σ α := fail ⟨.missingValue token.kind, token.span⟩

/-! ## Reading tokens -/

/-- Reads the next token. -/
def advance : Step σ Token := fun s => (.ok s.lookahead, s.next)

/-- Reads the next token and forgets it. -/
def skip : Step σ Unit := fun s => (.ok (), s.next)

/-- Reads the next token if it is of a kind. -/
def skipIf (kind : TokenKind) : Step σ Unit := fun s =>
  if s.lookahead.kind = kind then skip s else (.ok (), s)

/-- Reads a token of a kind, which has to come next. -/
def take (kind : TokenKind) (expected : List TokenKind) : Step σ Token := fun s =>
  if s.lookahead.kind = kind then advance s else unexpected expected s

/-- The text that a token carries. -/
def textOf (token : Token) : Step σ String :=
  match token.value.text? with
  | some text => pure text
  | none => missing token

/-- Reads the text of a token of a kind, which has to come next. -/
def takeText (kind : TokenKind) (expected : List TokenKind) : Step σ String := do
  let token ← take kind expected
  textOf token

/-- Runs a step if the next token is of a kind. -/
def whenNext (kind : TokenKind) (m : Step σ α) : Step σ (Option α) := fun s =>
  if s.lookahead.kind = kind then andThen m (fun a => pure (some a)) s else (.ok none, s)

/-! ## Effects -/

/-- Reports an error and goes on. -/
def report (error : ParseError) : Step σ Unit := fun s => (.ok (), s.report error)

/-- Adds a directive to those read so far. -/
def accept (directive : Spanned Directive) : Step σ Unit := fun s =>
  (.ok (), { s with directives := s.directives ++ [directive] })

/-- Hands a value to the builder. If it refuses, the statement is malformed at `span`. -/
def review (span : Span) (verdict : Verdict σ α) : Step σ α := fun s =>
  match verdict s.builder with
  | (.ok a, builder) => (.ok a, { s with builder })
  | (.error refusal, builder) =>
      (.error (.statement ⟨.invalidValue refusal, span⟩), { s with builder })

/-- Hands a value to the builder that was read from `start` on. -/
def reviewFrom (start : Span) (verdict : Verdict σ α) : Step σ α := do
  let span ← spanFrom start
  review span verdict

/-- Begins a production inside the one that is being read, if there is room for it. -/
def enter (setup : Setup σ) : Step σ Unit := fun s =>
  if s.depth < setup.options.maxDepth then
    (.ok (), { s with depth := s.depth + 1 })
  else
    (.error (.fatal ⟨.stackExhausted setup.options.maxDepth, s.lookahead.span⟩), s)

/-- Finishes the production that was begun last. -/
def leave : Step σ Unit := fun s => (.ok (), { s with depth := s.depth - 1 })

/-- Runs a production inside the one that is being read. A production that halts is not finished:
it stays begun until the parse goes on behind the statement. -/
def nested (setup : Setup σ) (m : Step σ α) : Step σ α := do
  enter setup
  let a ← m
  leave
  pure a

/-! ## Going on

A step that only looks at the state, or only moves on in the text, and what comes behind it. -/

theorem peek_bind (f : TokenKind → Step σ α) (s : State σ) :
    (peek >>= f) s = f s.lookahead.kind s := rfl

theorem here_bind (f : Span → Step σ α) (s : State σ) :
    (here >>= f) s = f s.lookahead.span s := rfl

theorem spanFrom_bind (start : Span) (f : Span → Step σ α) (s : State σ) :
    (spanFrom start >>= f) s = f (start.upTo s.lastSpan) s := rfl

theorem skip_bind (f : Unit → Step σ α) (s : State σ) : (skip >>= f) s = f () s.next := rfl

theorem advance_bind (f : Token → Step σ α) (s : State σ) :
    (advance >>= f) s = f s.lookahead s.next := rfl

/-- Where there is room, a production is run one level deeper, and finished if it yields a value. -/
theorem nested_of_room {setup : Setup σ} {s : State σ} (h : s.depth < setup.options.maxDepth)
    (m : Step σ α) :
    nested setup m s =
      (m >>= fun a => leave >>= fun _ => pure a) { s with depth := s.depth + 1 } := by
  show andThen (enter setup) _ s = _
  unfold andThen enter
  rw [if_pos h]

/-- Where there is no room, a production ends the parse. -/
theorem nested_of_no_room {setup : Setup σ} {s : State σ} (h : ¬ s.depth < setup.options.maxDepth)
    (m : Step σ α) :
    nested setup m s =
      (.error (.fatal ⟨.stackExhausted setup.options.maxDepth, s.lookahead.span⟩), s) := by
  show andThen (enter setup) _ s = _
  unfold andThen enter
  rw [if_neg h]

/-! ## Progress -/

/-- The step never brings tokens back. -/
def Forward (m : Step σ α) : Prop := ∀ s, (m s).2.input.length ≤ s.input.length

/-- The step has ended the parse. -/
def EndsParse (result : Except Halt α) : Prop := ∃ error, result = .error (.fatal error)

/-- Before the end of the text, the step reads at least one token unless it ends the parse. -/
def Strict (m : Step σ α) : Prop :=
  ∀ s, s.lookahead.kind ≠ .endOfInput →
    EndsParse (m s).1 ∨ (m s).2.input.length < s.input.length

/-- Before the end of the text, the step reads at least one token if it yields a value. -/
def Consumes (m : Step σ α) : Prop :=
  ∀ s a t, s.lookahead.kind ≠ .endOfInput → m s = (.ok a, t) → t.input.length < s.input.length

theorem forward_pure (a : α) : Forward (pure a : Step σ α) := fun _ => Nat.le_refl _

theorem forward_bind {m : Step σ α} {f : α → Step σ β} (hm : Forward m)
    (hf : ∀ a, Forward (f a)) : Forward (m >>= f) := by
  intro s
  have hFirst := hm s
  show (andThen m f s).2.input.length ≤ s.input.length
  unfold andThen
  split
  · rename_i a t hEq
    rw [hEq] at hFirst
    exact Nat.le_trans (hf a t) hFirst
  · rename_i halt t hEq
    rw [hEq] at hFirst
    exact hFirst

theorem forward_peek : Forward (peek : Step σ TokenKind) := fun _ => Nat.le_refl _

theorem forward_here : Forward (here : Step σ Span) := fun _ => Nat.le_refl _

theorem forward_fail (error : ParseError) : Forward (fail error : Step σ α) :=
  fun _ => Nat.le_refl _

theorem forward_unexpected (expected : List TokenKind) :
    Forward (unexpected expected : Step σ α) := fun _ => Nat.le_refl _

theorem forward_advance : Forward (advance : Step σ Token) := State.next_input_le

theorem forward_skip : Forward (skip : Step σ Unit) := State.next_input_le

theorem forward_skipIf (kind : TokenKind) : Forward (skipIf kind : Step σ Unit) := by
  intro s
  unfold skipIf
  split
  · exact forward_skip s
  · exact Nat.le_refl _

theorem forward_take (kind : TokenKind) (expected : List TokenKind) :
    Forward (take kind expected : Step σ Token) := by
  intro s
  unfold take
  split
  · exact forward_advance s
  · exact forward_unexpected expected s

theorem forward_textOf (token : Token) : Forward (textOf token : Step σ String) := by
  unfold textOf
  split
  · exact forward_pure _
  · exact forward_fail _

theorem forward_takeText (kind : TokenKind) (expected : List TokenKind) :
    Forward (takeText kind expected : Step σ String) :=
  forward_bind (forward_take kind expected) forward_textOf

theorem forward_whenNext (kind : TokenKind) {m : Step σ α} (hm : Forward m) :
    Forward (whenNext kind m) := by
  intro s
  unfold whenNext
  split
  · exact forward_bind hm (fun a => forward_pure (some a)) s
  · exact Nat.le_refl _

theorem forward_accept (directive : Spanned Directive) :
    Forward (accept directive : Step σ Unit) := fun _ => Nat.le_refl _

theorem forward_review (span : Span) (verdict : Verdict σ α) : Forward (review span verdict) := by
  intro s
  unfold review
  split <;> exact Nat.le_refl _

theorem forward_reviewFrom (start : Span) (verdict : Verdict σ α) :
    Forward (reviewFrom start verdict) :=
  forward_bind (fun _ => Nat.le_refl _) fun span => forward_review span verdict

theorem forward_leave : Forward (leave : Step σ Unit) := fun _ => Nat.le_refl _

/-- Finishing a production reads nothing. -/
theorem forward_finish (a : α) : Forward (leave >>= fun _ => pure a : Step σ α) :=
  forward_bind forward_leave fun _ => forward_pure a

theorem forward_nested (setup : Setup σ) {m : Step σ α} (hm : Forward m) :
    Forward (nested setup m) := by
  intro s
  by_cases hRoom : s.depth < setup.options.maxDepth
  · rw [nested_of_room hRoom]
    exact forward_bind hm forward_finish { s with depth := s.depth + 1 }
  · refine Nat.le_of_eq ?_
    rw [nested_of_no_room hRoom]

/-- A step that begins by reading a token is strict. -/
theorem strict_advance_bind {f : Token → Step σ α} (hf : ∀ token, Forward (f token)) :
    Strict (advance >>= f) := fun s hs =>
  .inr (Nat.lt_of_le_of_lt (hf s.lookahead s.next) (State.next_input_lt hs))

theorem strict_skip_bind {f : Unit → Step σ α} (hf : ∀ u, Forward (f u)) :
    Strict (skip >>= f) := fun s hs =>
  .inr (Nat.lt_of_le_of_lt (hf () s.next) (State.next_input_lt hs))

theorem strict_skip : Strict (skip : Step σ Unit) := fun _ hs => .inr (State.next_input_lt hs)

/-- Noting where a production starts reads nothing. -/
theorem strict_here_bind {f : Span → Step σ α} (hf : ∀ span, Strict (f span)) :
    Strict (here >>= f) := fun s hs => hf s.lookahead.span s hs

/-- What follows a strict step cannot undo its progress. -/
theorem strict_bind {m : Step σ α} {f : α → Step σ β} (hm : Strict m)
    (hf : ∀ a, Forward (f a)) : Strict (m >>= f) := by
  intro s hs
  have hFirst := hm s hs
  show EndsParse (andThen m f s).1 ∨ (andThen m f s).2.input.length < s.input.length
  unfold andThen
  split
  · rename_i a t hEq
    rw [hEq] at hFirst
    rcases hFirst with ⟨error, hFatal⟩ | hLess
    · exact absurd hFatal (by simp)
    · exact .inr (Nat.lt_of_le_of_lt (hf a t) hLess)
  · rename_i halt t hEq
    rw [hEq] at hFirst
    rcases hFirst with ⟨error, hFatal⟩ | hLess
    · exact .inl ⟨error, by simpa using hFatal⟩
    · exact .inr hLess

theorem strict_nested (setup : Setup σ) {m : Step σ α} (hm : Strict m) :
    Strict (nested setup m) := by
  intro s hs
  by_cases hRoom : s.depth < setup.options.maxDepth
  · rw [nested_of_room hRoom]
    exact strict_bind hm forward_finish { s with depth := s.depth + 1 } hs
  · rw [nested_of_no_room hRoom]
    exact .inl ⟨_, rfl⟩

/-- A step that yields a value has not ended the parse. -/
theorem Strict.consumes {m : Step σ α} (hm : Strict m) : Consumes m := by
  intro s a t hs hEq
  have hStep := hm s hs
  rw [hEq] at hStep
  rcases hStep with ⟨error, hFatal⟩ | hLess
  · exact absurd hFatal (by simp)
  · exact hLess

theorem consumes_bind {m : Step σ α} {f : α → Step σ β} (hm : Consumes m)
    (hf : ∀ a, Forward (f a)) : Consumes (m >>= f) := by
  intro s b u hs hEq
  change andThen m f s = _ at hEq
  unfold andThen at hEq
  split at hEq
  · rename_i a t hFirst
    have hRest := hf a t
    rw [hEq] at hRest
    exact Nat.lt_of_le_of_lt hRest (hm s a t hs hFirst)
  · simp at hEq

/-- Looking ahead reads nothing. -/
theorem consumes_peek_bind {f : TokenKind → Step σ α} (hf : ∀ kind, Consumes (f kind)) :
    Consumes (peek >>= f) := fun s a t hs hEq => hf s.lookahead.kind s a t hs hEq

/-- A step that yields no value has nothing to show. -/
theorem consumes_unexpected (expected : List TokenKind) :
    Consumes (unexpected expected : Step σ α) := fun _ _ _ _ hEq => by
  simp [unexpected, fail] at hEq

theorem consumes_take (kind : TokenKind) (expected : List TokenKind) :
    Consumes (take kind expected : Step σ Token) := by
  intro s a t hs hEq
  unfold take at hEq
  split at hEq
  · have hState : s.next = t := congrArg Prod.snd hEq
    exact hState ▸ State.next_input_lt hs
  · simp [unexpected, fail] at hEq

theorem consumes_takeText (kind : TokenKind) (expected : List TokenKind) :
    Consumes (takeText kind expected : Step σ String) :=
  consumes_bind (consumes_take kind expected) forward_textOf

/-! ## Repetition -/

/-- Repeats a step as long as the state ahead calls for it, and collects what it yields. -/
def repeatWhile (ahead : State σ → Bool) (m : Step σ α)
    (hAhead : ∀ s, ahead s → s.lookahead.kind ≠ .endOfInput) (hm : Consumes m) :
    Step σ (List α) := fun s =>
  if hs : ahead s then
    match hEq : m s with
    | (.ok a, t) =>
        have := hm s a t (hAhead s hs) hEq
        match repeatWhile ahead m hAhead hm t with
        | (.ok others, u) => (.ok (a :: others), u)
        | (.error halt, u) => (.error halt, u)
    | (.error halt, t) => (.error halt, t)
  else
    (.ok [], s)
termination_by s => s.input.length

theorem forward_repeatWhile {ahead : State σ → Bool} {m : Step σ α}
    {hAhead : ∀ s, ahead s → s.lookahead.kind ≠ .endOfInput} {hm : Consumes m}
    (hForward : Forward m) : Forward (repeatWhile ahead m hAhead hm) := by
  intro s
  generalize hLength : s.input.length = length
  induction length using Nat.strongRecOn generalizing s with
  | _ length ih =>
      subst hLength
      unfold repeatWhile
      split
      · rename_i hs
        split
        · rename_i a t hEq
          have hLess := hm s a t (hAhead s hs) hEq
          have hRest := ih t.input.length hLess t rfl
          split
          · rename_i others u hMore
            rw [hMore] at hRest
            exact Nat.le_trans hRest (Nat.le_of_lt hLess)
          · rename_i halt u hMore
            rw [hMore] at hRest
            exact Nat.le_trans hRest (Nat.le_of_lt hLess)
        · rename_i halt t hEq
          have hFirst := hForward s
          rw [hEq] at hFirst
          exact hFirst
      · exact Nat.le_refl _

end Step

end LedgerText.Parse
