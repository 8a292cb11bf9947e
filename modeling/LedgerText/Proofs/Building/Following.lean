import LedgerText.Proofs.Building.Trees
import LedgerText.Proofs.Grammar.Reading
import LedgerText.Proofs.Parse.Quiet

/-!
# Parsing as a visit

A production visits one of its parse trees: it reads the tokens that the visit
reads, and asks the builder what the visit asks. If it yields a value, the visit
comes to that value. If the builder refuses something, the visit is refused. If
it halts for another reason, the visit is broken off where it would read a token
that does not come next; the tree can then be any one that begins in this way.

`Follows` says this of a step, for the visits of some family. The trees of a
step that goes on are pairs of trees (`follows_bind`), which are then read as
nodes of the grammar (`Follows.as`).
-/

namespace LedgerText

/-- Why a value was refused, if that is the problem. -/
def Problem.refusal? : Problem → Option Refusal
  | .invalidValue refusal => some refusal
  | _ => none

namespace Grammar

instance {kind : TokenKind} : Inhabited (Leaf kind) := ⟨⟨.bare kind .origin, rfl⟩⟩

deriving instance Inhabited for LineEndNode, AmountNode, LotDateNode, LotCostNode, PositionNode,
  PriceSign, PostingNode, PostingLineNode, FlagNode, TitleNode, TransactionNode, CurrenciesNode,
  LineNode, DatedNode, StatementNode

end Grammar

instance : Inhabited Span := ⟨.origin⟩

namespace Parse

open Grammar Step Visit

variable {σ α β ι κ : Type} {setup : Setup σ} {builder : Builder σ} {s t u : State σ}

/-! ## Moving on -/

/-- Tokens are read between two states. The builder may be asked meanwhile. -/
structure State.Passes (s : State σ) (tokens : List Token) (t : State σ) : Prop where
  input_eq : s.input = tokens ++ t.input
  unmoved : s.Unmoved t

theorem State.Passes.refl (s : State σ) : s.Passes [] s := ⟨rfl, .refl s⟩

theorem State.Passes.trans {v w : List Token} (h : s.Passes v t) (k : t.Passes w u) :
    s.Passes (v ++ w) u :=
  ⟨by rw [h.input_eq, k.input_eq, List.append_assoc], h.unmoved.trans k.unmoved⟩

/-- Going on from a token that is not the end of the text reads it. -/
theorem State.passes_next {kind : TokenKind} (hKind : kind ≠ .endOfInput)
    (hNext : s.lookahead.kind = kind) : ∃ l : Leaf kind, s.lookahead = l.token ∧
      s.Passes [l.token] s.next := by
  obtain ⟨l, hReads⟩ := (next_iff hKind).1 ⟨hNext, rfl⟩
  exact ⟨l, hReads.lookahead_eq, hReads.input_eq, .next s⟩

/-! ## Following a visit -/

/-- Why the builder refused something, if that halts the statement. -/
def Halt.refusal? : Halt → Option Refusal
  | .statement error => error.problem.refusal?
  | .fatal _ => none

/-- What a step's result means for the visit that it follows. -/
def upshot : Except Halt α → Upshot α
  | .ok a => .value a
  | .error halt => halt.refusal?.elim .cut .refused

theorem value?_upshot_error (halt : Halt) :
    (upshot (.error halt) : Upshot α).value? = none := by
  rw [upshot]
  cases halt.refusal? <;> rfl

/-- What a step has done, beginning in a state, is to follow one of some visits. -/
def Follows (builder : Builder σ) (visit : ι → Visit α) (s : State σ)
    (done : Except Halt α × State σ) : Prop :=
  ∃ (n : ι) (tokens : List Token) (calls : List Call), s.Passes tokens done.2 ∧
    (visit n).Runs builder s.builder tokens calls (upshot done.1) done.2.builder

theorem Follows.as {visit : ι → Visit α} {other : κ → Visit α} {done : Except Halt α × State σ}
    (h : Follows builder visit s done) (f : ι → κ) (hf : ∀ n, other (f n) = visit n) :
    Follows builder other s done := by
  obtain ⟨n, tokens, calls, hPass, hRuns⟩ := h
  exact ⟨f n, tokens, calls, hPass, hf n ▸ hRuns⟩

/-- A step that yields a value and does nothing else. -/
theorem follows_pure (a : α) : Follows builder (fun _ : Unit => pure a) s (.ok a, s) :=
  ⟨(), [], [], .refl s, .done a s.builder⟩

/-- A step that halts without reading, where a tree begins with a token. -/
theorem follows_halt {visit : ι → Visit α} {halt : Halt} (hHalt : halt.refusal? = none)
    (hVisit : ∃ n token next, visit n = .read token next) :
    Follows builder visit s (.error halt, s) := by
  obtain ⟨n, token, next, hRead⟩ := hVisit
  refine ⟨n, [], [], .refl s, ?_⟩
  rw [hRead, upshot, hHalt]
  exact .cut token next s.builder

theorem runs_of_error {v : Visit α} {f : α → Visit β} {state after : σ} {tokens : List Token}
    {calls : List Call} {halt : Halt}
    (h : v.Runs builder state tokens calls (upshot (.error halt)) after) :
    (v >>= f).Runs builder state tokens calls (upshot (.error halt)) after := by
  rw [upshot] at h ⊢
  cases hHalt : halt.refusal? with
  | none =>
      rw [hHalt] at h
      exact h.bind_cut
  | some refusal =>
      rw [hHalt] at h
      exact h.bind_refused

/-- A step that goes on follows two visits, one behind the other. If the first step halts, any tree
will do for the second one. -/
theorem follows_bind [Inhabited κ] {m : Step σ α} {f : α → Step σ β} {first : ι → Visit α}
    {g : α → κ → Visit β} (hm : Follows builder first s (m s))
    (hf : ∀ a t, m s = (.ok a, t) → s.Unmoved t → Follows builder (g a) t (f a t)) :
    Follows builder (fun n : ι × κ => first n.1 >>= fun a => g a n.2) s ((m >>= f) s) := by
  obtain ⟨n, tokens, calls, hPass, hRuns⟩ := hm
  rcases hStep : m s with ⟨result, t⟩
  rw [hStep] at hPass hRuns
  cases result with
  | ok a =>
      obtain ⟨k, others, more, hMore, hRest⟩ := hf a t hStep hPass.unmoved
      rw [bind_of_ok hStep]
      exact ⟨(n, k), _, _, hPass.trans hMore, hRuns.bind hRest⟩
  | error halt =>
      rw [bind_of_error hStep]
      exact ⟨(n, default), tokens, calls, hPass, runs_of_error hRuns⟩

/-- A production that is nested too deep has read nothing of its tree. One that is not has the same
token in front of it. -/
theorem follows_nested {m : Step σ α} {visit : ι → Visit α}
    (hm : ∀ t : State σ, s.Unmoved t → t.lookahead.kind = s.lookahead.kind →
      Follows builder visit t (m t))
    (hVisit : ∃ n token next, visit n = .read token next) :
    Follows builder visit s (nested setup m s) := by
  by_cases hDepth : s.depth < setup.options.maxDepth
  · obtain ⟨n, tokens, calls, hPass, hRuns⟩ := hm { s with depth := s.depth + 1 } rfl rfl
    rcases hStep : m { s with depth := s.depth + 1 } with ⟨result, t⟩
    rw [hStep] at hPass hRuns
    have hInner : s.Unmoved t := (State.Unmoved.deeper s _).trans hPass.unmoved
    cases result with
    | ok a =>
        rw [nested_of_ok hDepth hStep]
        exact ⟨n, tokens, calls, ⟨hPass.input_eq, hInner.trans (.deeper t _)⟩, hRuns⟩
    | error halt =>
        rw [nested_of_error hDepth hStep]
        exact ⟨n, tokens, calls, ⟨hPass.input_eq, hInner⟩, hRuns⟩
  · rw [nested_of_no_room hDepth]
    exact follows_halt rfl hVisit

theorem follows_whenNext {kind : TokenKind} {m : Step σ α} {visit : ι → Visit α}
    (hm : s.lookahead.kind = kind → Follows builder visit s (m s)) :
    Follows builder (Visit.optional visit) s (whenNext kind m s) := by
  unfold whenNext
  by_cases hNext : s.lookahead.kind = kind
  · rw [if_pos hNext]
    exact (follows_bind (f := fun a => pure (some a)) (hm hNext) fun a t _ _ =>
      follows_pure (some a)).as (fun n => some n.1) fun _ => rfl
  · rw [if_neg hNext]
    exact (follows_pure none).as (fun _ => none) fun _ => rfl

/-- A repetition follows the visits of its parts one after another. The induction is on the tokens
that are left. -/
theorem follows_repeatWhile {ahead : State σ → Bool} {m : Step σ α}
    {hAhead : ∀ s, ahead s → s.lookahead.kind ≠ .endOfInput} {hConsumes : Consumes m}
    {visit : ι → Visit α} (hm : ∀ t, ahead t = true → Follows builder visit t (m t))
    (s : State σ) : Follows builder (each visit) s (repeatWhile ahead m hAhead hConsumes s) := by
  generalize hLength : s.input.length = length
  induction length using Nat.strongRecOn generalizing s with
  | _ length ih =>
      subst hLength
      by_cases hs : ahead s = true
      · rw [repeatWhile_of_true hs]
        exact (follows_bind (hm s hs) fun a t hStep _ =>
          follows_bind (ih _ (hConsumes s a t (hAhead s hs) hStep) t rfl) fun others _ _ _ =>
            follows_pure (a :: others)).as (fun n => n.1 :: n.2.1) fun _ => rfl
      · rw [repeatWhile_of_false (by simpa using hs)]
        exact (follows_pure []).as (fun _ => []) fun _ => rfl

/-! ## Tokens -/

section

variable {kind : TokenKind} (hKind : kind ≠ .endOfInput)
include hKind

theorem follows_advance (hNext : s.lookahead.kind = kind) :
    Follows builder (fun l : Leaf kind => .read l.token (pure l.token)) s (advance s) := by
  obtain ⟨l, hToken, hPass⟩ := State.passes_next hKind hNext
  refine ⟨l, [l.token], [], hPass, .read ?_⟩
  rw [← hToken]
  exact .done s.lookahead s.builder

theorem follows_skip (hNext : s.lookahead.kind = kind) :
    Follows builder (fun l : Leaf kind => l.pass) s (skip s) := by
  obtain ⟨l, -, hPass⟩ := State.passes_next hKind hNext
  exact ⟨l, [l.token], [], hPass, .readAll _ s.builder⟩

theorem follows_skipIf : Follows builder (fun l : Option (Leaf kind) => readAll (optionalToken l)) s
    (skipIf kind s) := by
  unfold skipIf
  by_cases hNext : s.lookahead.kind = kind
  · rw [if_pos hNext]
    exact (follows_skip hKind hNext).as some fun _ => rfl
  · rw [if_neg hNext]
    exact (follows_pure ()).as (fun _ => none) fun _ => rfl

theorem follows_take (expected : List TokenKind) :
    Follows builder (fun l : Leaf kind => .read l.token (pure l.token)) s
      (take kind expected s) := by
  unfold take
  by_cases hNext : s.lookahead.kind = kind
  · rw [if_pos hNext]
    exact follows_advance hKind hNext
  · rw [if_neg hNext]
    exact follows_halt rfl ⟨default, _, _, rfl⟩

end

theorem follows_missing (token : Token) :
    Follows builder (fun _ : Unit => (stuck : Visit α)) s (missing token s) :=
  ⟨(), [], [], .refl s, .stuck s.builder⟩

theorem follows_textOf (token : Token) :
    Follows builder (fun _ : Unit => leaf token.value.text?) s (textOf token s) := by
  unfold textOf
  cases token.value.text? with
  | none => exact follows_missing token
  | some text => exact follows_pure text

section

variable {kind : TokenKind} (hKind : kind ≠ .endOfInput) {m : Token → Step σ α}
  {visit : Leaf kind → Visit α}
include hKind

/-- A token that comes next, and what is done with it. -/
theorem follows_advance_bind (hNext : s.lookahead.kind = kind)
    (hm : ∀ l t, Follows builder (fun _ : Unit => visit l) t (m l.token t)) :
    Follows builder (fun l => .read l.token (visit l)) s ((advance >>= m) s) := by
  obtain ⟨l, hToken, hPass⟩ := State.passes_next hKind hNext
  obtain ⟨_, tokens, calls, hMore, hRuns⟩ := hm l s.next
  have hStep : (advance >>= m) s = m l.token s.next := by
    rw [← hToken]
    rfl
  rw [hStep]
  exact ⟨l, l.token :: tokens, calls, hPass.trans hMore, .read hRuns⟩

/-- A token of some kind, and what is done with it. -/
theorem follows_take_bind (expected : List TokenKind)
    (hm : ∀ l t, Follows builder (fun _ : Unit => visit l) t (m l.token t)) :
    Follows builder (fun l => .read l.token (visit l)) s ((take kind expected >>= m) s) := by
  by_cases hNext : s.lookahead.kind = kind
  · have hTake : take kind expected s = (.ok s.lookahead, s.next) := if_pos hNext
    rw [bind_of_ok hTake]
    exact follows_advance_bind hKind hNext hm
  · rw [bind_of_error (if_neg hNext)]
    exact follows_halt rfl ⟨default, _, _, rfl⟩

/-- A token, and the text that it carries. -/
theorem follows_takeText (expected : List TokenKind) :
    Follows builder (fun l : Leaf kind => l.visit Leaf.text?) s (takeText kind expected s) :=
  follows_take_bind hKind expected fun l _ => follows_textOf l.token

end

theorem follows_number :
    Follows builder (fun l : Leaf .number => l.visit Leaf.number?) s (number s) := by
  refine follows_take_bind (by decide) _ fun l t => ?_
  unfold Leaf.number?
  cases l.token.value with
  | number x => exact follows_pure x
  | _ => exact follows_missing l.token

/-! ## Requests -/

/-- The builder is asked, and answers. -/
theorem follows_review (span : Span) (request : Request α) :
    Follows builder (fun _ : Unit => hand request) s (review span (request.verdict builder) s) := by
  unfold review
  split
  · rename_i a state hAnswer
    exact ⟨(), [], _, ⟨rfl, rfl⟩, .asked hAnswer (.done a state)⟩
  · rename_i refusal state hAnswer
    exact ⟨(), [], _, ⟨rfl, rfl⟩, .refused hAnswer⟩

theorem follows_reviewFrom (start : Span) (request : Request α) :
    Follows builder (fun _ : Unit => hand request) s
      (reviewFrom start (request.verdict builder) s) :=
  follows_review _ request

theorem follows_day (token : Token) :
    Follows setup.builder (fun _ : Unit => leaf token.value.text? >>= fun text => hand (.date text))
      s (day setup token s) :=
  (follows_bind (follows_textOf token) fun text _ _ _ =>
    follows_review token.span (.date text)).as (fun _ => ()) fun _ => rfl

end Parse

end LedgerText
