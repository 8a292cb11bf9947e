import LedgerText.Parse.Statement
import LedgerText.Proofs.Grammar.Tree

/-!
# Reading tokens

`s.Reads w t` says that `t` is what `s` becomes by reading the tokens `w` and
doing nothing else. Reading is sequential (`reads_append`) and reads what comes
next (`Reads.lookahead_eq`).

The steps below succeed exactly by reading the leaf they ask for. Each of the
statements is an equivalence, so that a production made of such steps is opened
from left to right when it is known to succeed, and run from right to left when
its tokens are known.
-/

namespace LedgerText.Parse

open Grammar

variable {σ α β : Type}

/-- The standard builder, with options. -/
abbrev Setup.standard (options : Options) : Setup Unit := ⟨.standard, options⟩

/-! ## Reading -/

/-- Reading `tokens` and nothing else leads from one state to another. -/
structure State.Reads (s : State σ) (tokens : List Token) (t : State σ) : Prop where
  input_eq : s.input = tokens ++ t.input
  state_eq : t = { s with input := t.input, previous := tokens.getLast?.or s.previous }

namespace State

@[simp] theorem reads_nil {s t : State σ} : s.Reads [] t ↔ s = t := by
  constructor
  · rintro ⟨hInput, hState⟩
    rw [hState]
    simp only [List.nil_append] at hInput
    simp [← hInput]
  · rintro rfl
    exact ⟨rfl, by simp⟩

theorem reads_append {s u : State σ} {v w : List Token} :
    s.Reads (v ++ w) u ↔ ∃ t, s.Reads v t ∧ t.Reads w u := by
  constructor
  · rintro ⟨hInput, hState⟩
    refine ⟨{ s with input := w ++ u.input, previous := v.getLast?.or s.previous }, ⟨?_, rfl⟩,
      ⟨rfl, ?_⟩⟩
    · rw [hInput, List.append_assoc]
    · rw [hState]
      simp only [List.getLast?_append, Option.or_assoc]
  · rintro ⟨t, ⟨hFirst, hMiddle⟩, ⟨hSecond, hLast⟩⟩
    refine ⟨by rw [hFirst, hSecond, List.append_assoc], ?_⟩
    rw [hLast, hMiddle]
    simp only [List.getLast?_append, Option.or_assoc]

theorem reads_cons {s u : State σ} {token : Token} {w : List Token} :
    s.Reads (token :: w) u ↔ ∃ t, s.Reads [token] t ∧ t.Reads w u :=
  reads_append (v := [token])

/-- What comes next can be read. -/
theorem exists_reads {s : State σ} {w rest : List Token} (h : s.input = w ++ rest) :
    ∃ t, s.Reads w t ∧ t.input = rest :=
  ⟨{ s with input := rest, previous := w.getLast?.or s.previous }, ⟨h, rfl⟩, rfl⟩

/-- The kind of the next token, with the end of the text behind the last one. -/
theorem lookahead_kind (s : State σ) : s.lookahead.kind = nextKind s.input := by
  cases hInput : s.input with
  | nil => simp [lookahead, hInput, nextKind, Token.endOfInput, Token.bare]
  | cons token rest => simp [lookahead, hInput, nextKind]

theorem Reads.lookahead_eq {s t : State σ} {token : Token} {w : List Token}
    (h : s.Reads (token :: w) t) : s.lookahead = token := by
  simp [lookahead, h.input_eq]

theorem Reads.depth_eq {s t : State σ} {w : List Token} (h : s.Reads w t) :
    t.depth = s.depth := by
  rw [h.state_eq]

theorem Reads.tags_eq {s t : State σ} {w : List Token} (h : s.Reads w t) :
    t.tags = s.tags := by
  rw [h.state_eq]

/-- Behind tokens that have been read, the last of them counts. -/
theorem Reads.lastSpan_eq {s t : State σ} {token : Token} {w : List Token}
    (h : s.Reads (token :: w) t) : t.lastSpan = (w.getLastD token).span := by
  rw [h.state_eq]
  simp [lastSpan, List.getLast?_cons, List.getLastD_eq_getLast?]

/-- Nothing but the tokens and the token before them is read at another depth. -/
theorem exists_reads_deeper {s t : State σ} {w : List Token} {depth : Nat} :
    (∃ u, State.Reads { s with depth := depth } w u ∧ t = { u with depth := s.depth }) ↔
      s.Reads w t := by
  constructor
  · rintro ⟨u, ⟨hInput, hState⟩, rfl⟩
    exact ⟨hInput, by rw [hState]⟩
  · rintro ⟨hInput, hState⟩
    refine ⟨{ t with depth := depth }, ⟨hInput, by rw [hState]⟩, ?_⟩
    rw [hState]

/-- A token that is not the end of the text is read by going on to the next. -/
theorem next_iff {s t : State σ} {kind : TokenKind} (hKind : kind ≠ .endOfInput) :
    s.lookahead.kind = kind ∧ s.next = t ↔ ∃ l : Leaf kind, s.Reads [l.token] t := by
  constructor
  · rintro ⟨hNext, rfl⟩
    refine ⟨⟨s.lookahead, hNext⟩, ?_, by simp [next]⟩
    cases hInput : s.input with
    | nil =>
        exfalso
        apply hKind
        rw [← hNext, lookahead_kind, hInput, nextKind]
    | cons token rest => simp [next, lookahead, hInput]
  · rintro ⟨l, hReads⟩
    refine ⟨by rw [hReads.lookahead_eq, l.kind_eq], ?_⟩
    rw [hReads.state_eq]
    simp [next, hReads.lookahead_eq, hReads.input_eq]

/-- Going on from a leaf reads it. -/
theorem Reads.next_eq {s t : State σ} {kind : TokenKind} {l : Leaf kind}
    (hKind : kind ≠ .endOfInput) (h : s.Reads [l.token] t) : s.next = t :=
  ((next_iff hKind).2 ⟨l, h⟩).2

end State

/-! ## Success of steps -/

namespace Step

theorem bind_of_ok {m : Step σ α} {s t : State σ} {a : α} (h : m s = (.ok a, t))
    (f : α → Step σ β) : (m >>= f) s = f a t := by
  change andThen m f s = _
  rw [andThen, h]

theorem bind_of_error {m : Step σ α} {s t : State σ} {halt : Halt} (h : m s = (.error halt, t))
    (f : α → Step σ β) : (m >>= f) s = (.error halt, t) := by
  change andThen m f s = _
  rw [andThen, h]

/-- Steps are put together in any order. -/
theorem bind_bind {γ : Type} (m : Step σ α) (f : α → Step σ β) (g : β → Step σ γ) :
    m >>= f >>= g = m >>= fun a => f a >>= g := by
  funext s
  rcases hStep : m s with ⟨result, t⟩
  cases result with
  | ok a =>
      have hFirst : (m >>= f) s = f a t := bind_of_ok hStep f
      rw [bind_of_ok hStep]
      rcases hNext : f a t with ⟨result, u⟩
      cases result with
      | ok b => rw [bind_of_ok hNext, bind_of_ok (hFirst.trans hNext)]
      | error halt => rw [bind_of_error hNext, bind_of_error (hFirst.trans hNext)]
  | error halt => rw [bind_of_error (bind_of_error hStep f), bind_of_error hStep]

/-- A step that goes on succeeds if both its parts do. -/
theorem bind_eq_ok {m : Step σ α} {f : α → Step σ β} {s u : State σ} {b : β} :
    (m >>= f) s = (.ok b, u) ↔ ∃ a t, m s = (.ok a, t) ∧ f a t = (.ok b, u) := by
  change andThen m f s = _ ↔ _
  unfold andThen
  constructor
  · intro h
    split at h
    · rename_i a t hFirst
      exact ⟨a, t, hFirst, h⟩
    · simp at h
  · rintro ⟨a, t, hFirst, hSecond⟩
    rw [hFirst]
    exact hSecond

theorem pure_eq_ok {s t : State σ} {a b : α} :
    (pure a : Step σ α) s = (.ok b, t) ↔ a = b ∧ s = t := by
  change (Except.ok a, s) = (.ok b, t) ↔ _
  simp

theorem unexpected_ne_ok {expected : List TokenKind} {s t : State σ} {a : α} :
    (unexpected expected : Step σ α) s ≠ (.ok a, t) := by
  simp [unexpected, fail]

theorem take_eq_ok {kind : TokenKind} {expected : List TokenKind} {s t : State σ} {token : Token}
    (hKind : kind ≠ .endOfInput) :
    take kind expected s = (.ok token, t) ↔ ∃ l : Leaf kind, l.token = token ∧
      s.Reads [l.token] t := by
  unfold take
  constructor
  · intro h
    split at h
    · rename_i hNext
      cases h
      obtain ⟨l, hReads⟩ := (State.next_iff hKind).1 ⟨hNext, rfl⟩
      exact ⟨l, hReads.lookahead_eq.symm, hReads⟩
    · exact absurd h unexpected_ne_ok
  · rintro ⟨l, rfl, hReads⟩
    rw [if_pos (by rw [hReads.lookahead_eq, l.kind_eq])]
    change (Except.ok s.lookahead, s.next) = _
    rw [hReads.lookahead_eq, hReads.next_eq hKind]

theorem textOf_eq_ok {token : Token} {s t : State σ} {text : String} :
    textOf token s = (.ok text, t) ↔ token.value.text? = some text ∧ s = t := by
  cases hText : token.value.text? with
  | some found => simp only [textOf, hText, pure_eq_ok, Option.some.injEq]
  | none => simp [textOf, hText, missing, fail]

theorem takeText_eq_ok {kind : TokenKind} {expected : List TokenKind} {s t : State σ}
    {text : String} (hKind : kind ≠ .endOfInput) :
    takeText kind expected s = (.ok text, t) ↔ ∃ l : Leaf kind, l.text? = some text ∧
      s.Reads [l.token] t := by
  unfold takeText
  simp only [bind_eq_ok, take_eq_ok hKind, textOf_eq_ok]
  constructor
  · rintro ⟨token, u, ⟨l, rfl, hReads⟩, hText, rfl⟩
    exact ⟨l, hText, hReads⟩
  · rintro ⟨l, hText, hReads⟩
    exact ⟨l.token, t, ⟨l, rfl, hReads⟩, hText, rfl⟩

/-- An optional step is left out only if its first token does not come next. -/
theorem whenNext_eq_ok {kind : TokenKind} {m : Step σ α} {s t : State σ} {a : Option α} :
    whenNext kind m s = (.ok a, t) ↔
      (∃ b, a = some b ∧ s.lookahead.kind = kind ∧ m s = (.ok b, t)) ∨
        (a = none ∧ s.lookahead.kind ≠ kind ∧ s = t) := by
  unfold whenNext
  by_cases hNext : s.lookahead.kind = kind
  · rw [if_pos hNext]
    change (m >>= fun b => pure (some b)) s = _ ↔ _
    simp only [bind_eq_ok, pure_eq_ok]
    constructor
    · rintro ⟨b, u, hStep, rfl, rfl⟩
      exact .inl ⟨b, rfl, hNext, hStep⟩
    · rintro (⟨b, rfl, -, hStep⟩ | ⟨-, hNe, -⟩)
      · exact ⟨b, t, hStep, rfl, rfl⟩
      · exact absurd hNext hNe
  · rw [if_neg hNext]
    constructor
    · intro h
      cases h
      exact .inr ⟨rfl, hNext, rfl⟩
    · rintro (⟨b, -, hKind, -⟩ | ⟨rfl, -, rfl⟩)
      · exact absurd hKind hNext
      · rfl

/-- Within the nesting limit, a production that succeeds is finished. -/
theorem nested_of_ok {setup : Setup σ} {m : Step σ α} {s t : State σ} {a : α}
    (hDepth : s.depth < setup.options.maxDepth)
    (h : m { s with depth := s.depth + 1 } = (.ok a, t)) :
    nested setup m s = (.ok a, { t with depth := t.depth - 1 }) := by
  rw [nested_of_room hDepth, bind_of_ok h]
  rfl

/-- Within the nesting limit, a production halts as what it nests does. -/
theorem nested_of_error {setup : Setup σ} {m : Step σ α} {s t : State σ} {halt : Halt}
    (hDepth : s.depth < setup.options.maxDepth)
    (h : m { s with depth := s.depth + 1 } = (.error halt, t)) :
    nested setup m s = (.error halt, t) := by
  rw [nested_of_room hDepth, bind_of_error h]

/-- Within the nesting limit, a production succeeds as what it nests does. -/
theorem nested_eq_ok {setup : Setup σ} {m : Step σ α} {s t : State σ} {a : α}
    (hDepth : s.depth < setup.options.maxDepth) :
    nested setup m s = (.ok a, t) ↔
      ∃ u, m { s with depth := s.depth + 1 } = (.ok a, u) ∧
        t = { u with depth := u.depth - 1 } := by
  rcases hStep : m { s with depth := s.depth + 1 } with ⟨result, u⟩
  cases result with
  | ok b =>
      rw [nested_of_ok hDepth hStep]
      constructor
      · intro h
        cases h
        exact ⟨u, rfl, rfl⟩
      · rintro ⟨v, hSame, rfl⟩
        cases hSame
        rfl
  | error halt => simp [nested_of_error hDepth hStep]

/-- A production that succeeds by reading the tokens of some node does so inside another one. -/
theorem nested_eq_ok_iff {ι : Type} {setup : Setup σ} {m : Step σ α} {s t : State σ} {a : α}
    {tokens : ι → List Token} {P : ι → List Token → Prop}
    (hDepth : s.depth < setup.options.maxDepth)
    (hStep : ∀ u, m { s with depth := s.depth + 1 } = (.ok a, u) ↔
      ∃ n, P n u.input ∧ State.Reads { s with depth := s.depth + 1 } (tokens n) u) :
    nested setup m s = (.ok a, t) ↔ ∃ n, P n t.input ∧ s.Reads (tokens n) t := by
  have hFinish {u : State σ} {n : ι} (h : State.Reads { s with depth := s.depth + 1 } (tokens n) u) :
      { u with depth := u.depth - 1 } = { u with depth := s.depth } := by
    rw [h.depth_eq]
    rfl
  rw [nested_eq_ok hDepth]
  constructor
  · rintro ⟨u, hRun, rfl⟩
    obtain ⟨n, hn, hReads⟩ := (hStep u).1 hRun
    exact ⟨n, hn, State.exists_reads_deeper.1 ⟨u, hReads, hFinish hReads⟩⟩
  · rintro ⟨n, hn, hReads⟩
    obtain ⟨u, hDeep, rfl⟩ := State.exists_reads_deeper.2 hReads
    exact ⟨u, (hStep u).2 ⟨n, hn, hDeep⟩, (hFinish hDeep).symm⟩

/-! ## Repetition -/

section Repetition

variable {ahead : State σ → Bool} {m : Step σ α}
  {hAhead : ∀ s, ahead s → s.lookahead.kind ≠ .endOfInput} {hm : Consumes m} {s : State σ}

theorem repeatWhile_of_false (hs : ahead s = false) :
    repeatWhile ahead m hAhead hm s = (.ok [], s) := by
  rw [repeatWhile, dif_neg (by simp [hs])]

/-- Where something is ahead, a repetition is one step with a repetition behind it. -/
theorem repeatWhile_of_true (hs : ahead s = true) :
    repeatWhile ahead m hAhead hm s =
      (m >>= fun a => repeatWhile ahead m hAhead hm >>= fun others => pure (a :: others)) s := by
  rw [repeatWhile, dif_pos hs]
  split
  · rename_i a t hEq
    rw [bind_of_ok hEq]
    split
    · rename_i others u hMore
      rw [bind_of_ok hMore]
      rfl
    · rename_i halt u hMore
      rw [bind_of_error hMore]
  · rename_i halt t hEq
    rw [bind_of_error hEq]

end Repetition

end Step

end LedgerText.Parse
