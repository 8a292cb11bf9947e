import LedgerText.Proofs.Parse.Naming
import LedgerText.Proofs.Recovery.Segments

/-!
# Parsing with one comment line more

A parse of a text and a parse of the same text with a comment line more do the
same, up to places. `Near` says what the states of the two have in common, and
two conditions on where they are in their texts how much is known of what comes
next. Where the comment line is not the very next thing (`Ready`), both have the
same token ahead. Behind a line end it may be the next thing for the second one
(`Behind`).

A statement looks at the next token everywhere but at its very end, so it can
be read wherever the two are `Ready`, and leaves them `Behind`. `Parallel` is
the judgement on a step, with one rule for every combinator and production. It
relates two steps, since the productions pass on the places that they have read;
the two sides of a rule differ in these alone.
-/

namespace LedgerText

/-- What the grammar sees of a token: everything but its place. -/
def Token.sense (t : Token) : TokenKind × TokenValue := (t.kind, t.value)

/-- The directive without the line that it was read from. -/
def Directive.unlined (d : Directive) : Directive :=
  { d with location := { d.location with line := 0 } }

/-- The builder does not act on lines. Its answers to the same statement on two lines differ at
most in the line. -/
def Builder.IgnoresLines {σ : Type} (builder : Builder σ) : Prop :=
  ∀ (active : TagContext) (content : Content) (name : String) (line other : Nat) (state : σ),
    SameUpTo Directive.unlined (builder.directive active ⟨content, ⟨name, line⟩⟩ state)
      (builder.directive active ⟨content, ⟨name, other⟩⟩ state)

theorem Builder.standard_ignoresLines : Builder.standard.IgnoresLines :=
  fun _ _ _ _ _ _ => .ok rfl

namespace Parse

open Grammar Step

variable {σ α β γ δ : Type}

/-! ## Where the parses are -/

/-- The same comes next in both texts, up to their ends. -/
structure Aligned (p q : Spot) : Prop where
  senses : p.1.map Token.sense = q.1.map Token.sense
  begins : p.atLineStart = q.atLineStart

/-- Behind `front`, which comes next in both texts, a line begins, and the second text has a comment
and a line end there that the first does not have. -/
structure Ahead (front : List (TokenKind × TokenValue)) (p q : Spot) : Prop where
  exists_back : ∃ remark stop back, p.1.map Token.sense = front ++ back ∧
    q.1.map Token.sense = front ++ (.comment, remark) :: (.lineEnd, stop) :: back
  begins : p.atLineStart = q.atLineStart
  ends : (front.getLast?.elim p.atLineStart fun sense => decide (sense.1 = .lineEnd)) = true

/-- The same token comes next in both texts. -/
def Ready (p q : Spot) : Prop := Aligned p q ∨ ∃ first front, Ahead (first :: front) p q

/-- The comment line may come next in the second text. -/
def Behind (p q : Spot) : Prop := Aligned p q ∨ ∃ front, Ahead front p q

/-- The same token of a kind comes next in both texts. -/
def Facing (kind : TokenKind) (p q : Spot) : Prop := Ready p q ∧ nextKind p.1 = kind

section

variable {s : State σ} {t : State σ} {p q : Spot}

theorem Ready.behind (h : Ready p q) : Behind p q := by
  rcases h with hAligned | ⟨first, front, hAhead⟩
  · exact .inl hAligned
  · exact .inr ⟨_, hAhead⟩

/-- The same comes next, or the comment line does in the second text. -/
theorem Behind.cases (h : Behind p q) : Ready p q ∨ Ahead [] p q := by
  rcases h with hAligned | ⟨_ | ⟨first, front⟩, hAhead⟩
  · exact .inl (.inl hAligned)
  · exact .inr hAhead
  · exact .inl (.inr ⟨first, front, hAhead⟩)

theorem Ready.begins (h : Ready p q) : p.atLineStart = q.atLineStart := by
  rcases h with hAligned | ⟨first, front, hAhead⟩
  · exact hAligned.begins
  · exact hAhead.begins

theorem State.sense_lookahead (s : State σ) :
    s.lookahead.sense = (s.input.map Token.sense).headD (.endOfInput, .absent) := by
  unfold lookahead
  cases s.input <;> rfl

theorem State.kind_of_senses {first : TokenKind × TokenValue}
    {back : List (TokenKind × TokenValue)} (h : s.input.map Token.sense = first :: back) :
    s.lookahead.kind = first.1 := by
  have hSense := s.sense_lookahead
  rw [h] at hSense
  exact congrArg Prod.fst hSense

theorem State.senses_next {first : TokenKind × TokenValue}
    {back : List (TokenKind × TokenValue)} (h : s.input.map Token.sense = first :: back) :
    s.next.input.map Token.sense = back := by
  show s.input.tail.map Token.sense = back
  rw [List.map_tail, h]
  rfl

theorem Ready.lookahead_eq (h : Ready s.spot t.spot) : s.lookahead.sense = t.lookahead.sense := by
  rw [s.sense_lookahead, t.sense_lookahead]
  rcases h with hAligned | ⟨first, front, hAhead⟩
  · exact congrArg (List.headD · _) hAligned.senses
  · obtain ⟨remark, stop, back, hFirst, hSecond⟩ := hAhead.exists_back
    rw [hFirst, hSecond]
    rfl

theorem Ready.kind_eq (h : Ready s.spot t.spot) : s.lookahead.kind = t.lookahead.kind :=
  congrArg Prod.fst h.lookahead_eq

/-- Behind the next token, both texts have one token less. -/
theorem Ready.behind_next (h : Ready s.spot t.spot) : Behind s.next.spot t.next.spot := by
  have hBegins : s.next.spot.atLineStart = t.next.spot.atLineStart := by
    show decide (s.lookahead.kind = .lineEnd) = decide (t.lookahead.kind = .lineEnd)
    rw [h.kind_eq]
  rcases h with hAligned | ⟨first, front, hAhead⟩
  · refine .inl ⟨?_, hBegins⟩
    show s.input.tail.map Token.sense = t.input.tail.map Token.sense
    rw [List.map_tail, List.map_tail, hAligned.senses]
  · obtain ⟨remark, stop, back, hFirst, hSecond⟩ := hAhead.exists_back
    refine .inr ⟨front, ⟨remark, stop, back, State.senses_next hFirst, State.senses_next hSecond⟩,
      hBegins, ?_⟩
    have hEnds := hAhead.ends
    cases front with
    | nil =>
        show decide (s.lookahead.kind = .lineEnd) = true
        rw [State.kind_of_senses hFirst]
        exact hEnds
    | cons second front =>
        rw [List.getLast?_cons_cons] at hEnds
        cases hLast : (second :: front).getLast? with
        | none => cases List.getLast?_eq_none_iff.1 hLast
        | some last =>
            rw [hLast] at hEnds
            exact hEnds

/-- Behind a token that does not end its line, the same comes next again. -/
theorem Ready.next (h : Ready s.spot t.spot) (hKind : s.lookahead.kind ≠ .lineEnd) :
    Ready s.next.spot t.next.spot := by
  rcases h.behind_next with hAligned | ⟨front, hAhead⟩
  · exact .inl hAligned
  · cases front with
    | nil =>
        have hEnds : decide (s.lookahead.kind = .lineEnd) = true := hAhead.ends
        exact absurd (of_decide_eq_true hEnds) hKind
    | cons first front => exact .inr ⟨first, front, hAhead⟩

theorem facing_ready {kind : TokenKind} (p q : Spot) (h : Facing kind p q) : Ready p q := h.1

theorem ready_behind (p q : Spot) (h : Ready p q) : Behind p q := h.behind

theorem facing_behind {kind : TokenKind} (p q : Spot) (h : Facing kind p q) : Behind p q :=
  h.1.behind

end

/-! ## What the parses have done -/

/-- The states of the two parses, but for what comes next. -/
structure State.Near (s t : State σ) : Prop where
  depth : s.depth = t.depth
  builder : s.builder = t.builder
  tags : s.tags = t.tags
  directives :
    (s.directives.map fun x => x.value.unlined) = t.directives.map fun x => x.value.unlined
  problems : s.errors.map ParseError.problem = t.errors.map ParseError.problem

/-- The two halts have the same reason. -/
inductive Halt.Same : Halt → Halt → Prop where
  | statement {e f : ParseError} (h : e.problem = f.problem) : Same (.statement e) (.statement f)
  | fatal {e f : ParseError} (h : e.problem = f.problem) : Same (.fatal e) (.fatal f)

/-- Two steps come to values that are related, or halt for the same reason. -/
inductive Corresponds (r : α → β → Prop) (Q : Spot → Spot → Prop) :
    Except Halt α × State σ → Except Halt β × State σ → Prop where
  | ok {a : α} {b : β} {s t : State σ} (h : r a b) (near : s.Near t) (spots : Q s.spot t.spot) :
      Corresponds r Q (.ok a, s) (.ok b, t)
  | error {g h : Halt} {s t : State σ} (same : g.Same h) (near : s.Near t)
      (spots : Behind s.spot t.spot) : Corresponds r Q (.error g, s) (.error h, t)

/-- From spots with `P`, the steps do the same up to places, and yield related values. They end at
spots with `Q` if they succeed. -/
def Parallel (P : Spot → Spot → Prop) (r : α → β → Prop) (m : Step σ α) (n : Step σ β)
    (Q : Spot → Spot → Prop) : Prop :=
  ∀ s t : State σ, s.Near t → P s.spot t.spot → Corresponds r Q (m s) (n t)

/-! ## Combinators -/

section

variable {P Q R : Spot → Spot → Prop} {r : α → β → Prop} {r' : γ → δ → Prop}

theorem Corresponds.imp {r' : α → β → Prop} {Q' : Spot → Spot → Prop}
    {x : Except Halt α × State σ} {y : Except Halt β × State σ} (h : Corresponds r Q x y)
    (hValues : ∀ a b, r a b → r' a b) (hQ : ∀ p q, Q p q → Q' p q) : Corresponds r' Q' x y := by
  cases h with
  | ok h near spots => exact .ok (hValues _ _ h) near (hQ _ _ spots)
  | error same near spots => exact .error same near spots

theorem Parallel.weaken {P' Q' : Spot → Spot → Prop} {m : Step σ α} {n : Step σ β}
    (h : Parallel P r m n Q) (hP : ∀ p q, P' p q → P p q) (hQ : ∀ p q, Q p q → Q' p q) :
    Parallel P' r m n Q' :=
  fun s t hNear hSpots => (h s t hNear (hP _ _ hSpots)).imp (fun _ _ h => h) hQ

theorem Parallel.imp {r' : α → β → Prop} {m : Step σ α} {n : Step σ β} (h : Parallel P r m n Q)
    (hValues : ∀ a b, r a b → r' a b) : Parallel P r' m n Q :=
  fun s t hNear hSpots => (h s t hNear hSpots).imp hValues fun _ _ h => h

theorem parallel_pure {a : α} {b : β} (h : r a b) :
    Parallel P r (pure a : Step σ α) (pure b) P :=
  fun _ _ hNear hSpots => .ok h hNear hSpots

theorem Corresponds.bind {m : Step σ α} {n : Step σ β} {s t : State σ} {f : α → Step σ γ}
    {g : β → Step σ δ} (h : Corresponds r Q (m s) (n t))
    (hMore : ∀ a b, r a b → Parallel Q r' (f a) (g b) R) :
    Corresponds r' R ((m >>= f) s) ((n >>= g) t) := by
  show Corresponds r' R (andThen m f s) (andThen n g t)
  unfold andThen
  revert h
  generalize m s = first
  generalize n t = second
  rintro (⟨hValues, hNear, hEnd⟩ | ⟨hSame, hNear, hEnd⟩)
  · exact hMore _ _ hValues _ _ hNear hEnd
  · exact .error hSame hNear hEnd

theorem parallel_bind {m : Step σ α} {n : Step σ β} {f : α → Step σ γ} {g : β → Step σ δ}
    (h : Parallel P r m n Q) (hMore : ∀ a b, r a b → Parallel Q r' (f a) (g b) R) :
    Parallel P r' (m >>= f) (n >>= g) R :=
  fun s t hNear hSpots => (h s t hNear hSpots).bind hMore

/-- Both go on with the same value. -/
theorem parallel_bind_eq {m n : Step σ α} {f : α → Step σ γ} {g : α → Step σ δ}
    (h : Parallel P Eq m n Q) (hMore : ∀ a, Parallel Q r' (f a) (g a) R) :
    Parallel P r' (m >>= f) (n >>= g) R :=
  parallel_bind h fun a b hSame => by
    cases hSame
    exact hMore a

theorem parallel_peek_bind {f : TokenKind → Step σ α} {g : TokenKind → Step σ β}
    (h : ∀ kind, Parallel (Facing kind) r (f kind) (g kind) Q) :
    Parallel Ready r (peek >>= f) (peek >>= g) Q := by
  intro s t hNear hSpots
  rw [peek_bind, peek_bind, ← hSpots.kind_eq]
  exact h _ s t hNear ⟨hSpots, s.lookahead_kind.symm⟩

theorem parallel_here_bind {f : Span → Step σ α} {g : Span → Step σ β}
    (h : ∀ span other, Parallel P r (f span) (g other) Q) :
    Parallel P r (here >>= f) (here >>= g) Q :=
  fun s t hNear hSpots => h s.lookahead.span t.lookahead.span s t hNear hSpots

theorem parallel_spanFrom_bind {start other : Span} {f : Span → Step σ α} {g : Span → Step σ β}
    (h : ∀ span other, Parallel P r (f span) (g other) Q) :
    Parallel P r (spanFrom start >>= f) (spanFrom other >>= g) Q :=
  fun s t hNear hSpots => h (start.upTo s.lastSpan) (other.upTo t.lastSpan) s t hNear hSpots

theorem parallel_fail {e f : ParseError} (h : e.problem = f.problem)
    (hP : ∀ p q, P p q → Behind p q) :
    Parallel P r (fail e : Step σ α) (fail f) Q :=
  fun _ _ hNear hSpots => .error (.statement h) hNear (hP _ _ hSpots)

theorem parallel_missing {token other : Token} (h : token.kind = other.kind) :
    Parallel Ready r (missing token : Step σ α) (missing other) Q :=
  parallel_fail (congrArg Problem.missingValue h) ready_behind

theorem parallel_unexpected (expected : List TokenKind) :
    Parallel Ready r (unexpected expected : Step σ α) (unexpected expected) Q := by
  intro s t hNear hSpots
  refine .error (.statement ?_) hNear hSpots.behind
  show Problem.unexpected s.lookahead.kind expected = .unexpected t.lookahead.kind expected
  rw [hSpots.kind_eq]

/-- Inside a line, both texts have the same next token behind the one that is read. -/
theorem parallel_advance {kind : TokenKind} (hKind : kind ≠ .lineEnd) :
    Parallel (Facing kind) (fun a b => a.sense = b.sense ∧ a.kind = kind)
      (advance : Step σ Token) advance Ready := by
  intro s t hNear hSpots
  have hSame : s.lookahead.kind = kind := s.lookahead_kind.trans hSpots.2
  exact .ok ⟨hSpots.1.lookahead_eq, hSame⟩ { hNear with }
    (hSpots.1.next (by rw [hSame]; exact hKind))

theorem parallel_skip {kind : TokenKind} (hKind : kind ≠ .lineEnd) :
    Parallel (Facing kind) Eq (skip : Step σ Unit) skip Ready := by
  intro s t hNear hSpots
  refine .ok rfl { hNear with } (hSpots.1.next ?_)
  rw [s.lookahead_kind, hSpots.2]
  exact hKind

theorem parallel_skip_any : Parallel Ready Eq (skip : Step σ Unit) skip Behind :=
  fun _ _ hNear hSpots =>
    .ok rfl { hNear with } hSpots.behind_next

/-- Steps that depend on the kind of the next token. -/
theorem parallel_ite_kind {kind : TokenKind} {m k : Step σ α} {n l : Step σ β}
    (hm : Parallel (Facing kind) r m n Q) (hk : Parallel Ready r k l Q) :
    Parallel Ready r (fun s => if s.lookahead.kind = kind then m s else k s)
      (fun s => if s.lookahead.kind = kind then n s else l s) Q := by
  intro s t hNear hSpots
  have hSame := hSpots.kind_eq
  by_cases hKind : s.lookahead.kind = kind
  · simp only [if_pos hKind, if_pos (hSame.symm.trans hKind)]
    exact hm s t hNear ⟨hSpots, s.lookahead_kind.symm.trans hKind⟩
  · simp only [if_neg hKind, if_neg (fun h => hKind (hSame.trans h))]
    exact hk s t hNear hSpots

/-- What can be done wherever the same token comes next can be done where it is of a kind. -/
theorem Parallel.facing {kind : TokenKind} {m : Step σ α} {n : Step σ β}
    (h : Parallel Ready r m n Q) : Parallel (Facing kind) r m n Q :=
  h.weaken facing_ready fun _ _ hq => hq

theorem parallel_skipIf_lineEnd : Parallel Ready Eq (skipIf .lineEnd : Step σ Unit)
    (skipIf .lineEnd) Behind :=
  parallel_ite_kind parallel_skip_any.facing
    ((parallel_pure rfl).weaken (fun _ _ h => h) ready_behind)

theorem parallel_take {kind : TokenKind} (hKind : kind ≠ .lineEnd) (expected : List TokenKind) :
    Parallel Ready (fun a b => a.sense = b.sense ∧ a.kind = kind)
      (take kind expected : Step σ Token) (take kind expected) Ready :=
  parallel_ite_kind (parallel_advance hKind) (parallel_unexpected expected)

theorem parallel_textOf {token other : Token} (h : token.sense = other.sense) :
    Parallel Ready Eq (textOf token : Step σ String) (textOf other) Ready := by
  obtain ⟨hKind, hValue⟩ := Prod.mk.inj h
  unfold textOf
  rw [← hValue]
  split
  · exact parallel_pure rfl
  · exact parallel_missing hKind

theorem parallel_takeText {kind : TokenKind} (hKind : kind ≠ .lineEnd)
    (expected : List TokenKind) :
    Parallel Ready Eq (takeText kind expected : Step σ String) (takeText kind expected) Ready :=
  parallel_bind (parallel_take hKind expected) fun _ _ h => parallel_textOf h.1

theorem parallel_whenNext {kind : TokenKind} {m n : Step σ α}
    (h : Parallel (Facing kind) Eq m n Ready) :
    Parallel Ready Eq (whenNext kind m) (whenNext kind n) Ready :=
  parallel_ite_kind (parallel_bind_eq h fun _ => parallel_pure rfl) (parallel_pure rfl)

theorem parallel_review {f : α → γ} (span other : Span) {v w : Verdict σ α}
    (h : ∀ state, SameUpTo f (v state) (w state)) (hP : ∀ p q, P p q → Behind p q) :
    Parallel P (fun a b => f a = f b) (review span v) (review other w) P := by
  intro s t hNear hSpots
  have hAnswer := h s.builder
  unfold review
  rw [← hNear.builder]
  revert hAnswer
  generalize v s.builder = first
  generalize w s.builder = second
  rintro (⟨hSame⟩ | _)
  · exact .ok hSame { hNear with builder := rfl } hSpots
  · exact .error (.statement rfl) { hNear with builder := rfl } (hP _ _ hSpots)

/-- Both hand the same value to the builder. -/
theorem parallel_reviewFrom (start other : Span) (verdict : Verdict σ α)
    (hP : ∀ p q, P p q → Behind p q) :
    Parallel P Eq (reviewFrom start verdict) (reviewFrom other verdict) P :=
  parallel_spanFrom_bind fun span _ =>
    parallel_review (f := id) span _ (fun state => .refl id (verdict state)) hP

/-- Both texts have room for a production, or neither has. -/
theorem parallel_nested {setup : Setup σ} {m : Step σ α} {n : Step σ β}
    (hP : ∀ p q, P p q → Behind p q) (h : Parallel P r m n Q) :
    Parallel P r (nested setup m) (nested setup n) Q := by
  intro s t hNear hSpots
  by_cases hDepth : s.depth < setup.options.maxDepth
  · rw [nested_of_room hDepth, nested_of_room (hNear.depth ▸ hDepth)]
    have hInside :
        ({ s with depth := s.depth + 1 } : State σ).Near { t with depth := t.depth + 1 } :=
      { hNear with depth := congrArg (· + 1) hNear.depth }
    refine parallel_bind h (fun a b hValues => ?_) _ _ hInside hSpots
    exact fun u v hNear hSpots =>
      .ok hValues { hNear with depth := congrArg (· - 1) hNear.depth } hSpots
  · rw [nested_of_no_room hDepth, nested_of_no_room (hNear.depth ▸ hDepth)]
    exact .error (.fatal rfl) hNear (hP _ _ hSpots)

theorem bind_pure_eq (m : Step σ α) : (m >>= fun a => pure a) = m := by
  funext s
  show andThen m _ s = m s
  unfold andThen
  rcases m s with ⟨_ | _, _⟩ <;> rfl

/-- Repetitions go on in both texts, or in the second one alone with a value that does not count.
The induction is on the tokens that the second text has left. -/
theorem parallel_repeatWhile {ahead : State σ → Bool} {m : Step σ α}
    {hAhead : ∀ s, ahead s → s.lookahead.kind ≠ .endOfInput} {hm : Consumes m}
    (counted : α → Option γ)
    (hCases : ∀ s t : State σ, s.Near t → P s.spot t.spot →
      (ahead s = ahead t ∧ (ahead t = true → Q s.spot t.spot)) ∨
        ∃ a u, ahead t = true ∧ m t = (.ok a, u) ∧ counted a = none ∧ s.Near u ∧
          P s.spot u.spot)
    (hStep : Parallel Q (fun a b => counted a = counted b) m m P) :
    Parallel P (fun xs ys => xs.filterMap counted = ys.filterMap counted)
      (repeatWhile ahead m hAhead hm) (repeatWhile ahead m hAhead hm) P := by
  intro s t
  generalize hLength : t.input.length = length
  induction length using Nat.strongRecOn generalizing s t with
  | _ length ih =>
      subst hLength
      intro hNear hSpots
      rcases hCases s t hNear hSpots with ⟨hSame, hReady⟩ |
        ⟨a, u, hGoes, hSkip, hNone, hNear, hSpots⟩
      · cases hGoes : ahead t with
        | false =>
            rw [repeatWhile_of_false hGoes, repeatWhile_of_false (hSame.trans hGoes)]
            exact .ok rfl hNear hSpots
        | true =>
            rw [repeatWhile_of_true hGoes, repeatWhile_of_true (hSame.trans hGoes)]
            have hFirst := hStep s t hNear (hReady hGoes)
            rcases hLeft : m s with ⟨first, s'⟩
            rcases hRight : m t with ⟨second, t'⟩
            rw [hLeft, hRight] at hFirst
            cases hFirst with
            | error hSame hNear hEnd =>
                rw [bind_of_error hLeft, bind_of_error hRight]
                exact .error hSame hNear hEnd
            | @ok a b _ _ hValue hNear hEnd =>
                have hOthers := ih _ (hm t b t' (hAhead t hGoes) hRight) s' t' rfl hNear hEnd
                rw [bind_of_ok hLeft, bind_of_ok hRight]
                refine hOthers.bind fun xs ys hRest => parallel_pure ?_
                rw [List.filterMap_cons, List.filterMap_cons, hValue, hRest]
      · have hOthers := ih _ (hm t a u (hAhead t hGoes) hSkip) s u rfl hNear hSpots
        have hLeft := congrFun (bind_pure_eq (repeatWhile ahead m hAhead hm)) s
        rw [repeatWhile_of_true hGoes, bind_of_ok hSkip, ← hLeft]
        refine hOthers.bind fun xs ys hRest => parallel_pure ?_
        rw [List.filterMap_cons, hNone]
        exact hRest

end

/-! ## Productions of a posting -/

section

variable {setup : Setup σ}

theorem parallel_lineEnd (also : List TokenKind) :
    Parallel Ready Eq (lineEnd also : Step σ Unit) (lineEnd also) Behind := by
  refine parallel_peek_bind fun kind => ?_
  split
  · exact parallel_skip_any.facing
  · exact parallel_bind_eq (parallel_skip (by decide)) fun _ => parallel_skipIf_lineEnd
  · exact parallel_bind_eq (parallel_skip (by decide)) fun _ => parallel_skipIf_lineEnd
  · exact (parallel_unexpected _).facing

theorem parallel_number : Parallel Ready Eq (number : Step σ Decimal) number Ready := by
  refine parallel_bind (parallel_take (by decide) _) fun token other h => ?_
  obtain ⟨hKind, hValue⟩ := Prod.mk.inj h.1
  rw [← hValue]
  split
  · exact parallel_pure rfl
  · exact parallel_missing hKind

theorem parallel_flag {kind : TokenKind} (hKind : kind ≠ .lineEnd) :
    Parallel (Facing kind) Eq (flag : Step σ Char) flag Ready := by
  refine parallel_bind (parallel_advance hKind) fun token other h => ?_
  obtain ⟨hKind, hValue⟩ := Prod.mk.inj h.1
  rw [← hKind, ← hValue]
  split
  · exact parallel_pure rfl
  · exact parallel_pure rfl
  · exact parallel_missing hKind

theorem parallel_day {token other : Token} (h : token.sense = other.sense) :
    Parallel Ready Eq (day setup token) (day setup other) Ready :=
  parallel_bind_eq (parallel_textOf h) fun text =>
    parallel_review (f := id) _ _ (fun state => .refl id (setup.builder.date text state))
      ready_behind

theorem parallel_amount : Parallel Ready Eq (amount setup) (amount setup) Ready :=
  parallel_nested ready_behind <| parallel_here_bind fun _ _ =>
    parallel_bind_eq parallel_number fun _ =>
      parallel_bind_eq (parallel_takeText (by decide) _) fun _ =>
        parallel_reviewFrom _ _ _ ready_behind

theorem parallel_lotDate : Parallel Ready Eq (lotDate setup) (lotDate setup) Ready := by
  refine parallel_peek_bind fun kind => ?_
  split
  · exact parallel_bind_eq (parallel_skip (by decide)) fun _ =>
      parallel_bind (parallel_take (by decide) _) fun _ _ h =>
        parallel_bind_eq (parallel_day h.1) fun _ => parallel_pure rfl
  · exact (parallel_pure rfl).facing
  · exact (parallel_unexpected _).facing

theorem parallel_lotCost :
    Parallel (Facing (.mark .leftBrace)) Eq (lotCost setup) (lotCost setup) Ready :=
  parallel_nested facing_behind <| parallel_here_bind fun _ _ =>
    parallel_bind_eq (parallel_skip (by decide)) fun _ =>
      parallel_bind_eq parallel_amount fun _ => parallel_bind_eq parallel_lotDate fun _ =>
        parallel_bind (parallel_take (by decide) _) fun _ _ _ =>
          parallel_reviewFrom _ _ _ ready_behind

theorem parallel_position : Parallel Ready Eq (position setup) (position setup) Ready :=
  parallel_nested ready_behind <| parallel_here_bind fun _ _ =>
    parallel_bind_eq parallel_amount fun _ =>
      parallel_bind_eq (parallel_whenNext parallel_lotCost) fun _ =>
        parallel_reviewFrom _ _ _ ready_behind

theorem parallel_priceTag {kind : TokenKind} (hKind : kind ≠ .lineEnd) (position : Position)
    (total : Bool) : Parallel (Facing kind) Eq (priceTag setup position total)
      (priceTag setup position total) Behind :=
  parallel_bind_eq (parallel_skip hKind) fun _ => parallel_bind_eq parallel_amount fun _ =>
    parallel_bind_eq (parallel_lineEnd _) fun _ => parallel_pure rfl

theorem parallel_movement : Parallel Ready Eq (movement setup) (movement setup) Behind := by
  refine parallel_peek_bind fun kind => ?_
  split
  · refine parallel_bind_eq parallel_position.facing fun position =>
      parallel_peek_bind fun next => ?_
    split
    · exact parallel_priceTag (by decide) position false
    · exact parallel_priceTag (by decide) position true
    · exact parallel_bind_eq (parallel_lineEnd _).facing fun _ => parallel_pure rfl
  · exact parallel_bind_eq (parallel_lineEnd _).facing fun _ => parallel_pure rfl

theorem parallel_posting :
    Parallel (Facing .indent) Eq (posting setup) (posting setup) Behind :=
  parallel_nested facing_behind <| parallel_here_bind fun _ _ =>
    parallel_bind_eq (parallel_skip (by decide)) fun _ =>
      parallel_bind_eq (parallel_whenNext (parallel_flag (by decide))) fun _ =>
        parallel_bind_eq (parallel_takeText (by decide) _) fun _ =>
          parallel_bind_eq parallel_movement fun _ => parallel_reviewFrom _ _ _ fun _ _ h => h

/-! ## Productions of a transaction -/

/-- As many values are read in both texts as tokens of a kind come next. -/
theorem parallel_repeatWhile_comesNext {kind : TokenKind} {m : Step σ α}
    {hAhead : ∀ s, comesNext kind s → s.lookahead.kind ≠ .endOfInput} {hm : Consumes m}
    (h : Parallel Ready Eq m m Ready) :
    Parallel Ready Eq (repeatWhile (comesNext kind) m hAhead hm)
      (repeatWhile (comesNext kind) m hAhead hm) Ready := by
  have hSame (s t : State σ) (hSpots : Ready s.spot t.spot) :
      comesNext kind s = comesNext kind t := by
    unfold comesNext
    rw [hSpots.kind_eq]
  refine (parallel_repeatWhile (Q := Ready) some
    (fun s t _ hSpots => .inl ⟨hSame s t hSpots, fun _ => hSpots⟩)
    (h.imp fun _ _ => congrArg some)).imp fun xs ys hValues => ?_
  rwa [List.filterMap_some, List.filterMap_some] at hValues

theorem parallel_texts {kind : TokenKind} (hKind : kind ≠ .endOfInput) (hLine : kind ≠ .lineEnd) :
    Parallel Ready Eq (texts kind hKind : Step σ (List String)) (texts kind hKind) Ready :=
  parallel_repeatWhile_comesNext (parallel_takeText hLine _)

/-- Behind the comment line that only the second text has, the same comes next in both. -/
theorem Ahead.behind_line {s t : State σ} (h : Ahead [] s.spot t.spot) :
    t.lookahead.kind = .comment ∧ t.next.lookahead.kind = .lineEnd ∧
      Aligned s.spot t.next.next.spot := by
  obtain ⟨remark, stop, back, hFirst, hSecond⟩ := h.exists_back
  have hTail := State.senses_next hSecond
  have hEnd := State.kind_of_senses hTail
  refine ⟨State.kind_of_senses hSecond, hEnd, ?_, ?_⟩
  · exact hFirst.trans (State.senses_next hTail).symm
  · show s.spot.atLineStart = decide (t.next.lookahead.kind = .lineEnd)
    rw [hEnd]
    exact h.ends

/-- A comment line is read as the end of a line. -/
theorem Ahead.lineEnd_eq {s t : State σ} (h : Ahead [] s.spot t.spot) :
    lineEnd [] t = (.ok (), t.next.next) := by
  obtain ⟨hComment, hEnd, -⟩ := h.behind_line
  rw [lineEnd, peek_bind, hComment]
  show skipIf .lineEnd t.next = _
  rw [skipIf, if_pos hEnd]
  rfl

theorem parallel_postingLine :
    Parallel Ready Eq (postingLine setup) (postingLine setup) Behind := by
  refine parallel_peek_bind fun kind => ?_
  split
  · exact parallel_bind_eq parallel_posting fun _ => parallel_pure rfl
  · exact parallel_bind_eq (parallel_lineEnd _).facing fun _ => parallel_pure rfl

/-- Both texts have the same postings, with a comment line among them or without. -/
theorem parallel_postingLines :
    Parallel Behind Eq (postingLines setup) (postingLines setup) Behind := by
  refine parallel_bind (parallel_repeatWhile (Q := Ready) id ?_ parallel_postingLine)
    fun xs ys hSame => parallel_pure hSame
  intro s t hNear hSpots
  rcases hSpots.cases with hReady | hAhead
  · refine .inl ⟨?_, fun _ => hReady⟩
    have hBegins : s.atLineStart = t.atLineStart := hReady.begins
    unfold postingAhead
    rw [hReady.kind_eq, hBegins]
  · obtain ⟨hKind, -, hNext⟩ := hAhead.behind_line
    have hStart : t.atLineStart = true := hAhead.begins.symm.trans hAhead.ends
    refine .inr ⟨none, t.next.next, ?_, ?_, rfl, { hNear with }, .inl hNext⟩
    · simp [postingAhead, hKind, hStart]
    · rw [postingLine, peek_bind, hKind]
      exact bind_of_ok hAhead.lineEnd_eq _

theorem parallel_title : Parallel Ready Eq (title : Step σ Title) title Ready := by
  refine parallel_bind_eq (parallel_takeText (by decide) _) fun first =>
    parallel_peek_bind fun kind => ?_
  split
  · exact parallel_bind_eq (parallel_skip (by decide)) fun _ =>
      parallel_bind_eq (parallel_takeText (by decide) _) fun _ => parallel_pure rfl
  · exact parallel_bind_eq (parallel_takeText (by decide) _).facing fun _ => parallel_pure rfl
  · exact (parallel_pure rfl).facing

theorem parallel_listedCurrency :
    Parallel Ready Eq (listedCurrency : Step σ String) listedCurrency Ready := by
  refine parallel_bind_eq (parallel_takeText (by decide) _) fun currency =>
    parallel_peek_bind fun kind => ?_
  split
  · refine parallel_bind_eq (parallel_skip (by decide)) fun _ => parallel_peek_bind fun next => ?_
    split
    · exact (parallel_pure rfl).facing
    · exact (parallel_unexpected _).facing
  · exact (parallel_pure rfl).facing

theorem parallel_currencies :
    Parallel Ready Eq (currencies : Step σ (List String)) currencies Ready :=
  parallel_repeatWhile_comesNext parallel_listedCurrency

end

/-! ## Statements -/

section

variable {setup : Setup σ} (hBuilder : setup.builder.IgnoresLines)
include hBuilder

/-- The active tags are the same in both texts, and the builder gives the same answer. -/
theorem parallel_conclude {heading other : Heading}
    (hName : heading.location.filename = other.location.filename) (content : Content) :
    Parallel Behind (fun d e => d.unlined = e.unlined) (conclude setup heading content)
      (conclude setup other content) Behind := by
  intro s t hNear hSpots
  unfold conclude
  rw [← hNear.tags]
  refine parallel_spanFrom_bind (fun span _ => parallel_review span _ (fun state => ?_)
    fun _ _ h => h) s t hNear hSpots
  obtain ⟨start, name, line⟩ := heading
  obtain ⟨_, _, other⟩ := other
  obtain rfl := hName
  exact hBuilder s.tags content name line other state

theorem parallel_finish {heading other : Heading}
    (hName : heading.location.filename = other.location.filename) (content : Content)
    (also : List TokenKind) :
    Parallel Ready (fun d e => d.unlined = e.unlined)
      (lineEnd also >>= fun _ => conclude setup heading content)
      (lineEnd also >>= fun _ => conclude setup other content) Behind :=
  parallel_bind_eq (parallel_lineEnd also) fun _ => parallel_conclude hBuilder hName content

theorem parallel_transaction {kind : TokenKind} (hKind : kind ≠ .lineEnd)
    {heading other : Heading} (hName : heading.location.filename = other.location.filename)
    (date : Date) :
    Parallel (Facing kind) (fun d e => d.unlined = e.unlined) (transaction setup heading date)
      (transaction setup other date) Behind :=
  parallel_nested facing_behind <| parallel_bind_eq (parallel_flag hKind) fun _ =>
    parallel_bind_eq parallel_title fun _ =>
      parallel_bind_eq (parallel_texts _ (by decide)) fun _ =>
        parallel_bind_eq (parallel_texts _ (by decide)) fun _ =>
          parallel_bind_eq (parallel_lineEnd _) fun _ =>
            parallel_bind_eq parallel_postingLines fun _ => parallel_conclude hBuilder hName _

omit hBuilder in
/-- A statement of one line begins with a word and a text. -/
theorem parallel_word {word kind : TokenKind} (hWord : word ≠ .lineEnd) (hKind : kind ≠ .lineEnd)
    {r : α → β → Prop} {f : String → Step σ α} {g : String → Step σ β}
    (h : ∀ text, Parallel Ready r (f text) (g text) Behind) :
    Parallel (Facing word) r (skip >>= fun _ => takeText kind [kind] >>= f)
      (skip >>= fun _ => takeText kind [kind] >>= g) Behind :=
  parallel_bind_eq (parallel_skip hWord) fun _ => parallel_bind_eq (parallel_takeText hKind _) h

theorem parallel_dated {heading other : Heading}
    (hName : heading.location.filename = other.location.filename) (date : Date) :
    Parallel Ready (fun d e => d.unlined = e.unlined) (dated setup heading date)
      (dated setup other date) Behind := by
  have hFinish := parallel_finish hBuilder hName
  refine parallel_peek_bind fun kind => ?_
  split
  · exact parallel_transaction hBuilder (by decide) hName date
  · exact parallel_transaction hBuilder (by decide) hName date
  · exact parallel_word (by decide) (by decide) fun _ =>
      parallel_bind_eq parallel_currencies fun _ => hFinish _ _
  · exact parallel_word (by decide) (by decide) fun _ => hFinish _ _
  · exact parallel_word (by decide) (by decide) fun _ =>
      parallel_bind_eq (parallel_takeText (by decide) _) fun _ => hFinish _ _
  · exact parallel_word (by decide) (by decide) fun _ =>
      parallel_bind_eq parallel_amount fun _ => hFinish _ _
  · exact parallel_word (by decide) (by decide) fun _ =>
      parallel_bind_eq parallel_amount fun _ => hFinish _ _
  · exact parallel_word (by decide) (by decide) fun _ =>
      parallel_bind_eq (parallel_takeText (by decide) _) fun _ => hFinish _ _
  · exact parallel_word (by decide) (by decide) fun _ =>
      parallel_bind_eq (parallel_takeText (by decide) _) fun _ => hFinish _ _
  · exact parallel_word (by decide) (by decide) fun _ =>
      parallel_bind_eq (parallel_takeText (by decide) _) fun _ => hFinish _ _
  · exact (parallel_unexpected _).facing

omit hBuilder in
/-- The end of a statement, with the places of the statement in both texts. -/
theorem parallel_spanned {P : Spot → Spot → Prop} {start other : Span} {d e : Directive}
    (h : d.unlined = e.unlined) :
    Parallel P (fun x y : Spanned Directive => x.value.unlined = y.value.unlined)
      (spanFrom start >>= fun span => pure ⟨d, span⟩ : Step σ (Spanned Directive))
      (spanFrom other >>= fun span => pure ⟨e, span⟩ : Step σ (Spanned Directive)) P :=
  parallel_spanFrom_bind fun _ _ => parallel_pure h

theorem parallel_entry : Parallel (Facing .date) (fun x y => x.value.unlined = y.value.unlined)
    (entry setup) (entry setup) Behind := by
  refine parallel_nested facing_behind <| parallel_bind (parallel_advance (by decide))
    fun token other h => parallel_bind_eq (parallel_day h.1) fun date => ?_
  have hName : (headingAt setup token).location.filename =
      (headingAt setup other).location.filename := rfl
  exact parallel_bind (parallel_dated hBuilder hName date) fun _ _ hSame => parallel_spanned hSame

theorem parallel_option :
    Parallel (Facing (.keyword .option)) (fun x y => x.value.unlined = y.value.unlined)
      (option setup) (option setup) Behind := by
  refine parallel_nested facing_behind <| parallel_bind (parallel_advance (by decide))
    fun token other _ => parallel_bind_eq (parallel_takeText (by decide) _) fun key =>
      parallel_bind_eq (parallel_takeText (by decide) _) fun value =>
        parallel_bind_eq (parallel_lineEnd _) fun _ => ?_
  have hName : (headingAt setup token).location.filename =
      (headingAt setup other).location.filename := rfl
  exact parallel_bind (parallel_conclude hBuilder hName _) fun _ _ hSame => parallel_spanned hSame

omit hBuilder in
theorem parallel_accept {P : Spot → Spot → Prop} {x y : Spanned Directive}
    (h : x.value.unlined = y.value.unlined) :
    Parallel P Eq (accept x : Step σ Unit) (accept y) P := by
  intro s t hNear hSpots
  refine .ok rfl { hNear with directives := ?_ } hSpots
  rw [List.map_append, List.map_append, hNear.directives, List.map_singleton, List.map_singleton, h]

omit hBuilder in
theorem State.Near.report {s t : State σ} (hNear : s.Near t) {e f : ParseError}
    (h : e.problem = f.problem) : (s.report e).Near (t.report f) := by
  refine { hNear with problems := ?_ }
  show (s.errors ++ [e]).map ParseError.problem = (t.errors ++ [f]).map ParseError.problem
  rw [List.map_append, List.map_append, hNear.problems, List.map_singleton, List.map_singleton, h]

omit hBuilder in
theorem parallel_pushtag : Parallel (Facing (.keyword .pushtag)) Eq (pushtag : Step σ Unit) pushtag
    Behind := by
  refine parallel_bind_eq (parallel_skip (by decide)) fun _ =>
    parallel_bind_eq (parallel_takeText (by decide) _) fun tag s t hNear hSpots => ?_
  exact .ok rfl { hNear with tags := congrArg (·.push tag) hNear.tags } hSpots.behind

omit hBuilder in
/-- A tag is active in both texts, or reported in both. -/
theorem parallel_poptag : Parallel (Facing (.keyword .poptag)) Eq (poptag : Step σ Unit) poptag
    Behind := by
  refine parallel_here_bind fun start other => parallel_bind_eq (parallel_skip (by decide)) fun _ =>
    parallel_bind_eq (parallel_takeText (by decide) _) fun tag =>
      parallel_spanFrom_bind fun span other s t hNear hSpots => ?_
  by_cases hActive : s.tags.contains tag = true
  · rw [if_pos hActive, if_pos (hNear.tags ▸ hActive)]
    exact .ok rfl { hNear with tags := congrArg (·.pop tag) hNear.tags } hSpots.behind
  · rw [if_neg hActive, if_neg (hNear.tags ▸ hActive)]
    exact .ok rfl (hNear.report rfl) hSpots.behind

theorem parallel_declaration :
    Parallel Ready Eq (declaration setup) (declaration setup) Behind := by
  refine parallel_peek_bind fun kind => ?_
  split
  · exact parallel_bind (parallel_entry hBuilder) fun _ _ h => parallel_accept h
  · exact parallel_bind (parallel_option hBuilder) fun _ _ h => parallel_accept h
  · exact parallel_pushtag
  · exact parallel_poptag
  · exact (parallel_lineEnd _).facing
  · exact (parallel_lineEnd _).facing
  · exact (parallel_lineEnd _).facing
  · exact parallel_skip_any.facing
  · exact (parallel_unexpected _).facing

end

end Parse

end LedgerText
