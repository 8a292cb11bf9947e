import LedgerText.Proofs.Recovery.Splitting

/-!
# What the tokens so far decide

How a statement begins decides how it is read, and at the place where it breaks
off it decides which kinds of tokens can go on with it. Each production asks
there whether a token of some kind comes next, until one of the kinds is there
and is read, or there is none left to ask for and the statement is refused. So
the kinds that can stand at a place are the ones that are asked for.

`Probes` is the judgement on a step. It runs the step on tokens that end at the
place in question, and relates that to what the step does if others follow: if
these begin with a kind that is asked for, it reads on; if not, it does what it
does where the text ends (`Shows`). An `Edge` says what is known where the tokens
end: which token was read last, and which kinds have been asked for in vain.

The kinds that an error lists are not always the ones that were asked for. A
transaction has no place for a payee any more once a tag or a link is read, but
goes on to list the tokens that begin one. `Stale` are those kinds, and `Exact`
is what holds of the others.
-/

namespace LedgerText.Parse

open Grammar Step

variable {α β : Type}

/-! ## In front of other tokens -/

/-- A state with more tokens behind those that are left. -/
abbrev State.facing (s : State Unit) (rest : List Token) : State Unit :=
  s.inside ⟨none, rest, [], []⟩

section Facing

variable {s : State Unit} {rest : List Token}

theorem input_facing_of_nil (h : s.input = []) : (s.facing rest).input = rest := by
  show s.input ++ rest = rest
  rw [h]
  rfl

@[simp] theorem previous_facing : (s.facing rest).previous = s.previous := Option.or_none

theorem lastSpan_facing : (s.facing rest).lastSpan = s.lastSpan := by
  rw [State.lastSpan, State.lastSpan, previous_facing]

theorem atLineStart_facing : (s.facing rest).atLineStart = s.atLineStart := by
  rw [State.atLineStart, State.atLineStart, previous_facing]

theorem lookahead_facing (h : s.input ≠ []) : (s.facing rest).lookahead = s.lookahead :=
  lookahead_inside h

theorem next_facing (h : s.input ≠ []) : (s.facing rest).next = s.next.facing rest :=
  next_inside (lookahead_facing h) (List.tail_append_of_ne_nil h)

/-- Where the tokens end, the kind that comes next is that of the first one behind them. -/
theorem lookahead_kind_facing (h : s.input = []) :
    (s.facing rest).lookahead.kind = nextKind rest := by
  rw [State.lookahead_kind, input_facing_of_nil h]

theorem lookahead_kind_of_nil (h : s.input = []) : s.lookahead.kind = .endOfInput := by
  rw [State.lookahead_kind, h]
  rfl

end Facing

/-- A step has read one of the tokens `rest`, or has ended the parse. -/
def Enters (rest : List Token) (result : Except Halt α × State Unit) : Prop :=
  EndsParse result.1 ∨ result.2.input.length < rest.length

/-- Where a token of a kind comes next, the step reads it or ends the parse. -/
def Takes (kind : TokenKind) (m : Step Unit α) : Prop :=
  ∀ s : State Unit, s.lookahead.kind = kind → Enters s.input (m s)

section Taking

variable {kind : TokenKind} {rest : List Token} {s : State Unit} {m : Step Unit α}
  {f : α → Step Unit β}

theorem Step.Strict.takes (h : Strict m) (hKind : kind ≠ .endOfInput) : Takes kind m :=
  fun s hs => h s (hs ▸ hKind)

/-- What follows cannot undo that a token was read. -/
theorem Enters.bind (h : Enters rest (m s)) (hf : ∀ a, Forward (f a)) :
    Enters rest ((m >>= f) s) := by
  rcases hStep : m s with ⟨result, t⟩
  rw [hStep] at h
  cases result with
  | ok a =>
      rw [bind_of_ok hStep]
      rcases h with ⟨error, hFatal⟩ | hLess
      · cases hFatal
      · exact .inr (Nat.lt_of_le_of_lt (hf a t) hLess)
  | error halt =>
      rw [bind_of_error hStep]
      rcases h with ⟨error, hFatal⟩ | hLess
      · cases hFatal
        exact .inl ⟨error, rfl⟩
      · exact .inr hLess

theorem Takes.bind (h : Takes kind m) (hf : ∀ a, Forward (f a)) : Takes kind (m >>= f) :=
  fun s hs => (h s hs).bind hf

theorem takes_nested {setup : Setup Unit} (h : Takes kind m) : Takes kind (nested setup m) := by
  intro s hs
  by_cases hDepth : s.depth < setup.options.maxDepth
  · rw [nested_of_room hDepth]
    exact (h { s with depth := s.depth + 1 } hs).bind (m := m) forward_finish
  · rw [nested_of_no_room hDepth]
    exact .inl ⟨_, rfl⟩

theorem takes_here_bind {g : Span → Step Unit α} (h : ∀ span, Takes kind (g span)) :
    Takes kind (here >>= g) := fun s hs => h s.lookahead.span s hs

theorem takes_take (hKind : kind ≠ .endOfInput) (expected : List TokenKind) :
    Takes kind (take kind expected) := by
  intro s hs
  unfold take
  rw [if_pos hs]
  exact .inr (State.next_input_lt (hs ▸ hKind))

end Taking

/-! ## What is known where the tokens end -/

/-- The kinds that a transaction lists without having asked for them: behind a tag or a link, those
that a second string of its title could begin with. -/
def Stale (last : Option Token) (expected : List TokenKind) (kind : TokenKind) : Prop :=
  (kind = .mark .pipe ∨ kind = .string) ∧ .mark .pipe ∈ expected ∧
    ∃ token, last = some token ∧ (token.kind = .tag ∨ token.kind = .link)

/-- The kinds that are expected behind a token are those that were asked for there, and no others
than stale ones. -/
def Exact (last : Option Token) (expected asked : List TokenKind) : Prop :=
  ∀ kind, kind ∈ asked ↔ kind ∈ expected ∧ ¬ Stale last expected kind

/-- Nothing is stale where no payee is expected. -/
theorem exact_self {last : Option Token} {kinds : List TokenKind} (h : .mark .pipe ∉ kinds) :
    Exact last kinds kinds :=
  fun _ => ⟨fun hKind => ⟨hKind, fun hStale => h hStale.2.1⟩, And.left⟩

/-- What is known where the tokens end: the one read last, and the kinds that were asked for and
did not come next. -/
abbrev Edge : Type := Option Token → List TokenKind → Prop

/-- The edge is never where a step begins: there are tokens left. -/
def Edge.never : Edge := fun _ _ => False

/-- Some kinds were asked for. -/
def Edge.asked (kinds : List TokenKind) : Edge := fun _ asked => asked = kinds

/-- No other kinds than some were asked for. -/
def Edge.within (kinds : List TokenKind) : Edge := fun _ asked => asked ⊆ kinds

/-- The statement is refused for what comes next only if that was not asked for. -/
def Edge.refused (error : ParseError) : Edge := fun last asked =>
  ∀ found expected, error.problem = .unexpected found expected → Exact last expected asked

/-- A state splits `front` in tokens that have been read and tokens that are left. -/
def State.Splits (front : List Token) (s : State Unit) : Prop :=
  ∃ before, front = before ++ s.input ∧ s.previous = before.getLast?

/-- A state of the parse of `front`: its tokens are the last ones of it. Kinds are asked for at the
end of `front` alone, and what is known there is `H`. -/
structure State.Faces (front : List Token) (H : Edge) (s : State Unit)
    (asked : List TokenKind) : Prop where
  split : s.Splits front
  fresh : s.input ≠ [] → asked = []
  edge : s.input = [] → H s.previous asked

theorem State.Faces.weaken {front : List Token} {H H' : Edge} {s : State Unit}
    {asked : List TokenKind} (h : s.Faces front H asked)
    (hEdge : ∀ last asked, H last asked → H' last asked) : s.Faces front H' asked :=
  ⟨h.split, h.fresh, fun hNil => hEdge _ _ (h.edge hNil)⟩

/-- Another state at the same place, where more is known. -/
theorem State.Faces.of_spot {front : List Token} {H H' : Edge} {s t : State Unit}
    {asked : List TokenKind} (h : s.Faces front H asked) (hInput : t.input = s.input)
    (hPrevious : t.previous = s.previous) (hEdge : H s.previous asked → H' s.previous asked) :
    t.Faces front H' asked := by
  refine ⟨?_, ?_, ?_⟩
  · rw [State.Splits, hInput, hPrevious]
    exact h.split
  · rw [hInput]
    exact h.fresh
  · rw [hInput, hPrevious]
    exact fun hNil => hEdge (h.edge hNil)

/-- What is known where the tokens end does not matter where there are some left. -/
theorem State.Faces.of_ne_nil {front : List Token} {H H' : Edge} {s : State Unit}
    {asked : List TokenKind} (h : s.Faces front H asked) (hSome : s.input ≠ []) :
    s.Faces front H' asked :=
  ⟨h.split, h.fresh, fun hNil => absurd hNil hSome⟩

/-- Where the tokens end, more kinds are asked for. -/
theorem State.Faces.ask {front : List Token} {H H' : Edge} {s : State Unit}
    {asked kinds : List TokenKind} (h : s.Faces front H asked) (hNil : s.input = [])
    (hAsk : H s.previous asked → H' s.previous (asked ++ kinds)) :
    s.Faces front H' (asked ++ kinds) :=
  ⟨h.split, fun hSome => absurd hNil hSome, fun _ => hAsk (h.edge hNil)⟩

/-- Behind a token that is left, nothing has been asked for yet. -/
theorem State.Faces.next {front : List Token} {H : Edge} {s : State Unit}
    {asked : List TokenKind} (h : s.Faces front .never asked)
    (hEdge : H (some s.lookahead) []) : s.next.Faces front H asked := by
  have hSome : s.input ≠ [] := fun hNil => h.edge hNil
  obtain ⟨rest, hInput, hNext⟩ := exists_lookahead hSome
  obtain ⟨before, hFront, -⟩ := h.split
  refine ⟨⟨before ++ [s.lookahead], ?_, ?_⟩, fun _ => h.fresh hSome, fun _ => ?_⟩
  · rw [hNext, List.append_assoc, hFront, hInput]
    rfl
  · rw [List.getLast?_concat]
    rfl
  · rw [h.fresh hSome]
    exact hEdge

/-! ## The judgement -/

/-- How a step ends that is run on the last tokens of `front`. -/
def Meets (front : List Token) (K : α → Edge) (asked : List TokenKind)
    (result : Except Halt α × State Unit) : Prop :=
  match result with
  | (.ok a, t) => t.Faces front (K a) asked
  | (.error (.statement error), t) => t.Faces front (.refused error) asked
  | (.error (.fatal _), _) => True

/-- What a step does where tokens end shows what it does if `rest` follows: the same, but what is
refused where the tokens end is what comes next. -/
def Shows (rest : List Token) (result result' : Except Halt α × State Unit) : Prop :=
  match result with
  | (.ok a, t) => result' = (.ok a, t.facing rest)
  | (.error (.statement error), t) =>
      (∃ expected, t.input = [] ∧
        error = ⟨.unexpected t.lookahead.kind expected, t.lookahead.span⟩ ∧
          result' = unexpected expected (t.facing rest)) ∨
      ((∀ found expected, error.problem = .unexpected found expected → t.input ≠ []) ∧
        result' = (.error (.statement error), t.facing rest))
  | (.error (.fatal _), _) => EndsParse result'.1

/-- From a state of the parse of `front`, a step asks for `more` kinds at the end of it. It reads on
there if one of them comes next, and otherwise does what it does where the text ends. -/
def Foretells (front : List Token) (s : State Unit) (asked : List TokenKind) (m : Step Unit α)
    (K : α → Edge) : Prop :=
  ∃ more, Meets front K (asked ++ more) (m s) ∧ ∀ rest, nextKind rest ∉ asked →
    (nextKind rest ∈ more → Enters rest (m (s.facing rest))) ∧
      (nextKind rest ∉ more → Shows rest (m s) (m (s.facing rest)))

/-- Wherever `H` is all that is known, a step asks for kinds of tokens before it does anything that
depends on what comes next, and `K` is what is known behind it. -/
structure Probes (front : List Token) (H : Edge) (m : Step Unit α) (K : α → Edge) : Prop where
  forward : Forward m
  foretells : ∀ s asked, s.Faces front H asked → Foretells front s asked m K

section

variable {front rest : List Token} {H H' : Edge} {K : α → Edge} {L : β → Edge} {s t : State Unit}
  {asked kinds : List TokenKind} {m : Step Unit α} {f : α → Step Unit β}

/-! ## Combinators -/

/-- A halt is met and shown alike whatever the step was to yield. -/
theorem Meets.halt {halt : Halt} (h : Meets front K asked (.error halt, t)) :
    Meets front L asked (.error halt, t) := by
  cases halt with
  | statement error => exact h
  | fatal error => trivial

theorem Shows.bind {halt : Halt} (h : Shows rest (.error halt, t) (m (s.facing rest))) :
    Shows rest (.error halt, t) ((m >>= f) (s.facing rest)) := by
  cases halt with
  | statement error =>
      rcases h with ⟨expected, hEnd, hError, hShown⟩ | ⟨hElse, hShown⟩
      · exact .inl ⟨expected, hEnd, hError, bind_of_error hShown f⟩
      · exact .inr ⟨hElse, bind_of_error hShown f⟩
  | fatal error =>
      obtain ⟨other, hFatal⟩ := h
      rcases hStep : m (s.facing rest) with ⟨result, u⟩
      rw [hStep] at hFatal
      cases hFatal
      rw [bind_of_error hStep]
      exact ⟨other, rfl⟩

/-- Steps that do the same foretell the same. -/
theorem Foretells.of_eq {m' : Step Unit α} (h : Foretells front s asked m K)
    (hStep : m' s = m s) (hRest : ∀ rest, m' (s.facing rest) = m (s.facing rest)) :
    Foretells front s asked m' K := by
  obtain ⟨more, hMeets, hShows⟩ := h
  refine ⟨more, hStep ▸ hMeets, fun rest hNew => ?_⟩
  rw [hStep, hRest]
  exact hShows rest hNew

theorem foretells_bind (hm : Foretells front s asked m K)
    (hf : ∀ a t asked', m s = (.ok a, t) → t.Faces front (K a) asked' →
      Foretells front t asked' (f a) L) (hForward : ∀ a, Forward (f a)) :
    Foretells front s asked (m >>= f) L := by
  obtain ⟨more, hMeets, hRest⟩ := hm
  rcases hStep : m s with ⟨result, t⟩
  rw [hStep] at hMeets hRest
  cases result with
  | ok a =>
      obtain ⟨others, hMeets', hRest'⟩ := hf a t _ hStep hMeets
      have hShown : ∀ rest, nextKind rest ∉ asked → nextKind rest ∉ more →
          m (s.facing rest) = (.ok a, t.facing rest) := fun rest hNew => (hRest rest hNew).2
      refine ⟨more ++ others, ?_, fun rest hNew => ⟨fun hMem => ?_, fun hMem => ?_⟩⟩
      · rw [bind_of_ok hStep, ← List.append_assoc]
        exact hMeets'
      · by_cases hFirst : nextKind rest ∈ more
        · exact ((hRest rest hNew).1 hFirst).bind hForward
        · rw [bind_of_ok (hShown rest hNew hFirst)]
          refine (hRest' rest ?_).1 ((List.mem_append.1 hMem).resolve_left hFirst)
          simp [hNew, hFirst]
      · rw [List.mem_append, not_or] at hMem
        rw [bind_of_ok hStep, bind_of_ok (hShown rest hNew hMem.1)]
        refine (hRest' rest ?_).2 hMem.2
        simp [hNew, hMem.1]
  | error halt =>
      refine ⟨more, ?_, fun rest hNew => ⟨fun hMem => ?_, fun hMem => ?_⟩⟩
      · rw [bind_of_error hStep]
        exact hMeets.halt
      · exact ((hRest rest hNew).1 hMem).bind hForward
      · rw [bind_of_error hStep]
        exact ((hRest rest hNew).2 hMem).bind

theorem probes_bind (hm : Probes front H m K) (hf : ∀ a, Probes front (K a) (f a) L) :
    Probes front H (m >>= f) L where
  forward := forward_bind hm.forward fun a => (hf a).forward
  foretells := fun s asked hs => foretells_bind (hm.foretells s asked hs)
    (fun a t asked' _ ht => (hf a).foretells t asked' ht) fun a => (hf a).forward

theorem Probes.weaken {K' : α → Edge} (h : Probes front H m K)
    (hH : ∀ last asked, H' last asked → H last asked)
    (hK : ∀ a last asked, K a last asked → K' a last asked) : Probes front H' m K' where
  forward := h.forward
  foretells := by
    intro s asked hs
    obtain ⟨more, hMeets, hRest⟩ := h.foretells s asked (hs.weaken hH)
    refine ⟨more, ?_, hRest⟩
    rcases hStep : m s with ⟨result, t⟩
    rw [hStep] at hMeets
    cases result with
    | ok a => exact State.Faces.weaken hMeets (hK a)
    | error halt => exact hMeets.halt

/-- What holds of every value that a step yields is known behind it. -/
theorem Probes.and_of_ok {R : α → Prop} (h : Probes front H m K)
    (hOk : ∀ s a t, m s = (.ok a, t) → R a) :
    Probes front H m fun a last asked => K a last asked ∧ R a where
  forward := h.forward
  foretells := by
    intro s asked hs
    obtain ⟨more, hMeets, hRest⟩ := h.foretells s asked hs
    refine ⟨more, ?_, hRest⟩
    rcases hStep : m s with ⟨result, t⟩
    rw [hStep] at hMeets
    cases result with
    | ok a => exact State.Faces.weaken hMeets fun _ _ hEdge => ⟨hEdge, hOk s a t hStep⟩
    | error halt => exact hMeets.halt

/-! ## Steps that stay where they are -/

/-- A step that looks at no token that is left, and reads none. If it fails, no token is in the
wrong place. -/
structure Still (m : Step Unit α) : Prop where
  input_eq : ∀ s, (m s).2.input = s.input
  previous_eq : ∀ s, (m s).2.previous = s.previous
  facing : ∀ (s : State Unit) rest, m (s.facing rest) = ((m s).1, (m s).2.facing rest)
  halts : ∀ s halt, (m s).1 = .error halt → ∃ error, halt = .statement error ∧
    ∀ found expected, error.problem ≠ .unexpected found expected

theorem Still.probes (h : Still m)
    (hK : ∀ s a, (m s).1 = .ok a → ∀ last asked, H last asked → K a last asked) :
    Probes front H m K where
  forward := fun s => Nat.le_of_eq (congrArg List.length (h.input_eq s))
  foretells := by
    intro s asked hs
    have hInput := h.input_eq s
    have hPrevious := h.previous_eq s
    have hHalts := h.halts s
    have hValue := hK s
    refine ⟨[], ?_, fun rest _ => ⟨fun hMem => absurd hMem List.not_mem_nil, fun _ => ?_⟩⟩
    · rw [List.append_nil]
      rcases hStep : m s with ⟨result, t⟩
      rw [hStep] at hInput hPrevious hHalts hValue
      cases result with
      | ok a => exact hs.of_spot hInput hPrevious (hValue a rfl _ _)
      | error halt =>
          obtain ⟨error, rfl, hOther⟩ := hHalts halt rfl
          exact hs.of_spot hInput hPrevious fun _ found expected hEq =>
            absurd hEq (hOther found expected)
    · rw [h.facing s rest]
      rcases hStep : m s with ⟨result, t⟩
      rw [hStep] at hHalts
      cases result with
      | ok a => rfl
      | error halt =>
          obtain ⟨error, rfl, hOther⟩ := hHalts halt rfl
          exact .inr ⟨fun found expected hEq => absurd hEq (hOther found expected), rfl⟩

/-- A step that always succeeds. -/
theorem still_of_ok {a : State Unit → α} {next : State Unit → State Unit}
    (hStep : ∀ s, m s = (.ok (a s), next s)) (hInput : ∀ s, (next s).input = s.input)
    (hPrevious : ∀ s, (next s).previous = s.previous)
    (hFacing : ∀ s rest, a (s.facing rest) = a s ∧ next (s.facing rest) = (next s).facing rest) :
    Still m where
  input_eq := fun s => by rw [hStep, hInput]
  previous_eq := fun s => by rw [hStep, hPrevious]
  facing := fun s rest => by rw [hStep, hStep, (hFacing s rest).1, (hFacing s rest).2]
  halts := fun s halt hHalt => by
    rw [hStep] at hHalt
    cases hHalt

theorem still_fail {error : ParseError}
    (h : ∀ found expected, error.problem ≠ .unexpected found expected) :
    Still (fail error : Step Unit α) where
  input_eq := fun _ => rfl
  previous_eq := fun _ => rfl
  facing := fun _ _ => rfl
  halts := fun s halt hHalt => by
    cases hHalt
    exact ⟨error, rfl, h⟩

theorem still_pure (a : α) : Still (pure a : Step Unit α) :=
  still_of_ok (fun _ => rfl) (fun _ => rfl) (fun _ => rfl) fun _ _ => ⟨rfl, rfl⟩

theorem still_spanFrom (start : Span) : Still (spanFrom start : Step Unit Span) :=
  still_of_ok (fun _ => rfl) (fun _ => rfl) (fun _ => rfl) fun _ _ =>
    ⟨by rw [lastSpan_facing], rfl⟩

theorem still_leave : Still (leave : Step Unit Unit) :=
  still_of_ok (fun _ => rfl) (fun _ => rfl) (fun _ => rfl) fun _ _ => ⟨rfl, rfl⟩

theorem still_textOf (token : Token) : Still (textOf token : Step Unit String) := by
  unfold textOf
  split
  · exact still_pure _
  · exact still_fail fun _ _ => Problem.noConfusion

theorem probes_pure {a : α} (h : ∀ last asked, H last asked → K a last asked) :
    Probes front H (pure a) K :=
  (still_pure a).probes fun _ b hEq => by
    cases hEq
    exact h

/-- A builder that accepts a value as it is. -/
theorem probes_review {span : Span} {verdict : Verdict Unit α} {a : α}
    (hAccept : verdict () = (.ok a, ())) (h : ∀ last asked, H last asked → K a last asked) :
    Probes front H (review span verdict) K := by
  have hStep : (review span verdict : Step Unit α) = pure a := by
    funext s
    unfold review
    rw [hAccept]
    rfl
  rw [hStep]
  exact probes_pure h

theorem probes_reviewFrom {start : Span} {verdict : Verdict Unit α} {a : α}
    (hAccept : verdict () = (.ok a, ())) (h : ∀ last asked, H last asked → K a last asked) :
    Probes front H (reviewFrom start verdict) K :=
  probes_bind ((still_spanFrom start).probes fun _ _ _ _ _ hEdge => hEdge) fun _ =>
    probes_review hAccept h

/-! ## Steps that look ahead -/

/-- A token is refused where all the kinds were asked for that are expected. -/
theorem probes_unexpected {expected : List TokenKind}
    (h : ∀ last asked, H last asked → Exact last expected asked) :
    Probes front H (unexpected expected : Step Unit α) K where
  forward := forward_unexpected expected
  foretells := by
    intro s asked hs
    refine ⟨[], ?_, fun rest _ => ⟨fun hMem => absurd hMem List.not_mem_nil, fun _ => ?_⟩⟩
    · rw [List.append_nil]
      refine hs.weaken fun last asked hEdge found others hEq => ?_
      cases hEq
      exact h last asked hEdge
    · by_cases hNil : s.input = []
      · exact .inl ⟨expected, hNil, rfl, rfl⟩
      · refine .inr ⟨fun _ _ _ => hNil, ?_⟩
        show (_, s.facing rest) = _
        rw [lookahead_facing hNil]

theorem foretells_peek_bind_front {f : TokenKind → Step Unit α} (hs : s.input ≠ [])
    (h : Foretells front s asked (f s.lookahead.kind) K) :
    Foretells front s asked (peek >>= f) K := by
  refine h.of_eq rfl fun rest => ?_
  rw [peek_bind, lookahead_facing hs]

/-- Where the tokens end, a step that looks ahead asks for the kinds that it tells apart. -/
theorem foretells_peek_bind (kinds : List TokenKind) {f : TokenKind → Step Unit α}
    {g : Step Unit α} (hEnd : .endOfInput ∉ kinds) (hTakes : ∀ kind ∈ kinds, Takes kind (f kind))
    (hElse : ∀ kind, kind ∉ kinds → f kind = g) (hs : s.input = [])
    (hg : Foretells front s (asked ++ kinds) g K) : Foretells front s asked (peek >>= f) K := by
  obtain ⟨more, hMeets, hRest⟩ := hg
  refine ⟨kinds ++ more, ?_, fun rest hNew => ?_⟩
  · rw [peek_bind, lookahead_kind_of_nil hs, hElse _ hEnd, ← List.append_assoc]
    exact hMeets
  · rw [peek_bind, peek_bind, lookahead_kind_facing hs, lookahead_kind_of_nil hs, hElse _ hEnd]
    by_cases hKind : nextKind rest ∈ kinds
    · refine ⟨fun _ => ?_, fun hMem => absurd (List.mem_append_left more hKind) hMem⟩
      have hEnters := hTakes _ hKind (s.facing rest) (lookahead_kind_facing hs)
      rw [input_facing_of_nil hs] at hEnters
      exact hEnters
    · rw [hElse _ hKind, List.mem_append, or_iff_right hKind]
      refine hRest rest ?_
      simp [hNew, hKind]

/-- A step that has tokens left to look at. -/
theorem probes_peek_bind_front {f : TokenKind → Step Unit α}
    (hf : ∀ kind, Probes front .never (f kind) K) : Probes front .never (peek >>= f) K where
  forward := forward_bind forward_peek fun kind => (hf kind).forward
  foretells := fun s asked hs => foretells_peek_bind_front (fun hNil => hs.edge hNil)
    ((hf _).foretells s asked hs)

/-- What a step does that has seen the kind of the next token. For the kinds that it asks for it
goes on in some way with that token, and for all others in the same way `g`. -/
def Branch (front : List Token) (kinds : List TokenKind) (g : Step Unit α) (K : α → Edge)
    (kind : TokenKind) (m : Step Unit α) : Prop :=
  (kind ∈ kinds ∧ Takes kind m ∧ Probes front .never m K) ∨ (kind ∉ kinds ∧ m = g)

theorem probes_peek_bind (kinds : List TokenKind) {f : TokenKind → Step Unit α} {g : Step Unit α}
    (hEnd : .endOfInput ∉ kinds) (hf : ∀ kind, Branch front kinds g K kind (f kind))
    (hg : Probes front H' g K)
    (hAsk : ∀ last before, H last before → H' last (before ++ kinds)) :
    Probes front H (peek >>= f) K where
  forward := forward_bind forward_peek fun kind => by
    rcases hf kind with ⟨-, -, hProbes⟩ | ⟨-, hOther⟩
    · exact hProbes.forward
    · exact hOther ▸ hg.forward
  foretells := by
    intro s asked hs
    by_cases hNil : s.input = []
    · refine foretells_peek_bind kinds hEnd
        (fun kind hKind => ((hf kind).resolve_right fun hOther => hOther.1 hKind).2.1)
        (fun kind hKind => ((hf kind).resolve_left fun hTaken => hKind hTaken.1).2) hNil
        (hg.foretells s _ (hs.ask hNil (hAsk _ _)))
    · refine foretells_peek_bind_front hNil ?_
      rcases hf s.lookahead.kind with ⟨-, -, hProbes⟩ | ⟨-, hOther⟩
      · exact hProbes.foretells s asked (hs.of_ne_nil hNil)
      · exact hOther ▸ hg.foretells s asked (hs.of_ne_nil hNil)

/-- A step that depends on whether a token of one kind comes next. -/
theorem probes_ite_kind {kind : TokenKind} {m n : Step Unit α} (hKind : kind ≠ .endOfInput)
    (hTakes : Takes kind m) (hm : Probes front .never m K) (hn : Probes front H' n K)
    (hAsk : ∀ last before, H last before → H' last (before ++ [kind])) :
    Probes front H (fun s => if s.lookahead.kind = kind then m s else n s) K := by
  have hStep : (fun s => if s.lookahead.kind = kind then m s else n s) =
      (peek >>= fun next => if next = kind then m else n : Step Unit α) := by
    funext s
    rw [peek_bind]
    split <;> rfl
  rw [hStep]
  refine probes_peek_bind [kind] (fun hMem => hKind (List.mem_singleton.1 hMem).symm)
    (fun next => ?_) hn hAsk
  by_cases hNext : next = kind
  · subst hNext
    rw [if_pos rfl]
    exact .inl ⟨List.mem_singleton_self _, hTakes, hm⟩
  · rw [if_neg hNext]
    exact .inr ⟨fun hMem => hNext (List.mem_singleton.1 hMem), rfl⟩

/-! ## Steps that read tokens -/

/-- Nothing has been asked for. -/
def Edge.Fresh (H : Edge) : Prop := ∀ last asked, H last asked → asked = []

theorem fresh_never : Edge.never.Fresh := fun _ _ h => h.elim

theorem fresh_asked : (Edge.asked []).Fresh := fun _ _ h => h

/-- The kinds that are asked for first are the ones to expect. -/
theorem Edge.Fresh.exact (h : H.Fresh) (hPipe : .mark .pipe ∉ kinds) :
    ∀ last before, H last before → Exact last kinds (before ++ kinds) := by
  intro last before hEdge
  rw [h last before hEdge]
  exact exact_self hPipe

/-- A token of a kind was read last, and nothing has been asked for behind it. -/
def Edge.behind (kind : TokenKind) : Edge := fun last asked =>
  asked = [] ∧ ∃ token, last = some token ∧ token.kind = kind

theorem fresh_behind (kind : TokenKind) : (Edge.behind kind).Fresh := fun _ _ h => h.1

theorem probes_advance {K : Token → Edge} (hK : ∀ token, K token (some token) []) :
    Probes front .never (advance : Step Unit Token) K where
  forward := forward_advance
  foretells := by
    intro s asked hs
    have hSome : s.input ≠ [] := fun hNil => hs.edge hNil
    refine ⟨[], ?_, fun rest _ => ⟨fun hMem => absurd hMem List.not_mem_nil, fun _ => ?_⟩⟩
    · rw [List.append_nil]
      exact hs.next (hK _)
    · show (Except.ok (s.facing rest).lookahead, (s.facing rest).next) = _
      rw [lookahead_facing hSome, next_facing hSome]

/-- A token that is read and forgotten. -/
theorem probes_skip {J : Edge} (hJ : ∀ token, J (some token) []) :
    Probes front .never (skip : Step Unit Unit) fun _ => J := by
  have hStep : (skip : Step Unit Unit) = (advance >>= fun _ => pure ()) := rfl
  rw [hStep]
  exact probes_bind (probes_advance (K := fun _ => J) hJ) fun _ => probes_pure fun _ _ h => h

theorem probes_take {kind : TokenKind} {expected : List TokenKind} (hKind : kind ≠ .endOfInput)
    (hExact : ∀ last before, H last before → Exact last expected (before ++ [kind])) :
    Probes front H (take kind expected) fun _ => .behind kind := by
  have hTake : Probes front H (take kind expected) fun token last asked =>
      asked = [] ∧ last = some token :=
    probes_ite_kind hKind (fun s hs => .inr (State.next_input_lt (hs ▸ hKind)))
      (probes_advance fun _ => ⟨rfl, rfl⟩)
      (probes_unexpected (H := fun last asked => Exact last expected asked) fun _ _ h => h) hExact
  have hRead : ∀ (s : State Unit) token t, take kind expected s = (.ok token, t) →
      token.kind = kind := by
    intro s token t hOk
    obtain ⟨l, rfl, -⟩ := (take_eq_ok hKind).1 hOk
    exact l.kind_eq
  exact (hTake.and_of_ok hRead).weaken (fun _ _ h => h)
    fun token last asked h => ⟨h.1.1, token, h.1.2, h.2⟩

theorem probes_takeText {kind : TokenKind} {expected : List TokenKind} (hKind : kind ≠ .endOfInput)
    (hExact : ∀ last before, H last before → Exact last expected (before ++ [kind])) :
    Probes front H (takeText kind expected) fun _ => .behind kind :=
  probes_bind (probes_take hKind hExact) fun token =>
    (still_textOf token).probes fun _ _ _ _ _ h => h

theorem takes_takeText {kind : TokenKind} (hKind : kind ≠ .endOfInput)
    (expected : List TokenKind) : Takes kind (takeText kind expected) :=
  (takes_take hKind expected).bind forward_textOf

theorem probes_skipIf {kind : TokenKind} {J : Edge} (hKind : kind ≠ .endOfInput)
    (hRead : ∀ token, J (some token) [])
    (hAsk : ∀ last before, H last before → J last (before ++ [kind])) :
    Probes front H (skipIf kind) fun _ => J :=
  probes_ite_kind hKind (strict_skip.takes hKind) (probes_skip hRead)
    (probes_pure fun _ _ h => h) hAsk

theorem probes_whenNext {kind : TokenKind} {K : Option α → Edge} {J : α → Edge}
    (hKind : kind ≠ .endOfInput) (hTakes : Takes kind m) (hm : Probes front .never m J)
    (hSome : ∀ a last asked, J a last asked → K (some a) last asked)
    (hNone : ∀ last before, H last before → K none last (before ++ [kind])) :
    Probes front H (whenNext kind m) K :=
  probes_ite_kind (m := m >>= fun a => pure (some a)) (n := pure none) hKind
    (hTakes.bind fun _ => forward_pure _)
    (probes_bind hm fun a => probes_pure (hSome a)) (probes_pure fun _ _ h => h) hNone

/-- The level of nesting does not show in what comes next. -/
theorem probes_nested {setup : Setup Unit} (hm : Probes front H m K) :
    Probes front H (nested setup m) K where
  forward := forward_nested setup hm.forward
  foretells := by
    intro s asked hs
    by_cases hDepth : s.depth < setup.options.maxDepth
    · have hFinish : Probes front H (m >>= fun a => leave >>= fun _ => pure a) K :=
        probes_bind hm fun _ => probes_bind (still_leave.probes fun _ _ _ _ _ hEdge => hEdge)
          fun _ => probes_pure fun _ _ hEdge => hEdge
      obtain ⟨more, hMeets, hRest⟩ := hFinish.foretells { s with depth := s.depth + 1 } asked
        (hs.of_spot rfl rfl fun h => h)
      refine ⟨more, ?_, fun rest hNew => ?_⟩
      · rw [nested_of_room hDepth]
        exact hMeets
      · have hDepth' : (s.facing rest).depth < setup.options.maxDepth := hDepth
        rw [nested_of_room hDepth, nested_of_room hDepth']
        exact hRest rest hNew
    · have hNone : ∀ s' : State Unit, s'.depth = s.depth → EndsParse (nested setup m s').1 := by
        intro s' hSame
        rw [nested_of_no_room (hSame ▸ hDepth)]
        exact ⟨_, rfl⟩
      obtain ⟨error, hFatal⟩ := hNone s rfl
      refine ⟨[], ?_, fun rest _ => ⟨fun hMem => absurd hMem List.not_mem_nil, fun _ => ?_⟩⟩
      · rcases hStep : nested setup m s with ⟨result, t⟩
        rw [hStep] at hFatal
        cases hFatal
        trivial
      · rcases hStep : nested setup m s with ⟨result, t⟩
        rw [hStep] at hFatal
        cases hFatal
        exact hNone (s.facing rest) rfl

/-- Noting where a production starts looks at the next token. -/
theorem probes_here_bind_front {f : Span → Step Unit α}
    (hf : ∀ span, Probes front .never (f span) K) : Probes front .never (here >>= f) K where
  forward := forward_bind forward_here fun span => (hf span).forward
  foretells := by
    intro s asked hs
    refine ((hf s.lookahead.span).foretells s asked hs).of_eq rfl fun rest => ?_
    rw [here_bind, lookahead_facing fun hNil => hs.edge hNil]

/-- A step that needs a token yields nothing where there is none. -/
def Needs (m : Step Unit α) : Prop := ∀ s a t, s.input = [] → m s ≠ (.ok a, t)

theorem needs_take {kind : TokenKind} {expected : List TokenKind} (hKind : kind ≠ .endOfInput) :
    Needs (take kind expected) := by
  intro s token t hNil
  unfold take
  rw [lookahead_kind_of_nil hNil, if_neg hKind.symm]
  exact unexpected_ne_ok

theorem Needs.bind (h : Needs m) (f : α → Step Unit β) : Needs (m >>= f) := by
  intro s b t hNil hOk
  obtain ⟨a, u, hFirst, -⟩ := bind_eq_ok.1 hOk
  exact h s a u hNil hFirst

theorem needs_here_bind {g : Span → Step Unit α} (h : ∀ span, Needs (g span)) :
    Needs (here >>= g) := fun s a t hNil => h s.lookahead.span s a t hNil

theorem Needs.nested {setup : Setup Unit} (h : Needs m) : Needs (nested setup m) := by
  intro s a t hNil hOk
  by_cases hDepth : s.depth < setup.options.maxDepth
  · obtain ⟨u, hInner, -⟩ := (nested_eq_ok hDepth).1 hOk
    exact h { s with depth := s.depth + 1 } a u hNil hInner
  · rw [nested_of_no_room hDepth] at hOk
    cases hOk

/-- Where a production starts is noted for later, and makes no difference before a token is read. -/
theorem probes_here_bind {g : Span → α → Step Unit β} (hNeeds : Needs m)
    (hm : Probes front H m K) (hg : ∀ span a, Probes front (K a) (g span a) L) :
    Probes front H (here >>= fun span => m >>= g span) L where
  forward := forward_bind forward_here fun span => forward_bind hm.forward fun a =>
    (hg span a).forward
  foretells := by
    intro s asked hs
    by_cases hNil : s.input = []
    · obtain ⟨more, hMeets, hRest⟩ := hm.foretells s asked hs
      rcases hStep : m s with ⟨result, t⟩
      rw [hStep] at hMeets hRest
      cases result with
      | ok a => exact absurd hStep (hNeeds s a t hNil)
      | error halt =>
          refine ⟨more, ?_, fun rest hNew => ?_⟩
          · rw [here_bind, bind_of_error hStep]
            exact hMeets.halt
          · rw [here_bind, here_bind, bind_of_error hStep]
            exact ⟨fun hMem => ((hRest rest hNew).1 hMem).bind fun a => (hg _ a).forward,
              fun hMem => ((hRest rest hNew).2 hMem).bind⟩
    · have hSome : Probes front .never (here >>= fun span => m >>= g span) L :=
        probes_here_bind_front fun span => probes_bind (hm.weaken (fun _ _ h => h.elim)
          fun _ _ _ h => h) (hg span)
      exact hSome.foretells s asked (hs.of_ne_nil hNil)

/-! ## Repetition -/

/-- A repetition asks each time for the kinds that call for another round. What is known where the
tokens end is `H` before the first round and `J` behind every round. The induction is on the tokens
that are left. -/
theorem foretells_repeatWhile {ahead : State Unit → Bool}
    {hAhead : ∀ s, ahead s → s.lookahead.kind ≠ .endOfInput} {hm : Consumes m}
    (kindsAt : Option Token → List TokenKind) {J : Edge}
    (hKinds : ∀ s, ahead s = true ↔ s.lookahead.kind ∈ kindsAt s.previous)
    (hTakes : ∀ s, ahead s = true → Enters s.input (m s))
    (hRound : Probes front .never m fun _ => J) {length : Nat} {H : Edge} {K : List α → Edge}
    (hNone : ∀ last before, H last before → K [] last (before ++ kindsAt last))
    (hSome : ∀ a others last before, J last before →
      K (a :: others) last (before ++ kindsAt last)) (hLength : s.input.length = length)
    (hs : s.Faces front H asked) :
    Foretells front s asked (repeatWhile ahead m hAhead hm) K := by
  have hForward : Forward (repeatWhile ahead m hAhead hm) :=
    forward_repeatWhile hRound.forward
  induction length using Nat.strongRecOn generalizing s asked H K with
  | _ length ih =>
      subst hLength
      by_cases hNil : s.input = []
      · have hStops : ahead s = false := by
          cases hGoes : ahead s with
          | false => rfl
          | true => exact absurd (lookahead_kind_of_nil hNil) (hAhead s hGoes)
        have hFacing : ∀ rest, ahead (s.facing rest) = true ↔
            nextKind rest ∈ kindsAt s.previous := by
          intro rest
          rw [hKinds, lookahead_kind_facing hNil, previous_facing]
        refine ⟨kindsAt s.previous, ?_, fun rest _ => ⟨fun hMem => ?_, fun hMem => ?_⟩⟩
        · rw [repeatWhile_of_false hStops]
          exact hs.ask hNil (hNone _ _)
        · have hGoes := (hFacing rest).2 hMem
          have hEnters := hTakes _ hGoes
          rw [input_facing_of_nil hNil] at hEnters
          rw [repeatWhile_of_true hGoes]
          exact hEnters.bind fun a => forward_bind hForward fun _ => forward_pure _
        · have hStops' : ahead (s.facing rest) = false := by
            rw [← Bool.not_eq_true, hFacing]
            exact hMem
          rw [repeatWhile_of_false hStops, repeatWhile_of_false hStops']
          rfl
      · have hFacing : ∀ rest, ahead (s.facing rest) = ahead s := by
          intro rest
          rw [Bool.eq_iff_iff, hKinds, hKinds, lookahead_facing hNil, previous_facing]
        cases hGoes : ahead s with
        | false =>
            refine ((probes_pure (H := .never) fun _ _ h => h.elim).foretells s asked
              (hs.of_ne_nil hNil)).of_eq (repeatWhile_of_false hGoes) fun rest => ?_
            exact repeatWhile_of_false ((hFacing rest).trans hGoes)
        | true =>
            refine (foretells_bind (hRound.foretells s asked (hs.of_ne_nil hNil)) ?_ ?_).of_eq
              (repeatWhile_of_true hGoes)
              fun rest => repeatWhile_of_true ((hFacing rest).trans hGoes)
            · intro a t asked' hOk ht
              have hLess := hm s a t (hAhead s hGoes) hOk
              have hOthers := ih _ hLess (K := fun others => K (a :: others)) (hSome a [])
                (fun b others => hSome a (b :: others)) rfl ht
              refine foretells_bind hOthers ?_ fun _ => forward_pure _
              exact fun others u asked'' _ hu => (probes_pure fun _ _ h => h).foretells u _ hu
            · exact fun a => forward_bind hForward fun _ => forward_pure _

theorem probes_repeatWhile {ahead : State Unit → Bool}
    {hAhead : ∀ s, ahead s → s.lookahead.kind ≠ .endOfInput} {hm : Consumes m}
    (kindsAt : Option Token → List TokenKind) {J : Edge} {K : List α → Edge}
    (hKinds : ∀ s, ahead s = true ↔ s.lookahead.kind ∈ kindsAt s.previous)
    (hTakes : ∀ s, ahead s = true → Enters s.input (m s))
    (hRound : Probes front .never m fun _ => J)
    (hNone : ∀ last before, H last before → K [] last (before ++ kindsAt last))
    (hSome : ∀ a others last before, J last before →
      K (a :: others) last (before ++ kindsAt last)) :
    Probes front H (repeatWhile ahead m hAhead hm) K where
  forward := forward_repeatWhile hRound.forward
  foretells := fun _ _ hs => foretells_repeatWhile kindsAt hKinds hTakes hRound hNone hSome rfl hs

end

end LedgerText.Parse
