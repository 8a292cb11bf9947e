import LedgerText.Proofs.Recovery.Ending

/-!
# Every token is taken once

A source hands out the tokens of a text one by one, and then only ends of the
text. A parse asks for them as it goes: it knows the next token, and asks for
another one whenever it takes that.

No step takes the end of the text (`declaration_takes`), and every round of a
parse takes at least one token, be it read by the statement or passed over
(`Round.Leads.ne_nil`). So the rounds are no more than the tokens, what they
take are the tokens of the source in their order, and a parse that is accepted
has taken them all and asked once more (`run_takes`).
-/

namespace LedgerText.Parse

open Grammar Step

variable {σ : Type} {setup : Setup σ} {s t u : State σ}

/-! ## Taking tokens -/

/-- Tokens are taken one after the other from one spot to another. None of them ends the text. -/
structure Spot.Takes (p : Spot) (tokens : List Token) (q : Spot) : Prop where
  input_eq : p.1 = tokens ++ q.1
  previous_eq : q.2 = tokens.getLast?.or p.2
  ne_end : ∀ token ∈ tokens, token.kind ≠ .endOfInput

namespace Spot

variable {p q r : Spot} {v w : List Token}

theorem takes_nil (p : Spot) : p.Takes [] p :=
  ⟨rfl, rfl, List.forall_mem_nil _⟩

theorem Takes.append (h : p.Takes v q) (h' : q.Takes w r) : p.Takes (v ++ w) r where
  input_eq := by rw [h.input_eq, h'.input_eq, List.append_assoc]
  previous_eq := by rw [h'.previous_eq, h.previous_eq, List.getLast?_append, Option.or_assoc]
  ne_end := List.forall_mem_append.2 ⟨h.ne_end, h'.ne_end⟩

theorem takes_next {s : State σ} (h : s.lookahead.kind ≠ .endOfInput) :
    s.spot.Takes [s.lookahead] s.next.spot := by
  obtain ⟨rest, hInput, hNext⟩ := exists_next h
  rw [hNext]
  exact ⟨hInput, rfl, List.forall_mem_singleton.2 h⟩

theorem takes_resumed (p : Spot) : p.Takes p.passed p.resumed :=
  ⟨p.passed_append, rfl, ne_end_of_mem_discarded p.atLineStart p.1⟩

/-- What is taken comes before the end of the text. -/
theorem Takes.isPrefix (h : p.Takes w q) : w <+: beforeEnd p.1 := by
  rw [h.input_eq, beforeEnd, List.takeWhile_append_of_pos]
  · exact List.prefix_append _ _
  · exact fun token hToken => decide_eq_true (h.ne_end token hToken)

/-- Where the text ends, all that comes before the end has been taken. -/
theorem Takes.eq_of_end (h : p.Takes w q) (hEnd : nextKind q.1 = .endOfInput) :
    w = beforeEnd p.1 := by
  rw [h.input_eq, beforeEnd_append h.ne_end hEnd]

end Spot

/-- The spots that are reached from one by taking tokens, as an excerpt of the text. -/
def takenFrom (p : Spot) : Excerpt where
  around := besides [] []
  Ready q := ∃ w, p.Takes w q
  Inline q := ∃ w, p.Takes w q
  Behind q := ∃ w, p.Takes w q
  Stopped q := ∃ w, p.Takes w q
  ready_of_inline _ h := h
  behind_of_inline _ h := h
  stopped_of_ready _ h := h
  stopped_of_behind _ h := h
  lookahead_eq s _ := lookahead_besides s
  next_eq s _ := next_besides s
  inline_next _ h hKind := h.elim fun _ hTakes => ⟨_, hTakes.append (Spot.takes_next hKind.2)⟩
  behind_next _ h hEnd := h.elim fun _ hTakes => ⟨_, hTakes.append (Spot.takes_next hEnd)⟩
  lastSpan_eq s _ := lastSpan_besides s
  postingAhead_eq s _ := postingAhead_besides s
  inline_of_postingAhead _ h _ := h
  resume_eq s trace _ := resume_besides s trace
  stopped_resume s _ h := h.elim fun _ hTakes => ⟨_, hTakes.append s.spot.takes_resumed⟩

/-- A declaration takes tokens up to the spot where it ends, whatever becomes of it. -/
theorem declaration_takes (setup : Setup σ) (s : State σ) :
    ∃ w, s.spot.Takes w (declaration setup s).2.spot := by
  have hFits : Fits (takenFrom s.spot) _ (declaration setup) _ := fits_declaration
  obtain ⟨result, t, hPart, -, hLeaves⟩ := hFits s ⟨[], s.spot.takes_nil⟩
  rw [hPart]
  cases result with
  | ok v => exact hLeaves
  | error halt => exact hLeaves

/-! ## Rounds -/

/-- What one round of a parse takes. -/
structure Round where
  /-- What its statement reads. -/
  read : List Token
  /-- What recovery passes over, if the statement is malformed. -/
  passed : List Token
  deriving DecidableEq, Repr

def Round.tokens (r : Round) : List Token := r.read ++ r.passed

/-- A round leads from the state in front of one statement to that in front of the next. -/
structure Round.Leads (setup : Setup σ) (r : Round) (s t : State σ) : Prop where
  advances : Advances setup s t
  read : s.spot.Takes r.read (declaration setup s).2.spot
  passed : (declaration setup s).2.spot.Takes r.passed t.spot

theorem Round.Leads.takes {r : Round} (h : r.Leads setup s t) : s.spot.Takes r.tokens t.spot :=
  h.read.append h.passed

/-- A round that leads on takes a token. If a statement fails with its first token, that one is
passed over. -/
theorem Round.Leads.ne_nil {r : Round} (h : r.Leads setup s t) : r.tokens ≠ [] := by
  intro hNone
  have hInput : s.input = r.tokens ++ t.input := h.takes.input_eq
  have hLess := h.advances.input_lt
  rw [hInput, hNone, List.nil_append] at hLess
  exact Nat.lt_irrefl _ hLess

theorem exists_round (h : Advances setup s t) : ∃ r : Round, r.Leads setup s t := by
  obtain ⟨w, hRead⟩ := declaration_takes setup s
  rcases statement_eq_ok.1 h.2 with hOk | ⟨error, u, hError, -, rfl⟩
  · refine ⟨⟨w, []⟩, h, hRead, ?_⟩
    rw [hOk]
    exact t.spot.takes_nil
  · refine ⟨⟨w, u.spot.passed⟩, h, hRead, ?_⟩
    rw [hError]
    exact u.spot.takes_resumed

/-- In front of a statement, the text ends, or the statement ends the parse, or a round leads on
and takes a token. -/
theorem round_cases (setup : Setup σ) (s : State σ) : moreAhead s = false ∨
    (∃ halt t, moreAhead s = true ∧ statement setup s = (.error halt, t)) ∨
      ∃ (r : Round) (t : State σ), r.Leads setup s t ∧ r.tokens ≠ [] := by
  by_cases hMore : moreAhead s = true
  · rcases hStep : statement setup s with ⟨result, t⟩
    cases result with
    | error halt => exact .inr (.inl ⟨halt, t, hMore, rfl⟩)
    | ok v =>
        obtain ⟨r, hLeads⟩ := exists_round ⟨hMore, hStep⟩
        exact .inr (.inr ⟨r, t, hLeads, hLeads.ne_nil⟩)
  · exact .inl (by simpa using hMore)

/-- Rounds that lead from one state to another, one after the other. -/
inductive Rounds (setup : Setup σ) (s : State σ) : List Round → State σ → Prop where
  | none : Rounds setup s [] s
  | more {rounds : List Round} {r : Round} {t u : State σ} :
      Rounds setup s rounds t → r.Leads setup t u → Rounds setup s (rounds ++ [r]) u

/-- What rounds take altogether. -/
def taken (rounds : List Round) : List Token := rounds.flatMap Round.tokens

theorem taken_concat (rounds : List Round) (r : Round) :
    taken (rounds ++ [r]) = taken rounds ++ r.tokens := by
  simp [taken]

theorem exists_rounds (h : Reaches setup s t) : ∃ rounds, Rounds setup s rounds t := by
  induction h with
  | refl => exact ⟨[], .none⟩
  | tail _ hStep ih =>
      obtain ⟨rounds, hRounds⟩ := ih
      obtain ⟨r, hLeads⟩ := exists_round hStep
      exact ⟨rounds ++ [r], hRounds.more hLeads⟩

namespace Rounds

variable {rounds : List Round}

theorem takes (h : Rounds setup s rounds t) : s.spot.Takes (taken rounds) t.spot := by
  induction h with
  | none => exact s.spot.takes_nil
  | more _ hLeads ih =>
      rw [taken_concat]
      exact ih.append hLeads.takes

/-- There are no more rounds than tokens. -/
theorem length_le (h : Rounds setup s rounds t) : rounds.length ≤ (taken rounds).length := by
  induction h with
  | none => exact Nat.le_refl _
  | @more rounds r _ _ _ hLeads ih =>
      have hSome : 0 < r.tokens.length := List.length_pos_of_ne_nil hLeads.ne_nil
      rw [taken_concat, List.length_append, List.length_append, List.length_singleton]
      omega

end Rounds

/-! ## The end of a parse -/

/-- How a parse ends behind its rounds: what is read there, and the state that is left. -/
inductive Ends (setup : Setup σ) (t : State σ) : List Token → State σ → Prop where
  /-- The text ends. -/
  | reached : moreAhead t = false →
      Ends setup t [] { t with depth := t.depth - 1, phase := .accepted }
  /-- The next statement ends the parse. -/
  | halted {rest : List Token} {halt : Halt} {u : State σ} : moreAhead t = true →
      statement setup t = (.error halt, u) → t.spot.Takes rest u.spot →
        Ends setup t rest (u.abort halt.error)
  /-- There is no room for any statement. -/
  | noRoom {error : ParseError} : setup.options.maxDepth = 0 →
      Ends setup t [] ({ t with depth := 0 }.abort error)

namespace Ends

variable {rest : List Token} {final : State σ}

theorem takes (h : Ends setup t rest final) : t.spot.Takes rest final.spot := by
  cases h with
  | reached hStop => exact t.spot.takes_nil
  | halted hMore hStep hRead => exact hRead
  | noRoom hDepth => exact t.spot.takes_nil

theorem phase_cases (h : Ends setup t rest final) :
    final.phase = .accepted ∨ final.phase = .aborted := by
  cases h with
  | reached hStop => exact .inl rfl
  | halted hMore hStep hRead => exact .inr rfl
  | noRoom hDepth => exact .inr rfl

/-- A parse is accepted at the end of the text alone. -/
theorem of_accepted (h : Ends setup t rest final) (hPhase : final.phase = .accepted) :
    nextKind final.input = .endOfInput := by
  cases h with
  | reached hStop =>
      by_contra hKind
      rw [(moreAhead_iff t).2 hKind] at hStop
      cases hStop
  | halted hMore hStep hRead => cases hPhase
  | noRoom hDepth => cases hPhase

end Ends

/-- A statement that ends the parse takes tokens, and no recovery takes more of them. -/
theorem takes_of_halt {halt : Halt} (h : statement setup s = (.error halt, t)) :
    ∃ w, s.spot.Takes w t.spot := by
  obtain ⟨w, hRead⟩ := declaration_takes setup s
  rcases statement_eq_error.1 h with ⟨error, hError, -⟩ | ⟨error, u, hError, -, -, rfl⟩
  · rw [hError] at hRead
    exact ⟨w, hRead⟩
  · rw [hError] at hRead
    exact ⟨w, hRead⟩

/-- A parse is a course of rounds and an end. -/
theorem exists_ends (setup : Setup σ) (builder : σ) (tags : TagContext) (input : List Token) :
    ∃ rounds t rest, Rounds setup (.begin builder tags input) rounds t ∧
      Ends setup t rest (run setup builder tags input) := by
  rcases run_cases setup builder tags input with ⟨hDepth, hRun⟩ | ⟨t, hReaches, hStop, hRun⟩ |
    ⟨t, halt, u, hReaches, hMore, hStep, hRun⟩
  · rw [hRun]
    exact ⟨[], _, [], .none, .noRoom hDepth⟩
  · obtain ⟨rounds, hRounds⟩ := exists_rounds hReaches
    rw [hRun]
    exact ⟨rounds, t, [], hRounds, .reached hStop⟩
  · obtain ⟨rounds, hRounds⟩ := exists_rounds hReaches
    obtain ⟨rest, hRead⟩ := takes_of_halt hStep
    rw [hRun]
    exact ⟨rounds, t, rest, hRounds, .halted hMore hStep hRead⟩

/-! ## Behind the end of the text -/

/-- There is a token for the end of the text. -/
def Ended (tokens : List Token) : Prop := ∃ token ∈ tokens, token.kind = .endOfInput

theorem Ended.ne_nil {tokens : List Token} (h : Ended tokens) : tokens ≠ [] := by
  obtain ⟨token, hMem, -⟩ := h
  exact List.ne_nil_of_mem hMem

/-- The end of the text is left if others are taken. -/
theorem Spot.Takes.ended {p q : Spot} {w : List Token} (h : p.Takes w q) (hEnd : Ended p.1) :
    Ended q.1 := by
  obtain ⟨token, hMem, hKind⟩ := hEnd
  rw [h.input_eq, List.mem_append] at hMem
  exact ⟨token, hMem.resolve_left fun hTaken => h.ne_end token hTaken hKind, hKind⟩

/-- Recovery does not look beyond the end of the text. -/
theorem discarded_append_of_ended {tokens : List Token} (h : Ended tokens) (lineStart : Bool)
    (after : List Token) : discarded lineStart (tokens ++ after) = discarded lineStart tokens := by
  induction tokens generalizing lineStart with
  | nil => exact absurd rfl h.ne_nil
  | cons token rest ih =>
      rw [List.cons_append, discarded, discarded]
      by_cases hStop : token.kind = .endOfInput ∨ lineStart ∧ token.kind.startsStatement
      · rw [if_pos hStop, if_pos hStop]
      · obtain ⟨other, hMem, hKind⟩ := h
        have hRest : Ended rest :=
          ⟨other, (List.mem_cons.1 hMem).resolve_left fun hSame =>
            hStop (.inl (hSame ▸ hKind)), hKind⟩
        rw [if_neg hStop, if_neg hStop, ih hRest]

/-- A text with its end, as an excerpt of one that has more behind that. -/
def endedExcerpt (after : List Token) : Excerpt where
  around := ⟨none, after, [], []⟩
  Ready p := Ended p.1
  Inline p := Ended p.1
  Behind p := Ended p.1
  Stopped p := Ended p.1
  ready_of_inline _ h := h
  behind_of_inline _ h := h
  stopped_of_ready _ h := h
  stopped_of_behind _ h := h
  lookahead_eq _ h := lookahead_inside h.ne_nil
  next_eq _ h := next_inside (lookahead_inside h.ne_nil) (List.tail_append_of_ne_nil h.ne_nil)
  inline_next _ h hKind := (Spot.takes_next hKind.2).ended h
  behind_next _ h hEnd := (Spot.takes_next hEnd).ended h
  lastSpan_eq _ _ := lastSpan_inside rfl
  postingAhead_eq _ h := postingAhead_inside rfl h.ne_nil
  inline_of_postingAhead _ h _ := h
  resume_eq s trace h := by
    apply resume_inside
    rw [atLineStart_inside_front rfl]
    exact discarded_append_of_ended h _ _
  stopped_resume s _ h := s.spot.takes_resumed.ended h

/-- What comes behind the end of the text is of no account. -/
theorem run_append_of_ended (setup : Setup σ) (builder : σ) (tags : TagContext)
    {tokens : List Token} (h : Ended tokens) (after : List Token) :
    (run setup builder tags (tokens ++ after)).outcome =
      (run setup builder tags tokens).outcome := by
  by_cases hRoom : 0 < setup.options.maxDepth
  · have hFits : Fits (endedExcerpt after) _ (statements setup) _ :=
      (endedExcerpt after).fits_all fun _ hEnded => hEnded
    obtain ⟨result, t, hPart, hWhole, -⟩ := hFits (.begin builder tags tokens) h
    have hAll : statements setup (.begin builder tags (tokens ++ after)) =
        (result, t.inside ⟨none, after, [], []⟩) := hWhole
    cases result with
    | ok v =>
        rw [run_of_ok hRoom hPart, run_of_ok hRoom hAll]
        rfl
    | error halt =>
        rw [run_of_error hRoom hPart, run_of_error hRoom hAll]
        rfl
  · have hLookahead : (State.start builder tags (tokens ++ after)).lookahead =
        (State.start builder tags tokens).lookahead :=
      lookahead_inside (w := ⟨none, after, [], []⟩) (s := .start builder tags tokens) h.ne_nil
    rw [run_of_no_room hRoom, run_of_no_room hRoom, hLookahead]
    rfl

/-! ## Sources -/

/-- A source of tokens: what it answers to each request. It has some tokens, and then it hands out
only ends of the text. -/
structure Source where
  token : Nat → Token
  count : Nat
  ne_end : ∀ i, i < count → (token i).kind ≠ .endOfInput
  end_eq : ∀ i, count ≤ i → (token i).kind = .endOfInput

namespace Source

variable (x : Source)

/-- The answers to the first requests. -/
def answers (requests : Nat) : List Token := (List.range requests).map x.token

theorem length_answers (requests : Nat) : (x.answers requests).length = requests := by
  rw [answers, List.length_map, List.length_range]

theorem answers_add (requests more : Nat) : x.answers (requests + more) =
    x.answers requests ++ (List.range more).map fun i => x.token (requests + i) := by
  rw [answers, answers, List.range_add, List.map_append, List.map_map]
  rfl

variable {x}

/-- What comes first in the answers are the first answers. -/
theorem eq_answers {requests : Nat} {v w : List Token} (h : x.answers requests = v ++ w) :
    v = x.answers v.length := by
  have hLess : v.length ≤ requests := by
    rw [← x.length_answers requests, h, List.length_append]
    omega
  have hTake := congrArg (List.take v.length) h
  rw [List.take_left, answers, ← List.map_take, List.take_range, Nat.min_eq_left hLess] at hTake
  exact hTake.symm

theorem beforeEnd_answers (x : Source) (more : Nat) :
    beforeEnd (x.answers (x.count + more)) = x.answers x.count := by
  have hFront : ∀ token ∈ x.answers x.count, token.kind ≠ .endOfInput := by
    intro token hMem
    obtain ⟨i, hi, rfl⟩ := List.mem_map.1 hMem
    exact x.ne_end i (List.mem_range.1 hi)
  rw [answers_add]
  refine beforeEnd_append hFront ?_
  cases more with
  | zero => rfl
  | succ more =>
      rw [List.range_succ_eq_map, List.map_cons]
      exact x.end_eq x.count (Nat.le_refl _)

theorem ended_answers (x : Source) : Ended (x.answers (x.count + 1)) :=
  ⟨x.token x.count, List.mem_map.2 ⟨x.count, List.mem_range.2 (Nat.lt_succ_self _), rfl⟩,
    x.end_eq x.count (Nat.le_refl _)⟩

/-- How the tokens that a parse has taken when it ends are those of a source. -/
structure Supplies (x : Source) (final : State σ) (tokens : List Token) : Prop where
  /-- They are the first ones, in their order. -/
  isPrefix : tokens <+: x.answers x.count
  /-- One more has been asked for, which would come next. -/
  asked : tokens ++ [final.lookahead] = x.answers (tokens.length + 1)
  /-- A parse that is accepted has taken all of them. -/
  accepted : final.phase = .accepted →
    tokens = x.answers x.count ∧ tokens ++ [final.lookahead] = x.answers (x.count + 1)

/-- A parse that takes tokens of a source from first to last. -/
theorem supplies_of_takes {more : Nat} {start final : State σ} {w : List Token}
    (hStart : start.input = x.answers (x.count + 1 + more)) (hTakes : start.spot.Takes w final.spot)
    (hAccepted : final.phase = .accepted → nextKind final.input = .endOfInput) :
    x.Supplies final w := by
  have hBefore : beforeEnd start.input = x.answers x.count := by
    rw [hStart, Nat.add_assoc, beforeEnd_answers]
  have hEnded : Ended final.input := by
    refine hTakes.ended ?_
    show Ended start.input
    rw [hStart, answers_add]
    obtain ⟨token, hMem, hKind⟩ := x.ended_answers
    exact ⟨token, List.mem_append_left _ hMem, hKind⟩
  have hAsked : w ++ [final.lookahead] = x.answers (w.length + 1) := by
    obtain ⟨rest, hInput, -⟩ := exists_lookahead hEnded.ne_nil
    have hTaken : start.input = w ++ final.input := hTakes.input_eq
    have hAll : x.answers (x.count + 1 + more) = (w ++ [final.lookahead]) ++ rest := by
      rw [← hStart, hTaken, List.append_assoc]
      exact congrArg (w ++ ·) hInput
    have hFirst := eq_answers hAll
    rwa [List.length_append, List.length_singleton] at hFirst
  refine ⟨hBefore ▸ hTakes.isPrefix, hAsked, fun hPhase => ?_⟩
  have hAll : w = x.answers x.count := hBefore ▸ hTakes.eq_of_end (hAccepted hPhase)
  have hLength : w.length = x.count := by
    rw [hAll, length_answers]
  rw [hLength] at hAsked
  exact ⟨hAll, hAsked⟩

end Source

/-- How a parse uses the answers of a source. -/
structure Source.Uses (x : Source) (setup : Setup σ) (builder : σ) (tags : TagContext)
    (requests : Nat) : Prop where
  /-- In front of every statement, the text ends, or the statement ends the parse, or a round leads
  on and takes a token. -/
  round : ∀ s, Reaches setup (.begin builder tags (x.answers requests)) s → moreAhead s = false ∨
    (∃ halt t, moreAhead s = true ∧ statement setup s = (.error halt, t)) ∨
      ∃ (r : Round) (t : State σ), r.Leads setup s t ∧ r.tokens ≠ []
  /-- The rounds are no more than the tokens they take, and what is taken comes from the source. -/
  course : ∃ rounds t rest, Rounds setup (.begin builder tags (x.answers requests)) rounds t ∧
    Ends setup t rest (run setup builder tags (x.answers requests)) ∧
      rounds.length ≤ (taken rounds).length ∧
        x.Supplies (run setup builder tags (x.answers requests)) (taken rounds ++ rest)
  /-- A parse ends. -/
  phase : (run setup builder tags (x.answers requests)).phase = .accepted ∨
    (run setup builder tags (x.answers requests)).phase = .aborted
  /-- The parse ends alike whatever would be handed out behind the first end of the text. -/
  unasked : ∀ after, (run setup builder tags (x.answers (x.count + 1) ++ after)).outcome =
    (run setup builder tags (x.answers requests)).outcome

/-- A parse of a source takes every token once, and the end of the text never. It may be given the
answers to as many more requests as one likes. -/
theorem run_takes (x : Source) (setup : Setup σ) (builder : σ) (tags : TagContext) (more : Nat) :
    x.Uses setup builder tags (x.count + 1 + more) := by
  obtain ⟨rounds, t, rest, hRounds, hEnds⟩ :=
    exists_ends setup builder tags (x.answers (x.count + 1 + more))
  refine ⟨fun s _ => round_cases setup s, ⟨rounds, t, rest, hRounds, hEnds, hRounds.length_le, ?_⟩,
    hEnds.phase_cases, fun after => ?_⟩
  · exact Source.supplies_of_takes rfl (hRounds.takes.append hEnds.takes) hEnds.of_accepted
  · rw [x.answers_add (x.count + 1) more, run_append_of_ended setup builder tags x.ended_answers,
      run_append_of_ended setup builder tags x.ended_answers]

end LedgerText.Parse
