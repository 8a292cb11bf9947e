import LedgerText.Proofs.Parse.Prospects
import LedgerText.Proofs.Recovery.Settling

/-!
# What a syntax error expects

Where a parse reports a syntax error, the error lists the kinds of tokens that
could have stood there. Put any other token in the place of the one that was
refused: the parse comes to the same place and refuses it there again just if its
kind is not listed, or is one of the stale kinds of a transaction
(`run_expected`).

All that decides this is in front of the place. There, the parse either never
refuses what comes next, or asks for some kinds, refuses all others and lists
what it refuses them for; `Decided` says so of the states of a parse. It holds
of a state because it holds behind the next statement: the induction is on the
tokens that are left in front of the place.
-/

namespace LedgerText.Parse

open Grammar Step

variable {options : Options} {front rest : List Token} {expected others : List TokenKind}
  {asked : List TokenKind} {s t : State Unit}

/-! ## Refusals -/

theorem forward_declaration (options : Options) : Forward (declaration (.standard options)) :=
  (probes_declaration options : Probes [] .never _ _).forward

/-- The statement that begins in a state is refused for the first of the tokens `rest`. -/
def RefusesHere (options : Options) (s : State Unit) (rest : List Token)
    (expected : List TokenKind) : Prop :=
  moreAhead s = true ∧ ∃ u, declaration (.standard options) s = unexpected expected u ∧
    u.input = rest

/-- A statement is refused for the first of the tokens `rest`, in a parse that goes on from a
state. -/
def Refuses (options : Options) (s : State Unit) (rest : List Token)
    (expected : List TokenKind) : Prop :=
  ∃ t, Reaches (.standard options) s t ∧ RefusesHere options t rest expected

theorem refuses_iff : Refuses options s rest expected ↔ RefusesHere options s rest expected ∨
    ∃ t, Advances (.standard options) s t ∧ Refuses options t rest expected := by
  constructor
  · rintro ⟨u, hReaches, hHere⟩
    rcases Relation.ReflTransGen.cases_head hReaches with rfl | ⟨t, hStep, hMore⟩
    · exact .inl hHere
    · exact .inr ⟨t, hStep, u, hMore, hHere⟩
  · rintro (hHere | ⟨t, hStep, u, hMore, hHere⟩)
    · exact ⟨s, .refl, hHere⟩
    · exact ⟨u, .head hStep hMore, hHere⟩

/-- Tokens that are behind a state are not refused any more. -/
theorem not_refuses_of_lt (h : s.input.length < rest.length) :
    ¬ Refuses options s rest expected := by
  rintro ⟨t, hReaches, -, u, hRefused, rfl⟩
  have hForward := forward_declaration options t
  rw [hRefused] at hForward
  exact absurd (Nat.lt_of_le_of_lt (Nat.le_trans hForward hReaches.input_le) h) (Nat.lt_irrefl _)

/-- A statement that reads one of the tokens is not refused for the first of them. -/
theorem not_refusesHere_of_enters (h : Enters rest (declaration (.standard options) s)) :
    ¬ RefusesHere options s rest expected := by
  rintro ⟨-, u, hRefused, rfl⟩
  rw [hRefused] at h
  rcases h with ⟨error, hFatal⟩ | hLess
  · cases hFatal
  · exact absurd hLess (Nat.lt_irrefl _)

/-- Nor is any statement after it. -/
theorem not_refuses_of_enters (h : Enters rest (declaration (.standard options) s)) :
    ¬ Refuses options s rest expected := by
  rw [refuses_iff]
  rintro (hHere | ⟨t, hStep, hMore⟩)
  · exact not_refusesHere_of_enters h hHere
  · refine not_refuses_of_lt ?_ hMore
    rcases statement_eq_ok.1 hStep.2 with hOk | ⟨error, u, hError, -, rfl⟩
    · rw [hOk] at h
      rcases h with ⟨error, hFatal⟩ | hLess
      · cases hFatal
      · exact hLess
    · rw [hError] at h
      rcases h with ⟨other, hFatal⟩ | hLess
      · cases hFatal
      · exact Nat.lt_of_le_of_lt (resume_input_le _ (u.report error)) hLess

/-- Where a statement can begin, its first token is not refused. -/
theorem not_refuses_of_starts (hLess : s.input.length ≤ rest.length)
    (hStart : (nextKind s.input).startsStatement = true) :
    ¬ Refuses options s rest expected := by
  rw [refuses_iff]
  rintro (hHere | ⟨t, hStep, hMore⟩)
  · have hNe : s.lookahead.kind ≠ .endOfInput := moreAhead_ne s hHere.1
    rcases declaration_cases (.standard options) s hNe with hReads | ⟨-, hOther⟩
    · exact not_refusesHere_of_enters (hReads.imp_right fun h => Nat.lt_of_lt_of_le h hLess) hHere
    · rw [State.lookahead_kind, hStart] at hOther
      cases hOther
  · exact not_refuses_of_lt (Nat.lt_of_lt_of_le hStep.input_lt hLess) hMore

/-! ## Where a statement begins -/

theorem declaration_of_notMem (h : s.lookahead.kind ∉ declarationStart) :
    declaration (.standard options) s = unexpected declarationStart s := by
  rw [declaration, peek_bind]
  generalize s.lookahead.kind = kind at h
  split
  all_goals first
    | rfl
    | exact absurd (by decide) h

/-- Where a statement can begin, something is read. -/
theorem enters_of_mem (h : s.lookahead.kind ∈ declarationStart)
    (hNe : s.lookahead.kind ≠ .endOfInput) :
    Enters s.input (declaration (.standard options) s) := by
  rcases declaration_cases (.standard options) s hNe with hReads | ⟨-, hOther⟩
  · exact hReads
  · have hLine : s.lookahead.kind = .lineEnd ∨ s.lookahead.kind = .indent ∨
        s.lookahead.kind = .comment ∨ s.lookahead.kind = .skipped := by
      generalize s.lookahead.kind = kind at h hNe hOther
      simp only [declarationStart, List.mem_cons, List.not_mem_nil, or_false] at h
      rcases h with rfl | rfl | rfl | rfl | rfl | rfl | rfl | rfl | rfl
      all_goals first
        | exact absurd hOther (by decide)
        | simp
    rcases hLine with hKind | hKind | hKind | hKind
    · rw [declaration, peek_bind, hKind]
      exact .inr (strict_lineEnd [] (.inl hKind))
    · rw [declaration, peek_bind, hKind]
      exact .inr (strict_lineEnd [] (.inr (.inl hKind)))
    · rw [declaration, peek_bind, hKind]
      exact .inr (strict_lineEnd [] (.inr (.inr hKind)))
    · rw [declaration, peek_bind, hKind]
      exact .inr (State.next_input_lt hNe)

theorem unexpected_inj {s t : State Unit}
    (h : (unexpected expected s : Except Halt Unit × State Unit) = unexpected others t) :
    expected = others := by
  have hError := congrArg Prod.fst h
  simp only [unexpected, fail, Except.error.injEq, Halt.statement.injEq, ParseError.mk.injEq,
    Problem.unexpected.injEq] at hError
  exact hError.1.2

/-- What comes next where a statement begins is refused if no statement can begin with it. -/
theorem refuses_iff_notMem (hRest : s.input = rest) : Refuses options s rest others ↔
    nextKind rest ∉ declarationStart ∧ others = declarationStart := by
  subst hRest
  rw [← s.lookahead_kind]
  constructor
  · intro h
    rcases refuses_iff.1 h with hHere | ⟨t, hStep, hMore⟩
    · have hNe : s.lookahead.kind ≠ .endOfInput := moreAhead_ne s hHere.1
      have hKind : s.lookahead.kind ∉ declarationStart := fun hMem =>
        not_refusesHere_of_enters (enters_of_mem hMem hNe) hHere
      obtain ⟨-, u, hRefused, -⟩ := hHere
      rw [declaration_of_notMem hKind] at hRefused
      exact ⟨hKind, (unexpected_inj hRefused).symm⟩
    · exact absurd hMore (not_refuses_of_lt hStep.input_lt)
  · rintro ⟨hKind, rfl⟩
    refine refuses_iff.2 (.inl ⟨?_, s, declaration_of_notMem hKind, rfl⟩)
    rw [moreAhead, decide_eq_true_eq]
    rintro hEnd
    exact hKind (hEnd ▸ by decide)

/-! ## Going on after an error -/

/-- Recovery that stops in front of some tokens does not see them; otherwise it passes over all
that is in front of them. -/
theorem discarded_append_eq (rest : List Token) (lineStart : Bool) (input : List Token) :
    (discarded lineStart input ≠ input →
      discarded lineStart (input ++ rest) = discarded lineStart input) ∧
        (discarded lineStart input = input →
          input.length ≤ (discarded lineStart (input ++ rest)).length) := by
  induction input generalizing lineStart with
  | nil => exact ⟨fun h => absurd rfl h, fun _ => Nat.zero_le _⟩
  | cons token tail ih =>
      obtain ⟨hStops, hPasses⟩ := ih (token.kind = .lineEnd)
      rw [List.cons_append]
      unfold discarded
      by_cases hStop : token.kind = .endOfInput ∨ lineStart ∧ token.kind.startsStatement
      · rw [if_pos hStop, if_pos hStop]
        exact ⟨fun _ => rfl, fun h => absurd h.symm (List.cons_ne_nil _ _)⟩
      · rw [if_neg hStop, if_neg hStop]
        exact ⟨fun h => congrArg _ (hStops fun hTail => h (congrArg _ hTail)),
          fun h => Nat.succ_le_succ (hPasses (List.tail_eq_of_cons_eq h))⟩

theorem resume_input_eq_nil_iff (trace : Bool) (s : State Unit) :
    (s.resume trace).input = [] ↔ discarded s.atLineStart s.input = s.input := by
  have hSplit := discarded_append_drop s.atLineStart s.input
  show s.input.drop _ = [] ↔ _
  constructor
  · intro hNil
    rw [hNil, List.append_nil] at hSplit
    exact hSplit
  · intro hAll
    rw [hAll, List.drop_length]

theorem resume_facing {trace : Bool} (hSome : (s.resume trace).input ≠ []) (rest : List Token) :
    (s.facing rest).resume trace = (s.resume trace).facing rest := by
  refine resume_inside ?_
  have hStart : (s.facing rest).atLineStart = s.atLineStart := atLineStart_facing
  rw [hStart]
  exact (discarded_append_eq rest _ _).1 fun hAll => hSome ((resume_input_eq_nil_iff _ _).2 hAll)

theorem resume_facing_le {trace : Bool} (hNil : (s.resume trace).input = []) (rest : List Token) :
    ((s.facing rest).resume trace).input.length ≤ rest.length := by
  have hStart : (s.facing rest).atLineStart = s.atLineStart := atLineStart_facing
  have hAll := (discarded_append_eq rest _ _).2 ((resume_input_eq_nil_iff _ _).1 hNil)
  show ((s.input ++ rest).drop (discarded _ (s.input ++ rest)).length).length ≤ _
  rw [hStart, List.length_drop, List.length_append]
  omega

theorem State.Splits.resume (h : s.Splits front) (trace : Bool) :
    (s.resume trace).Splits front := by
  obtain ⟨before, hFront, hPrevious⟩ := h
  refine ⟨before ++ discarded s.atLineStart s.input, ?_, ?_⟩
  · show front = _ ++ s.input.drop (discarded s.atLineStart s.input).length
    rw [List.append_assoc, discarded_append_drop, hFront]
  · show (discarded s.atLineStart s.input).getLast?.or s.previous = _
    rw [List.getLast?_append, hPrevious]

/-- Recovery that stops in front of the end of the tokens has asked for nothing there. -/
theorem State.Faces.resume {H J : Edge} (h : s.Faces front H asked) (trace : Bool)
    (hSome : (s.resume trace).input ≠ []) : (s.resume trace).Faces front J [] :=
  ⟨h.split.resume trace, fun _ => rfl, fun hNil => absurd hNil hSome⟩

/-! ## What is decided in front of a place -/

/-- Behind the tokens of a state, the parse never refuses what comes next; or there are kinds such
that it refuses all others, and always lists the same ones. Kinds that were `asked` for already are
left out. -/
def Decided (options : Options) (front : List Token) (s : State Unit)
    (asked : List TokenKind) : Prop :=
  (∀ rest expected, nextKind rest ∉ asked → ¬ Refuses options (s.facing rest) rest expected) ∨
    ∃ expected accepted, asked ⊆ accepted ∧ Exact front.getLast? expected accepted ∧
      ∀ rest others, nextKind rest ∉ asked → (Refuses options (s.facing rest) rest others ↔
        nextKind rest ∉ accepted ∧ others = expected)

/-- Where the tokens end in front of a statement, it is decided which kinds a statement can begin
with. -/
theorem decided_of_nil (hs : s.Faces front (.within lineEndKinds) asked) (hNil : s.input = []) :
    Decided options front s asked := by
  refine .inr ⟨declarationStart, declarationStart, ?_, exact_self (by decide),
    fun rest others _ => ?_⟩
  · exact List.Subset.trans (hs.edge hNil) (by decide)
  · exact refuses_iff_notMem (input_facing_of_nil hNil)

section Asking

variable (hEnters : ∀ rest, nextKind rest ∈ asked →
  Enters rest (declaration (.standard options) (s.facing rest)))

include hEnters

/-- A statement that reads on for the kinds it asks for is decided if no other kind is refused. -/
theorem decided_of_never (hNever : ∀ rest others, nextKind rest ∉ asked →
    ¬ Refuses options (s.facing rest) rest others) : Decided options front s [] := by
  refine .inl fun rest others _ h => ?_
  by_cases hKind : nextKind rest ∈ asked
  · exact not_refuses_of_enters (hEnters rest hKind) h
  · exact hNever rest others hKind h

/-- A statement that reads on for the kinds it asks for, and is refused for another one just if this
is refused behind it, decides what is decided there. -/
theorem Decided.of_iff (h : Decided options front t asked)
    (hIff : ∀ rest others, nextKind rest ∉ asked →
      (Refuses options (s.facing rest) rest others ↔
        Refuses options (t.facing rest) rest others)) : Decided options front s [] := by
  rcases h with hNever | ⟨expected, accepted, hSubset, hExact, hRefuses⟩
  · exact decided_of_never hEnters fun rest others hKind hRefused =>
      hNever rest others hKind ((hIff rest others hKind).1 hRefused)
  · refine .inr ⟨expected, accepted, List.nil_subset _, hExact, fun rest others _ => ?_⟩
    by_cases hKind : nextKind rest ∈ asked
    · exact ⟨fun hRefused => absurd hRefused (not_refuses_of_enters (hEnters rest hKind)),
        fun hOther => absurd (hSubset hKind) hOther.1⟩
    · rw [hIff rest others hKind]
      exact hRefuses rest others hKind

/-- If a statement succeeds, what it decides is decided behind it. -/
theorem Decided.of_ok (h : Decided options front t asked)
    (hOk : ∀ rest, nextKind rest ∉ asked →
      declaration (.standard options) (s.facing rest) = (.ok (), t.facing rest))
    (hMore : ∀ rest, moreAhead (s.facing rest) = true) : Decided options front s [] := by
  refine h.of_iff hEnters fun rest others hNew => ?_
  rw [refuses_iff]
  constructor
  · rintro (⟨-, u, hRefused, -⟩ | ⟨u, ⟨-, hStep⟩, hLater⟩)
    · rw [hOk rest hNew] at hRefused
      cases hRefused
    · rw [statement_of_ok (hOk rest hNew)] at hStep
      cases hStep
      exact hLater
  · exact fun hLater => .inr ⟨_, ⟨hMore rest, statement_of_ok (hOk rest hNew)⟩, hLater⟩

end Asking

/-- Behind an error, the parse goes on with a statement or not at all. -/
theorem not_refuses_of_error {error : ParseError} {u : State Unit}
    (hError : declaration (.standard options) s = (.error (.statement error), t))
    (hLess : (((t.report error).resume options.traceRecovery).input.length ≤ rest.length))
    (hStep : Advances (.standard options) s u) : ¬ Refuses options u rest expected := by
  rcases statement_eq_ok.1 hStep.2 with hOk | ⟨other, v, hOther, -, rfl⟩
  · rw [hError] at hOk
    cases hOk
  · rw [hError] at hOther
    cases hOther
    exact not_refuses_of_starts hLess (startsStatement_behind_resume _ _)

/-- If a statement is refused where the tokens end, it was decided there for which kinds it is. -/
theorem decided_of_refused (hExact : Exact front.getLast? expected asked) (hNil : t.input = [])
    (hMore : ∀ rest, moreAhead (s.facing rest) = true)
    (hEnters : ∀ rest, nextKind rest ∈ asked →
      Enters rest (declaration (.standard options) (s.facing rest)))
    (hRefused : ∀ rest, nextKind rest ∉ asked →
      declaration (.standard options) (s.facing rest) = unexpected expected (t.facing rest)) :
    Decided options front s [] := by
  refine .inr ⟨expected, asked, List.nil_subset _, hExact, fun rest others _ => ?_⟩
  have hRest : (t.facing rest).input = rest := input_facing_of_nil hNil
  by_cases hKind : nextKind rest ∈ asked
  · exact ⟨fun h => absurd h (not_refuses_of_enters (hEnters rest hKind)),
      fun hOther => absurd hKind hOther.1⟩
  · constructor
    · rintro h
      rcases refuses_iff.1 h with ⟨-, u, hHere, -⟩ | ⟨u, hStep, hLater⟩
      · rw [hRefused rest hKind] at hHere
        exact ⟨hKind, (unexpected_inj hHere).symm⟩
      · refine absurd hLater (not_refuses_of_error (hRefused rest hKind) ?_ hStep)
        exact Nat.le_trans (resume_input_le _ _) (Nat.le_of_eq (congrArg List.length hRest))
    · rintro ⟨-, rfl⟩
      exact refuses_iff.2 (.inl ⟨hMore rest, _, hRefused rest hKind, hRest⟩)

/-- A statement that fails for another reason is not refused itself. -/
theorem not_refusesHere_of_failed {error : ParseError}
    (hOther : ∀ found expected, error.problem = .unexpected found expected → t.input ≠ [])
    (hError : declaration (.standard options) (s.facing rest) =
      (.error (.statement error), t.facing rest)) :
    ¬ RefusesHere options (s.facing rest) rest expected := by
  rintro ⟨-, u, hRefused, hRest⟩
  rw [hError] at hRefused
  simp only [unexpected, fail, Prod.mk.injEq, Except.error.injEq, Halt.statement.injEq] at hRefused
  obtain ⟨hProblem, hState⟩ := hRefused
  rw [← hState] at hRest
  exact hOther _ _ (congrArg ParseError.problem hProblem) (List.append_left_eq_self.1 hRest)

/-- If a statement fails for another reason, what is decided is decided where the parse goes on. -/
theorem decided_of_failed {error : ParseError}
    (hOther : ∀ found expected, error.problem = .unexpected found expected → t.input ≠ [])
    (ht : t.Faces front (.refused error) asked)
    (hEnters : ∀ rest, nextKind rest ∈ asked →
      Enters rest (declaration (.standard options) (s.facing rest)))
    (hError : ∀ rest, nextKind rest ∉ asked →
      declaration (.standard options) (s.facing rest) = (.error (.statement error), t.facing rest))
    (hMore : ∀ rest, moreAhead (s.facing rest) = true)
    (hLater : options.recovery = .resynchronize →
      ((t.report error).resume options.traceRecovery).input ≠ [] →
        Decided options front ((t.report error).resume options.traceRecovery) []) :
    Decided options front s [] := by
  have hHere (rest : List Token) (others : List TokenKind) (hKind : nextKind rest ∉ asked) :
      ¬ RefusesHere options (s.facing rest) rest others :=
    not_refusesHere_of_failed hOther (hError rest hKind)
  have hStops (hGone : ∀ rest u, nextKind rest ∉ asked →
      Advances (.standard options) (s.facing rest) u → ∀ others, ¬ Refuses options u rest others) :
      Decided options front s [] := by
    refine decided_of_never hEnters fun rest others hKind h => ?_
    rcases refuses_iff.1 h with hRefused | ⟨u, hStep, hRefused⟩
    · exact hHere rest others hKind hRefused
    · exact hGone rest u hKind hStep others hRefused
  cases hMode : options.recovery with
  | abort =>
      refine hStops fun rest u hKind hStep => ?_
      rcases statement_eq_ok.1 hStep.2 with hOk | ⟨-, -, -, hResumes, -⟩
      · rw [hError rest hKind] at hOk
        cases hOk
      · have hAbort : options.recovery = .resynchronize := hResumes
        rw [hMode] at hAbort
        cases hAbort
  | resynchronize =>
      by_cases hNil : ((t.report error).resume options.traceRecovery).input = []
      · exact hStops fun rest u hKind hStep others =>
          not_refuses_of_error (hError rest hKind) (resume_facing_le hNil rest) hStep
      · -- The parse goes on in front of the place, where nothing has been asked for.
        have hNone : asked = [] := by
          refine ht.fresh fun hEnd => hNil (List.eq_nil_of_length_eq_zero (Nat.le_zero.1 ?_))
          exact Nat.le_trans (resume_input_le _ _) (Nat.le_of_eq (congrArg List.length hEnd))
        subst hNone
        refine (hLater hMode hNil).of_iff hEnters fun rest others hNew => ?_
        have hStep : statement (.standard options) (s.facing rest) = (.ok (),
            ((t.report error).resume options.traceRecovery).facing rest) := by
          rw [statement_of_error hMode (hError rest hNew), ← resume_facing hNil rest]
          rfl
        rw [refuses_iff]
        constructor
        · rintro (hRefused | ⟨u, ⟨-, hOther⟩, hRefused⟩)
          · exact absurd hRefused (hHere rest others hNew)
          · rw [hStep] at hOther
            cases hOther
            exact hRefused
        · exact fun hRefused => .inr ⟨_, ⟨hMore rest, hStep⟩, hRefused⟩

/-- Where no statement begins any more, nothing is refused. -/
theorem decided_of_stop (hStop : ∀ rest, moreAhead (s.facing rest) = false) :
    Decided options front s asked := by
  refine .inl fun rest others _ h => ?_
  rcases refuses_iff.1 h with ⟨hMore, -⟩ | ⟨u, ⟨hMore, -⟩, -⟩
  · rw [hStop] at hMore
    cases hMore
  · rw [hStop] at hMore
    cases hMore

/-- If a statement fails, what is decided is decided at the end of the tokens, where a token is in
the wrong place there, and otherwise where the parse goes on. -/
theorem decided_of_error {error : ParseError} (ht : t.Faces front (.refused error) asked)
    (hEnters : ∀ rest, nextKind rest ∈ asked →
      Enters rest (declaration (.standard options) (s.facing rest)))
    (hShows : ∀ rest, nextKind rest ∉ asked → Shows rest (.error (.statement error), t)
      (declaration (.standard options) (s.facing rest)))
    (hMore : ∀ rest, moreAhead (s.facing rest) = true)
    (hLater : options.recovery = .resynchronize →
      ((t.report error).resume options.traceRecovery).input ≠ [] →
        Decided options front ((t.report error).resume options.traceRecovery) []) :
    Decided options front s [] := by
  by_cases hHole : t.input = [] ∧ ∃ found expected, error.problem = .unexpected found expected
  · obtain ⟨hEnd, found, expected, hProblem⟩ := hHole
    obtain ⟨before, hFront, hLast⟩ := ht.split
    rw [hEnd, List.append_nil] at hFront
    have hExact := ht.edge hEnd found expected hProblem
    rw [hLast, ← hFront] at hExact
    refine decided_of_refused hExact hEnd hMore hEnters fun rest hKind => ?_
    rcases hShows rest hKind with ⟨others, -, rfl, hRefused⟩ | ⟨hOther, -⟩
    · cases hProblem
      exact hRefused
    · exact absurd hEnd (hOther found expected hProblem)
  · refine decided_of_failed (fun found expected hProblem hEnd =>
      hHole ⟨hEnd, found, expected, hProblem⟩) ht hEnters (fun rest hKind => ?_) hMore hLater
    rcases hShows rest hKind with ⟨others, hEnd, rfl, -⟩ | ⟨-, hFails⟩
    · exact absurd ⟨hEnd, _, _, rfl⟩ hHole
    · exact hFails

/-- In front of every place of a text it is decided what is refused there. The induction is on the
tokens that are left. -/
theorem decided (options : Options) {length : Nat} (hLength : s.input.length = length)
    (hs : s.Faces front (.within lineEndKinds) asked) : Decided options front s asked := by
  induction length using Nat.strongRecOn generalizing s asked with
  | _ length ih =>
      subst hLength
      by_cases hNil : s.input = []
      · exact decided_of_nil hs hNil
      obtain rfl : asked = [] := hs.fresh hNil
      have hFacing (rest : List Token) : moreAhead (s.facing rest) = moreAhead s := by
        rw [moreAhead, moreAhead, lookahead_facing hNil]
      cases hGoes : moreAhead s with
      | false => exact decided_of_stop fun rest => (hFacing rest).trans hGoes
      | true =>
          have hMore (rest : List Token) := (hFacing rest).trans hGoes
          obtain ⟨more, hMeets, hRest⟩ :=
            (probes_declaration options).foretells s [] (hs.of_ne_nil hNil)
          rcases hStep : declaration (.standard options) s with ⟨result, t⟩
          rw [hStep] at hMeets hRest
          have hEnters := fun rest => (hRest rest List.not_mem_nil).1
          have hShows := fun rest => (hRest rest List.not_mem_nil).2
          cases result with
          | ok v =>
              have hLess := consumes_statement (.standard options) s () t (moreAhead_ne s hGoes)
                (statement_of_ok hStep)
              exact (ih _ hLess rfl hMeets).of_ok hEnters hShows hMore
          | error halt =>
              cases halt with
              | fatal error =>
                  exact decided_of_never hEnters fun rest others hKind =>
                    not_refuses_of_enters (.inl (hShows rest hKind))
              | statement error =>
                  have hReport : (t.report error).Faces front (.refused error) more :=
                    State.Faces.of_spot hMeets rfl rfl fun h => h
                  refine decided_of_error hMeets hEnters hShows hMore fun hMode hSome => ?_
                  have hLess := consumes_statement (.standard options) s () _ (moreAhead_ne s hGoes)
                    (statement_of_error hMode hStep)
                  exact ih _ hLess rfl (hReport.resume _ hSome)

/-! ## What is reported -/

theorem input_ne_nil_of_moreAhead (h : moreAhead s = true) : s.input ≠ [] := fun hNil =>
  moreAhead_ne s h (lookahead_kind_of_nil hNil)

/-- Where a statement stops that lets the parse go on, a text is split. -/
theorem State.Splits.declaration (h : s.Splits front) (hMore : moreAhead s = true)
    {result : Except Halt Unit} (hStep : declaration (.standard options) s = (result, t))
    (hEnds : ¬ EndsParse result) : t.Splits front := by
  have hSome := input_ne_nil_of_moreAhead hMore
  obtain ⟨more, hMeets, -⟩ := (probes_declaration options).foretells s []
    ⟨h, fun _ => rfl, fun hNil => absurd hNil hSome⟩
  rw [hStep] at hMeets
  cases result with
  | ok v => exact hMeets.split
  | error halt =>
      cases halt with
      | statement error => exact hMeets.split
      | fatal error => exact absurd ⟨error, rfl⟩ hEnds

theorem Advances.splits (h : Advances (.standard options) s t) (hs : s.Splits front) :
    t.Splits front := by
  rcases statement_eq_ok.1 h.2 with hOk | ⟨error, u, hError, -, rfl⟩
  · exact hs.declaration h.1 hOk fun ⟨_, hFatal⟩ => nomatch hFatal
  · have hu : u.Splits front := hs.declaration h.1 hError fun ⟨_, hFatal⟩ => nomatch hFatal
    exact State.Splits.resume (s := u.report error) hu _

theorem splits_of_reaches {tags : TagContext}
    (h : Reaches (.standard options) (.begin () tags front) s) : s.Splits front := by
  induction h with
  | refl => exact ⟨[], rfl, rfl⟩
  | tail _ hStep ih => exact hStep.splits ih

section Run

variable {tags : TagContext} {input : List Token} {error : ParseError} {found : TokenKind}

/-- A statement of a parse fails with an error. -/
def FailsWith (options : Options) (s : State Unit) (error : ParseError) : Prop :=
  moreAhead s = true ∧ ∃ u, declaration (.standard options) s = (.error (.statement error), u)

/-- Errors that are reported when a statement is read. If it fails, its error is one of them, and
no other one is about a token in the wrong place. -/
structure Reports (options : Options) (s : State Unit) (errors : List ParseError) : Prop where
  mem : ∀ error, FailsWith options s error → error ∈ errors
  failed : ∀ error ∈ errors, ∀ found expected, error.problem = .unexpected found expected →
    FailsWith options s error

/-- From every state that it reaches, a parse goes on to one where it ends, with what is reported
there. -/
theorem exists_end {tags : TagContext} {input : List Token} (hDepth : 0 < options.maxDepth)
    (hReaches : Reaches (.standard options) (.begin () tags input) s) :
    ∃ t errors, Reaches (.standard options) s t ∧ Reports options t errors ∧
      (run (.standard options) () tags input).errors = t.errors ++ errors := by
  obtain ⟨t, final, hLater, hFinal, hErrors⟩ := exists_final hDepth hReaches
  refine ⟨t, final, hLater, ?_, hErrors⟩
  cases hFinal with
  | accepted hStop =>
      refine ⟨fun error hFails => ?_, List.forall_mem_nil _⟩
      obtain ⟨hMore, -⟩ := hFails
      rw [hStop] at hMore
      cases hMore
  | exhausted hMore hFatal =>
      refine ⟨fun error hFails => ?_, List.forall_mem_singleton.2 fun found expected hProblem => ?_⟩
      · obtain ⟨-, u, hError⟩ := hFails
        rw [hFatal] at hError
        cases hError
      · obtain ⟨limit, hLimit⟩ := exhausted_of_error hFatal
        rw [hLimit] at hProblem
        cases hProblem
  | stopped hMore hFailed hMode =>
      refine ⟨fun error hFails => ?_, fun error hMem found expected hProblem => ?_⟩
      · obtain ⟨-, u, hError⟩ := hFails
        rw [hFailed] at hError
        cases hError
        exact List.mem_cons_self
      · rcases List.mem_cons.1 hMem with rfl | hLast
        · exact ⟨hMore, _, hFailed⟩
        · obtain rfl := List.mem_singleton.1 hLast
          cases hProblem

/-- Behind every report of a token in the wrong place is a statement that failed. -/
theorem exists_failsWith (hProblem : error.problem = .unexpected found expected)
    (hError : error ∈ (run (.standard options) () tags input).errors) :
    0 < options.maxDepth ∧
      ∃ s, Reaches (.standard options) (.begin () tags input) s ∧ FailsWith options s error := by
  have hDepth : 0 < options.maxDepth := by
    refine Nat.pos_of_ne_zero fun hZero => ?_
    have hNone : ¬ 0 < options.maxDepth := by omega
    rw [run_of_no_room hNone] at hError
    obtain rfl := List.mem_singleton.1 hError
    cases hProblem
  obtain ⟨t, last, hReaches, hLast, hErrors⟩ := exists_end hDepth .refl
  rw [hErrors, List.mem_append] at hError
  rcases hError with hMem | hMem
  · obtain ⟨front, rest, hSplit⟩ := List.append_of_mem hMem
    have hMalformed : error.problem.isMalformation = true := by
      rw [hProblem]
      rfl
    obtain ⟨u, v, failed, hFront, hStep, -, -, hFailed⟩ :=
      exists_failed hReaches rfl hSplit hMalformed
    exact ⟨hDepth, u, hFront, hStep.1, failed, hFailed⟩
  · exact ⟨hDepth, t, hReaches, hLast.failed error hMem found expected hProblem⟩

/-- The error of every statement that fails is reported. -/
theorem mem_errors_of_failsWith (hDepth : 0 < options.maxDepth)
    (hReaches : Reaches (.standard options) (.begin () tags input) s)
    (hFails : FailsWith options s error) :
    error ∈ (run (.standard options) () tags input).errors := by
  obtain ⟨t, last, hLater, hLast, hErrors⟩ := exists_end hDepth hReaches
  rw [hErrors, List.mem_append]
  rcases Relation.ReflTransGen.cases_head hLater with rfl | ⟨u, hStep, hMore⟩
  · exact .inr (hLast.mem error hFails)
  · obtain ⟨-, failed, hFailed⟩ := hFails
    refine .inl ((Reaches.grows hMore).errors.subset ?_)
    rw [hStep.eq_resume hFailed, errors_of_resume (unmoved_of_error hFailed).1]
    exact List.mem_append_right _ List.mem_cons_self

/-- In the parse of `front ++ rest`, a statement fails in front of `rest`, and `error` is reported
for it. -/
def FailsAt (options : Options) (tags : TagContext) (front rest : List Token)
    (error : ParseError) : Prop :=
  error ∈ (run (.standard options) () tags (front ++ rest)).errors ∧
    ∃ s u, Reaches (.standard options) (.begin () tags (front ++ rest)) s ∧ moreAhead s = true ∧
      declaration (.standard options) s = (.error (.statement error), u) ∧ u.input = rest

/-- A token is reported where a statement is refused for it. -/
theorem failsAt_iff (hDepth : 0 < options.maxDepth) (token : Token) :
    FailsAt options tags front (token :: rest) ⟨.unexpected token.kind expected, token.span⟩ ↔
      Refuses options (.begin () tags (front ++ token :: rest)) (token :: rest) expected := by
  have hNext {u : State Unit} (hInput : u.input = token :: rest) :
      (unexpected expected u : Except Halt Unit × State Unit) =
        (.error (.statement ⟨.unexpected token.kind expected, token.span⟩), u) := by
    have hToken : u.lookahead = token := by rw [State.lookahead, hInput]; rfl
    rw [← hToken]
    rfl
  constructor
  · rintro ⟨-, s, u, hReaches, hMore, hError, hInput⟩
    exact ⟨s, hReaches, hMore, u, hError.trans (hNext hInput).symm, hInput⟩
  · rintro ⟨s, hReaches, hMore, u, hRefused, hInput⟩
    rw [hNext hInput] at hRefused
    exact ⟨mem_errors_of_failsWith hDepth hReaches ⟨hMore, u, hRefused⟩, s, u, hReaches, hMore,
      hRefused, hInput⟩

/-- A token in the wrong place is reported with the kinds that could have stood there, except that
behind a tag or a link some of them may be stale: any token in its place is refused there as well
just if its kind is not listed, or is stale. -/
theorem run_expected (hError : error ∈ (run (.standard options) () tags input).errors)
    (hProblem : error.problem = .unexpected found expected) :
    ∃ front rest, input = front ++ rest ∧ found = nextKind rest ∧
      FailsAt options tags front rest error ∧
      (found ∉ expected ∨ Stale front.getLast? expected found) ∧
      ∀ token : Token, (∃ others, FailsAt options tags front (token :: rest.tail)
        ⟨.unexpected token.kind others, token.span⟩) ↔
          token.kind ∉ expected ∨ Stale front.getLast? expected token.kind := by
  obtain ⟨hDepth, s, hReaches, hMore, u, hFailed⟩ := exists_failsWith hProblem hError
  obtain ⟨front, rfl, hLast⟩ := (splits_of_reaches hReaches).declaration hMore hFailed
    fun ⟨_, hFatal⟩ => nomatch hFatal
  have hLocated := (unmoved_of_error hFailed).2.1 found expected hProblem
  have hRefused : Refuses options (.begin () tags (front ++ u.input)) u.input expected := by
    refine ⟨s, hReaches, hMore, u, ?_, rfl⟩
    rw [hFailed, hLocated]
    rfl
  have hFound : found = nextKind u.input := by
    rw [← u.lookahead_kind]
    rw [hLocated] at hProblem
    cases hProblem
    rfl
  have hBegin : (State.begin () tags front).Faces front (.within lineEndKinds) [] :=
    ⟨⟨[], rfl, rfl⟩, fun _ => rfl, fun _ => List.nil_subset _⟩
  refine ⟨front, u.input, rfl, hFound, ⟨hError, s, u, hReaches, hMore, hFailed, rfl⟩, ?_⟩
  rcases decided options rfl hBegin with hNever | ⟨listed, accepted, -, hExact, hIff⟩
  · exact absurd hRefused (hNever u.input expected List.not_mem_nil)
  · obtain ⟨hKind, rfl⟩ := (hIff u.input expected List.not_mem_nil).1 hRefused
    have hAccepted (kind : TokenKind) : kind ∉ accepted ↔
        kind ∉ expected ∨ Stale front.getLast? expected kind := by
      rw [hExact kind, Classical.not_and_iff_not_or_not, Classical.not_not]
    refine ⟨?_, fun token => ?_⟩
    · rw [hFound]
      exact (hAccepted _).1 hKind
    · rw [← hAccepted]
      constructor
      · rintro ⟨others, hOther⟩
        exact ((hIff (token :: u.input.tail) others List.not_mem_nil).1
          ((failsAt_iff hDepth token).1 hOther)).1
      · intro hOther
        exact ⟨expected, (failsAt_iff hDepth token).2
          ((hIff (token :: u.input.tail) expected List.not_mem_nil).2 ⟨hOther, rfl⟩)⟩

/-- A transaction whose second string stands behind a link. -/
def lateString : List Token := Token.tokens "2024-01-01 * \"x\" ^inv \"y\"\n"

/-- The kinds that are listed for the string. -/
def lateKinds : List TokenKind := [.mark .pipe, .string, .link, .lineEnd, .indent, .comment]

/-- What is reported of the string. -/
def lateError : ParseError where
  problem := .unexpected .string lateKinds
  span := ⟨⟨1, 23⟩, ⟨1, 26⟩⟩

theorem run_expected_lateString :
    lateError ∈ (run (.standard {}) () .empty lateString).errors ∧
      ∃ front rest, lateString = front ++ rest ∧ .string = nextKind rest ∧
        FailsAt {} .empty front rest lateError ∧
        (.string ∉ lateKinds ∨ Stale front.getLast? lateKinds .string) ∧
        ∀ token : Token, (∃ others, FailsAt {} .empty front (token :: rest.tail)
          ⟨.unexpected token.kind others, token.span⟩) ↔
            token.kind ∉ lateKinds ∨ Stale front.getLast? lateKinds token.kind := by
  have hError : lateError ∈ (run (.standard {}) () .empty lateString).errors := by
    decide +kernel
  exact ⟨hError, run_expected hError rfl⟩

/-- The string is refused, and listed as one of the kinds that could have stood in its place. -/
theorem lateString_expects_string :
    ∃ error ∈ (run (.standard {}) () .empty lateString).errors, ∃ found expected,
      error.problem = .unexpected found expected ∧ found ∈ expected :=
  ⟨lateError, by decide +kernel, _, _, rfl, by decide⟩

end Run

end LedgerText.Parse
