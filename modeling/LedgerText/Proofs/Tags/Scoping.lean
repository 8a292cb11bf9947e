import LedgerText.Proofs.Parse.Effects
import LedgerText.Proofs.Tags.Headers
import LedgerText.Proofs.Tags.Unmatched

/-!
# The scope of tags

A tag that a statement pushes is active until another one pops it. Which pushes
and pops a parse has executed can be told from the tokens in front of which its
statements begin (`TagOp.ahead?`, `Executes`): a statement on a tag that is well
formed never fails, and one that fails does nothing with a tag. One statement at
a time, the context is the one at the beginning with these pushes and pops
applied to it (`Advances.tags_eq`, `Executes.tags_eq`).

`Scoped` says what follows for a whole parse: which tags its transactions have,
and which pops it reports.
-/

namespace LedgerText

/-- What the statement that some tokens begin with does with a tag. It does nothing with any unless
it is well formed. -/
def TagOp.ahead? : List Token → Option TagOp
  | word :: tag :: _ =>
      match word.kind with
      | .keyword .pushtag => tag.tag?.map .push
      | .keyword .poptag => tag.tag?.map .pop
      | _ => none
  | _ => none

namespace Parse

open Grammar Step

section

variable {σ : Type} {setup : Setup σ} {s t u : State σ} {ops : List TagOp} {op : TagOp}

/-! ## One statement -/

/-- What an effect does with a tag. -/
def Effect.tagOp? : Effect → Option TagOp
  | .pushes tag => some (.push tag)
  | .pops tag _ => some (.pop tag)
  | _ => none

theorem Effect.tags_applyTo (e : Effect) (s : State σ) :
    (e.applyTo s).tags = s.tags.after e.tagOp?.toList := by
  cases e with
  | pops tag span =>
      by_cases hActive : s.tags.contains tag = true
      · rw [applyTo, if_pos hActive]
        rfl
      · rw [applyTo, if_neg hActive]
        exact (TagContext.pop_of_not_contains (Bool.eq_false_iff.2 hActive)).symm
  | _ => rfl

theorem lookahead_of_two {word token : Token} {rest : List Token}
    (h : s.input = word :: token :: rest) : s.lookahead = word ∧ s.next.lookahead = token := by
  simp [State.lookahead, State.next, h]

/-- Where a tag comes second, there are two tokens. -/
theorem exists_two_of_tag {tag : String} (h : s.next.lookahead.tag? = some tag) :
    ∃ word token rest, s.input = word :: token :: rest := by
  have hKind := (tag?_eq_some.1 h).1
  rcases hInput : s.input with _ | ⟨word, _ | ⟨token, rest⟩⟩
  · simp [State.lookahead, State.next, hInput, Token.endOfInput, Token.bare] at hKind
  · simp [State.lookahead, State.next, hInput, Token.endOfInput, Token.bare] at hKind
  · exact ⟨word, token, rest, rfl⟩

/-- A word and a tag come next where a statement on the tag does. -/
theorem ahead?_eq_some : TagOp.ahead? s.input = some op ↔ ∃ tag,
    s.next.lookahead.tag? = some tag ∧ (s.lookahead.kind = .keyword .pushtag ∧ op = .push tag ∨
      s.lookahead.kind = .keyword .poptag ∧ op = .pop tag) := by
  constructor
  · intro h
    rcases hInput : s.input with _ | ⟨word, _ | ⟨token, rest⟩⟩
    · rw [hInput] at h
      cases h
    · rw [hInput] at h
      cases h
    · obtain ⟨hWord, hToken⟩ := lookahead_of_two hInput
      rw [hWord, hToken]
      rw [hInput, TagOp.ahead?] at h
      split at h
      · next hKind =>
          obtain ⟨tag, hTag, rfl⟩ := Option.map_eq_some_iff.1 h
          exact ⟨tag, hTag, .inl ⟨hKind, rfl⟩⟩
      · next hKind =>
          obtain ⟨tag, hTag, rfl⟩ := Option.map_eq_some_iff.1 h
          exact ⟨tag, hTag, .inr ⟨hKind, rfl⟩⟩
      · cases h
  · rintro ⟨tag, hTag, hWord⟩
    obtain ⟨word, token, rest, hInput⟩ := exists_two_of_tag hTag
    obtain ⟨hFirst, hToken⟩ := lookahead_of_two hInput
    rw [hToken] at hTag
    rw [hFirst] at hWord
    rw [hInput, TagOp.ahead?]
    rcases hWord with ⟨hKind, rfl⟩ | ⟨hKind, rfl⟩
    · rw [hKind]
      exact congrArg (Option.map _) hTag
    · rw [hKind]
      exact congrArg (Option.map _) hTag

/-- What a statement does with a tag can be told from its first tokens. -/
theorem ahead?_of_beginsAt {e : Effect} (h : e.BeginsAt s) :
    TagOp.ahead? s.input = e.tagOp? := by
  have hNone (hPush : s.lookahead.kind ≠ .keyword .pushtag)
      (hPop : s.lookahead.kind ≠ .keyword .poptag) : TagOp.ahead? s.input = none := by
    rw [Option.eq_none_iff_forall_ne_some]
    intro op hOp
    obtain ⟨tag, -, ⟨hKind, -⟩ | ⟨hKind, -⟩⟩ := ahead?_eq_some.1 hOp
    · exact hPush hKind
    · exact hPop hKind
  cases e with
  | nothing =>
      have hKind : s.lookahead.kind.startsStatement = false := h
      apply hNone
      · intro hPush
        rw [hPush] at hKind
        cases hKind
      · intro hPop
        rw [hPop] at hKind
        cases hKind
  | adds x =>
      obtain ⟨hKind | hKind, -⟩ := h
      · exact hNone (by simp [hKind]) (by simp [hKind])
      · exact hNone (by simp [hKind]) (by simp [hKind])
  | pushes tag => exact ahead?_eq_some.2 ⟨tag, tag?_eq_some.2 h.2, .inl ⟨h.1, rfl⟩⟩
  | pops tag span => exact ahead?_eq_some.2 ⟨tag, tag?_eq_some.2 h.2, .inr ⟨h.1, rfl⟩⟩

/-- A tag that comes next is read. -/
theorem takeText_tag {tag : String} (h : s.lookahead.tag? = some tag) :
    (takeText .tag [.tag] : Step σ String) s = (.ok tag, s.next) := by
  obtain ⟨hKind, hText⟩ := tag?_eq_some.1 h
  have hTake : (take .tag [.tag] : Step σ Token) s = (.ok s.lookahead, s.next) := if_pos hKind
  rw [takeText, bind_of_ok hTake]
  exact textOf_eq_ok.2 ⟨hText, rfl⟩

/-- A statement that does something with a tag succeeds. -/
theorem declaration_of_ahead (setup : Setup σ) (h : TagOp.ahead? s.input = some op) :
    ∃ t, declaration setup s = (.ok (), t) := by
  obtain ⟨tag, hTag, ⟨hKind, -⟩ | ⟨hKind, -⟩⟩ := ahead?_eq_some.1 h
  · rw [declaration, peek_bind, hKind]
    exact ⟨_, bind_of_ok (takeText_tag hTag) _⟩
  · rw [declaration, peek_bind, hKind]
    by_cases hActive : s.tags.contains tag = true
    · exact ⟨_, (bind_of_ok (takeText_tag hTag) _).trans (if_pos hActive)⟩
    · exact ⟨_, (bind_of_ok (takeText_tag hTag) _).trans (if_neg hActive)⟩

/-- A statement that fails does nothing with a tag. -/
theorem ahead?_of_error {halt : Halt} (h : declaration setup s = (.error halt, t)) :
    TagOp.ahead? s.input = none := by
  rw [Option.eq_none_iff_forall_ne_some]
  intro op hOp
  obtain ⟨u, hStep⟩ := declaration_of_ahead setup hOp
  rw [hStep] at h
  cases h

/-- A statement does with the active tags what its first tokens say, and nothing if it fails. -/
theorem Advances.tags_eq (h : Advances setup s t) :
    t.tags = s.tags.after (TagOp.ahead? s.input).toList := by
  rcases h.inv with ⟨-, e, u, hState, hBegins, rfl⟩ | ⟨error, u, hError, -, hState, -, rfl⟩
  · rw [e.tags_applyTo, hState.tags_eq, ahead?_of_beginsAt hBegins]
  · rw [ahead?_of_error hError]
    exact hState.tags_eq

/-! ## Many statements -/

/-- Whole statements lead from one state to another, and do some pushes and pops on the way. Where
one does nothing with a tag, or fails, the next one goes on from there. -/
inductive Executes (setup : Setup σ) (s : State σ) : List TagOp → State σ → Prop where
  | refl : Executes setup s [] s
  | tail {ops : List TagOp} {t u : State σ} (front : Executes setup s ops t)
      (step : Advances setup t u) : Executes setup s (ops ++ (TagOp.ahead? t.input).toList) u

theorem exists_executes (h : Reaches setup s t) : ∃ ops, Executes setup s ops t := by
  induction h with
  | refl => exact ⟨[], .refl⟩
  | tail _ step ih =>
      obtain ⟨ops, front⟩ := ih
      exact ⟨_, front.tail step⟩

/-- The active tags are those at the beginning, with all pushes and pops applied to them. -/
theorem Executes.tags_eq (h : Executes setup s ops t) : t.tags = s.tags.after ops := by
  induction h with
  | refl => rfl
  | tail _ step ih => rw [step.tags_eq, ih, TagContext.after_append]

/-! ## Pops -/

/-- A statement that pops a tag lets the parse go on. If the tag is active it takes back its latest
push and reports nothing. Otherwise it reports that the tag is not active and changes nothing. -/
theorem exists_popped (setup : Setup σ) {tag : String}
    (h : TagOp.ahead? s.input = some (.pop tag)) :
    ∃ t, Advances setup s t ∧
      (s.tags.contains tag = true → t.tags = s.tags.pop tag ∧ t.errors = s.errors) ∧
      (s.tags.contains tag = false → t.tags = s.tags ∧ t.errors = s.errors ++
        [⟨.unbalancedPoptag tag, s.lookahead.span.upTo s.next.lookahead.span⟩]) := by
  obtain ⟨text, hText, ⟨-, hOp⟩ | ⟨hKind, hOp⟩⟩ := ahead?_eq_some.1 h
  · cases hOp
  · cases hOp
    have hMore : moreAhead s = true := by
      rw [moreAhead, hKind]
      rfl
    have hStep : declaration setup s = poptag s := by rw [declaration, peek_bind, hKind]
    by_cases hActive : s.tags.contains tag = true
    · have hPop : poptag s = (.ok (), { s.next.next with tags := s.tags.pop tag }) :=
        (bind_of_ok (takeText_tag hText) _).trans (if_pos hActive)
      refine ⟨_, ⟨hMore, statement_of_ok (hStep.trans hPop)⟩, fun _ => ⟨rfl, rfl⟩, fun hNone => ?_⟩
      rw [hActive] at hNone
      cases hNone
    · have hPop : poptag s = (.ok (), s.next.next.report
          ⟨.unbalancedPoptag tag, s.lookahead.span.upTo s.next.lookahead.span⟩) :=
        (bind_of_ok (takeText_tag hText) _).trans (if_neg hActive)
      exact ⟨_, ⟨hMore, statement_of_ok (hStep.trans hPop)⟩, fun h => absurd h hActive,
        fun _ => ⟨rfl, rfl⟩⟩

/-- A statement that reports that a tag is not active is one that pops it. -/
theorem Advances.unbalanced {tag : String} {span : Span} (h : Advances setup s t)
    (hMore : t.errors = s.errors ++ [⟨.unbalancedPoptag tag, span⟩]) :
    TagOp.ahead? s.input = some (.pop tag) ∧ s.tags.contains tag = false ∧
      span = s.lookahead.span.upTo s.next.lookahead.span := by
  have hSome : t.errors ≠ s.errors := by
    intro hSame
    rw [hSame] at hMore
    cases List.self_eq_append_right.1 hMore
  rcases h.inv with ⟨-, e, u, hState, hBegins, hEffect⟩ | ⟨error, u, -, hProblem, hState, -, rfl⟩
  · have hAhead := ahead?_of_beginsAt hBegins
    cases e with
    | pops other place =>
        obtain ⟨v, hStep, hActive, hAbsent⟩ := exists_popped setup hAhead
        have hSame : v = t := congrArg Prod.snd (hStep.2.symm.trans h.2)
        subst hSame
        cases hContains : s.tags.contains other with
        | true => exact absurd (hActive hContains).2 hSome
        | false =>
            rw [(hAbsent hContains).2] at hMore
            cases List.append_cancel_left hMore
            exact ⟨hAhead, hContains, rfl⟩
    | _ => exact absurd (hEffect ▸ hState.errors_eq) hSome
  · rw [errors_of_resume hState] at hMore
    obtain ⟨rfl, -⟩ := List.cons.inj (List.append_cancel_left hMore)
    cases hProblem

/-- What is reported of a tag that is not active was reported before, or the statement pops it. -/
theorem Advances.popped {front rest : List ParseError} {tag : String} {span : Span}
    (h : Advances setup s t) (hSplit : t.errors = front ++ ⟨.unbalancedPoptag tag, span⟩ :: rest) :
    (∃ others, s.errors = front ++ ⟨.unbalancedPoptag tag, span⟩ :: others) ∨
      s.errors = front ∧ TagOp.ahead? s.input = some (.pop tag) ∧ s.tags.contains tag = false ∧
        span = s.lookahead.span.upTo s.next.lookahead.span := by
  rcases h.errors_cases with ⟨-, hSame | ⟨other, place, hMore⟩⟩ | ⟨error, u, -, hProblem, hMore⟩
  · exact .inl ⟨rest, hSame.symm.trans hSplit⟩
  · rcases split_of_append (hMore.symm.trans hSplit) List.not_mem_nil with ⟨others, hOld, -⟩ |
      ⟨hFront, hNew⟩
    · exact .inl ⟨others, hOld⟩
    · cases hNew
      exact .inr ⟨hFront, h.unbalanced hMore⟩
  · have hNotes : (⟨.unbalancedPoptag tag, span⟩ : ParseError) ∉ notes setup u := by
      intro hMem
      obtain ⟨token, hNote⟩ := exists_of_mem_notes hMem
      cases hNote
    rcases split_of_append (hMore.symm.trans hSplit) hNotes with ⟨others, hOld, -⟩ | ⟨-, hNew⟩
    · exact .inl ⟨others, hOld⟩
    · cases hNew
      cases hProblem

/-- Where it was reported that a tag is not active, a statement popped it. -/
theorem Reaches.exists_popped {front rest : List ParseError} {tag : String} {span : Span}
    (h : Reaches setup s t) (hStart : s.errors = [])
    (hSplit : t.errors = front ++ ⟨.unbalancedPoptag tag, span⟩ :: rest) : ∃ u ops,
      Executes setup s ops u ∧ u.errors = front ∧ TagOp.ahead? u.input = some (.pop tag) ∧
        u.tags.contains tag = false ∧ span = u.lookahead.span.upTo u.next.lookahead.span := by
  induction h generalizing rest with
  | refl =>
      rw [hStart] at hSplit
      cases front <;> cases hSplit
  | @tail p q hFront hStep ih =>
      rcases hStep.popped hSplit with ⟨others, hOld⟩ | hHere
      · exact ih hOld
      · obtain ⟨ops, hOps⟩ := exists_executes hFront
        exact ⟨p, ops, hOps, hHere⟩

/-- What ends a parse is not that a tag is not active. -/
theorem Final.not_unbalanced {errors : List ParseError} (h : Final setup t errors) (tag : String)
    (span : Span) : (⟨.unbalancedPoptag tag, span⟩ : ParseError) ∉ errors := by
  intro hMem
  cases h with
  | accepted => cases hMem
  | exhausted hMore hFatal =>
      obtain ⟨limit, hLimit⟩ := exhausted_of_error hFatal
      rw [← List.mem_singleton.1 hMem] at hLimit
      cases hLimit
  | stopped hMore hError hMode =>
      rcases List.mem_pair.1 hMem with hSame | hSame
      · have hProblem := malformed_of_error hError
        rw [← hSame] at hProblem
        cases hProblem
      · cases hSame

/-- Whatever a parse reports of tags that are not active, it has reported in the last state that it
reaches. -/
theorem exists_unbalanced {builder : σ} {tags : TagContext} {input : List Token}
    {front rest : List ParseError} {tag : String} {span : Span}
    (hSplit : (run setup builder tags input).errors =
      front ++ ⟨.unbalancedPoptag tag, span⟩ :: rest) :
    ∃ t, Reaches setup (.begin builder tags input) t ∧
      ∃ others, t.errors = front ++ ⟨.unbalancedPoptag tag, span⟩ :: others := by
  by_cases hRoom : 0 < setup.options.maxDepth
  · have hBegin : Reaches setup (.begin builder tags input) _ := .refl
    obtain ⟨t, final, hReaches, hFinal, hErrors⟩ := exists_final hRoom hBegin
    have hNone := hFinal.not_unbalanced tag span
    rcases split_of_append (hErrors.symm.trans hSplit) fun hMem => hNone (List.mem_of_mem_tail hMem)
      with ⟨others, hOld, -⟩ | ⟨-, hNew⟩
    · exact ⟨t, hReaches, others, hOld⟩
    · rw [hNew] at hNone
      exact absurd List.mem_cons_self hNone
  · rw [run_of_no_room hRoom] at hSplit
    rcases List.singleton_eq_append_iff.1 hSplit with ⟨-, hNew⟩ | ⟨-, hNew⟩
    · cases hNew
    · cases hNew

end

/-! ## The whole parse -/

section Standard

variable {options : Options} {tags : TagContext} {input : List Token} {s t : State Unit}
  {x : Spanned Directive} {read : Transaction}

/-- A transaction that a statement adds has the tags of its header, in their order, and behind them
those of the active tags that are not among them. -/
theorem Advances.exists_header (h : Advances (.standard options) s t)
    (hAdded : t.directives = s.directives ++ [x]) (hContent : x.value.content = .transaction read) :
    ∃ w, s.input = w ++ t.input ∧ read.tags = w.filterMap Token.tag? ++
      s.tags.active.filter fun tag => !(w.filterMap Token.tag?).contains tag := by
  rcases statement_eq_ok.1 h.2 with hStep | ⟨error, u, hStep, -, rfl⟩
  · obtain ⟨n, u, hReads, -, hState⟩ := exists_node hStep
    have hSame : u.directives = s.directives := by rw [hReads.state_eq]
    rcases directives_of_applyTo? hState with hNone | ⟨m, y, rfl, hValue, hNew⟩
    · rw [hNone, hSame] at hAdded
      exact absurd hAdded.symm (by simp)
    · have hInput : s.input = m.tokens ++ t.input := by
        rw [hReads.input_eq]
        obtain ⟨z, -, rfl⟩ := Option.map_eq_some_iff.1 hState
        rfl
      rw [hNew, hSame] at hAdded
      cases List.append_cancel_left hAdded
      refine ⟨m.tokens, hInput, ?_⟩
      rw [← hReads.tags_eq]
      exact tags_of_directive hValue hContent
  · have hSame : u.directives = s.directives := (unmoved_of_error hStep).1.directives_eq
    have hNone : u.directives = s.directives ++ [x] := hAdded
    rw [hSame] at hNone
    exact absurd hNone.symm (by simp)

/-- The context in the end is that of the last statement that the parse reaches. -/
theorem exists_last_tags (options : Options) (tags : TagContext) (input : List Token) :
    ∃ s, Reaches (.standard options) (.begin () tags input) s ∧
      (run (.standard options) () tags input).tags = s.tags ∧
        (0 < options.maxDepth → ∀ t, ¬ Advances (.standard options) s t) := by
  rcases run_cases (.standard options) () tags input with ⟨hNone, hRun⟩ |
    ⟨s, hReaches, hStop, hRun⟩ | ⟨s, halt, u, hReaches, -, hStep, hRun⟩
  · refine ⟨_, .refl, by rw [hRun]; rfl, fun hRoom => ?_⟩
    have hZero : options.maxDepth = 0 := hNone
    omega
  · refine ⟨s, hReaches, by rw [hRun], fun _ t hNext => ?_⟩
    rw [hNext.1] at hStop
    cases hStop
  · refine ⟨s, hReaches, ?_, fun _ t hNext => ?_⟩
    · rw [hRun]
      rcases statement_eq_error.1 hStep with ⟨error, hError, -⟩ | ⟨error, v, hError, -, -, rfl⟩
      · exact (unmoved_of_error hError).1.tags_eq
      · exact (unmoved_of_error hError).1.tags_eq
    · have hOk := hNext.2
      rw [hStep] at hOk
      cases hOk

/-- How the tags of a parse depend on its statements. -/
structure Scoped (options : Options) (tags : TagContext) (input : List Token)
    (final : State Unit) : Prop where
  /-- At every point, the context is the one at the beginning with those of the pushes and pops
  applied to it that have been executed and succeeded. -/
  context : ∀ s, Reaches (.standard options) (.begin () tags input) s → ∃ ops,
    Executes (.standard options) (.begin () tags input) ops s ∧
      s.tags = tags.after (tags.successful ops)
  /-- A statement that fails changes nothing, nor do the tokens that are passed over behind it. -/
  failed : ∀ s t u error, Reaches (.standard options) (.begin () tags input) s →
    Advances (.standard options) s t →
      declaration (.standard options) s = (.error (.statement error), u) →
        TagOp.ahead? s.input = none ∧ t.tags = s.tags
  /-- The context in the end is that of the last statement that was reached. -/
  last : ∃ s, Reaches (.standard options) (.begin () tags input) s ∧ final.tags = s.tags ∧
    (0 < options.maxDepth → ∀ t, ¬ Advances (.standard options) s t)
  /-- A transaction has the tags of its header, and behind them the active tags that these do not
  include. -/
  transaction : ∀ before x after read, final.directives = before ++ x :: after →
    x.value.content = .transaction read → ∃ s t ops w inherited,
      Executes (.standard options) (.begin () tags input) ops s ∧
        Advances (.standard options) s t ∧ s.directives = before ∧
          t.directives = before ++ [x] ∧ s.input = w ++ t.input ∧
            read.tags = w.filterMap Token.tag? ++ inherited ∧
              TagContext.Inherits (tags.history ++ ops) (w.filterMap Token.tag?) inherited
  /-- A pop reports that its tag is not active exactly if there is no push for it, and then changes
  nothing. -/
  unbalanced : ∀ s ops tag, Executes (.standard options) (.begin () tags input) ops s →
    TagOp.ahead? s.input = some (.pop tag) → ∃ t, Advances (.standard options) s t ∧
      (tag ∈ TagOp.unmatched (tags.history ++ ops) →
        t.tags = s.tags.pop tag ∧ t.errors = s.errors) ∧
      (tag ∉ TagOp.unmatched (tags.history ++ ops) →
        t.tags = s.tags ∧ t.errors = s.errors ++
          [⟨.unbalancedPoptag tag, s.lookahead.span.upTo s.next.lookahead.span⟩])
  /-- Nothing else reports that a tag is not active. -/
  reported : ∀ front tag span rest,
    final.errors = front ++ ⟨.unbalancedPoptag tag, span⟩ :: rest → ∃ s ops,
      Executes (.standard options) (.begin () tags input) ops s ∧ s.errors = front ∧
        TagOp.ahead? s.input = some (.pop tag) ∧
          tag ∉ TagOp.unmatched (tags.history ++ ops) ∧
            span = s.lookahead.span.upTo s.next.lookahead.span

/-- Tags are scoped in every parse with the standard builder, whatever is active where it begins. -/
theorem run_scoped (options : Options) (tags : TagContext) (input : List Token) :
    Scoped options tags input (run (.standard options) () tags input) where
  context := by
    intro s h
    obtain ⟨ops, hOps⟩ := exists_executes h
    refine ⟨ops, hOps, ?_⟩
    rw [TagContext.after_successful]
    exact hOps.tags_eq
  failed := by
    intro s t u error _ hStep hError
    have hNone := ahead?_of_error hError
    refine ⟨hNone, ?_⟩
    rw [hStep.tags_eq, hNone]
    rfl
  last := exists_last_tags options tags input
  transaction := by
    intro before x after read hSplit hContent
    obtain ⟨u, hReaches, hLast⟩ := exists_last options tags input
    obtain ⟨s, t, hFront, hStep, hBefore, hAdded, -⟩ :=
      exists_added hReaches rfl (hLast.symm.trans hSplit)
    obtain ⟨ops, hOps⟩ := exists_executes hFront
    obtain ⟨w, hInput, hTags⟩ := hStep.exists_header (hBefore.symm ▸ hAdded) hContent
    refine ⟨s, t, ops, w, _, hOps, hStep, hBefore, hAdded, hInput, hTags, ?_⟩
    rw [hOps.tags_eq]
    exact TagContext.inherits_active tags ops _
  unbalanced := by
    intro s ops tag hOps hAhead
    obtain ⟨t, hStep, hActive, hAbsent⟩ := exists_popped (.standard options) hAhead
    have hIff : s.tags.contains tag = true ↔ tag ∈ TagOp.unmatched (tags.history ++ ops) := by
      rw [hOps.tags_eq]
      exact TagContext.contains_after tags ops tag
    refine ⟨t, hStep, fun hMem => hActive (hIff.2 hMem), fun hNone => hAbsent ?_⟩
    rw [← Bool.not_eq_true, hIff]
    exact hNone
  reported := by
    intro front tag span rest hSplit
    obtain ⟨u, hReaches, others, hOthers⟩ := exists_unbalanced hSplit
    obtain ⟨s, ops, hOps, hFront, hAhead, hAbsent, hSpan⟩ := hReaches.exists_popped rfl hOthers
    refine ⟨s, ops, hOps, hFront, hAhead, ?_, hSpan⟩
    have hTags : s.tags = tags.after ops := hOps.tags_eq
    rw [← TagContext.contains_after, ← hTags]
    exact Bool.eq_false_iff.1 hAbsent

end Standard

end Parse

end LedgerText
