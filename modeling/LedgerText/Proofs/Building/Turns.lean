import LedgerText.Proofs.Building.Productions
import LedgerText.Proofs.Grammar.Declarations
import LedgerText.Proofs.Parse.Effects
import LedgerText.Proofs.Recovery.Splitting

/-!
# Turns

Every declaration visits one of its trees (`visits_declaration`). Together with
the tokens that are passed over behind an error, and with what is reported, such
a visit is the `Turn` of one statement.

A `Passage` is a sequence of turns that accounts for all that a parse changes:
what it reads, what it asks the builder, what it adds and what it reports. A
single statement is a passage, and so is what is parsed up to any state that a
parse reaches, by induction on its statements. A whole parse is a passage
(`exists_turns`) unless there is no room even for the ledger.
-/

namespace LedgerText.Parse

open Grammar Step Visit

variable {σ α : Type} {setup : Setup σ} {builder : Builder σ} {s t u : State σ}

/-! ## Declarations -/

/-- What a visited declaration does, beginning in a state. One that succeeds adds the statement that
the visit comes to, if it comes to one, and leaves the tags active that its tree leaves active. One
that fails does so for the reason that broke off the visit. -/
def Completes (s : State σ) (n : DeclarationNode) (upshot : Upshot (Option Directive)) :
    Except Halt Unit × State σ → Prop
  | (.ok _, t) => ∃ d : Option Directive, upshot = .value d ∧ t.tags = n.retag s.tags ∧
      t.directives.map Spanned.value = s.directives.map Spanned.value ++ d.toList
  | (.error halt, _) => upshot = Parse.upshot (.error halt)

/-- A declaration has visited one of its trees. -/
def Visits (setup : Setup σ) (s : State σ) (done : Except Halt Unit × State σ) : Prop :=
  ∃ (n : DeclarationNode) (tokens : List Token) (calls : List Call)
    (upshot : Upshot (Option Directive)), s.input = tokens ++ done.2.input ∧
      (n.visit setup.options.filename s.tags).Runs setup.builder s.builder tokens calls upshot
        done.2.builder ∧ Completes s n upshot done

/-- Where the first part of a declaration halts, the declaration has visited as much of a tree. -/
theorem visits_of_error {halt : Halt} {v : Visit α} {f : α → Visit (Option Directive)}
    {n : DeclarationNode} {tokens : List Token} {calls : List Call} (hPass : s.Passes tokens t)
    (hRuns : v.Runs setup.builder s.builder tokens calls (upshot (.error halt)) t.builder)
    (hVisit : n.visit setup.options.filename s.tags = v >>= f) :
    Visits setup s (.error halt, t) :=
  ⟨n, tokens, calls, _, hPass.input_eq, hVisit ▸ runs_of_error hRuns, rfl⟩

/-- A statement that has been read is added. -/
theorem visits_accept {m : Step σ (Spanned Directive)}
    (hm : Follows setup.builder (visitSpanned setup.options.filename s.tags) s (m s)) :
    Visits setup s ((m >>= fun x => accept x) s) := by
  obtain ⟨⟨n, span⟩, tokens, calls, hPass, hRuns⟩ := hm
  have hVisit : (DeclarationNode.statement n).visit setup.options.filename s.tags =
      visitSpanned setup.options.filename s.tags (n, span) >>= fun x => pure (some x.value) := by
    simp only [DeclarationNode.visit, visitSpanned, bind_assoc, pure_bind]
  rcases hStep : m s with ⟨result, t⟩
  rw [hStep] at hPass hRuns
  cases result with
  | ok x =>
      rw [bind_of_ok hStep]
      refine ⟨.statement n, tokens, calls, _, hPass.input_eq, hVisit ▸ hRuns.bind_pure,
        some x.value, rfl, hPass.unmoved.tags_eq, ?_⟩
      show List.map Spanned.value (t.directives ++ [x]) = _
      rw [List.map_append, hPass.unmoved.directives_eq]
      rfl
  | error halt =>
      rw [bind_of_error hStep]
      exact visits_of_error hPass hRuns hVisit

theorem text?_of_runs {kind : TokenKind} {word : Leaf kind} {tag : Leaf .tag} {state after : σ}
    {tokens : List Token} {calls : List Call} {text : String}
    (h : (visitTag word tag).Runs builder state tokens calls (.value text) after) :
    tag.text? = some text := by
  cases h with
  | read hTag =>
      cases hTag with
      | read hLeaf =>
          cases hText : tag.text? with
          | none =>
              rw [hText] at hLeaf
              cases hLeaf
          | some found =>
              rw [hText] at hLeaf
              cases hLeaf
              rfl

/-- What is done with a tag in the end shows in the active tags and in what is reported. -/
theorem visits_tag {kind : TokenKind} {final : String → Step σ Unit}
    (node : Leaf kind → Leaf .tag → DeclarationNode) (hKind : kind ≠ .endOfInput)
    (hNext : s.lookahead.kind = kind)
    (hNode : ∀ word tag, (node word tag).visit setup.options.filename s.tags =
      visitTag word tag >>= fun _ => pure none)
    (hFinal : ∀ word tag text u, tag.text? = some text → s.Unmoved u → ∃ t,
      final text u = (.ok (), t) ∧ t.input = u.input ∧ t.builder = u.builder ∧
        t.directives = u.directives ∧ t.tags = (node word tag).retag s.tags) :
    Visits setup s ((skip >>= fun _ => takeText .tag [.tag] >>= final) s) := by
  have hFollows : Follows setup.builder (fun n : Leaf kind × Leaf .tag => visitTag n.1 n.2) s
      ((skip >>= fun _ => takeText .tag [.tag]) s) :=
    follows_bind (follows_skip hKind hNext) fun _ _ _ _ => follows_takeText (by decide) _
  obtain ⟨⟨word, tag⟩, tokens, calls, hPass, hRuns⟩ := hFollows
  rw [← bind_bind]
  rcases hStep : (skip >>= fun _ => takeText .tag [.tag]) s with ⟨result, u⟩
  rw [hStep] at hPass hRuns
  cases result with
  | ok text =>
      obtain ⟨t, hEnd, hInput, hBuilder, hDirectives, hTags⟩ :=
        hFinal word tag text u (text?_of_runs hRuns) hPass.unmoved
      rw [bind_of_ok hStep, hEnd]
      refine ⟨node word tag, tokens, calls, _, hInput ▸ hPass.input_eq, ?_, none, rfl, hTags, ?_⟩
      · rw [hNode, hBuilder]
        exact hRuns.bind_pure
      · rw [hDirectives, hPass.unmoved.directives_eq]
        exact (List.append_nil _).symm
  | error halt =>
      rw [bind_of_error hStep]
      exact visits_of_error hPass hRuns (hNode word tag)

/-- A declaration that leaves everything alone. -/
theorem visits_silent {m : Step σ Unit} {ι : Type} {visit : ι → Visit Unit}
    (node : ι → DeclarationNode) (hm : Follows setup.builder visit s (m s))
    (hNode : ∀ n, (node n).visit setup.options.filename s.tags = visit n >>= fun _ => pure none)
    (hTags : ∀ n, (node n).retag s.tags = s.tags) : Visits setup s (m s) := by
  obtain ⟨n, tokens, calls, hPass, hRuns⟩ := hm
  rcases hStep : m s with ⟨result, t⟩
  rw [hStep] at hPass hRuns
  cases result with
  | ok v =>
      refine ⟨node n, tokens, calls, _, hPass.input_eq, hNode n ▸ hRuns.bind_pure, none, rfl, ?_,
        ?_⟩
      · rw [hPass.unmoved.tags_eq, hTags]
      · rw [hPass.unmoved.directives_eq]
        exact (List.append_nil _).symm
  | error halt => exact visits_of_error hPass hRuns (hNode n)

/-- Every declaration visits one of its trees. -/
theorem visits_declaration (setup : Setup σ) (s : State σ) :
    Visits setup s (declaration setup s) := by
  have hLineEnd : Visits setup s (lineEnd [] s) :=
    visits_silent .lineEnd (follows_lineEnd [] s) (fun _ => rfl) fun _ => rfl
  rw [declaration, peek_bind]
  generalize hNext : s.lookahead.kind = kind
  split
  · exact visits_accept (follows_entry hNext)
  · exact visits_accept (follows_option hNext)
  · refine visits_tag .pushtag (by decide) hNext (fun _ _ => rfl)
      fun word tag text u hText hState => ⟨_, rfl, rfl, rfl, rfl, ?_⟩
    show u.tags.push text = tag.text?.elim s.tags s.tags.push
    rw [hText, hState.tags_eq]
    rfl
  · refine visits_tag .poptag (by decide) hNext (fun _ _ => rfl)
      fun word tag text u hText hState => ?_
    have hRetag : (DeclarationNode.poptag word tag).retag s.tags = u.tags.pop text := by
      rw [hState.tags_eq]
      show tag.text?.elim s.tags s.tags.pop = _
      rw [hText]
      rfl
    rw [hRetag]
    by_cases hActive : u.tags.contains text = true
    · exact ⟨_, if_pos hActive, rfl, rfl, rfl, rfl⟩
    · exact ⟨_, if_neg hActive, rfl, rfl, rfl,
        (TagContext.pop_of_not_contains (Bool.eq_false_iff.2 hActive)).symm⟩
  · exact hLineEnd
  · exact hLineEnd
  · exact hLineEnd
  · exact visits_silent .skipped (follows_skip (by decide) hNext) (fun _ => rfl) fun _ => rfl
  · exact ⟨.skipped default, [], [], .cut, rfl, .cut _ _ _, rfl⟩

/-! ## Turns -/

/-- What may be reported behind an error in a statement: notes on the tokens that are passed over,
and that the parse does not go on. -/
def IsAftermath (error : ParseError) : Prop :=
  (∃ kind, error.problem = .discardedToken kind) ∨ error.problem = .recoveryExhausted

/-- What becomes of one statement of a ledger. -/
structure Turn where
  /-- A parse tree of the statement; if the statement is broken off, one that begins like it. -/
  tree : DeclarationNode
  /-- The tokens of the tree that were read. -/
  read : List Token
  /-- The tokens behind an error that were passed over. -/
  passed : List Token
  calls : List Call
  upshot : Upshot (Option Directive)
  reports : List ParseError

namespace Turn

/-- The tokens of the ledger that the statement takes up. -/
def tokens (turn : Turn) : List Token := turn.read ++ turn.passed

/-- The directive that the statement adds, if it adds one. -/
def directive? (turn : Turn) : Option Directive := turn.upshot.value?.join

/-- The tags that are active behind a statement. One that fails changes nothing. -/
def retag (active : TagContext) (turn : Turn) : TagContext :=
  if turn.upshot.value?.isSome then turn.tree.retag active else active

/-- What is reported of a statement: if a value was refused, exactly that, unchanged; if the
statement was broken off, another error; and else at most that a tag was not active. -/
def Reported (turn : Turn) : Prop :=
  match turn.upshot with
  | .value _ => turn.passed = [] ∧
      ∀ error ∈ turn.reports, ∃ tag, error.problem = .unbalancedPoptag tag
  | .refused refusal => ∃ span others, turn.reports = ⟨.invalidValue refusal, span⟩ :: others ∧
      ∀ other ∈ others, IsAftermath other
  | .cut => ∃ error others, turn.reports = error :: others ∧ error.problem.refusal? = none ∧
      ∀ other ∈ others, IsAftermath other

end Turn

/-- Statements take turns with a builder. Each visits a tree, with the tags that the statements
before it have left active, and in the state that their calls have left the builder in. -/
inductive Turns (builder : Builder σ) (filename : String) :
    TagContext → σ → List Turn → TagContext → σ → Prop where
  | nil (active : TagContext) (state : σ) : Turns builder filename active state [] active state
  | cons {active last : TagContext} {state between after : σ} {turn : Turn} {turns : List Turn}
      (visit : (turn.tree.visit filename active).Runs builder state turn.read turn.calls
        turn.upshot between)
      (reported : turn.Reported)
      (rest : Turns builder filename (turn.retag active) between turns last after) :
      Turns builder filename active state (turn :: turns) last after

theorem Turns.append {filename : String} {first second third : TagContext} {x y z : σ}
    {turns others : List Turn} (h : Turns builder filename first x turns second y)
    (k : Turns builder filename second y others third z) :
    Turns builder filename first x (turns ++ others) third z := by
  induction h with
  | nil active state => exact k
  | cons visit reported rest ih => exact .cons visit reported (ih k)

/-- Turns lead from one state of a parse to another, and account for all that has changed. -/
structure Passage (setup : Setup σ) (s : State σ) (turns : List Turn) (t : State σ) : Prop where
  taken : Turns setup.builder setup.options.filename s.tags s.builder turns t.tags t.builder
  input_eq : s.input = turns.flatMap Turn.tokens ++ t.input
  errors_eq : t.errors = s.errors ++ turns.flatMap Turn.reports
  directives_eq : t.directives.map Spanned.value =
    s.directives.map Spanned.value ++ turns.filterMap Turn.directive?

namespace Passage

theorem refl (s : State σ) : Passage setup s [] s :=
  ⟨.nil _ _, rfl, (List.append_nil _).symm, (List.append_nil _).symm⟩

theorem trans {turns others : List Turn} (h : Passage setup s turns t)
    (k : Passage setup t others u) : Passage setup s (turns ++ others) u where
  taken := h.taken.append k.taken
  input_eq := by rw [h.input_eq, k.input_eq, List.flatMap_append, List.append_assoc]
  errors_eq := by rw [k.errors_eq, h.errors_eq, List.flatMap_append, List.append_assoc]
  directives_eq := by
    rw [k.directives_eq, h.directives_eq, List.filterMap_append, List.append_assoc]

/-- One statement. -/
theorem single {turn : Turn}
    (hVisit : (turn.tree.visit setup.options.filename s.tags).Runs setup.builder s.builder turn.read
      turn.calls turn.upshot t.builder)
    (hReported : turn.Reported) (hTags : t.tags = turn.retag s.tags)
    (hInput : s.input = turn.tokens ++ t.input) (hErrors : t.errors = s.errors ++ turn.reports)
    (hDirectives : t.directives.map Spanned.value =
      s.directives.map Spanned.value ++ turn.directive?.toList) : Passage setup s [turn] t where
  taken := .cons hVisit hReported (hTags ▸ .nil _ _)
  input_eq := by rw [hInput, List.flatMap_singleton]
  errors_eq := by rw [hErrors, List.flatMap_singleton]
  directives_eq := by
    rw [hDirectives]
    cases hNone : turn.directive? <;> simp [hNone]

end Passage

/-- A statement that succeeds. -/
theorem exists_turn_of_ok {v : Unit} (h : declaration setup s = (.ok v, t)) :
    ∃ turn, Passage setup s [turn] t := by
  have hVisits := visits_declaration setup s
  rw [h] at hVisits
  obtain ⟨n, tokens, calls, upshot, hInput, hRuns, d, rfl, hTags, hDirectives⟩ := hVisits
  obtain ⟨e, u, hState, -, rfl⟩ := exists_effect h
  have hReports : ∃ reports, (e.applyTo u).errors = s.errors ++ reports ∧
      ∀ error ∈ reports, ∃ tag, error.problem = .unbalancedPoptag tag := by
    rw [← hState.errors_eq]
    rcases e.errors_applyTo u with hSame | ⟨tag, span, hMore⟩
    · exact ⟨[], hSame.trans (List.append_nil _).symm, List.forall_mem_nil _⟩
    · exact ⟨_, hMore, (List.forall_mem_singleton).2 ⟨tag, rfl⟩⟩
  obtain ⟨reports, hErrors, hTag⟩ := hReports
  refine ⟨⟨n, tokens, [], calls, .value d, reports⟩, .single hRuns ⟨rfl, hTag⟩ hTags ?_ hErrors
    hDirectives⟩
  rw [Turn.tokens, List.append_nil]
  exact hInput

/-- A statement that fails, with what is passed over and reported behind it. -/
theorem exists_turn_of_error {halt : Halt} {failed : State σ} {passed : List Token}
    {others : List ParseError} (h : declaration setup s = (.error halt, failed))
    (hInput : failed.input = passed ++ t.input) (hBuilder : t.builder = failed.builder)
    (hTags : t.tags = failed.tags) (hDirectives : t.directives = failed.directives)
    (hErrors : t.errors = failed.errors ++ halt.error :: others)
    (hOthers : ∀ other ∈ others, IsAftermath other) : ∃ turn, Passage setup s [turn] t := by
  have hVisits := visits_declaration setup s
  rw [h] at hVisits
  obtain ⟨n, tokens, calls, upshot, hRead, hRuns, rfl⟩ := hVisits
  obtain ⟨hState, hLocated, -⟩ := unmoved_of_error h
  have hReported : (Turn.mk n tokens passed calls (upshot (.error halt))
      (halt.error :: others)).Reported := by
    unfold Turn.Reported upshot
    cases halt with
    | fatal error =>
        obtain ⟨limit, hLimit⟩ := hLocated
        exact ⟨error, others, rfl, by rw [hLimit]; rfl, hOthers⟩
    | statement error =>
        obtain ⟨problem, span⟩ := error
        cases problem with
        | invalidValue refusal => exact ⟨span, others, rfl, hOthers⟩
        | _ => exact ⟨_, others, rfl, rfl, hOthers⟩
  refine ⟨_, .single (hBuilder ▸ hRuns) hReported ?_ ?_ ?_ ?_⟩
  · rw [hTags, hState.tags_eq, Turn.retag, value?_upshot_error]
    rfl
  · rw [Turn.tokens, List.append_assoc, ← hInput]
    exact hRead
  · rw [hErrors, hState.errors_eq]
  · rw [hDirectives, hState.directives_eq, Turn.directive?, value?_upshot_error]
    exact (List.append_nil _).symm

/-! ## Statements and whole parses -/

theorem isAftermath_of_mem_notes {note : ParseError} (h : note ∈ notes setup s) :
    IsAftermath note := by
  obtain ⟨token, rfl⟩ := exists_of_mem_notes h
  exact .inl ⟨token.kind, rfl⟩

/-- A statement that lets the parse go on is a turn. -/
theorem Advances.exists_turn (h : Advances setup s t) : ∃ turn, Passage setup s [turn] t := by
  rcases statement_eq_ok.1 h.2 with hOk | ⟨error, failed, hError, -, rfl⟩
  · exact exists_turn_of_ok hOk
  · exact exists_turn_of_error hError (discarded_append_drop failed.atLineStart failed.input).symm
      rfl rfl rfl (errors_of_resume (.refl failed)) fun other => isAftermath_of_mem_notes

/-- A statement that ends the parse is a turn. -/
theorem exists_turn_of_stop {halt : Halt} (h : statement setup s = (.error halt, t)) :
    ∃ turn, Passage setup s [turn] (t.abort halt.error) := by
  rcases statement_eq_error.1 h with ⟨error, hError, rfl⟩ | ⟨error, failed, hError, -, rfl, rfl⟩
  · exact exists_turn_of_error hError (List.nil_append _).symm rfl rfl rfl rfl
      (List.forall_mem_nil _)
  · exact exists_turn_of_error hError (List.nil_append _).symm rfl rfl rfl (List.append_assoc _ _ _)
      (List.forall_mem_singleton.2 (.inr rfl))

theorem Reaches.exists_turns (h : Reaches setup s t) : ∃ turns, Passage setup s turns t := by
  induction h with
  | refl => exact ⟨[], .refl s⟩
  | tail _ hStep ih =>
      obtain ⟨turns, hTurns⟩ := ih
      obtain ⟨turn, hTurn⟩ := hStep.exists_turn
      exact ⟨turns ++ [turn], hTurns.trans hTurn⟩

/-- Whatever a whole parse does, it does in the turns of its statements, except that without room
for any of them it reports just that. -/
theorem exists_turns (setup : Setup σ) (builder : σ) (tags : TagContext) (input : List Token) :
    ∃ turns, Passage setup (.begin builder tags input) turns (run setup builder tags input) ∨
      turns = [] ∧ run setup builder tags input =
        (State.start builder tags input).abort ⟨.stackExhausted setup.options.maxDepth,
          (State.start builder tags input).lookahead.span⟩ := by
  rcases run_cases setup builder tags input with ⟨-, hRun⟩ | ⟨t, hReaches, -, hRun⟩ |
    ⟨t, halt, u, hReaches, -, hStep, hRun⟩
  · exact ⟨[], .inr ⟨rfl, hRun⟩⟩
  · obtain ⟨turns, hTurns⟩ := hReaches.exists_turns
    rw [hRun]
    exact ⟨turns, .inl ⟨hTurns.taken, hTurns.input_eq, hTurns.errors_eq, hTurns.directives_eq⟩⟩
  · obtain ⟨turns, hTurns⟩ := hReaches.exists_turns
    obtain ⟨turn, hTurn⟩ := exists_turn_of_stop hStep
    rw [hRun]
    exact ⟨turns ++ [turn], .inl (hTurns.trans hTurn)⟩

end LedgerText.Parse
