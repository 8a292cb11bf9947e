import LedgerText.Proofs.Grammar.Declarations
import LedgerText.Proofs.Parse.Course

/-!
# A failed statement contributes nothing

Take out of a text every statement that fails, with all that is discarded after
it, and parse what survives. The statements that succeeded before succeed again
with the same directives, and nothing else happens: cutting out a failed
statement neither lets the one above it grow nor changes the one below.

Two facts carry this. A failing declaration leaves directives, tags and errors
alone (`declaration_eq_error`), and a declaration that succeeds is a parse tree,
which cares about nothing but the kind of the token behind it
(`declaration_eq_ok`). Where something was cut out, that token begins a
statement, or there is none; neither can be part of the tree.
-/

namespace LedgerText

namespace Grammar

/-! ## What may follow a tree -/

/-- The tokens `after` may take the place of `rest` behind a statement: they begin alike, or with
another statement. -/
def MayReplace (after rest : List Token) : Prop :=
  nextKind after = nextKind rest ∨ (nextKind after).startsStatement = true

/-- Behind a statement, tokens that begin no statement are there only if they were before. -/
theorem MayReplace.ne {after rest : List Token} (h : MayReplace after rest) {kind : TokenKind}
    (hKind : kind.startsStatement = false) (hRest : nextKind rest ≠ kind) :
    nextKind after ≠ kind := by
  intro hAfter
  rcases h with hSame | hStart
  · exact hRest (hSame ▸ hAfter)
  · rw [hAfter, hKind] at hStart
    exact absurd hStart (by decide)

theorem MayReplace.append {after rest : List Token} (h : MayReplace after rest)
    (w : List Token) : MayReplace (w ++ after) (w ++ rest) := by
  cases w with
  | nil => exact h
  | cons token w => exact .inl rfl

variable {after rest : List Token}

theorem LineEndNode.greedy_of_mayReplace {e : LineEndNode} (h : MayReplace after rest)
    (hGreedy : e.Greedy rest) : e.Greedy after :=
  fun hOpen => h.ne (by rfl) (hGreedy hOpen)

theorem PostingLineNode.allGreedy_of_mayReplace {lines : List PostingLineNode}
    (h : MayReplace after rest) {fresh : Bool}
    (hGreedy : PostingLineNode.AllGreedy fresh lines rest) :
    PostingLineNode.AllGreedy fresh lines after := by
  induction lines generalizing fresh with
  | nil =>
      obtain ⟨hIndent, hComment⟩ := hGreedy
      exact ⟨h.ne (by rfl) hIndent, fun hFresh => h.ne (by rfl) (hComment hFresh)⟩
  | cons line lines ih =>
      obtain ⟨hComment, hLine, hMore⟩ := hGreedy
      exact ⟨hComment, LineEndNode.greedy_of_mayReplace (h.append _) hLine, ih hMore⟩

theorem StatementNode.greedy_of_mayReplace {n : StatementNode} (h : MayReplace after rest)
    (hGreedy : n.Greedy rest) : n.Greedy after := by
  cases n with
  | entry date dated =>
      cases dated with
      | transaction n =>
          exact ⟨LineEndNode.greedy_of_mayReplace (h.append _) hGreedy.1,
            PostingLineNode.allGreedy_of_mayReplace h hGreedy.2⟩
      | line l e => exact LineEndNode.greedy_of_mayReplace h hGreedy
  | option word key value e => exact LineEndNode.greedy_of_mayReplace h hGreedy

theorem DeclarationNode.greedy_of_mayReplace {n : DeclarationNode} (h : MayReplace after rest)
    (hGreedy : n.Greedy rest) : n.Greedy after := by
  cases n with
  | statement n => exact StatementNode.greedy_of_mayReplace h hGreedy
  | lineEnd e => exact LineEndNode.greedy_of_mayReplace h hGreedy
  | pushtag word tag => trivial
  | poptag word tag => trivial
  | skipped line => trivial

end Grammar

namespace Parse

open Grammar Step

variable {σ : Type} {setup : Setup σ} {options : Options}

/-! ## What survives -/

/-- The tokens of the next statement, or none if the statement fails. -/
def kept (setup : Setup σ) (s : State σ) : List Token :=
  match declaration setup s with
  | (.ok _, t) => s.input.take (s.input.length - t.input.length)
  | (.error _, _) => []

/-- What is left of the tokens ahead when those that a failed statement has read are taken out,
and those that are discarded behind them. -/
def surviving (setup : Setup σ) (s : State σ) : List Token :=
  if hs : moreAhead s then
    match hEq : statement setup s with
    | (.ok a, t) =>
        have := consumes_statement setup s a t (moreAhead_ne s hs) hEq
        kept setup s ++ surviving setup t
    | (.error _, _) => s.input
  else
    s.input
termination_by s.input.length

/-- What is left of a whole text. -/
def survivors (setup : Setup σ) (builder : σ) (tags : TagContext) (input : List Token) :
    List Token :=
  surviving setup (.begin builder tags input)

theorem surviving_of_not {s : State σ} (hs : moreAhead s = false) :
    surviving setup s = s.input := by
  rw [surviving, dif_neg (by simp [hs])]

theorem surviving_of_statement {s t : State σ} {v : Unit} (hs : moreAhead s = true)
    (h : statement setup s = (.ok v, t)) :
    surviving setup s = kept setup s ++ surviving setup t := by
  rw [surviving, dif_pos hs]
  split
  · rename_i a u hEq
    cases h.symm.trans hEq
    rfl
  · rename_i halt u hEq
    cases h.symm.trans hEq

/-- A statement that succeeds keeps what it has read. -/
theorem surviving_of_ok {s t : State σ} {v : Unit} {w : List Token} (hs : moreAhead s = true)
    (h : declaration setup s = (.ok v, t)) (hInput : s.input = w ++ t.input) :
    surviving setup s = w ++ surviving setup t := by
  have hKept : kept setup s = w := by
    rw [kept, h]
    show s.input.take (s.input.length - t.input.length) = w
    rw [hInput, List.length_append, Nat.add_sub_cancel, List.take_left]
  rw [surviving_of_statement hs (statement_of_ok h), hKept]

/-- A statement that fails keeps nothing. -/
theorem surviving_of_error {s t : State σ} {error : ParseError} (hs : moreAhead s = true)
    (hMode : setup.options.recovery = .resynchronize)
    (h : declaration setup s = (.error (.statement error), t)) :
    surviving setup s = surviving setup ((t.report error).resume setup.options.traceRecovery) := by
  have hKept : kept setup s = [] := by
    rw [kept, h]
  rw [surviving_of_statement hs (statement_of_error hMode h), hKept, List.nil_append]

/-! ## Where a parse goes on -/

/-- Behind what is discarded, another statement begins or the text ends. -/
theorem startsStatement_behind_discarded (lineStart : Bool) (input : List Token) :
    (nextKind (input.drop (discarded lineStart input).length)).startsStatement = true := by
  induction input generalizing lineStart with
  | nil => rfl
  | cons token rest ih =>
      unfold discarded
      by_cases hStop : token.kind = .endOfInput ∨ lineStart ∧ token.kind.startsStatement
      · rw [if_pos hStop]
        show token.kind.startsStatement = true
        rcases hStop with hEnd | ⟨-, hStart⟩
        · rw [hEnd]
          rfl
        · exact hStart
      · rw [if_neg hStop]
        exact ih _

theorem startsStatement_behind_resume (trace : Bool) (s : State σ) :
    (nextKind (s.resume trace).input).startsStatement = true :=
  startsStatement_behind_discarded s.atLineStart s.input

/-- What a declaration does with its state shows in neither the text ahead nor the depth. -/
theorem applyTo?_unmoved {n : DeclarationNode} {filename : String} {s t : State σ}
    (h : n.applyTo? filename s = some t) : t.input = s.input ∧ t.depth = s.depth := by
  cases n with
  | statement n =>
      obtain ⟨x, -, rfl⟩ := Option.map_eq_some_iff.1 h
      exact ⟨rfl, rfl⟩
  | pushtag word tag =>
      obtain ⟨x, -, rfl⟩ := Option.map_eq_some_iff.1 h
      exact ⟨rfl, rfl⟩
  | poptag word tag =>
      obtain ⟨x, -, rfl⟩ := Option.map_eq_some_iff.1 h
      by_cases hActive : s.tags.contains x = true
      · rw [if_pos hActive]
        exact ⟨rfl, rfl⟩
      · rw [if_neg hActive]
        exact ⟨rfl, rfl⟩
  | lineEnd e =>
      cases h
      exact ⟨rfl, rfl⟩
  | skipped line =>
      cases h
      exact ⟨rfl, rfl⟩

/-- A declaration that succeeds has read the tokens of a tree, and is still at its depth. -/
theorem exists_node_of_ok {s t : State Unit} {v : Unit} (hRoom : s.depth + 6 ≤ options.maxDepth)
    (h : declaration (.standard options) s = (.ok v, t)) :
    ∃ (n : DeclarationNode) (u : State Unit), s.Reads n.tokens u ∧ n.Greedy t.input ∧
      n.applyTo? options.filename u = some t ∧ s.input = n.tokens ++ t.input ∧
      t.depth = s.depth := by
  have hDepth : s.depth + 5 < options.maxDepth := by omega
  obtain ⟨n, u, hReads, hGreedy, hState⟩ := (declaration_eq_ok hDepth).1 h
  obtain ⟨hInput, hSame⟩ := applyTo?_unmoved hState
  refine ⟨n, u, hReads, hInput ▸ hGreedy, hState, ?_, ?_⟩
  · rw [hInput]
    exact hReads.input_eq
  · rw [hSame]
    exact hReads.depth_eq

theorem declaration_tokens_ne_nil (n : DeclarationNode) : n.tokens ≠ [] := by
  cases n with
  | lineEnd e =>
      obtain ⟨token, rest, hTokens, -⟩ := lineEnd_head e
      show e.tokens ≠ []
      rw [hTokens]
      exact List.cons_ne_nil _ _
  | statement n => exact List.cons_ne_nil _ _
  | pushtag word tag => exact List.cons_ne_nil _ _
  | poptag word tag => exact List.cons_ne_nil _ _
  | skipped line => exact List.cons_ne_nil _ _

/-- A declaration that fails is reported, and the parse goes on further down in the text. -/
theorem resume_of_error {s t : State Unit} {halt : Halt} (hRoom : 7 ≤ options.maxDepth)
    (hMode : options.recovery = .resynchronize) (hAt : s.depth = 1)
    (hs : moreAhead s = true) (h : declaration (.standard options) s = (.error halt, t)) :
    ∃ error u, halt = .statement error ∧ error.problem.isMalformation = true ∧
      u = (t.report error).resume options.traceRecovery ∧
      statement (.standard options) s = (.ok (), u) ∧ s.Unmoved t ∧
      u.depth = 1 ∧ u.input.length < s.input.length := by
  have hDeep : s.depth + 6 ≤ options.maxDepth := by omega
  obtain ⟨hState, error, rfl, hProblem⟩ := declaration_eq_error hDeep h
  have hStep : statement (.standard options) s =
      (.ok (), (t.report error).resume options.traceRecovery) := statement_of_error hMode h
  have hNext : Advances (.standard options) s _ := ⟨hs, hStep⟩
  refine ⟨error, _, rfl, hProblem, rfl, hStep, hState, hNext.depth_eq hAt, ?_⟩
  exact consumes_statement _ s () _ (moreAhead_ne s hs) hStep

/-- What survives begins as the text does, or with the beginning of a statement. -/
theorem mayReplace_surviving {s : State Unit} (hRoom : 7 ≤ options.maxDepth)
    (hMode : options.recovery = .resynchronize) (hAt : s.depth = 1) :
    MayReplace (surviving (.standard options) s) s.input := by
  generalize hLength : s.input.length = length
  induction length using Nat.strongRecOn generalizing s with
  | _ length ih =>
      subst hLength
      by_cases hs : moreAhead s = true
      · rcases hStep : declaration (.standard options) s with ⟨result, t⟩
        cases result with
        | ok v =>
            obtain ⟨n, u, -, -, -, hInput, -⟩ := exists_node_of_ok (by omega) hStep
            rw [surviving_of_ok hs hStep hInput, hInput]
            left
            cases hTokens : n.tokens with
            | nil => exact absurd hTokens (declaration_tokens_ne_nil n)
            | cons token w => rfl
        | error halt =>
            obtain ⟨error, u, rfl, -, hu, -, -, hDepth, hLess⟩ :=
              resume_of_error hRoom hMode hAt hs hStep
            rw [surviving_of_error hs hMode hStep, ← hu]
            have hStart : (nextKind u.input).startsStatement = true := by
              rw [hu]
              exact startsStatement_behind_resume _ _
            right
            rcases ih _ hLess hDepth rfl with hSame | hOther
            · rw [hSame]
              exact hStart
            · exact hOther
      · rw [surviving_of_not (by simpa using hs)]
        exact .inl rfl

/-! ## Parsing what survives -/

/-- Whether an error is about a tag that was not active. -/
def isUnbalanced (error : ParseError) : Bool :=
  match error.problem with
  | .unbalancedPoptag _ => true
  | _ => false

/-- `s'` has come as far in what survives as `s` has in the whole text. -/
structure Shadows (options : Options) (s s' : State Unit) : Prop where
  input_eq : s'.input = surviving (.standard options) s
  depth_eq : s'.depth = s.depth
  tags_eq : s'.tags = s.tags
  directives_eq : s'.directives = s.directives
  errors_eq : s'.errors = s.errors.filter isUnbalanced

/-- A tree does the same to two states with the same tags. -/
theorem exists_applyTo? {n : DeclarationNode} {filename : String} {s t s' : State Unit}
    (h : n.applyTo? filename s = some t) (hTags : s'.tags = s.tags)
    (hDirectives : s'.directives = s.directives)
    (hErrors : s'.errors = s.errors.filter isUnbalanced) :
    ∃ t', n.applyTo? filename s' = some t' ∧ t'.tags = t.tags ∧ t'.directives = t.directives ∧
      t'.errors = t.errors.filter isUnbalanced := by
  cases n with
  | statement n =>
      obtain ⟨x, hValue, rfl⟩ := Option.map_eq_some_iff.1 h
      refine ⟨{ s' with directives := s'.directives ++ [x] }, ?_, hTags, ?_, hErrors⟩
      · rw [DeclarationNode.applyTo?, hTags, hValue, Option.map_some]
      · show s'.directives ++ [x] = s.directives ++ [x]
        rw [hDirectives]
  | pushtag word tag =>
      obtain ⟨x, hText, rfl⟩ := Option.map_eq_some_iff.1 h
      refine ⟨{ s' with tags := s'.tags.push x }, ?_, ?_, hDirectives, hErrors⟩
      · rw [DeclarationNode.applyTo?, hText, Option.map_some]
      · show s'.tags.push x = s.tags.push x
        rw [hTags]
  | poptag word tag =>
      obtain ⟨x, hText, rfl⟩ := Option.map_eq_some_iff.1 h
      rw [DeclarationNode.applyTo?, hText, Option.map_some, hTags]
      by_cases hActive : s.tags.contains x = true
      · rw [if_pos hActive, if_pos hActive]
        exact ⟨_, rfl, rfl, hDirectives, hErrors⟩
      · rw [if_neg hActive, if_neg hActive]
        refine ⟨_, rfl, hTags, hDirectives, ?_⟩
        show s'.errors ++ [_] = (s.errors ++ [_]).filter isUnbalanced
        rw [List.filter_append, hErrors]
        rfl
  | lineEnd e =>
      cases h
      exact ⟨s', rfl, hTags, hDirectives, hErrors⟩
  | skipped line =>
      cases h
      exact ⟨s', rfl, hTags, hDirectives, hErrors⟩

/-- A statement that succeeds does so again in what survives. -/
theorem Shadows.of_ok {s t s' : State Unit} {v : Unit} (hShadows : Shadows options s s')
    (hRoom : 7 ≤ options.maxDepth) (hMode : options.recovery = .resynchronize)
    (hAt : s.depth = 1) (hs : moreAhead s = true) (h : declaration (.standard options) s = (.ok v, t)) :
    moreAhead s' = true ∧
      ∃ t', statement (.standard options) s' = (.ok (), t') ∧ Shadows options t t' := by
  obtain ⟨n, u, hReads, hGreedy, hState, hInput, hDepth⟩ := exists_node_of_ok (by omega) h
  have hRest : MayReplace (surviving (.standard options) t) t.input :=
    mayReplace_surviving hRoom hMode (hDepth.trans hAt)
  have hAhead : s'.input = n.tokens ++ surviving (.standard options) t := by
    rw [hShadows.input_eq, surviving_of_ok hs h hInput]
  obtain ⟨u', hReads', hLeft⟩ := State.exists_reads hAhead
  have hErrors : u'.errors = u.errors.filter isUnbalanced := by
    rw [hReads'.state_eq, hReads.state_eq]
    exact hShadows.errors_eq
  have hDirectives : u'.directives = u.directives := by
    rw [hReads'.state_eq, hReads.state_eq]
    exact hShadows.directives_eq
  have hTags : u'.tags = u.tags := by
    rw [hReads'.tags_eq, hReads.tags_eq, hShadows.tags_eq]
  obtain ⟨t', hState', hTags', hDirectives', hErrors'⟩ :=
    exists_applyTo? hState hTags hDirectives hErrors
  obtain ⟨hInput', hDepth'⟩ := applyTo?_unmoved hState'
  have hDeep : s'.depth + 5 < options.maxDepth := by
    rw [hShadows.depth_eq]
    omega
  have hStep : declaration (.standard options) s' = (.ok (), t') :=
    (declaration_eq_ok hDeep).2 ⟨n, u', hReads',
      DeclarationNode.greedy_of_mayReplace (hLeft ▸ hRest) hGreedy, hState'⟩
  constructor
  · rw [moreAhead_iff] at hs ⊢
    rw [hAhead]
    rw [hInput] at hs
    cases hTokens : n.tokens with
    | nil => exact absurd hTokens (declaration_tokens_ne_nil n)
    | cons token w =>
        rw [hTokens] at hs
        exact hs
  · refine ⟨t', statement_of_ok hStep, ⟨hInput'.trans hLeft, ?_, hTags', hDirectives', hErrors'⟩⟩
    rw [hDepth', hReads'.depth_eq, hDepth, hShadows.depth_eq]

/-- A statement that fails has left no trace in what survives. -/
theorem Shadows.of_error {s t u s' : State Unit} {error : ParseError} {trace : Bool}
    (hShadows : Shadows options s s') (hProblem : error.problem.isMalformation = true)
    (hu : u = (t.report error).resume trace) (hState : s.Unmoved t) (hDepth : u.depth = s.depth)
    (hSurviving : surviving (.standard options) s = surviving (.standard options) u) :
    Shadows options u s' where
  input_eq := by rw [hShadows.input_eq, hSurviving]
  depth_eq := hShadows.depth_eq.trans hDepth.symm
  tags_eq := by
    rw [hShadows.tags_eq, hu]
    exact hState.tags_eq.symm
  directives_eq := by
    rw [hShadows.directives_eq, hu]
    exact hState.directives_eq.symm
  errors_eq := by
    have hOne : [error].filter isUnbalanced = [] := by
      have hOther : isUnbalanced error = false := by
        unfold isUnbalanced
        cases hKind : error.problem <;> simp [Problem.isMalformation, hKind] at hProblem ⊢
      rw [List.filter_cons, hOther]
      rfl
    have hNotes (passed : List Token) : (passed.map discardedNote).filter isUnbalanced = [] := by
      rw [List.filter_eq_nil_iff]
      intro note hNote
      obtain ⟨token, -, rfl⟩ := List.mem_map.1 hNote
      exact Bool.false_ne_true
    rw [hShadows.errors_eq, hu]
    show _ = ((t.errors ++ [error]) ++ (if trace then _ else [])).filter isUnbalanced
    rw [List.filter_append, List.filter_append, hState.errors_eq, hOne]
    by_cases hTrace : trace = true
    · rw [if_pos hTrace, hNotes, List.append_nil, List.append_nil]
    · rw [if_neg hTrace, List.filter_nil, List.append_nil, List.append_nil]

/-- From two states that correspond, both texts are parsed to their end, and correspond there. -/
theorem Shadows.of_statements {s s' : State Unit} (hShadows : Shadows options s s')
    (hRoom : 7 ≤ options.maxDepth) (hMode : options.recovery = .resynchronize)
    (hAt : s.depth = 1) :
    ∃ t t', statements (.standard options) s = (.ok (), t) ∧
      statements (.standard options) s' = (.ok (), t') ∧ Shadows options t t' := by
  generalize hLength : s.input.length = length
  induction length using Nat.strongRecOn generalizing s s' with
  | _ length ih =>
      subst hLength
      by_cases hs : moreAhead s = true
      · rcases hStep : declaration (.standard options) s with ⟨result, t⟩
        cases result with
        | ok v =>
            have hStatement := statement_of_ok hStep
            have hLess := consumes_statement _ s v t (moreAhead_ne s hs) hStatement
            obtain ⟨hs', t', hStatement', hNext⟩ := hShadows.of_ok hRoom hMode hAt hs hStep
            rw [statements_of_ok hs hStatement, statements_of_ok hs' hStatement']
            exact ih _ hLess hNext ((depth_of_ok hStep).trans hAt) rfl
        | error halt =>
            obtain ⟨error, u, rfl, hProblem, hu, hStatement, hState, hDepth, hLess⟩ :=
              resume_of_error hRoom hMode hAt hs hStep
            have hSame : surviving (.standard options) s = surviving (.standard options) u :=
              hu ▸ surviving_of_error hs hMode hStep
            rw [statements_of_ok hs hStatement]
            exact ih _ hLess (hShadows.of_error hProblem hu hState (hDepth.trans hAt.symm) hSame)
              hDepth rfl
      · have hStop : moreAhead s = false := by simpa using hs
        have hStop' : moreAhead s' = false := by
          have hInput : s'.input = s.input := by
            rw [hShadows.input_eq, surviving_of_not hStop]
          rw [← Bool.not_eq_true, moreAhead_iff, hInput, ← moreAhead_iff]
          exact hs
        exact ⟨s, s', statements_of_false hStop, statements_of_false hStop', hShadows⟩

/-- Parse a text, take out of it all failed statements and what was discarded behind them, and
parse it again: the directives are the same, down to the places they are from, and so are the tags
that are active in the end. All that is reported is what was wrong without making a statement
fail, and the text is read to its end. -/
theorem run_survivors (hRoom : 7 ≤ options.maxDepth) (hMode : options.recovery = .resynchronize)
    (tags : TagContext) (input : List Token) :
    (run (.standard options) () tags (survivors (.standard options) () tags input)).directives =
        (run (.standard options) () tags input).directives ∧
      (run (.standard options) () tags (survivors (.standard options) () tags input)).tags =
        (run (.standard options) () tags input).tags ∧
      (run (.standard options) () tags (survivors (.standard options) () tags input)).phase =
        .accepted ∧
      (run (.standard options) () tags (survivors (.standard options) () tags input)).errors =
        (run (.standard options) () tags input).errors.filter isUnbalanced := by
  have hDepth : 0 < (Setup.standard options).options.maxDepth := by
    show 0 < options.maxDepth
    omega
  have hShadows : Shadows options (.begin () tags input)
      (.begin () tags (survivors (.standard options) () tags input)) :=
    ⟨rfl, rfl, rfl, rfl, rfl⟩
  obtain ⟨t, t', hRun, hRun', hEnd⟩ := hShadows.of_statements hRoom hMode rfl
  rw [run_of_ok hDepth hRun, run_of_ok hDepth hRun']
  exact ⟨hEnd.directives_eq, hEnd.tags_eq, rfl, hEnd.errors_eq⟩

/-- A stray text in front of a statement. -/
def strayText : List Token :=
  [⟨.string, .text "stray", .origin⟩, ⟨.lineEnd, .absent, .origin⟩] ++ closingStatement

theorem run_survivors_strayText :
    7 ≤ ({} : Options).maxDepth ∧ ({} : Options).recovery = .resynchronize ∧
      (run (.standard {}) () .empty
        (survivors (.standard {}) () .empty strayText)).directives =
          (run (.standard {}) () .empty strayText).directives ∧
      (run (.standard {}) () .empty (survivors (.standard {}) () .empty strayText)).tags =
        (run (.standard {}) () .empty strayText).tags ∧
      (run (.standard {}) () .empty (survivors (.standard {}) () .empty strayText)).phase =
        .accepted ∧
      (run (.standard {}) () .empty (survivors (.standard {}) () .empty strayText)).errors =
        (run (.standard {}) () .empty strayText).errors.filter isUnbalanced :=
  ⟨by decide, rfl, run_survivors (by decide) rfl .empty strayText⟩

end Parse

end LedgerText
