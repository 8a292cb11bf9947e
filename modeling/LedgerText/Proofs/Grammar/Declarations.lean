import LedgerText.Proofs.Grammar.Statements
import LedgerText.Proofs.Grammar.Values

/-!
# Exactness of declarations

With the standard builder, a statement is added to a ledger exactly if it is the
yield of a parse tree, up to the choices that the grammar leaves open and the
greedy rules settle. Neither does the parser accept anything else, nor does it
turn down anything that the grammar derives.
-/

namespace LedgerText

/-- What a declaration does with the state behind its tokens. -/
def Grammar.DeclarationNode.applyTo? {σ : Type} (filename : String) (s : Parse.State σ) :
    DeclarationNode → Option (Parse.State σ)
  | .statement n =>
      (n.directive? filename s.tags).map fun x => { s with directives := s.directives ++ [x] }
  | .pushtag _ tag => tag.text?.map fun text => { s with tags := s.tags.push text }
  | .poptag word tag => tag.text?.map fun text =>
      if s.tags.contains text then
        { s with tags := s.tags.pop text }
      else
        s.report ⟨.unbalancedPoptag text, word.token.span.upTo tag.token.span⟩
  | .lineEnd _ => some s
  | .skipped _ => some s

namespace Parse

open Grammar Step

variable {σ : Type} {options : Options} {filename : String}

/-- A tree that is read begins with the next token. -/
theorem head_kind_of_reads {n : StatementNode} {s t : State σ} (h : s.Reads n.tokens t) :
    n.head.kind = s.lookahead.kind := by
  rw [h.lookahead_eq]

theorem entry_eq_ok {s t : State Unit} {x : Spanned Directive}
    (hDepth : s.depth + 5 < options.maxDepth) (hNext : s.lookahead.kind = .date) :
    entry (.standard options) s = (.ok x, t) ↔
      ∃ n : StatementNode, (n.directive? options.filename s.tags = some x ∧
        n.Greedy t.input) ∧ s.Reads n.tokens t := by
  have hDate : TokenKind.date ≠ .endOfInput := by decide
  refine nested_eq_ok_iff (P := fun n rest => StatementNode.directive? n options.filename s.tags =
    some x ∧ n.Greedy rest) (show s.depth < options.maxDepth by omega) fun u => ?_
  have hRoom (v : State Unit) (hv : v.depth = s.depth + 1) : v.depth + 4 < options.maxDepth := by
    omega
  rw [advance_bind]
  simp only [bind_eq_ok, day_eq_ok, spanFrom_bind, pure_eq_ok]
  constructor
  · rintro ⟨day, v, ⟨hDay, rfl⟩, d, v, hDated, rfl, rfl⟩
    obtain ⟨m, ⟨⟨c, hValue, rfl⟩, hGreedy⟩, hMore⟩ := (dated_eq_ok (hRoom _ (by rfl))).1 hDated
    obtain ⟨l, hFirst⟩ :=
      (State.next_iff (s := { s with depth := s.depth + 1 }) hDate).1 ⟨hNext, rfl⟩
    have hReads := State.reads_cons.2 ⟨_, hFirst, hMore⟩
    have hLeaf := hFirst.lookahead_eq
    refine ⟨.entry l m, ⟨?_, hGreedy⟩, hReads⟩
    rw [hLeaf] at hDay ⊢
    have hWhole : (StatementNode.entry l m).value? = some c := by
      simp [StatementNode.value?, Leaf.day?, Leaf.text?, hDay, hValue]
    rw [StatementNode.directive?, hWhole, hReads.lastSpan_eq]
    rfl
  · rintro ⟨n, ⟨hDirective, hGreedy⟩, hReads⟩
    have hHead : n.head.kind = .date := (head_kind_of_reads hReads).trans hNext
    obtain ⟨c, hWhole, rfl⟩ := Option.map_eq_some_iff.1 hDirective
    cases n with
    | option l k m e => exact absurd (l.kind_eq.symm.trans hHead) (by decide)
    | entry l m =>
        simp only [StatementNode.value?, Option.bind_eq_bind, Option.bind_eq_some_iff] at hWhole
        obtain ⟨day, hDay, hValue⟩ := hWhole
        obtain ⟨v, hFirst, hMore⟩ := State.reads_cons.1 hReads
        have hLeaf := hFirst.lookahead_eq
        rw [hFirst.next_eq hDate, hLeaf]
        refine ⟨day, v, ⟨hDay, rfl⟩, _, u, (dated_eq_ok (hRoom v hFirst.depth_eq)).2
          ⟨m, ⟨⟨c, hValue, rfl⟩, hGreedy⟩, hMore⟩, ?_, rfl⟩
        rw [hReads.lastSpan_eq, hFirst.tags_eq]
        rfl

theorem option_eq_ok {s t : State Unit} {x : Spanned Directive}
    (hDepth : s.depth < options.maxDepth) (hNext : s.lookahead.kind = .keyword .option) :
    option (.standard options) s = (.ok x, t) ↔
      ∃ n : StatementNode, (n.directive? options.filename s.tags = some x ∧
        n.Greedy t.input) ∧ s.Reads n.tokens t := by
  have hWord : TokenKind.keyword .option ≠ .endOfInput := by decide
  have hString : TokenKind.string ≠ .endOfInput := by decide
  refine nested_eq_ok_iff (P := fun n rest => StatementNode.directive? n options.filename s.tags =
    some x ∧ n.Greedy rest) hDepth fun u => ?_
  rw [advance_bind]
  simp only [bind_eq_ok, takeText_eq_ok hString, lineEnd_eq_ok, conclude_eq_ok, spanFrom_bind,
    pure_eq_ok]
  constructor
  · rintro ⟨key, v, ⟨k, hKey, hSecond⟩, value, w, ⟨m, hValue, hThird⟩, _, u, ⟨e, hGreedy, hLast⟩,
      _, _, ⟨rfl, rfl⟩, rfl, rfl⟩
    obtain ⟨l, hFirst⟩ :=
      (State.next_iff (s := { s with depth := s.depth + 1 }) hWord).1 ⟨hNext, rfl⟩
    have hReads := State.reads_cons.2 ⟨_, hFirst, State.reads_cons.2 ⟨_, hSecond,
      State.reads_cons.2 ⟨_, hThird, hLast⟩⟩⟩
    refine ⟨.option l k m e, ⟨?_, hGreedy⟩, hReads⟩
    have hWhole : (StatementNode.option l k m e).value? = some (.option key value) := by
      simp [StatementNode.value?, hKey, hValue]
    rw [StatementNode.directive?, hWhole, hReads.lastSpan_eq, hFirst.lookahead_eq]
    rfl
  · rintro ⟨n, ⟨hDirective, hGreedy⟩, hReads⟩
    have hHead : n.head.kind = .keyword .option := (head_kind_of_reads hReads).trans hNext
    obtain ⟨c, hWhole, rfl⟩ := Option.map_eq_some_iff.1 hDirective
    cases n with
    | entry l m => exact absurd (l.kind_eq.symm.trans hHead) (by decide)
    | option l k m e =>
        simp only [StatementNode.value?, Option.bind_eq_bind, Option.bind_eq_some_iff,
          Option.pure_def, Option.some.injEq] at hWhole
        obtain ⟨key, hKey, value, hValue, rfl⟩ := hWhole
        obtain ⟨v, hFirst, hMore⟩ := State.reads_cons.1 hReads
        obtain ⟨w, hSecond, hMore⟩ := State.reads_cons.1 hMore
        obtain ⟨x, hThird, hLast⟩ := State.reads_cons.1 hMore
        have hLeaf := hFirst.lookahead_eq
        rw [hFirst.next_eq hWord, hLeaf]
        refine ⟨key, w, ⟨k, hKey, hSecond⟩, value, x, ⟨m, hValue, hThird⟩, (), u,
          ⟨e, hGreedy, hLast⟩, _, u, ⟨rfl, rfl⟩, ?_, rfl⟩
        rw [hReads.lastSpan_eq]
        rfl

/-! ## Declarations -/

/-- A step that yields a directive, followed by the step that adds it to the ledger. -/
theorem bind_accept_eq_ok {m : Step σ (Spanned Directive)} {s t : State σ} {v : Unit} :
    (m >>= fun x => accept x) s = (.ok v, t) ↔
      ∃ x u, m s = (.ok x, u) ∧ { u with directives := u.directives ++ [x] } = t := by
  rw [bind_eq_ok]
  constructor
  · rintro ⟨x, u, hStep, hAccept⟩
    exact ⟨x, u, hStep, congrArg Prod.snd hAccept⟩
  · rintro ⟨x, u, hStep, rfl⟩
    exact ⟨x, u, hStep, rfl⟩

/-- A word and a tag, and what is done with the tag in the end. -/
theorem wordTag_eq_ok {kind : TokenKind} {f : String → Step σ Unit} {s t : State σ} {v : Unit}
    (hKind : kind ≠ .endOfInput) (hNext : s.lookahead.kind = kind) :
    (takeText .tag [.tag] >>= f) s.next = (.ok v, t) ↔
      ∃ (word : Leaf kind) (tag : Leaf .tag) (text : String) (u : State σ),
        s.Reads [word.token, tag.token] u ∧ tag.text? = some text ∧ f text u = (.ok v, t) := by
  have hTag : TokenKind.tag ≠ .endOfInput := by decide
  rw [bind_eq_ok]
  simp only [takeText_eq_ok hTag]
  constructor
  · rintro ⟨text, u, ⟨l, hText, hSecond⟩, hStep⟩
    obtain ⟨w, hFirst⟩ := (State.next_iff hKind).1 ⟨hNext, rfl⟩
    exact ⟨w, l, text, u, State.reads_cons.2 ⟨_, hFirst, hSecond⟩, hText, hStep⟩
  · rintro ⟨w, l, text, u, hReads, hText, hStep⟩
    obtain ⟨x, hFirst, hSecond⟩ := State.reads_cons.1 hReads
    rw [hFirst.next_eq hKind]
    exact ⟨text, u, ⟨l, hText, hSecond⟩, hStep⟩

theorem pushtag_eq_ok {s t : State σ} {v : Unit} (hNext : s.lookahead.kind = .keyword .pushtag) :
    pushtag s = (.ok v, t) ↔ ∃ word tag u, s.Reads (DeclarationNode.pushtag word tag).tokens u ∧
      (DeclarationNode.pushtag word tag).applyTo? filename u = some t := by
  have hRun : pushtag s = (.ok v, t) ↔ _ := wordTag_eq_ok (by decide) hNext
  rw [hRun]
  simp only [DeclarationNode.applyTo?, Option.map_eq_some_iff]
  constructor
  · rintro ⟨w, l, text, u, hReads, hText, hStep⟩
    exact ⟨w, l, u, hReads, text, hText, congrArg Prod.snd hStep⟩
  · rintro ⟨w, l, u, hReads, text, hText, rfl⟩
    exact ⟨w, l, text, u, hReads, hText, rfl⟩

theorem poptag_eq_ok {s t : State σ} {v : Unit} (hNext : s.lookahead.kind = .keyword .poptag) :
    poptag s = (.ok v, t) ↔ ∃ word tag u, s.Reads (DeclarationNode.poptag word tag).tokens u ∧
      (DeclarationNode.poptag word tag).applyTo? filename u = some t := by
  have hRun : poptag s = (.ok v, t) ↔ _ := wordTag_eq_ok (by decide) hNext
  -- What is reported is the same if its span is: from the word to the tag.
  have hPop {word tag : Token} {text : String} {u : State σ} (hReads : s.Reads [word, tag] u) :
      (if u.tags.contains text then (.ok (), { u with tags := u.tags.pop text })
        else report ⟨.unbalancedPoptag text, s.lookahead.span.upTo u.lastSpan⟩ u :
          Except Halt Unit × State σ) = (.ok v, t) ↔
      (if u.tags.contains text then { u with tags := u.tags.pop text }
        else u.report ⟨.unbalancedPoptag text, word.span.upTo tag.span⟩) = t := by
    rw [hReads.lookahead_eq, hReads.lastSpan_eq]
    by_cases hActive : u.tags.contains text = true
    · simp [hActive]
    · simp [hActive, report]
  rw [hRun]
  simp only [DeclarationNode.applyTo?, Option.map_eq_some_iff]
  constructor
  · rintro ⟨w, l, text, u, hReads, hText, hStep⟩
    exact ⟨w, l, u, hReads, text, hText, (hPop hReads).1 hStep⟩
  · rintro ⟨w, l, u, hReads, text, hText, hState⟩
    exact ⟨w, l, text, u, hReads, hText, (hPop hReads).2 hState⟩

/-- A dated statement or an option is read as the tokens of a tree, and what the tree stands for is
added to the directives. -/
theorem declaration_statement_eq_ok {s t : State Unit} {v : Unit}
    (hDepth : s.depth + 5 < options.maxDepth)
    (hNext : s.lookahead.kind = .date ∨ s.lookahead.kind = .keyword .option) :
    declaration (.standard options) s = (.ok v, t) ↔
      ∃ (n : StatementNode) (u : State Unit), s.Reads n.tokens u ∧ n.Greedy u.input ∧
        (DeclarationNode.statement n).applyTo? options.filename u = some t := by
  have hRun : declaration (.standard options) s = (.ok v, t) ↔ ∃ x u,
      (∃ n : StatementNode, (n.directive? options.filename s.tags = some x ∧
        n.Greedy u.input) ∧ s.Reads n.tokens u) ∧
      { u with directives := u.directives ++ [x] } = t := by
    rw [declaration, peek_bind]
    rcases hNext with hNext | hNext
    · rw [hNext]
      simp only [bind_accept_eq_ok, entry_eq_ok hDepth hNext]
    · rw [hNext]
      simp only [bind_accept_eq_ok,
        option_eq_ok (show s.depth < options.maxDepth by omega) hNext]
  rw [hRun]
  simp only [DeclarationNode.applyTo?, Option.map_eq_some_iff]
  constructor
  · rintro ⟨x, u, ⟨n, ⟨hDirective, hGreedy⟩, hReads⟩, hState⟩
    exact ⟨n, u, hReads, hGreedy, x, hReads.tags_eq.symm ▸ hDirective, hState⟩
  · rintro ⟨n, u, hReads, hGreedy, x, hDirective, hState⟩
    exact ⟨x, u, ⟨n, ⟨hReads.tags_eq ▸ hDirective, hGreedy⟩, hReads⟩, hState⟩

/-- What comes next where a declaration is read. -/
theorem lookahead_of_declaration {n : DeclarationNode} {s t : State σ}
    (h : s.Reads n.tokens t) :
    match n with
    | .statement _ => s.lookahead.kind = .date ∨ s.lookahead.kind = .keyword .option
    | .pushtag _ _ => s.lookahead.kind = .keyword .pushtag
    | .poptag _ _ => s.lookahead.kind = .keyword .poptag
    | .lineEnd _ => s.lookahead.kind = .lineEnd ∨ s.lookahead.kind = .indent ∨
        s.lookahead.kind = .comment
    | .skipped _ => s.lookahead.kind = .skipped := by
  cases n with
  | statement n =>
      show s.lookahead.kind = .date ∨ s.lookahead.kind = .keyword .option
      rw [← head_kind_of_reads h]
      cases n with
      | entry l m => exact .inl l.kind_eq
      | option l k m e => exact .inr l.kind_eq
  | pushtag w l => exact h.lookahead_eq ▸ w.kind_eq
  | poptag w l => exact h.lookahead_eq ▸ w.kind_eq
  | lineEnd e => exact lookahead_of_lineEnd h
  | skipped l => exact h.lookahead_eq ▸ l.kind_eq

/-- A declaration succeeds exactly by reading the tokens of one of its trees, the greedy choices
made, and does what the tree says. -/
theorem declaration_eq_ok {s t : State Unit} {v : Unit}
    (hDepth : s.depth + 5 < options.maxDepth) :
    declaration (.standard options) s = (.ok v, t) ↔
      ∃ (n : DeclarationNode) (u : State Unit), s.Reads n.tokens u ∧ n.Greedy u.input ∧
        n.applyTo? options.filename u = some t := by
  have hSkipped : TokenKind.skipped ≠ .endOfInput := by decide
  have hLineEnd : lineEnd [] s = (.ok v, t) ↔ ∃ e u, s.Reads (DeclarationNode.lineEnd e).tokens u ∧
      (DeclarationNode.lineEnd e).Greedy u.input ∧
      (DeclarationNode.lineEnd e).applyTo? options.filename u = some t := by
    rw [lineEnd_eq_ok]
    constructor
    · rintro ⟨e, hGreedy, hReads⟩
      exact ⟨e, t, hReads, hGreedy, rfl⟩
    · rintro ⟨e, u, hReads, hGreedy, hState⟩
      cases hState
      exact ⟨e, hGreedy, hReads⟩
  constructor
  · intro h
    have hStep := h
    rw [declaration, peek_bind] at hStep
    generalize hNext : s.lookahead.kind = kind at hStep
    split at hStep
    · obtain ⟨n, hNode⟩ := (declaration_statement_eq_ok hDepth (.inl hNext)).1 h
      exact ⟨.statement n, hNode⟩
    · obtain ⟨n, hNode⟩ := (declaration_statement_eq_ok hDepth (.inr hNext)).1 h
      exact ⟨.statement n, hNode⟩
    · obtain ⟨w, l, u, hReads, hState⟩ := (pushtag_eq_ok hNext).1 hStep
      exact ⟨_, u, hReads, trivial, hState⟩
    · obtain ⟨w, l, u, hReads, hState⟩ := (poptag_eq_ok hNext).1 hStep
      exact ⟨_, u, hReads, trivial, hState⟩
    · obtain ⟨e, hNode⟩ := hLineEnd.1 hStep
      exact ⟨_, hNode⟩
    · obtain ⟨e, hNode⟩ := hLineEnd.1 hStep
      exact ⟨_, hNode⟩
    · obtain ⟨e, hNode⟩ := hLineEnd.1 hStep
      exact ⟨_, hNode⟩
    · obtain ⟨l, hReads⟩ := (State.next_iff hSkipped).1 ⟨hNext, congrArg Prod.snd hStep⟩
      exact ⟨.skipped l, t, hReads, trivial, rfl⟩
    · exact absurd hStep unexpected_ne_ok
  · rintro ⟨n, u, hReads, hGreedy, hState⟩
    have hNext := lookahead_of_declaration hReads
    cases n with
    | statement n =>
        exact (declaration_statement_eq_ok hDepth hNext).2 ⟨n, u, hReads, hGreedy, hState⟩
    | pushtag w l =>
        change s.lookahead.kind = _ at hNext
        rw [declaration, peek_bind, hNext]
        exact (pushtag_eq_ok hNext).2 ⟨w, l, u, hReads, hState⟩
    | poptag w l =>
        change s.lookahead.kind = _ at hNext
        rw [declaration, peek_bind, hNext]
        exact (poptag_eq_ok hNext).2 ⟨w, l, u, hReads, hState⟩
    | lineEnd e =>
        have hStep := hLineEnd.2 ⟨e, u, hReads, hGreedy, hState⟩
        rw [declaration, peek_bind]
        rcases hNext with hNext | hNext | hNext
        · rw [hNext]
          exact hStep
        · rw [hNext]
          exact hStep
        · rw [hNext]
          exact hStep
    | skipped l =>
        change s.lookahead.kind = _ at hNext
        cases hState
        rw [declaration, peek_bind, hNext, ← hReads.next_eq hSkipped]
        rfl

/-! ## Exactness -/

/-- Where a declaration begins with a date or the word `option`, it reads the tokens `w`, leaves
`rest` and adds a directive exactly if `w` is derived by a tree that stands for the directive and
is greedy in front of `rest`. Tokens that carry what their kinds call for are accepted exactly if
they are derived, whatever they say. -/
theorem declaration_adds_iff_derived {s : State Unit} (hDepth : s.depth = 1)
    (hRoom : 7 ≤ options.maxDepth)
    (hNext : s.lookahead.kind = .date ∨ s.lookahead.kind = .keyword .option)
    (hTokens : ∀ token ∈ s.input, token.IsComplete) (w rest : List Token)
    (hInput : s.input = w ++ rest) :
    (∀ x : Spanned Directive,
      (∃ t, declaration (.standard options) s = (.ok (), t) ∧ t.input = rest ∧
        t.directives = s.directives ++ [x]) ↔
      ∃ n : StatementNode, n.tokens = w ∧ n.directive? options.filename s.tags = some x ∧
        n.Greedy rest) ∧
    ((∃ t, declaration (.standard options) s = (.ok (), t) ∧ t.input = rest) ↔
      ∃ n : StatementNode, n.tokens = w ∧ n.Greedy rest) := by
  have hDeep : s.depth + 5 < options.maxDepth := by omega
  -- A tree whose tokens come next is read, and its directive added.
  have hComplete (n : StatementNode) (hw : n.tokens = w) (hGreedy : n.Greedy rest)
      (x : Spanned Directive) (hDirective : n.directive? options.filename s.tags = some x) :
      ∃ t, declaration (.standard options) s = (.ok (), t) ∧ t.input = rest ∧
        t.directives = s.directives ++ [x] := by
    obtain ⟨u, hReads, hLeft⟩ := State.exists_reads (hw ▸ hInput)
    have hState : (DeclarationNode.statement n).applyTo? options.filename u =
        some { u with directives := u.directives ++ [x] } := by
      rw [DeclarationNode.applyTo?, hReads.tags_eq, hDirective, Option.map_some]
    refine ⟨_, (declaration_statement_eq_ok hDeep hNext).2 ⟨n, u, hReads, hLeft ▸ hGreedy,
      hState⟩, hLeft, ?_⟩
    rw [hReads.state_eq]
  -- A statement that is read leaves `rest` behind, so the tokens of its tree are `w`.
  have hSound (t : State Unit) (hStep : declaration (.standard options) s = (.ok (), t))
      (hRest : t.input = rest) :
      ∃ (n : StatementNode) (x : Spanned Directive), n.tokens = w ∧ n.Greedy rest ∧
        n.directive? options.filename s.tags = some x ∧ t.directives = s.directives ++ [x] := by
    obtain ⟨n, u, hReads, hGreedy, hState⟩ := (declaration_statement_eq_ok hDeep hNext).1 hStep
    obtain ⟨x, hDirective, rfl⟩ := Option.map_eq_some_iff.1 hState
    rw [hReads.tags_eq] at hDirective
    have hLeft : u.input = rest := hRest
    have hBoth : n.tokens ++ rest = w ++ rest := by
      rw [← hInput, ← hLeft, hReads.input_eq]
    have hSame : n.tokens = w := List.append_cancel_right hBoth
    refine ⟨n, x, hSame, hLeft ▸ hGreedy, hDirective, ?_⟩
    rw [hReads.state_eq]
  constructor
  · intro x
    constructor
    · rintro ⟨t, hStep, hRest, hAdded⟩
      obtain ⟨n, y, hw, hGreedy, hDirective, hOther⟩ := hSound t hStep hRest
      have hSame : x = y := by
        have hBoth := hAdded.symm.trans hOther
        simpa using hBoth
      exact ⟨n, hw, hSame ▸ hDirective, hGreedy⟩
    · rintro ⟨n, hw, hDirective, hGreedy⟩
      exact hComplete n hw hGreedy x hDirective
  · constructor
    · rintro ⟨t, hStep, hRest⟩
      obtain ⟨n, x, hw, hGreedy, -, -⟩ := hSound t hStep hRest
      exact ⟨n, hw, hGreedy⟩
    · rintro ⟨n, hw, hGreedy⟩
      obtain ⟨c, hValue⟩ := StatementNode.exists_value (n := n) fun token hToken => by
        refine hTokens token ?_
        rw [hInput, ← hw]
        exact List.mem_append_left rest hToken
      obtain ⟨t, hStep, hRest, -⟩ := hComplete n hw hGreedy _
        (by rw [StatementNode.directive?, hValue, Option.map_some])
      exact ⟨t, hStep, hRest⟩

/-- A closing statement, which comes next at the start of a text. -/
def closingStatement : List Token :=
  [⟨.date, .text "2024-01-31", .origin⟩, ⟨.keyword .closing, .absent, .origin⟩,
   ⟨.account, .text "Assets:Cash", .origin⟩, ⟨.lineEnd, .absent, .origin⟩]

theorem closingStatement_complete : ∀ token ∈ closingStatement, token.IsComplete := by
  have hDay : Date.ofText? "2024-01-31" = some ⟨2024, 1, 31, by decide⟩ := by decide +kernel
  simp only [closingStatement, List.forall_mem_cons]
  refine ⟨⟨?_, ?_, ?_, ?_⟩, ⟨?_, ?_, ?_, ?_⟩, ⟨?_, ?_, ?_, ?_⟩, ⟨?_, ?_, ?_, ?_⟩, ?_⟩ <;>
    simp [TokenKind.carriesText, hDay]

theorem declaration_adds_closing :
    ∃ t : State Unit, declaration (.standard {})
      { State.start () .empty closingStatement with depth := 1 } = (.ok (), t) ∧
      t.input = [] ∧ t.directives = [⟨⟨.closing ⟨2024, 1, 31, by decide⟩ "Assets:Cash",
        ⟨"<string>", 1⟩⟩, .origin⟩] := by
  refine ((declaration_adds_iff_derived (s := { State.start () .empty closingStatement with
    depth := 1 }) rfl (by decide) (.inl rfl) closingStatement_complete closingStatement [] rfl).1
    _).2 ⟨.entry ⟨_, rfl⟩ (.line (.closing ⟨_, rfl⟩ ⟨_, rfl⟩) (.plain ⟨_, rfl⟩)), rfl, ?_, ?_⟩
  · decide +kernel
  · exact fun h => absurd h (by decide)

end Parse

end LedgerText
