import LedgerText.Proofs.Grammar.Postings

/-!
# Success of the productions of a transaction

The repetitions of the grammar, and the transaction that is made of them. A
repetition succeeds exactly by reading as many leaves or lines as come next,
which is what `PostingLineNode.AllGreedy` asks of the lines of a transaction.
-/

namespace LedgerText.Parse

open Grammar Step

variable {σ α : Type} {options : Options}

/-! ## Repetition -/

/-- A repetition stops where nothing is ahead, and else goes on behind one more step. -/
theorem repeatWhile_eq_ok {ahead : State σ → Bool} {m : Step σ α}
    {hAhead : ∀ s, ahead s → s.lookahead.kind ≠ .endOfInput} {hm : Consumes m} {s t : State σ}
    {values : List α} :
    repeatWhile ahead m hAhead hm s = (.ok values, t) ↔
      (ahead s = false ∧ values = [] ∧ s = t) ∨
        (ahead s = true ∧ ∃ a u others, m s = (.ok a, u) ∧
          repeatWhile ahead m hAhead hm u = (.ok others, t) ∧ values = a :: others) := by
  by_cases hs : ahead s = true
  · rw [repeatWhile_of_true hs, bind_eq_ok]
    simp only [bind_eq_ok, pure_eq_ok]
    constructor
    · rintro ⟨a, u, hOne, others, _, hMore, rfl, rfl⟩
      exact .inr ⟨hs, a, u, others, hOne, hMore, rfl⟩
    · rintro (⟨hFalse, -, -⟩ | ⟨-, a, u, others, hOne, hMore, rfl⟩)
      · exact absurd (hs.symm.trans hFalse) (by decide)
      · exact ⟨a, u, hOne, others, t, hMore, rfl, rfl⟩
  · rw [repeatWhile_of_false (by simpa using hs)]
    constructor
    · intro h
      cases h
      exact .inl ⟨by simpa using hs, rfl, rfl⟩
    · rintro (⟨-, rfl, rfl⟩ | ⟨hTrue, -⟩)
      · rfl
      · exact absurd hTrue hs

theorem comesNext_eq_true {kind : TokenKind} {s : State σ} :
    comesNext kind s = true ↔ s.lookahead.kind = kind := by
  rw [comesNext, decide_eq_true_iff]

theorem comesNext_eq_false {kind : TokenKind} {s : State σ} :
    comesNext kind s = false ↔ nextKind s.input ≠ kind := by
  rw [comesNext, decide_eq_false_iff_not, State.lookahead_kind]

theorem mapM_cons_eq_some {β : Type} {f : α → Option β} {a : α} {as : List α} {bs : List β} :
    (a :: as).mapM f = some bs ↔
      ∃ b others, f a = some b ∧ as.mapM f = some others ∧ b :: others = bs := by
  simp only [List.mapM_cons, Option.bind_eq_bind, Option.bind_eq_some_iff, Option.pure_def,
    Option.some.injEq]
  constructor
  · rintro ⟨b, hHead, others, hTail, hCons⟩
    exact ⟨b, others, hHead, hTail, hCons⟩
  · rintro ⟨b, others, hHead, hTail, hCons⟩
    exact ⟨b, hHead, others, hTail, hCons⟩

/-- The texts of leaves of one kind are read as long as there are any. -/
theorem texts_eq_ok {kind : TokenKind} {hKind : kind ≠ .endOfInput} {s t : State σ}
    {values : List String} :
    texts kind hKind s = (.ok values, t) ↔
      ∃ ls : List (Leaf kind), ls.mapM Leaf.text? = some values ∧ nextKind t.input ≠ kind ∧
        s.Reads (ls.map Leaf.token) t := by
  constructor
  · intro h
    induction values generalizing s with
    | nil =>
        rcases repeatWhile_eq_ok.1 h with ⟨hStop, -, rfl⟩ | ⟨-, a, u, others, -, -, hCons⟩
        · exact ⟨[], rfl, comesNext_eq_false.1 hStop, State.reads_nil.2 rfl⟩
        · cases hCons
    | cons value values ih =>
        rcases repeatWhile_eq_ok.1 h with ⟨-, hNil, -⟩ | ⟨-, a, u, others, hOne, hMore, hCons⟩
        · cases hNil
        · cases hCons
          obtain ⟨l, hText, hFirst⟩ := (takeText_eq_ok hKind).1 hOne
          obtain ⟨ls, hTexts, hStop, hRest⟩ := ih hMore
          refine ⟨l :: ls, mapM_cons_eq_some.2 ⟨_, _, hText, hTexts, rfl⟩, hStop, ?_⟩
          exact State.reads_cons.2 ⟨u, hFirst, hRest⟩
  · rintro ⟨ls, hTexts, hStop, hReads⟩
    induction ls generalizing s values with
    | nil =>
        obtain rfl := State.reads_nil.1 hReads
        cases hTexts
        exact repeatWhile_eq_ok.2 (.inl ⟨comesNext_eq_false.2 hStop, rfl, rfl⟩)
    | cons l ls ih =>
        obtain ⟨value, others, hText, hMore, rfl⟩ := mapM_cons_eq_some.1 hTexts
        obtain ⟨u, hFirst, hRest⟩ := State.reads_cons.1 hReads
        have hAhead : s.lookahead.kind = kind := by
          rw [hFirst.lookahead_eq, l.kind_eq]
        have hOne : takeText kind [kind] s = (.ok value, u) :=
          (takeText_eq_ok hKind).2 ⟨l, hText, hFirst⟩
        exact repeatWhile_eq_ok.2 (.inr ⟨comesNext_eq_true.2 hAhead, value, u, others, hOne,
          ih hMore hRest, rfl⟩)

/-- Leaves that are read come next, unless there are none. -/
theorem lookahead_of_leaves {kind : TokenKind} {ls : List (Leaf kind)} {s t : State σ}
    (h : s.Reads (ls.map Leaf.token) t) : s.lookahead.kind = kind ∨ s = t := by
  cases ls with
  | nil => exact .inr (State.reads_nil.1 h)
  | cons l ls =>
      left
      rw [h.lookahead_eq, l.kind_eq]

/-! ## Titles -/

theorem title_eq_ok {s t : State σ} {said : Title} :
    title s = (.ok said, t) ↔
      ∃ n : TitleNode, n.value? = some (said.payee, said.narration) ∧
        (∀ l, n = .narration l → nextKind t.input ≠ .mark .pipe ∧ nextKind t.input ≠ .string) ∧
        s.Reads n.tokens t := by
  have hString : TokenKind.string ≠ .endOfInput := by decide
  have hPipe : TokenKind.mark .pipe ≠ .endOfInput := by decide
  rw [title]
  constructor
  · intro h
    obtain ⟨first, u, hTake, hRest⟩ := bind_eq_ok.1 h
    obtain ⟨l, hText, hFirst⟩ := (takeText_eq_ok hString).1 hTake
    rw [peek_bind] at hRest
    generalize hNext : u.lookahead.kind = kind at hRest
    split at hRest
    · simp only [skip_bind, bind_eq_ok, takeText_eq_ok hString, pure_eq_ok] at hRest
      obtain ⟨narration, v, ⟨m, hMore, hThird⟩, rfl, rfl⟩ := hRest
      obtain ⟨p, hSecond⟩ := (State.next_iff hPipe).1 ⟨hNext, rfl⟩
      refine ⟨.payee l (some p) m, by simp [TitleNode.value?, hText, hMore], by simp, ?_⟩
      exact State.reads_cons.2 ⟨u, hFirst, State.reads_cons.2 ⟨_, hSecond, hThird⟩⟩
    · simp only [bind_eq_ok, takeText_eq_ok hString, pure_eq_ok] at hRest
      obtain ⟨narration, v, ⟨m, hMore, hSecond⟩, rfl, rfl⟩ := hRest
      refine ⟨.payee l none m, by simp [TitleNode.value?, hText, hMore], by simp, ?_⟩
      exact State.reads_cons.2 ⟨u, hFirst, hSecond⟩
    · rename_i hNotPipe hNotString
      obtain ⟨rfl, rfl⟩ := pure_eq_ok.1 hRest
      refine ⟨.narration l, by simp [TitleNode.value?, hText], fun _ _ => ?_, hFirst⟩
      rw [← State.lookahead_kind, hNext]
      exact ⟨hNotPipe, hNotString⟩
  · rintro ⟨n, hValue, hStop, hReads⟩
    obtain ⟨saidPayee, saidNarration⟩ := said
    cases n with
    | narration l =>
        simp only [TitleNode.value?, Option.bind_eq_bind, Option.bind_eq_some_iff,
          Option.pure_def, Option.some.injEq, Prod.mk.injEq] at hValue
        obtain ⟨text, hText, rfl, rfl⟩ := hValue
        obtain ⟨hNotPipe, hNotString⟩ := hStop l rfl
        refine bind_eq_ok.2 ⟨text, t, (takeText_eq_ok hString).2 ⟨l, hText, hReads⟩, ?_⟩
        rw [← State.lookahead_kind] at hNotPipe hNotString
        rw [peek_bind]
        generalize t.lookahead.kind = kind at hNotPipe hNotString ⊢
        split
        · exact absurd rfl hNotPipe
        · exact absurd rfl hNotString
        · rfl
    | payee l p m =>
        simp only [TitleNode.value?, Option.bind_eq_bind, Option.bind_eq_some_iff,
          Option.pure_def, Option.some.injEq, Prod.mk.injEq] at hValue
        obtain ⟨payee, hPayee, narration, hNarration, rfl, rfl⟩ := hValue
        simp only [TitleNode.tokens, List.cons_append] at hReads
        obtain ⟨u, hFirst, hMore⟩ := State.reads_cons.1 hReads
        refine bind_eq_ok.2 ⟨payee, u, (takeText_eq_ok hString).2 ⟨l, hPayee, hFirst⟩, ?_⟩
        rw [peek_bind]
        cases p with
        | none =>
            have hSecond : u.Reads [m.token] t := hMore
            rw [hSecond.lookahead_eq, m.kind_eq]
            simp only [bind_eq_ok, takeText_eq_ok hString, pure_eq_ok]
            exact ⟨narration, t, ⟨m, hNarration, hSecond⟩, rfl, rfl⟩
        | some p =>
            obtain ⟨v, hSecond, hThird⟩ := State.reads_cons.1 hMore
            have hKind : u.lookahead.kind = .mark .pipe := by
              rw [hSecond.lookahead_eq]
              exact p.kind_eq
            rw [hKind]
            simp only [skip_bind, bind_eq_ok, takeText_eq_ok hString, pure_eq_ok,
              hSecond.next_eq (l := p) hPipe]
            exact ⟨narration, t, ⟨m, hNarration, hThird⟩, rfl, rfl⟩

/-! ## Lines -/

/-- The last token of a line end is an `EOL` exactly if it closes its line. -/
theorem atLineStart_of_lineEnd {e : LineEndNode} {w : List Token} {s t : State σ}
    (h : s.Reads (w ++ e.tokens) t) : t.atLineStart = e.closesLine := by
  rw [h.state_eq]
  cases e with
  | plain l => simp [State.atLineStart, LineEndNode.tokens, LineEndNode.closesLine, l.kind_eq]
  | indent l e =>
      cases e <;> simp [State.atLineStart, LineEndNode.tokens, LineEndNode.closesLine,
        optionalToken, List.getLast?_append, Leaf.kind_eq]
  | comment l e =>
      cases e <;> simp [State.atLineStart, LineEndNode.tokens, LineEndNode.closesLine,
        optionalToken, List.getLast?_append, Leaf.kind_eq]

/-- A line of a transaction is its own tokens up to a line end, and the line end. -/
theorem tokens_eq_append_lineEnd (line : PostingLineNode) :
    ∃ w, line.tokens = w ++ line.lineEnd.tokens := by
  cases line with
  | posting n => exact ⟨_, rfl⟩
  | comment l e => exact ⟨[], rfl⟩

/-- What comes next where a line of a transaction is read. -/
theorem lookahead_of_line {line : PostingLineNode} {s t : State σ} (h : s.Reads line.tokens t) :
    s.lookahead.kind = if line.isComment then .comment else .indent := by
  cases line with
  | posting n =>
      simp only [PostingLineNode.tokens, PostingNode.tokens, List.cons_append] at h
      rw [h.lookahead_eq, n.indent.kind_eq]
      rfl
  | comment l e =>
      rw [h.lookahead_eq, l.kind_eq]
      rfl

theorem postingLine_eq_ok {s t : State Unit} {value : Option Posting}
    (hDepth : s.depth + 3 < options.maxDepth) (hAhead : postingAhead s = true) :
    postingLine (.standard options) s = (.ok value, t) ↔
      ∃ line : PostingLineNode, line.value? = some value ∧ line.lineEnd.Greedy t.input ∧
        s.Reads line.tokens t := by
  rw [postingLine, peek_bind]
  simp only [postingAhead, decide_eq_true_eq] at hAhead
  rcases hAhead with hIndent | ⟨hComment, -⟩
  · rw [hIndent]
    simp only [bind_eq_ok, pure_eq_ok, posting_eq_ok hDepth hIndent]
    constructor
    · rintro ⟨p, u, ⟨n, ⟨hValue, hGreedy⟩, hReads⟩, rfl, rfl⟩
      exact ⟨.posting n, by simp [PostingLineNode.value?, hValue], hGreedy, hReads⟩
    · rintro ⟨line, hValue, hGreedy, hReads⟩
      have hKind := lookahead_of_line hReads
      cases line with
      | posting n =>
          obtain ⟨p, hPosting, rfl⟩ := Option.map_eq_some_iff.1 hValue
          exact ⟨p, t, ⟨n, ⟨hPosting, hGreedy⟩, hReads⟩, rfl, rfl⟩
      | comment l e => simp [hIndent, PostingLineNode.isComment] at hKind
  · rw [hComment]
    simp only [bind_eq_ok, pure_eq_ok, lineEnd_eq_ok]
    constructor
    · rintro ⟨_, u, ⟨e, hGreedy, hReads⟩, rfl, rfl⟩
      cases e with
      | plain l =>
          rw [hReads.lookahead_eq] at hComment
          exact absurd (l.kind_eq.symm.trans hComment) (by decide)
      | indent l e =>
          rw [hReads.lookahead_eq] at hComment
          exact absurd (l.kind_eq.symm.trans hComment) (by decide)
      | comment l e => exact ⟨.comment l e, rfl, hGreedy, hReads⟩
    · rintro ⟨line, hValue, hGreedy, hReads⟩
      have hKind := lookahead_of_line hReads
      cases line with
      | posting n => simp [hComment, PostingLineNode.isComment] at hKind
      | comment l e =>
          cases hValue
          exact ⟨(), t, ⟨.comment l e, hGreedy, hReads⟩, rfl, rfl⟩

/-- Where no line comes next, it is right to stop. -/
theorem postingAhead_eq_false {s : State σ} :
    postingAhead s = false ↔ PostingLineNode.AllGreedy s.atLineStart [] s.input := by
  rw [PostingLineNode.AllGreedy, ← State.lookahead_kind]
  simp only [postingAhead, decide_eq_false_iff_not, not_or, not_and]
  constructor
  · intro h
    exact ⟨h.1, fun hFresh hComment => h.2 hComment hFresh⟩
  · intro h
    exact ⟨h.1, fun hComment hFresh => h.2 hFresh hComment⟩

/-- Lines are read as long as there are any. -/
theorem lines_eq_ok {s t : State Unit} {values : List (Option Posting)}
    (hDepth : s.depth + 3 < options.maxDepth) :
    repeatWhile postingAhead (postingLine (.standard options)) postingAhead_ne
        (consumes_postingLine _) s = (.ok values, t) ↔
      ∃ lines : List PostingLineNode, lines.mapM PostingLineNode.value? = some values ∧
        PostingLineNode.AllGreedy s.atLineStart lines t.input ∧
        s.Reads (PostingLineNode.allTokens lines) t := by
  constructor
  · intro h
    induction values generalizing s with
    | nil =>
        rcases repeatWhile_eq_ok.1 h with ⟨hStop, -, rfl⟩ | ⟨-, a, u, others, -, -, hCons⟩
        · exact ⟨[], rfl, postingAhead_eq_false.1 hStop, State.reads_nil.2 rfl⟩
        · cases hCons
    | cons value values ih =>
        rcases repeatWhile_eq_ok.1 h with ⟨-, hNil, -⟩ | ⟨hAhead, a, u, others, hOne, hMore, hCons⟩
        · cases hNil
        · cases hCons
          obtain ⟨line, hValue, hGreedy, hFirst⟩ := (postingLine_eq_ok hDepth hAhead).1 hOne
          obtain ⟨lines, hValues, hLines, hRest⟩ := ih (by rw [hFirst.depth_eq]; exact hDepth) hMore
          obtain ⟨w, hTokens⟩ := tokens_eq_append_lineEnd line
          have hFresh := atLineStart_of_lineEnd (hTokens ▸ hFirst)
          refine ⟨line :: lines, mapM_cons_eq_some.2 ⟨_, _, hValue, hValues, rfl⟩,
            ⟨fun hComment => ?_, hRest.input_eq ▸ hGreedy, hFresh ▸ hLines⟩,
            State.reads_append.2 ⟨u, hFirst, hRest⟩⟩
          have hKind := lookahead_of_line hFirst
          rw [hComment, if_pos rfl] at hKind
          simpa [postingAhead, hKind] using hAhead
  · rintro ⟨lines, hValues, hLines, hReads⟩
    induction lines generalizing s values with
    | nil =>
        obtain rfl := State.reads_nil.1 hReads
        cases hValues
        exact repeatWhile_eq_ok.2 (.inl ⟨postingAhead_eq_false.2 hLines, rfl, rfl⟩)
    | cons line lines ih =>
        obtain ⟨value, others, hValue, hMore, rfl⟩ := mapM_cons_eq_some.1 hValues
        obtain ⟨u, hFirst, hRest⟩ := State.reads_append.1 hReads
        obtain ⟨hComment, hGreedy, hOthers⟩ := hLines
        obtain ⟨w, hTokens⟩ := tokens_eq_append_lineEnd line
        have hFresh := atLineStart_of_lineEnd (hTokens ▸ hFirst)
        have hKind := lookahead_of_line hFirst
        have hAhead : postingAhead s = true := by
          cases hLine : line.isComment with
          | false => simp [postingAhead, hKind, hLine]
          | true => simp [postingAhead, hKind, hLine, hComment hLine]
        refine repeatWhile_eq_ok.2 (.inr ⟨hAhead, value, u, others, ?_, ?_, rfl⟩)
        · exact (postingLine_eq_ok hDepth hAhead).2
            ⟨line, hValue, hRest.input_eq ▸ hGreedy, hFirst⟩
        · exact ih (by rw [hFirst.depth_eq]; exact hDepth) hMore (hFresh ▸ hOthers) hRest

theorem postingLines_eq_ok {s t : State Unit} {postings : List Posting}
    (hDepth : s.depth + 3 < options.maxDepth) :
    postingLines (.standard options) s = (.ok postings, t) ↔
      ∃ lines : List PostingLineNode, PostingLineNode.postings? lines = some postings ∧
        PostingLineNode.AllGreedy s.atLineStart lines t.input ∧
        s.Reads (PostingLineNode.allTokens lines) t := by
  simp only [postingLines, bind_eq_ok, lines_eq_ok hDepth, pure_eq_ok,
    PostingLineNode.postings?, Option.map_eq_some_iff]
  constructor
  · rintro ⟨values, u, ⟨lines, hValues, hGreedy, hReads⟩, rfl, rfl⟩
    exact ⟨lines, ⟨values, hValues, rfl⟩, hGreedy, hReads⟩
  · rintro ⟨lines, ⟨values, hValues, rfl⟩, hGreedy, hReads⟩
    exact ⟨values, t, ⟨lines, hValues, hGreedy, hReads⟩, rfl, rfl⟩

/-! ## Transactions -/

/-- The standard builder adds the active tags to a statement and changes nothing else. -/
theorem conclude_eq_ok {heading : Heading} {content : Content} {s t : State Unit}
    {d : Directive} :
    conclude (.standard options) heading content s = (.ok d, t) ↔
      ⟨content.addTags s.tags, heading.location⟩ = d ∧ s = t := by
  unfold conclude
  rw [reviewFrom_eq_ok]
  simp [Builder.standard]

theorem transactionNode_value?_eq_some {n : TransactionNode} {date : Date} {x : Transaction} :
    n.value? date = some x ↔ n.flag.value? = some x.flag ∧
      n.title.value? = some (x.payee, x.narration) ∧ n.tags.mapM Leaf.text? = some x.tags ∧
      n.links.mapM Leaf.text? = some x.links ∧
      PostingLineNode.postings? n.lines = some x.postings ∧ x.date = date := by
  obtain ⟨day, flag, payee, narration, tags, links, postings⟩ := x
  simp only [TransactionNode.value?, Option.bind_eq_bind, Option.bind_eq_some_iff,
    Option.pure_def, Option.some.injEq, Transaction.mk.injEq]
  constructor
  · rintro ⟨_, hFlag, ⟨_, _⟩, hTitle, _, hTags, _, hLinks, _, hPostings, rfl, rfl, rfl, rfl, rfl,
      rfl, rfl⟩
    exact ⟨hFlag, hTitle, hTags, hLinks, hPostings, rfl⟩
  · rintro ⟨hFlag, hTitle, hTags, hLinks, hPostings, rfl⟩
    exact ⟨flag, hFlag, (payee, narration), hTitle, tags, hTags, links, hLinks, postings,
      hPostings, rfl, rfl, rfl, rfl, rfl, rfl, rfl⟩

theorem transaction_eq_ok {heading : Heading} {date : Date} {s t : State Unit} {d : Directive}
    (hDepth : s.depth + 4 < options.maxDepth)
    (hNext : s.lookahead.kind = .keyword .txn ∨ s.lookahead.kind = .flag) :
    transaction (.standard options) heading date s = (.ok d, t) ↔
      ∃ n : TransactionNode, ((∃ x, n.value? date = some x ∧
        ⟨(Content.transaction x).addTags s.tags, heading.location⟩ = d) ∧
        n.Greedy t.input) ∧ s.Reads n.tokens t := by
  refine nested_eq_ok_iff (P := fun n rest => (∃ x, TransactionNode.value? n date = some x ∧
    ⟨(Content.transaction x).addTags s.tags, heading.location⟩ = d) ∧ n.Greedy rest)
    (show s.depth < options.maxDepth by omega) fun u => ?_
  simp only [bind_eq_ok, flag_eq_ok (s := { s with depth := s.depth + 1 }) hNext, title_eq_ok,
    texts_eq_ok, lineEnd_eq_ok, conclude_eq_ok]
  constructor
  · rintro ⟨c, s₁, ⟨f, hFlag, h₁⟩, said, s₂, ⟨n, hTitle, -, h₂⟩, tags, s₃, ⟨ts, hTags, -, h₃⟩,
      links, s₄, ⟨ls, hLinks, -, h₄⟩, _, s₅, ⟨e, hGreedy, h₅⟩, postings, s₆, hLines, hDirective,
      rfl⟩
    have hRoom : s₅.depth + 3 < options.maxDepth := by
      rw [h₅.depth_eq, h₄.depth_eq, h₃.depth_eq, h₂.depth_eq, h₁.depth_eq]
      change s.depth + 1 + 3 < options.maxDepth
      omega
    obtain ⟨lines, hPostings, hAll, h₆⟩ := (postingLines_eq_ok hRoom).1 hLines
    have hTagsEq : s₆.tags = s.tags := by
      rw [h₆.tags_eq, h₅.tags_eq, h₄.tags_eq, h₃.tags_eq, h₂.tags_eq, h₁.tags_eq]
    have hFresh : s₅.atLineStart = e.closesLine := atLineStart_of_lineEnd (w := []) h₅
    refine ⟨⟨f, n, ts, ls, e, lines⟩, ⟨⟨⟨date, c, said.payee, said.narration, tags, links,
      postings⟩, ?_, ?_⟩, ?_⟩, ?_⟩
    · exact transactionNode_value?_eq_some.2 ⟨hFlag, hTitle, hTags, hLinks, hPostings, rfl⟩
    · rw [← hTagsEq]
      exact hDirective
    · exact ⟨h₆.input_eq ▸ hGreedy, hFresh ▸ hAll⟩
    · simp only [TransactionNode.tokens, List.cons_append, List.append_assoc]
      exact State.reads_cons.2 ⟨s₁, h₁, State.reads_append.2 ⟨s₂, h₂, State.reads_append.2
        ⟨s₃, h₃, State.reads_append.2 ⟨s₄, h₄, State.reads_append.2 ⟨s₅, h₅, h₆⟩⟩⟩⟩⟩
  · rintro ⟨⟨f, n, ts, ls, e, lines⟩, ⟨⟨x, hValue, hDirective⟩, hGreedy, hAll⟩, hReads⟩
    obtain ⟨hFlag, hTitle, hTags, hLinks, hPostings, hDate⟩ :=
      transactionNode_value?_eq_some.1 hValue
    simp only [TransactionNode.tokens, List.cons_append, List.append_assoc] at hReads
    obtain ⟨s₁, h₁, hReads⟩ := State.reads_cons.1 hReads
    obtain ⟨s₂, h₂, hReads⟩ := State.reads_append.1 hReads
    obtain ⟨s₃, h₃, hReads⟩ := State.reads_append.1 hReads
    obtain ⟨s₄, h₄, hReads⟩ := State.reads_append.1 hReads
    obtain ⟨s₅, h₅, h₆⟩ := State.reads_append.1 hReads
    have hRoom : s₅.depth + 3 < options.maxDepth := by
      rw [h₅.depth_eq, h₄.depth_eq, h₃.depth_eq, h₂.depth_eq, h₁.depth_eq]
      change s.depth + 1 + 3 < options.maxDepth
      omega
    have hTagsEq : u.tags = s.tags := by
      rw [h₆.tags_eq, h₅.tags_eq, h₄.tags_eq, h₃.tags_eq, h₂.tags_eq, h₁.tags_eq]
    have hFresh : s₅.atLineStart = e.closesLine := atLineStart_of_lineEnd (w := []) h₅
    -- What comes next behind each part is what the parts behind it begin with.
    have hAfterLinks := lookahead_of_lineEnd h₅
    have hAfterTags : s₃.lookahead.kind = .link ∨ s₃.lookahead.kind = .lineEnd ∨
        s₃.lookahead.kind = .indent ∨ s₃.lookahead.kind = .comment := by
      rcases lookahead_of_leaves h₄ with hLink | rfl
      · exact .inl hLink
      · exact .inr hAfterLinks
    have hAfterTitle : s₂.lookahead.kind = .tag ∨ s₂.lookahead.kind = .link ∨
        s₂.lookahead.kind = .lineEnd ∨ s₂.lookahead.kind = .indent ∨
        s₂.lookahead.kind = .comment := by
      rcases lookahead_of_leaves h₃ with hTag | rfl
      · exact .inl hTag
      · exact .inr hAfterTags
    refine ⟨x.flag, s₁, ⟨f, hFlag, h₁⟩, ⟨x.payee, x.narration⟩, s₂,
      ⟨n, hTitle, fun _ _ => ?_, h₂⟩, x.tags, s₃, ⟨ts, hTags, ?_, h₃⟩, x.links, s₄,
      ⟨ls, hLinks, ?_, h₄⟩, (), s₅, ⟨e, h₆.input_eq ▸ hGreedy, h₅⟩, x.postings, u, ?_, ?_, rfl⟩
    · rw [← State.lookahead_kind]
      rcases hAfterTitle with h | h | h | h | h <;> simp [h]
    · rw [← State.lookahead_kind]
      rcases hAfterTags with h | h | h | h <;> simp [h]
    · rw [← State.lookahead_kind]
      rcases hAfterLinks with h | h | h <;> simp [h]
    · exact (postingLines_eq_ok hRoom).2 ⟨lines, hPostings, hFresh ▸ hAll, h₆⟩
    · rw [hTagsEq, ← hDirective, ← hDate]

end LedgerText.Parse
