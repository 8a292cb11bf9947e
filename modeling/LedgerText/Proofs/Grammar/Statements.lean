import LedgerText.Proofs.Grammar.Transactions

/-!
# Success of whole statements

A dated statement or an option succeeds exactly by reading the tokens of one of
its parse trees, the greedy choices made. It yields what the tree says, with the
active tags added to it, and the part of the text from the first token of the
tree to its last.
-/

namespace LedgerText.Parse

open Grammar Step

variable {σ : Type} {options : Options} {heading : Heading} {date : Date}

/-! ## Currencies -/

theorem listedCurrency_eq_ok {s t : State σ} {text : String} :
    listedCurrency s = (.ok text, t) ↔
      ∃ (l : Leaf .currency) (c : Option (Leaf (.mark .comma))), l.text? = some text ∧
        (if c.isSome then nextKind t.input = .currency else nextKind t.input ≠ .mark .comma) ∧
        s.Reads (l.token :: optionalToken c) t := by
  have hCurrency : TokenKind.currency ≠ .endOfInput := by decide
  have hComma : TokenKind.mark .comma ≠ .endOfInput := by decide
  rw [listedCurrency]
  constructor
  · intro h
    obtain ⟨first, u, hTake, hRest⟩ := bind_eq_ok.1 h
    obtain ⟨l, hText, hFirst⟩ := (takeText_eq_ok hCurrency).1 hTake
    rw [peek_bind] at hRest
    generalize hNext : u.lookahead.kind = kind at hRest
    split at hRest
    · obtain ⟨c, hSecond⟩ := (State.next_iff hComma).1 ⟨hNext, rfl⟩
      rw [skip_bind, peek_bind] at hRest
      generalize hThird : u.next.lookahead.kind = third at hRest
      split at hRest
      · obtain ⟨rfl, rfl⟩ := pure_eq_ok.1 hRest
        refine ⟨l, some c, hText, ?_, State.reads_cons.2 ⟨u, hFirst, hSecond⟩⟩
        rw [if_pos (by rfl), ← State.lookahead_kind, hThird]
      · exact absurd hRest unexpected_ne_ok
    · rename_i hNotComma
      obtain ⟨rfl, rfl⟩ := pure_eq_ok.1 hRest
      refine ⟨l, none, hText, ?_, hFirst⟩
      rw [if_neg (by simp), ← State.lookahead_kind, hNext]
      exact hNotComma
  · rintro ⟨l, c, hText, hNext, hReads⟩
    obtain ⟨u, hFirst, hMore⟩ := State.reads_cons.1 hReads
    refine bind_eq_ok.2 ⟨text, u, (takeText_eq_ok hCurrency).2 ⟨l, hText, hFirst⟩, ?_⟩
    rw [peek_bind]
    cases c with
    | none =>
        obtain rfl := State.reads_nil.1 hMore
        rw [if_neg (by simp), ← State.lookahead_kind] at hNext
        generalize u.lookahead.kind = kind at hNext ⊢
        split
        · exact absurd rfl hNext
        · rfl
    | some c =>
        have hSecond : u.Reads [c.token] t := hMore
        rw [if_pos (by rfl), ← State.lookahead_kind] at hNext
        rw [hSecond.lookahead_eq, c.kind_eq]
        simp only [skip_bind, hSecond.next_eq hComma, peek_bind, hNext]
        rfl

theorem listed?_one {l : Leaf .currency} {values : List String} :
    CurrenciesNode.listed? (some (.one l)) = some values ↔
      ∃ text, l.text? = some text ∧ [text] = values := by
  simp only [CurrenciesNode.listed?, CurrenciesNode.value?, Option.bind_eq_bind,
    Option.bind_eq_some_iff, Option.pure_def, Option.some.injEq]

theorem listed?_more {l : Leaf .currency} {c : Option (Leaf (.mark .comma))} {n : CurrenciesNode}
    {values : List String} :
    CurrenciesNode.listed? (some (.more l c n)) = some values ↔
      ∃ text, l.text? = some text ∧ ∃ others, CurrenciesNode.listed? (some n) = some others ∧
        text :: others = values := by
  simp only [CurrenciesNode.listed?, CurrenciesNode.value?, Option.bind_eq_bind,
    Option.bind_eq_some_iff, Option.pure_def, Option.some.injEq]

theorem lookahead_of_currencies {n : CurrenciesNode} {s t : State σ} (h : s.Reads n.tokens t) :
    s.lookahead.kind = .currency := by
  cases n with
  | one l => rw [h.lookahead_eq, l.kind_eq]
  | more l c n =>
      rw [CurrenciesNode.tokens, List.cons_append] at h
      rw [h.lookahead_eq, l.kind_eq]

/-- Currencies are read as long as there are any, with a comma only between two of them. -/
theorem currencies_eq_ok {s t : State σ} {values : List String} :
    currencies s = (.ok values, t) ↔
      ∃ n : Option CurrenciesNode, CurrenciesNode.listed? n = some values ∧
        nextKind t.input ≠ .currency ∧ (n.isSome → nextKind t.input ≠ .mark .comma) ∧
        s.Reads (n.elim [] CurrenciesNode.tokens) t := by
  constructor
  · intro h
    induction values generalizing s with
    | nil =>
        rcases repeatWhile_eq_ok.1 h with ⟨hStop, -, rfl⟩ | ⟨-, a, u, others, -, -, hCons⟩
        · exact ⟨none, rfl, comesNext_eq_false.1 hStop, by simp, State.reads_nil.2 rfl⟩
        · cases hCons
    | cons value values ih =>
        rcases repeatWhile_eq_ok.1 h with ⟨-, hNil, -⟩ | ⟨-, a, u, others, hOne, hMore, hCons⟩
        · cases hNil
        · cases hCons
          obtain ⟨l, c, hText, hNext, hFirst⟩ := listedCurrency_eq_ok.1 hOne
          obtain ⟨n, hValues, hStop, hComma, hRest⟩ := ih hMore
          cases n with
          | none =>
              obtain rfl := State.reads_nil.1 hRest
              cases hValues
              cases c with
              | none =>
                  exact ⟨some (.one l), listed?_one.2 ⟨_, hText, rfl⟩, hStop, fun _ => hNext,
                    hFirst⟩
              | some c => exact absurd hNext hStop
          | some n =>
              exact ⟨some (.more l c n), listed?_more.2 ⟨_, hText, values, hValues, rfl⟩, hStop,
                fun _ => hComma rfl, State.reads_append.2 ⟨u, hFirst, hRest⟩⟩
  · rintro ⟨n, hValues, hStop, hComma, hReads⟩
    have hEnd : currencies t = (.ok [], t) :=
      repeatWhile_eq_ok.2 (.inl ⟨comesNext_eq_false.2 hStop, rfl, rfl⟩)
    cases n with
    | none =>
        obtain rfl := State.reads_nil.1 hReads
        cases hValues
        exact hEnd
    | some n =>
        have hAhead := comesNext_eq_true.2 (lookahead_of_currencies hReads)
        induction n generalizing s values with
        | one l =>
            obtain ⟨text, hText, rfl⟩ := listed?_one.1 hValues
            have hOne : listedCurrency s = (.ok text, t) :=
              listedCurrency_eq_ok.2 ⟨l, none, hText, hComma rfl, hReads⟩
            exact repeatWhile_eq_ok.2 (.inr ⟨hAhead, text, t, [], hOne, hEnd, rfl⟩)
        | more l c n ih =>
            obtain ⟨text, hText, others, hOthers, rfl⟩ := listed?_more.1 hValues
            obtain ⟨u, hFirst, hRest⟩ := State.reads_append.1 hReads
            have hNext : u.lookahead.kind = .currency := lookahead_of_currencies hRest
            have hOne : listedCurrency s = (.ok text, u) := by
              refine listedCurrency_eq_ok.2 ⟨l, c, hText, ?_, hFirst⟩
              rw [← State.lookahead_kind, hNext]
              cases c <;> simp
            exact repeatWhile_eq_ok.2 (.inr ⟨hAhead, text, u, others, hOne,
              ih hOthers hComma hRest (comesNext_eq_true.2 hNext), rfl⟩)

/-! ## Statements of one line -/

/-- A statement of one line is finished by its line end and the builder. -/
theorem finish_eq_ok {also : List TokenKind} {content : Content} {s t : State Unit}
    {d : Directive} :
    (lineEnd also >>= fun _ => conclude (.standard options) heading content) s = (.ok d, t) ↔
      ∃ e : LineEndNode, ⟨content.addTags s.tags, heading.location⟩ = d ∧ e.Greedy t.input ∧
        s.Reads e.tokens t := by
  simp only [bind_eq_ok, lineEnd_eq_ok, conclude_eq_ok]
  constructor
  · rintro ⟨_, u, ⟨e, hGreedy, hReads⟩, hDirective, rfl⟩
    exact ⟨e, hReads.tags_eq ▸ hDirective, hGreedy, hReads⟩
  · rintro ⟨e, hDirective, hGreedy, hReads⟩
    exact ⟨(), t, ⟨e, hGreedy, hReads⟩, hReads.tags_eq.symm ▸ hDirective, rfl⟩

/-- From one state to another, a statement of one line is read and yields a directive. -/
def Finishes (heading : Heading) (date : Date) (n : LineNode) (s : State Unit) (d : Directive)
    (t : State Unit) : Prop :=
  ∃ content e, n.value? date = some content ∧
    ⟨content.addTags s.tags, heading.location⟩ = d ∧ LineEndNode.Greedy e t.input ∧
    s.Reads (n.tokens ++ e.tokens) t

/-- Behind the word and the fields of a statement of one line, its line end is left to be read. -/
theorem finishes_of_finish {also : List TokenKind} {n : LineNode} {content : Content}
    {s u t : State Unit} {d : Directive} (hValue : n.value? date = some content)
    (hReads : s.Reads n.tokens u) :
    (lineEnd also >>= fun _ => conclude (.standard options) heading content) u = (.ok d, t) →
      Finishes heading date n s d t := by
  rw [finish_eq_ok]
  rintro ⟨e, hDirective, hGreedy, hLast⟩
  exact ⟨content, e, hValue, hReads.tags_eq ▸ hDirective, hGreedy,
    State.reads_append.2 ⟨u, hReads, hLast⟩⟩

theorem exists_of_finishes {also : List TokenKind} {n : LineNode} {s t : State Unit}
    {d : Directive} (h : Finishes heading date n s d t) :
    ∃ content u, n.value? date = some content ∧ s.Reads n.tokens u ∧
      (lineEnd also >>= fun _ => conclude (.standard options) heading content) u = (.ok d, t) ∧
      (u.lookahead.kind = .lineEnd ∨ u.lookahead.kind = .indent ∨
        u.lookahead.kind = .comment) := by
  obtain ⟨content, e, hValue, hDirective, hGreedy, hReads⟩ := h
  obtain ⟨u, hFront, hLast⟩ := State.reads_append.1 hReads
  refine ⟨content, u, hValue, hFront, ?_, lookahead_of_lineEnd hLast⟩
  exact finish_eq_ok.2 ⟨e, hFront.tags_eq.symm ▸ hDirective, hGreedy, hLast⟩

theorem closing_eq_ok {s t : State Unit} {d : Directive}
    (hNext : s.lookahead.kind = .keyword .closing) :
    closing (.standard options) heading date s = (.ok d, t) ↔
      ∃ word account, Finishes heading date (.closing word account) s d t := by
  have hWord : TokenKind.keyword .closing ≠ .endOfInput := by decide
  have hAccount : TokenKind.account ≠ .endOfInput := by decide
  rw [closing, skip_bind, bind_eq_ok]
  simp only [takeText_eq_ok hAccount]
  constructor
  · rintro ⟨account, u, ⟨a, hText, hSecond⟩, hRest⟩
    obtain ⟨w, hFirst⟩ := (State.next_iff hWord).1 ⟨hNext, rfl⟩
    exact ⟨w, a, finishes_of_finish (by simp [LineNode.value?, hText])
      (State.reads_cons.2 ⟨_, hFirst, hSecond⟩) hRest⟩
  · rintro ⟨w, a, h⟩
    obtain ⟨content, u, hValue, hReads, hRest, -⟩ := exists_of_finishes h
    simp only [LineNode.value?, Option.bind_eq_bind, Option.bind_eq_some_iff, Option.pure_def,
      Option.some.injEq] at hValue
    obtain ⟨account, hText, rfl⟩ := hValue
    obtain ⟨v, hFirst, hSecond⟩ := State.reads_cons.1 hReads
    rw [hFirst.next_eq hWord]
    exact ⟨account, u, ⟨a, hText, hSecond⟩, hRest⟩

section Fields

variable {first second third : TokenKind} {expectedFirst expectedSecond also : List TokenKind}
  {s t : State Unit} {d : Directive}

/-- A word and two texts. -/
theorem twoTexts_eq_ok {content : String → String → Content}
    {n : Leaf first → Leaf second → Leaf third → LineNode}
    (hFirst : first ≠ .endOfInput) (hSecond : second ≠ .endOfInput) (hThird : third ≠ .endOfInput)
    (hTokens : ∀ w a b, (n w a b).tokens = [w.token, a.token, b.token])
    (hValue : ∀ w a b, (n w a b).value? date = do pure (content (← a.text?) (← b.text?)))
    (hNext : s.lookahead.kind = first) :
    (skip >>= fun _ => takeText second expectedFirst >>= fun x =>
      takeText third expectedSecond >>= fun y =>
        lineEnd also >>= fun _ => conclude (.standard options) heading (content x y)) s =
        (.ok d, t) ↔
      ∃ w a b, Finishes heading date (n w a b) s d t := by
  rw [skip_bind, bind_eq_ok]
  simp only [takeText_eq_ok hSecond]
  constructor
  · rintro ⟨x, u, ⟨a, hText, hReads₁⟩, hRest⟩
    obtain ⟨y, v, hTake, hRest⟩ := bind_eq_ok.1 hRest
    obtain ⟨b, hMore, hReads₂⟩ := (takeText_eq_ok hThird).1 hTake
    obtain ⟨w, hReads₀⟩ := (State.next_iff hFirst).1 ⟨hNext, rfl⟩
    have hContent : (n w a b).value? date = some (content x y) := by
      simp [hValue, hText, hMore]
    refine ⟨w, a, b, finishes_of_finish hContent ?_ hRest⟩
    rw [hTokens]
    exact State.reads_cons.2 ⟨_, hReads₀, State.reads_cons.2 ⟨_, hReads₁, hReads₂⟩⟩
  · rintro ⟨w, a, b, h⟩
    obtain ⟨c, u, hContent, hReads, hRest, -⟩ := exists_of_finishes h
    rw [hTokens] at hReads
    obtain ⟨v, hReads₀, hMore⟩ := State.reads_cons.1 hReads
    obtain ⟨x, hReads₁, hReads₂⟩ := State.reads_cons.1 hMore
    simp only [hValue, Option.bind_eq_bind, Option.bind_eq_some_iff, Option.pure_def,
      Option.some.injEq] at hContent
    obtain ⟨y, hText, z, hMore, rfl⟩ := hContent
    rw [hReads₀.next_eq hFirst]
    exact ⟨y, x, ⟨a, hText, hReads₁⟩,
      bind_eq_ok.2 ⟨z, u, (takeText_eq_ok hThird).2 ⟨b, hMore, hReads₂⟩, hRest⟩⟩

/-- A word, a text and an amount. -/
theorem textAmount_eq_ok {content : String → Amount → Content}
    {n : Leaf first → Leaf second → AmountNode → LineNode}
    (hDepth : s.depth < options.maxDepth)
    (hFirst : first ≠ .endOfInput) (hSecond : second ≠ .endOfInput)
    (hTokens : ∀ w a b, (n w a b).tokens = w.token :: a.token :: b.tokens)
    (hValue : ∀ w a b, (n w a b).value? date = do pure (content (← a.text?) (← b.value?)))
    (hNext : s.lookahead.kind = first) :
    (skip >>= fun _ => takeText second expectedFirst >>= fun x =>
      amount (.standard options) >>= fun y =>
        lineEnd also >>= fun _ => conclude (.standard options) heading (content x y)) s =
        (.ok d, t) ↔
      ∃ w a b, Finishes heading date (n w a b) s d t := by
  rw [skip_bind, bind_eq_ok]
  simp only [takeText_eq_ok hSecond]
  constructor
  · rintro ⟨x, u, ⟨a, hText, hReads₁⟩, hRest⟩
    obtain ⟨y, v, hAmount, hRest⟩ := bind_eq_ok.1 hRest
    have hRoom : u.depth < options.maxDepth := by
      rw [hReads₁.depth_eq]
      exact hDepth
    obtain ⟨b, hMore, hReads₂⟩ := (amount_eq_ok hRoom).1 hAmount
    obtain ⟨w, hReads₀⟩ := (State.next_iff hFirst).1 ⟨hNext, rfl⟩
    have hContent : (n w a b).value? date = some (content x y) := by
      simp [hValue, hText, hMore]
    refine ⟨w, a, b, finishes_of_finish hContent ?_ hRest⟩
    rw [hTokens]
    exact State.reads_cons.2 ⟨_, hReads₀, State.reads_cons.2 ⟨_, hReads₁, hReads₂⟩⟩
  · rintro ⟨w, a, b, h⟩
    obtain ⟨c, u, hContent, hReads, hRest, -⟩ := exists_of_finishes h
    rw [hTokens] at hReads
    obtain ⟨v, hReads₀, hMore⟩ := State.reads_cons.1 hReads
    obtain ⟨x, hReads₁, hReads₂⟩ := State.reads_cons.1 hMore
    simp only [hValue, Option.bind_eq_bind, Option.bind_eq_some_iff, Option.pure_def,
      Option.some.injEq] at hContent
    obtain ⟨y, hText, z, hMore, rfl⟩ := hContent
    have hRoom : x.depth < options.maxDepth := by
      rw [hReads₁.depth_eq, hReads₀.depth_eq]
      exact hDepth
    rw [hReads₀.next_eq hFirst]
    exact ⟨y, x, ⟨a, hText, hReads₁⟩,
      bind_eq_ok.2 ⟨z, u, (amount_eq_ok hRoom).2 ⟨b, hMore, hReads₂⟩, hRest⟩⟩

end Fields

theorem opening_eq_ok {s t : State Unit} {d : Directive}
    (hNext : s.lookahead.kind = .keyword .opening) :
    opening (.standard options) heading date s = (.ok d, t) ↔
      ∃ word account currencies,
        Finishes heading date (.opening word account currencies) s d t := by
  have hWord : TokenKind.keyword .opening ≠ .endOfInput := by decide
  have hAccount : TokenKind.account ≠ .endOfInput := by decide
  rw [opening, skip_bind, bind_eq_ok]
  simp only [takeText_eq_ok hAccount]
  constructor
  · rintro ⟨account, u, ⟨a, hText, hSecond⟩, hRest⟩
    obtain ⟨values, v, hList, hRest⟩ := bind_eq_ok.1 hRest
    obtain ⟨n, hValues, -, -, hThird⟩ := currencies_eq_ok.1 hList
    obtain ⟨w, hFirst⟩ := (State.next_iff hWord).1 ⟨hNext, rfl⟩
    exact ⟨w, a, n, finishes_of_finish (by simp [LineNode.value?, hText, hValues])
      (State.reads_cons.2 ⟨_, hFirst, State.reads_cons.2 ⟨_, hSecond, hThird⟩⟩) hRest⟩
  · rintro ⟨w, a, n, h⟩
    obtain ⟨content, e, hValue, hDirective, hGreedy, hReads⟩ := h
    obtain ⟨u, hFront, hLast⟩ := State.reads_append.1 hReads
    obtain ⟨v, hFirst, hMore⟩ := State.reads_cons.1 hFront
    obtain ⟨x, hSecond, hThird⟩ := State.reads_cons.1 hMore
    simp only [LineNode.value?, Option.bind_eq_bind, Option.bind_eq_some_iff, Option.pure_def,
      Option.some.injEq] at hValue
    obtain ⟨account, hText, values, hValues, rfl⟩ := hValue
    have hAfter := lookahead_of_lineEnd hLast
    rw [State.lookahead_kind] at hAfter
    have hList : currencies x = (.ok values, u) := by
      refine currencies_eq_ok.2 ⟨n, hValues, ?_, fun _ => ?_, hThird⟩
      · rcases hAfter with h | h | h <;> simp [h]
      · rcases hAfter with h | h | h <;> simp [h]
    rw [hFirst.next_eq hWord]
    refine ⟨account, x, ⟨a, hText, hSecond⟩, bind_eq_ok.2 ⟨values, u, hList, ?_⟩⟩
    refine finish_eq_ok.2 ⟨e, ?_, hGreedy, hLast⟩
    rw [hThird.tags_eq, hSecond.tags_eq, hFirst.tags_eq]
    exact hDirective

/-! ## Dated statements -/

/-- The node of a statement of one line says which word comes first. -/
def lineWord : LineNode → Keyword
  | .opening .. => .opening
  | .closing .. => .closing
  | .pad .. => .pad
  | .check .. => .check
  | .price .. => .price
  | .event .. => .event
  | .note .. => .note
  | .document .. => .document

theorem lookahead_of_lineNode {n : LineNode} {w : List Token} {s t : State σ}
    (h : s.Reads (n.tokens ++ w) t) : s.lookahead.kind = .keyword (lineWord n) := by
  cases n <;> rw [LineNode.tokens, List.cons_append] at h <;> rw [h.lookahead_eq] <;>
    exact Leaf.kind_eq _

section Words

variable {s t : State Unit} {d : Directive}

theorem pad_eq_ok (hNext : s.lookahead.kind = .keyword .pad) :
    pad (.standard options) heading date s = (.ok d, t) ↔
      ∃ w a b, Finishes heading date (.pad w a b) s d t :=
  twoTexts_eq_ok (by decide) (by decide) (by decide) (fun _ _ _ => rfl) (fun _ _ _ => rfl) hNext

theorem event_eq_ok (hNext : s.lookahead.kind = .keyword .event) :
    event (.standard options) heading date s = (.ok d, t) ↔
      ∃ w a b, Finishes heading date (.event w a b) s d t :=
  twoTexts_eq_ok (by decide) (by decide) (by decide) (fun _ _ _ => rfl) (fun _ _ _ => rfl) hNext

theorem note_eq_ok (hNext : s.lookahead.kind = .keyword .note) :
    note (.standard options) heading date s = (.ok d, t) ↔
      ∃ w a b, Finishes heading date (.note w a b) s d t :=
  twoTexts_eq_ok (by decide) (by decide) (by decide) (fun _ _ _ => rfl) (fun _ _ _ => rfl) hNext

theorem document_eq_ok (hNext : s.lookahead.kind = .keyword .document) :
    document (.standard options) heading date s = (.ok d, t) ↔
      ∃ w a b, Finishes heading date (.document w a b) s d t :=
  twoTexts_eq_ok (by decide) (by decide) (by decide) (fun _ _ _ => rfl) (fun _ _ _ => rfl) hNext

theorem check_eq_ok (hDepth : s.depth < options.maxDepth)
    (hNext : s.lookahead.kind = .keyword .check) :
    check (.standard options) heading date s = (.ok d, t) ↔
      ∃ w a b, Finishes heading date (.check w a b) s d t :=
  textAmount_eq_ok hDepth (by decide) (by decide) (fun _ _ _ => rfl) (fun _ _ _ => rfl) hNext

theorem price_eq_ok (hDepth : s.depth < options.maxDepth)
    (hNext : s.lookahead.kind = .keyword .price) :
    price (.standard options) heading date s = (.ok d, t) ↔
      ∃ w a b, Finishes heading date (.price w a b) s d t :=
  textAmount_eq_ok hDepth (by decide) (by decide) (fun _ _ _ => rfl) (fun _ _ _ => rfl) hNext

end Words

/-- A dated statement is a transaction or a statement of one line. -/
theorem exists_datedNode {s t : State Unit} {d : Directive} :
    (∃ n : DatedNode, ((∃ c, n.value? date = some c ∧
      ⟨c.addTags s.tags, heading.location⟩ = d) ∧ n.Greedy t.input) ∧ s.Reads n.tokens t) ↔
      (∃ n : TransactionNode, ((∃ x, n.value? date = some x ∧
        ⟨(Content.transaction x).addTags s.tags, heading.location⟩ = d) ∧
        n.Greedy t.input) ∧ s.Reads n.tokens t) ∨
      ∃ n : LineNode, Finishes heading date n s d t := by
  constructor
  · rintro ⟨n, ⟨⟨c, hValue, hDirective⟩, hGreedy⟩, hReads⟩
    cases n with
    | transaction n =>
        obtain ⟨x, hTransaction, rfl⟩ := Option.map_eq_some_iff.1 hValue
        exact .inl ⟨n, ⟨⟨x, hTransaction, hDirective⟩, hGreedy⟩, hReads⟩
    | line n e => exact .inr ⟨n, c, e, hValue, hDirective, hGreedy, hReads⟩
  · rintro (⟨n, ⟨⟨x, hValue, hDirective⟩, hGreedy⟩, hReads⟩ |
      ⟨n, c, e, hValue, hDirective, hGreedy, hReads⟩)
    · exact ⟨.transaction n, ⟨⟨.transaction x, by simp [DatedNode.value?, hValue], hDirective⟩,
        hGreedy⟩, hReads⟩
    · exact ⟨.line n e, ⟨⟨c, hValue, hDirective⟩, hGreedy⟩, hReads⟩

theorem lookahead_of_transactionNode {n : TransactionNode} {s t : State σ}
    (h : s.Reads n.tokens t) :
    s.lookahead.kind = .keyword .txn ∨ s.lookahead.kind = .flag := by
  simp only [TransactionNode.tokens, List.cons_append] at h
  rw [h.lookahead_eq]
  cases n.flag with
  | txn word => exact .inl word.kind_eq
  | flag sign => exact .inr sign.kind_eq

theorem dated_eq_ok {s t : State Unit} {d : Directive} (hDepth : s.depth + 4 < options.maxDepth) :
    dated (.standard options) heading date s = (.ok d, t) ↔
      ∃ n : DatedNode, ((∃ c, n.value? date = some c ∧
        ⟨c.addTags s.tags, heading.location⟩ = d) ∧ n.Greedy t.input) ∧ s.Reads n.tokens t := by
  have hRoom : s.depth < options.maxDepth := by omega
  rw [exists_datedNode, dated, peek_bind]
  constructor
  · intro h
    generalize hNext : s.lookahead.kind = kind at h
    split at h
    · exact .inl ((transaction_eq_ok hDepth (.inl hNext)).1 h)
    · exact .inl ((transaction_eq_ok hDepth (.inr hNext)).1 h)
    · obtain ⟨w, a, n, hLine⟩ := (opening_eq_ok hNext).1 h
      exact .inr ⟨_, hLine⟩
    · obtain ⟨w, a, hLine⟩ := (closing_eq_ok hNext).1 h
      exact .inr ⟨_, hLine⟩
    · obtain ⟨w, a, b, hLine⟩ := (pad_eq_ok hNext).1 h
      exact .inr ⟨_, hLine⟩
    · obtain ⟨w, a, b, hLine⟩ := (check_eq_ok hRoom hNext).1 h
      exact .inr ⟨_, hLine⟩
    · obtain ⟨w, a, b, hLine⟩ := (price_eq_ok hRoom hNext).1 h
      exact .inr ⟨_, hLine⟩
    · obtain ⟨w, a, b, hLine⟩ := (event_eq_ok hNext).1 h
      exact .inr ⟨_, hLine⟩
    · obtain ⟨w, a, b, hLine⟩ := (note_eq_ok hNext).1 h
      exact .inr ⟨_, hLine⟩
    · obtain ⟨w, a, b, hLine⟩ := (document_eq_ok hNext).1 h
      exact .inr ⟨_, hLine⟩
    · exact absurd h unexpected_ne_ok
  · rintro (⟨n, hNode⟩ | ⟨n, hLine⟩)
    · have hNext := lookahead_of_transactionNode hNode.2
      have hRun := (transaction_eq_ok hDepth hNext).2 ⟨n, hNode⟩
      rcases hNext with hNext | hNext
      · rw [hNext]
        exact hRun
      · rw [hNext]
        exact hRun
    · obtain ⟨content, e, -, -, -, hReads⟩ := id hLine
      have hNext := lookahead_of_lineNode hReads
      rw [hNext]
      cases n with
      | opening w a b => exact (opening_eq_ok hNext).2 ⟨w, a, b, hLine⟩
      | closing w a => exact (closing_eq_ok hNext).2 ⟨w, a, hLine⟩
      | pad w a b => exact (pad_eq_ok hNext).2 ⟨w, a, b, hLine⟩
      | check w a b => exact (check_eq_ok hRoom hNext).2 ⟨w, a, b, hLine⟩
      | price w a b => exact (price_eq_ok hRoom hNext).2 ⟨w, a, b, hLine⟩
      | event w a b => exact (event_eq_ok hNext).2 ⟨w, a, b, hLine⟩
      | note w a b => exact (note_eq_ok hNext).2 ⟨w, a, b, hLine⟩
      | document w a b => exact (document_eq_ok hNext).2 ⟨w, a, b, hLine⟩

end LedgerText.Parse
