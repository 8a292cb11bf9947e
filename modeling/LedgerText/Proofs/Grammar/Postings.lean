import LedgerText.Proofs.Grammar.Reading

/-!
# Success of the productions of a posting

With the standard builder, each production up to a posting line succeeds exactly
by reading the tokens of one of its parse trees, and yields the value of that
tree. What the tokens behind the tree must not be is part of each statement:
a production that stops does so because nothing that follows could be its own.

The nesting limit has to leave room for the productions inside.
-/

namespace LedgerText.Parse

open Grammar Step

variable {σ α β : Type} {options : Options}

/-! ## Values -/

/-- A builder without a state of its own decides by the value alone. -/
theorem review_eq_ok {span : Span} {verdict : Verdict Unit α} {s t : State Unit} {a : α} :
    review span verdict s = (.ok a, t) ↔ (verdict ()).1 = .ok a ∧ s = t := by
  unfold review
  constructor
  · intro h
    split at h
    · rename_i b builder hVerdict
      cases h
      exact ⟨congrArg Prod.fst hVerdict, rfl⟩
    · simp at h
  · rintro ⟨hVerdict, rfl⟩
    have hPair : verdict s.builder = (.ok a, ()) := Prod.ext hVerdict rfl
    rw [hPair]

theorem reviewFrom_eq_ok {start : Span} {verdict : Verdict Unit α} {s t : State Unit} {a : α} :
    reviewFrom start verdict s = (.ok a, t) ↔ (verdict ()).1 = .ok a ∧ s = t := by
  unfold reviewFrom
  rw [spanFrom_bind, review_eq_ok]

theorem optional?_eq_some_some {value? : α → Option β} {a : α} {b : Option β} :
    optional? value? (some a) = some b ↔ ∃ c, value? a = some c ∧ some c = b := by
  simp [optional?, Option.map_eq_some_iff]

theorem day_eq_ok {token : Token} {s t : State Unit} {date : Date} :
    day (.standard options) token s = (.ok date, t) ↔
      token.value.text?.bind Date.ofText? = some date ∧ s = t := by
  have hParse (text : String) :
      Date.parse text = .ok date ↔ Date.ofText? text = some date := by
    unfold Date.parse
    cases Date.ofText? text <;> simp
  simp only [day, bind_eq_ok, textOf_eq_ok, review_eq_ok, Builder.standard, hParse]
  constructor
  · rintro ⟨text, u, ⟨hText, rfl⟩, hDate, rfl⟩
    exact ⟨by rw [hText, Option.bind_some, hDate], rfl⟩
  · rintro ⟨hDate, rfl⟩
    obtain ⟨text, hText, hDate⟩ := Option.bind_eq_some_iff.1 hDate
    exact ⟨text, s, ⟨hText, rfl⟩, hDate, rfl⟩

theorem number_eq_ok {s t : State σ} {x : Decimal} :
    number s = (.ok x, t) ↔ ∃ l : Leaf .number, l.number? = some x ∧ s.Reads [l.token] t := by
  simp only [number, bind_eq_ok, take_eq_ok (show TokenKind.number ≠ .endOfInput by decide)]
  constructor
  · rintro ⟨token, u, ⟨l, rfl, hReads⟩, hRest⟩
    have hNumber : l.number? = some x ∧ u = t := by
      unfold Leaf.number?
      revert hRest
      cases l.token.value <;> simp [pure_eq_ok, missing, fail]
    exact ⟨l, hNumber.1, hNumber.2 ▸ hReads⟩
  · rintro ⟨l, hNumber, hReads⟩
    have hValue : l.token.value = .number x := by
      unfold Leaf.number? at hNumber
      revert hNumber
      cases l.token.value <;> simp
    refine ⟨l.token, t, ⟨l, rfl, hReads⟩, ?_⟩
    rw [hValue]
    rfl

/-- Where a flag comes next, it is read and yields its character. -/
theorem flag_eq_ok {s t : State σ} {c : Char}
    (hNext : s.lookahead.kind = .keyword .txn ∨ s.lookahead.kind = .flag) :
    flag s = (.ok c, t) ↔ ∃ n : FlagNode, n.value? = some c ∧ s.Reads [n.token] t := by
  have hRun (n : FlagNode) (u : State σ) (hReads : s.Reads [n.token] u) :
      flag s = (.ok c, t) ↔ n.value? = some c ∧ u = t := by
    have hEnd : n.token.kind ≠ .endOfInput := by
      cases n <;> simp [FlagNode.token, Leaf.kind_eq]
    have hState : s.next = u := hReads.next_eq (l := ⟨n.token, rfl⟩) hEnd
    rw [flag, advance_bind, hReads.lookahead_eq, hState]
    cases n with
    | txn l => simp [FlagNode.value?, FlagNode.token, l.kind_eq, pure_eq_ok]
    | flag l =>
        simp only [FlagNode.value?, FlagNode.token, l.kind_eq, Leaf.char?]
        cases l.token.value <;> simp [pure_eq_ok, missing, fail]
  constructor
  · intro h
    have hNode : ∃ n : FlagNode, s.Reads [n.token] s.next := by
      rcases hNext with hTxn | hFlag
      · obtain ⟨l, hReads⟩ := (State.next_iff (by decide)).1 ⟨hTxn, rfl⟩
        exact ⟨.txn l, hReads⟩
      · obtain ⟨l, hReads⟩ := (State.next_iff (by decide)).1 ⟨hFlag, rfl⟩
        exact ⟨.flag l, hReads⟩
    obtain ⟨n, hReads⟩ := hNode
    obtain ⟨hChar, hState⟩ := (hRun n s.next hReads).1 h
    exact ⟨n, hChar, hState ▸ hReads⟩
  · rintro ⟨n, hChar, hReads⟩
    exact (hRun n t hReads).2 ⟨hChar, rfl⟩

/-! ## Amounts and positions -/

theorem amount_eq_ok {s t : State Unit} {a : Amount} (hDepth : s.depth < options.maxDepth) :
    amount (.standard options) s = (.ok a, t) ↔
      ∃ n : AmountNode, n.value? = some a ∧ s.Reads n.tokens t := by
  refine nested_eq_ok_iff (P := fun n _ => AmountNode.value? n = some a) hDepth fun u => ?_
  rw [here_bind]
  simp only [bind_eq_ok, number_eq_ok, reviewFrom_eq_ok, Builder.standard, Except.ok.injEq,
    takeText_eq_ok (show TokenKind.currency ≠ .endOfInput by decide)]
  constructor
  · rintro ⟨x, v, ⟨l, hNumber, hFirst⟩, y, w, ⟨c, hCurrency, hSecond⟩, rfl, rfl⟩
    refine ⟨⟨l, c⟩, ?_, State.reads_cons.2 ⟨v, hFirst, hSecond⟩⟩
    simp [AmountNode.value?, hNumber, hCurrency]
  · rintro ⟨⟨l, c⟩, hValue, hReads⟩
    obtain ⟨v, hFirst, hSecond⟩ := State.reads_cons.1 hReads
    simp only [AmountNode.value?, Option.bind_eq_bind, Option.bind_eq_some_iff,
      Option.pure_def, Option.some.injEq] at hValue
    obtain ⟨x, hNumber, y, hCurrency, hAmount⟩ := hValue
    exact ⟨x, v, ⟨l, hNumber, hFirst⟩, y, u, ⟨c, hCurrency, hSecond⟩, hAmount, rfl⟩

theorem lotDate_eq_ok {s t : State Unit} {d : Option Date} :
    lotDate (.standard options) s = (.ok d, t) ↔
      ∃ n : Option LotDateNode, optional? LotDateNode.value? n = some d ∧
        (n = none → nextKind t.input = .mark .rightBrace) ∧
        s.Reads (n.elim [] LotDateNode.tokens) t := by
  have hDate : TokenKind.date ≠ .endOfInput := by decide
  have hSlash : TokenKind.mark .slash ≠ .endOfInput := by decide
  rw [lotDate, peek_bind]
  constructor
  · intro h
    generalize hNext : s.lookahead.kind = kind at h
    split at h
    · obtain ⟨slash, hFirst⟩ := (State.next_iff (t := s.next) hSlash).1 ⟨hNext, rfl⟩
      simp only [skip_bind, bind_eq_ok, take_eq_ok hDate, day_eq_ok, pure_eq_ok] at h
      obtain ⟨token, u, ⟨l, rfl, hSecond⟩, day, v, ⟨hDay, rfl⟩, rfl, rfl⟩ := h
      refine ⟨some ⟨slash, l⟩, ?_, by simp, State.reads_cons.2 ⟨_, hFirst, hSecond⟩⟩
      exact optional?_eq_some_some.2 ⟨day, hDay, rfl⟩
    · obtain ⟨rfl, rfl⟩ := pure_eq_ok.1 h
      exact ⟨none, rfl, fun _ => s.lookahead_kind.symm.trans hNext, State.reads_nil.2 rfl⟩
    · exact absurd h unexpected_ne_ok
  · rintro ⟨n, hValue, hNext, hReads⟩
    cases n with
    | none =>
        obtain rfl := State.reads_nil.1 hReads
        cases hValue
        rw [s.lookahead_kind, hNext rfl]
        exact pure_eq_ok.2 ⟨rfl, rfl⟩
    | some n =>
        obtain ⟨u, hFirst, hSecond⟩ := State.reads_cons.1 hReads
        obtain ⟨day, hDay, rfl⟩ := optional?_eq_some_some.1 hValue
        rw [hFirst.lookahead_eq, n.slash.kind_eq]
        simp only [skip_bind, hFirst.next_eq hSlash, bind_eq_ok, take_eq_ok hDate, day_eq_ok,
          pure_eq_ok]
        exact ⟨n.date.token, t, ⟨n.date, rfl, hSecond⟩, day, t, ⟨hDay, rfl⟩, rfl, rfl⟩

/-- A lot cost is read where its brace comes next. -/
theorem lotCost_eq_ok {s t : State Unit} {c : LotCost} (hDepth : s.depth + 1 < options.maxDepth)
    (hNext : s.lookahead.kind = .mark .leftBrace) :
    lotCost (.standard options) s = (.ok c, t) ↔
      ∃ n : LotCostNode, n.value? = some c ∧ s.Reads n.tokens t := by
  have hLeft : TokenKind.mark .leftBrace ≠ .endOfInput := by decide
  have hRight : TokenKind.mark .rightBrace ≠ .endOfInput := by decide
  refine nested_eq_ok_iff (P := fun n _ => LotCostNode.value? n = some c)
    (show s.depth < options.maxDepth by omega) fun u => ?_
  obtain ⟨l, hFirst⟩ := (State.next_iff (s := { s with depth := s.depth + 1 }) hLeft).1
    ⟨hNext, rfl⟩
  have hRoom : (State.next { s with depth := s.depth + 1 }).depth < options.maxDepth := hDepth
  rw [here_bind, skip_bind]
  simp only [bind_eq_ok, amount_eq_ok hRoom, lotDate_eq_ok,
    take_eq_ok hRight, reviewFrom_eq_ok, Builder.standard, Except.ok.injEq]
  constructor
  · rintro ⟨cost, v, ⟨a, hCost, hSecond⟩, date, w, ⟨d, hDay, -, hThird⟩, token, x,
      ⟨r, rfl, hLast⟩, rfl, rfl⟩
    refine ⟨⟨l, a, d, r⟩, by simp [LotCostNode.value?, hCost, hDay], ?_⟩
    exact State.reads_append.2 ⟨_, State.reads_cons.2 ⟨_, hFirst, State.reads_append.2
      ⟨_, hSecond, hThird⟩⟩, hLast⟩
  · rintro ⟨⟨l', a, d, r⟩, hValue, hReads⟩
    obtain ⟨w, hFront, hLast⟩ := State.reads_append.1 hReads
    obtain ⟨v, hFirst', hMiddle⟩ := State.reads_cons.1 hFront
    obtain ⟨x, hSecond, hThird⟩ := State.reads_append.1 hMiddle
    simp only [LotCostNode.value?, Option.bind_eq_bind, Option.bind_eq_some_iff,
      Option.pure_def, Option.some.injEq] at hValue
    obtain ⟨cost, hCost, date, hDay, hLot⟩ := hValue
    have hState := hFirst'.next_eq hLeft
    refine ⟨cost, x, ⟨a, hCost, hState ▸ hSecond⟩, date, w, ⟨d, hDay, fun _ => ?_, hThird⟩,
      r.token, u, ⟨r, rfl, hLast⟩, hLot, rfl⟩
    rw [← State.lookahead_kind, hLast.lookahead_eq, r.kind_eq]

theorem position_eq_ok {s t : State Unit} {p : Position}
    (hDepth : s.depth + 2 < options.maxDepth) :
    position (.standard options) s = (.ok p, t) ↔
      ∃ n : PositionNode, (n.value? = some p ∧
        (n.cost = none → nextKind t.input ≠ .mark .leftBrace)) ∧ s.Reads n.tokens t := by
  refine nested_eq_ok_iff (P := fun n rest => PositionNode.value? n = some p ∧
    (n.cost = none → nextKind rest ≠ .mark .leftBrace))
    (show s.depth < options.maxDepth by omega) fun u => ?_
  have hInner : State.depth { s with depth := s.depth + 1 } < options.maxDepth := by
    show s.depth + 1 < options.maxDepth
    omega
  rw [here_bind]
  simp only [bind_eq_ok, amount_eq_ok hInner, whenNext_eq_ok, reviewFrom_eq_ok,
    Builder.standard, Except.ok.injEq]
  constructor
  · rintro ⟨units, v, ⟨a, hUnits, hFirst⟩, cost, w, hCost, rfl, rfl⟩
    rcases hCost with ⟨lot, rfl, hNext, hLot⟩ | ⟨rfl, hNext, rfl⟩
    · have hRoom : v.depth + 1 < options.maxDepth := by
        rw [hFirst.depth_eq]
        exact hDepth
      obtain ⟨c, hValue, hSecond⟩ := (lotCost_eq_ok hRoom hNext).1 hLot
      refine ⟨⟨a, some c⟩, ⟨?_, by simp⟩, State.reads_append.2 ⟨v, hFirst, hSecond⟩⟩
      simp [PositionNode.value?, hUnits, optional?, hValue]
    · refine ⟨⟨a, none⟩, ⟨by simp [PositionNode.value?, hUnits, optional?], fun _ => ?_⟩,
        State.reads_append.2 ⟨v, hFirst, State.reads_nil.2 rfl⟩⟩
      rw [← State.lookahead_kind]
      exact hNext
  · rintro ⟨⟨a, c⟩, ⟨hValue, hNext⟩, hReads⟩
    obtain ⟨v, hFirst, hSecond⟩ := State.reads_append.1 hReads
    simp only [PositionNode.value?, Option.bind_eq_bind, Option.bind_eq_some_iff,
      Option.pure_def, Option.some.injEq] at hValue
    obtain ⟨units, hUnits, cost, hCost, hPosition⟩ := hValue
    refine ⟨units, v, ⟨a, hUnits, hFirst⟩, cost, u, ?_, hPosition, rfl⟩
    cases c with
    | none =>
        obtain rfl := State.reads_nil.1 hSecond
        cases hCost
        refine .inr ⟨rfl, ?_, rfl⟩
        rw [State.lookahead_kind]
        exact hNext rfl
    | some c =>
        obtain ⟨lot, hLot, rfl⟩ := optional?_eq_some_some.1 hCost
        have hRoom : v.depth + 1 < options.maxDepth := by
          rw [hFirst.depth_eq]
          exact hDepth
        have hBrace : v.lookahead.kind = .mark .leftBrace := by
          rw [hSecond.lookahead_eq, c.leftBrace.kind_eq]
        exact .inl ⟨lot, rfl, hBrace, (lotCost_eq_ok hRoom hBrace).2 ⟨c, hLot, hSecond⟩⟩

/-! ## Line ends -/

theorem skipIf_eq_ok {kind : TokenKind} {s t : State σ} (hKind : kind ≠ .endOfInput) :
    skipIf kind s = (.ok (), t) ↔
      ∃ l : Option (Leaf kind), (l.isSome = false → nextKind t.input ≠ kind) ∧
        s.Reads (optionalToken l) t := by
  unfold skipIf
  constructor
  · intro h
    split at h
    · rename_i hNext
      cases h
      obtain ⟨l, hReads⟩ := (State.next_iff hKind).1 ⟨hNext, rfl⟩
      exact ⟨some l, by simp, hReads⟩
    · rename_i hNext
      cases h
      exact ⟨none, fun _ => s.lookahead_kind ▸ hNext, State.reads_nil.2 rfl⟩
  · rintro ⟨l, hNext, hReads⟩
    cases l with
    | none =>
        obtain rfl := State.reads_nil.1 hReads
        rw [if_neg (s.lookahead_kind ▸ hNext rfl)]
    | some l =>
        rw [if_pos (by rw [hReads.lookahead_eq, l.kind_eq])]
        change (Except.ok (), s.next) = _
        rw [hReads.next_eq hKind]

/-- A line end takes an `EOL` along where it can. -/
theorem lineEnd_eq_ok {also : List TokenKind} {s t : State σ} {v : Unit} :
    lineEnd also s = (.ok v, t) ↔
      ∃ e : LineEndNode, e.Greedy t.input ∧ s.Reads e.tokens t := by
  have hEnd : TokenKind.lineEnd ≠ .endOfInput := by decide
  have hIndent : TokenKind.indent ≠ .endOfInput := by decide
  have hComment : TokenKind.comment ≠ .endOfInput := by decide
  rw [lineEnd, peek_bind]
  constructor
  · intro h
    generalize hNext : s.lookahead.kind = kind at h
    split at h
    · cases h
      obtain ⟨l, hReads⟩ := (State.next_iff hEnd).1 ⟨hNext, rfl⟩
      exact ⟨.plain l, by simp [LineEndNode.Greedy, LineEndNode.closesLine], hReads⟩
    · obtain ⟨l, hFirst⟩ := (State.next_iff hIndent).1 ⟨hNext, rfl⟩
      obtain ⟨e, hGreedy, hSecond⟩ := (skipIf_eq_ok hEnd).1 h
      exact ⟨.indent l e, hGreedy, State.reads_cons.2 ⟨_, hFirst, hSecond⟩⟩
    · obtain ⟨l, hFirst⟩ := (State.next_iff hComment).1 ⟨hNext, rfl⟩
      obtain ⟨e, hGreedy, hSecond⟩ := (skipIf_eq_ok hEnd).1 h
      exact ⟨.comment l e, hGreedy, State.reads_cons.2 ⟨_, hFirst, hSecond⟩⟩
    · exact absurd h unexpected_ne_ok
  · rintro ⟨e, hGreedy, hReads⟩
    cases e with
    | plain l =>
        rw [hReads.lookahead_eq, l.kind_eq]
        change (Except.ok (), s.next) = _
        rw [hReads.next_eq hEnd]
    | indent l e =>
        obtain ⟨u, hFirst, hSecond⟩ := State.reads_cons.1 hReads
        rw [hReads.lookahead_eq, l.kind_eq]
        change skipIf .lineEnd s.next = _
        rw [hFirst.next_eq hIndent]
        exact (skipIf_eq_ok hEnd).2 ⟨e, hGreedy, hSecond⟩
    | comment l e =>
        obtain ⟨u, hFirst, hSecond⟩ := State.reads_cons.1 hReads
        rw [hReads.lookahead_eq, l.kind_eq]
        change skipIf .lineEnd s.next = _
        rw [hFirst.next_eq hComment]
        exact (skipIf_eq_ok hEnd).2 ⟨e, hGreedy, hSecond⟩

/-- The first token of a line end. -/
theorem lineEnd_head (e : LineEndNode) :
    ∃ token rest, e.tokens = token :: rest ∧
      (token.kind = .lineEnd ∨ token.kind = .indent ∨ token.kind = .comment) := by
  cases e with
  | plain l => exact ⟨l.token, [], rfl, .inl l.kind_eq⟩
  | indent l e => exact ⟨l.token, optionalToken e, rfl, .inr (.inl l.kind_eq)⟩
  | comment l e => exact ⟨l.token, optionalToken e, rfl, .inr (.inr l.kind_eq)⟩

/-- Where a line end is read, its first token comes next. -/
theorem lookahead_of_lineEnd {e : LineEndNode} {s t : State σ} (h : s.Reads e.tokens t) :
    s.lookahead.kind = .lineEnd ∨ s.lookahead.kind = .indent ∨
      s.lookahead.kind = .comment := by
  obtain ⟨token, rest, hTokens, hKind⟩ := lineEnd_head e
  rw [hTokens] at h
  rw [h.lookahead_eq]
  exact hKind

/-! ## Postings -/

/-- The tokens behind the account of a posting say this. -/
def Movement.SaidBy (said : Movement) (m : Option MovementNode) : Prop :=
  optional? (fun n : MovementNode => n.position.value?) m = some said.position ∧
    optional? (fun price : PriceSign × AmountNode => price.2.value?)
      (m.bind MovementNode.price) = some said.price ∧
    m.elim false MovementNode.isTotal = said.priceIsTotal

theorem priceTag_eq_ok {kind : TokenKind} {p : Position} {total : Bool} {s t : State Unit}
    {said : Movement} (hKind : kind ≠ .endOfInput) (hNext : s.lookahead.kind = kind)
    (hDepth : s.depth < options.maxDepth) :
    priceTag (.standard options) p total s = (.ok said, t) ↔
      ∃ (l : Leaf kind) (a : AmountNode) (e : LineEndNode) (price : Amount),
        a.value? = some price ∧ ⟨some p, some price, total⟩ = said ∧ e.Greedy t.input ∧
          s.Reads (l.token :: a.tokens ++ e.tokens) t := by
  have hRoom : s.next.depth < options.maxDepth := hDepth
  rw [priceTag, skip_bind]
  simp only [bind_eq_ok, amount_eq_ok hRoom, lineEnd_eq_ok, pure_eq_ok]
  constructor
  · rintro ⟨price, u, ⟨a, hPrice, hSecond⟩, _, v, ⟨e, hGreedy, hThird⟩, hSaid, rfl⟩
    obtain ⟨l, hFirst⟩ := (State.next_iff hKind).1 ⟨hNext, rfl⟩
    refine ⟨l, a, e, price, hPrice, hSaid, hGreedy, ?_⟩
    exact State.reads_cons.2 ⟨_, hFirst, State.reads_append.2 ⟨_, hSecond, hThird⟩⟩
  · rintro ⟨l, a, e, price, hPrice, hSaid, hGreedy, hReads⟩
    obtain ⟨u, hFirst, hMore⟩ := State.reads_cons.1 hReads
    obtain ⟨v, hSecond, hThird⟩ := State.reads_append.1 hMore
    rw [hFirst.next_eq hKind]
    exact ⟨price, v, ⟨a, hPrice, hSecond⟩, (), t, ⟨e, hGreedy, hThird⟩, hSaid, rfl⟩

theorem Movement.saidBy_position {n : PositionNode} {p : Position} (h : n.value? = some p) :
    Movement.SaidBy ⟨some p, none, false⟩ (some ⟨n, none⟩) :=
  ⟨optional?_eq_some_some.2 ⟨p, h, rfl⟩, rfl, rfl⟩

theorem Movement.saidBy_price {n : PositionNode} {p : Position} {a : AmountNode} {price : Amount}
    (h : n.value? = some p) (sign : PriceSign) (hPrice : a.value? = some price) :
    Movement.SaidBy ⟨some p, some price, sign.isTotal⟩ (some ⟨n, some (sign, a)⟩) :=
  ⟨optional?_eq_some_some.2 ⟨p, h, rfl⟩, optional?_eq_some_some.2 ⟨price, hPrice, rfl⟩, rfl⟩

section

variable {s t : State Unit} {said : Movement} (hDepth : s.depth + 2 < options.maxDepth)

include hDepth

/-- What is read behind an account is said by the tokens that were read. -/
theorem exists_of_movement (h : movement (.standard options) s = (.ok said, t)) :
    ∃ (m : Option MovementNode) (e : LineEndNode), said.SaidBy m ∧
      e.Greedy t.input ∧ s.Reads (m.elim [] MovementNode.tokens ++ e.tokens) t := by
  have hAt : TokenKind.mark .singleAt ≠ .endOfInput := by decide
  have hAtAt : TokenKind.mark .doubleAt ≠ .endOfInput := by decide
  rw [movement, peek_bind] at h
  generalize hNext : s.lookahead.kind = kind at h
  split at h
  · obtain ⟨p, u, hPosition, hRest⟩ := bind_eq_ok.1 h
    obtain ⟨n, ⟨hValue, -⟩, hFirst⟩ := (position_eq_ok hDepth).1 hPosition
    have hRoom : u.depth < options.maxDepth := by
      rw [hFirst.depth_eq]
      omega
    have hTokens (price : Option (PriceSign × AmountNode)) (e : LineEndNode)
        (hSecond : u.Reads (price.elim [] (fun x => x.1.token :: x.2.tokens) ++ e.tokens) t) :
        s.Reads ((some (MovementNode.mk n price)).elim [] MovementNode.tokens ++ e.tokens) t := by
      rw [Option.elim_some, MovementNode.tokens, List.append_assoc]
      exact State.reads_append.2 ⟨u, hFirst, hSecond⟩
    rw [peek_bind] at hRest
    generalize hSign : u.lookahead.kind = sign at hRest
    split at hRest
    · obtain ⟨l, a, e, price, hPrice, rfl, hGreedy, hSecond⟩ :=
        (priceTag_eq_ok hAt hSign hRoom).1 hRest
      exact ⟨_, e, Movement.saidBy_price hValue (.each l) hPrice, hGreedy,
        hTokens (some (.each l, a)) e hSecond⟩
    · obtain ⟨l, a, e, price, hPrice, rfl, hGreedy, hSecond⟩ :=
        (priceTag_eq_ok hAtAt hSign hRoom).1 hRest
      exact ⟨_, e, Movement.saidBy_price hValue (.total l) hPrice, hGreedy,
        hTokens (some (.total l, a)) e hSecond⟩
    · simp only [bind_eq_ok, lineEnd_eq_ok, pure_eq_ok] at hRest
      obtain ⟨_, v, ⟨e, hGreedy, hSecond⟩, rfl, rfl⟩ := hRest
      exact ⟨_, e, Movement.saidBy_position hValue, hGreedy, hTokens none e hSecond⟩
  · simp only [bind_eq_ok, lineEnd_eq_ok, pure_eq_ok] at h
    obtain ⟨_, v, ⟨e, hGreedy, hReads⟩, rfl, rfl⟩ := h
    exact ⟨none, e, ⟨rfl, rfl, rfl⟩, hGreedy, hReads⟩

/-- Tokens that say something behind an account are read as such. -/
theorem movement_of_reads {m : Option MovementNode} {e : LineEndNode} (hSaid : said.SaidBy m)
    (hGreedy : e.Greedy t.input)
    (hReads : s.Reads (m.elim [] MovementNode.tokens ++ e.tokens) t) :
    movement (.standard options) s = (.ok said, t) := by
  have hAt : TokenKind.mark .singleAt ≠ .endOfInput := by decide
  have hAtAt : TokenKind.mark .doubleAt ≠ .endOfInput := by decide
  obtain ⟨saidPosition, saidPrice, saidTotal⟩ := said
  obtain ⟨hPosition, hPrice, hTotal⟩ := hSaid
  rw [movement, peek_bind]
  cases m with
  | none =>
      cases hPosition
      cases hPrice
      cases hTotal
      have hEnd : lineEnd [.number] s = (.ok (), t) := lineEnd_eq_ok.2 ⟨e, hGreedy, hReads⟩
      rcases lookahead_of_lineEnd hReads with hNext | hNext | hNext <;>
        rw [hNext] <;> exact bind_eq_ok.2 ⟨(), t, hEnd, rfl⟩
  | some m =>
      obtain ⟨n, price⟩ := m
      obtain ⟨p, hValue, hSame⟩ := optional?_eq_some_some.1 hPosition
      cases hSame
      simp only [Option.elim_some, MovementNode.tokens, List.append_assoc] at hReads
      obtain ⟨u, hFirst, hSecond⟩ := State.reads_append.1 hReads
      have hRoom : u.depth < options.maxDepth := by
        rw [hFirst.depth_eq]
        omega
      have hNumber : s.lookahead.kind = .number := by
        rw [hFirst.lookahead_eq, n.units.number.kind_eq]
      rw [hNumber]
      have hRun (hBrace : u.lookahead.kind ≠ .mark .leftBrace) :
          position (.standard options) s = (.ok p, u) :=
        (position_eq_ok hDepth).2 ⟨n, ⟨hValue, fun _ => u.lookahead_kind ▸ hBrace⟩, hFirst⟩
      cases price with
      | none =>
          cases hPrice
          cases hTotal
          simp only [Option.elim_none, List.nil_append] at hSecond
          have hAfter := lookahead_of_lineEnd hSecond
          refine bind_eq_ok.2 ⟨p, u, hRun (by rcases hAfter with h | h | h <;> simp [h]), ?_⟩
          rw [peek_bind]
          rcases hAfter with hNext | hNext | hNext <;> rw [hNext] <;>
            exact bind_eq_ok.2 ⟨(), t, lineEnd_eq_ok.2 ⟨e, hGreedy, hSecond⟩, rfl⟩
      | some price =>
          obtain ⟨sign, a⟩ := price
          obtain ⟨x, hAmount, hSame⟩ := optional?_eq_some_some.1 hPrice
          cases hSame
          cases hTotal
          simp only [Option.elim_some] at hSecond
          cases sign with
          | each l =>
              have hNext : u.lookahead.kind = .mark .singleAt := by
                rw [hSecond.lookahead_eq]
                exact l.kind_eq
              refine bind_eq_ok.2 ⟨p, u, hRun (by simp [hNext]), ?_⟩
              rw [peek_bind, hNext]
              exact (priceTag_eq_ok hAt hNext hRoom).2
                ⟨l, a, e, x, hAmount, rfl, hGreedy, hSecond⟩
          | total l =>
              have hNext : u.lookahead.kind = .mark .doubleAt := by
                rw [hSecond.lookahead_eq]
                exact l.kind_eq
              refine bind_eq_ok.2 ⟨p, u, hRun (by simp [hNext]), ?_⟩
              rw [peek_bind, hNext]
              exact (priceTag_eq_ok hAtAt hNext hRoom).2
                ⟨l, a, e, x, hAmount, rfl, hGreedy, hSecond⟩

theorem movement_eq_ok : movement (.standard options) s = (.ok said, t) ↔
    ∃ (m : Option MovementNode) (e : LineEndNode), said.SaidBy m ∧
      e.Greedy t.input ∧ s.Reads (m.elim [] MovementNode.tokens ++ e.tokens) t := by
  constructor
  · exact exists_of_movement hDepth
  · rintro ⟨m, e, hSaid, hGreedy, hReads⟩
    exact movement_of_reads hDepth hSaid hGreedy hReads

end

/-- What a posting says, in terms of what its parts say. -/
theorem postingNode_value?_eq_some {n : PostingNode} {p : Posting} :
    n.value? = some p ↔ optional? Leaf.char? n.flag = some p.flag ∧
      n.account.text? = some p.account ∧
      (Movement.mk p.position p.price p.priceIsTotal).SaidBy n.movement := by
  obtain ⟨flag, account, position, price, total⟩ := p
  simp only [PostingNode.value?, Option.bind_eq_bind, Option.bind_eq_some_iff, Option.pure_def,
    Option.some.injEq, Posting.mk.injEq, Movement.SaidBy]
  constructor
  · rintro ⟨_, hFlag, _, hAccount, _, hPosition, _, hPrice, rfl, rfl, rfl, rfl, hTotal⟩
    exact ⟨hFlag, hAccount, hPosition, hPrice, hTotal⟩
  · rintro ⟨hFlag, hAccount, hPosition, hPrice, hTotal⟩
    exact ⟨flag, hFlag, account, hAccount, position, hPosition, price, hPrice, rfl, rfl, rfl, rfl,
      hTotal⟩

/-- The flag of a posting is read if it is there. -/
theorem whenNext_flag_eq_ok {s t : State σ} {c : Option Char} :
    whenNext .flag flag s = (.ok c, t) ↔
      ∃ l : Option (Leaf .flag), optional? Leaf.char? l = some c ∧
        (l = none → nextKind t.input ≠ .flag) ∧ s.Reads (optionalToken l) t := by
  rw [whenNext_eq_ok]
  constructor
  · rintro (⟨b, rfl, hNext, hFlag⟩ | ⟨rfl, hNext, rfl⟩)
    · obtain ⟨n, hValue, hReads⟩ := (flag_eq_ok (.inr hNext)).1 hFlag
      cases n with
      | txn l =>
          rw [hReads.lookahead_eq] at hNext
          exact absurd (l.kind_eq.symm.trans hNext) (by decide)
      | flag l =>
          exact ⟨some l, optional?_eq_some_some.2 ⟨b, hValue, rfl⟩, by simp, hReads⟩
    · exact ⟨none, rfl, fun _ => s.lookahead_kind ▸ hNext, State.reads_nil.2 rfl⟩
  · rintro ⟨l, hValue, hNext, hReads⟩
    cases l with
    | none =>
        obtain rfl := State.reads_nil.1 hReads
        cases hValue
        exact .inr ⟨rfl, s.lookahead_kind ▸ hNext rfl, rfl⟩
    | some l =>
        obtain ⟨b, hChar, rfl⟩ := optional?_eq_some_some.1 hValue
        have hKind : s.lookahead.kind = .flag := by rw [hReads.lookahead_eq, l.kind_eq]
        exact .inl ⟨b, rfl, hKind, (flag_eq_ok (.inr hKind)).2 ⟨.flag l, hChar, hReads⟩⟩

theorem posting_eq_ok {s t : State Unit} {p : Posting} (hDepth : s.depth + 3 < options.maxDepth)
    (hNext : s.lookahead.kind = .indent) :
    posting (.standard options) s = (.ok p, t) ↔
      ∃ n : PostingNode, (n.value? = some p ∧ n.lineEnd.Greedy t.input) ∧ s.Reads n.tokens t := by
  have hIndent : TokenKind.indent ≠ .endOfInput := by decide
  have hAccount : TokenKind.account ≠ .endOfInput := by decide
  refine nested_eq_ok_iff (P := fun n rest => PostingNode.value? n = some p ∧
    n.lineEnd.Greedy rest) (show s.depth < options.maxDepth by omega) fun u => ?_
  rw [here_bind, skip_bind]
  simp only [bind_eq_ok, whenNext_flag_eq_ok, takeText_eq_ok hAccount, reviewFrom_eq_ok,
    Builder.standard, Except.ok.injEq, postingNode_value?_eq_some]
  obtain ⟨i, hFirst⟩ := (State.next_iff (s := { s with depth := s.depth + 1 }) hIndent).1
    ⟨hNext, rfl⟩
  have hRoom : ∀ {v : State Unit}, v.depth = s.depth + 1 → v.depth + 2 < options.maxDepth :=
    fun h => by omega
  constructor
  · rintro ⟨c, v, ⟨f, hFlag, -, hSecond⟩, account, w, ⟨a, hText, hThird⟩, said, x, hSaid, rfl,
      rfl⟩
    obtain ⟨m, e, hSays, hGreedy, hLast⟩ := (movement_eq_ok (hRoom (by
      rw [hThird.depth_eq, hSecond.depth_eq, hFirst.depth_eq]))).1 hSaid
    refine ⟨⟨i, f, a, m, e⟩, ⟨⟨hFlag, hText, hSays⟩, hGreedy⟩, ?_⟩
    simp only [PostingNode.tokens, List.cons_append, List.append_assoc]
    exact State.reads_cons.2 ⟨_, hFirst, State.reads_append.2 ⟨_, hSecond,
      State.reads_cons.2 ⟨_, hThird, hLast⟩⟩⟩
  · rintro ⟨⟨i', f, a, m, e⟩, ⟨⟨hFlag, hText, hSays⟩, hGreedy⟩, hReads⟩
    simp only [PostingNode.tokens, List.cons_append, List.append_assoc] at hReads
    obtain ⟨v, hFirst', hMore⟩ := State.reads_cons.1 hReads
    obtain ⟨w, hSecond, hRest⟩ := State.reads_append.1 hMore
    obtain ⟨x, hThird, hLast⟩ := State.reads_cons.1 hRest
    have hMovement := (movement_eq_ok (hRoom (by
      rw [hThird.depth_eq, hSecond.depth_eq, hFirst'.depth_eq]))).2 ⟨m, e, hSays, hGreedy, hLast⟩
    rw [hFirst'.next_eq hIndent]
    refine ⟨p.flag, w, ⟨f, hFlag, fun _ => ?_, hSecond⟩, p.account, x, ⟨a, hText, hThird⟩, _, u,
      hMovement, rfl, rfl⟩
    rw [← State.lookahead_kind, hThird.lookahead_eq, a.kind_eq]
    decide

end LedgerText.Parse
