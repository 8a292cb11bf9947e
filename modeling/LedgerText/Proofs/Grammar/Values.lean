import LedgerText.Proofs.Grammar.Tree

/-!
# Trees with values

A tree has a value as soon as its tokens carry what their kinds call for. Then
the kinds of the tokens alone decide whether a statement is accepted.
-/

namespace LedgerText

/-- Whether tokens of a kind carry a text that the grammar asks for. -/
def TokenKind.carriesText : TokenKind → Bool
  | .date | .account | .currency | .string | .tag | .link => true
  | _ => false

/-- The token carries what its kind calls for, and names a day if it is a date. -/
structure Token.IsComplete (t : Token) : Prop where
  text : t.kind.carriesText → ∃ text, t.value = .text text
  day : t.kind = .date → ∃ text date, t.value = .text text ∧ Date.ofText? text = some date
  number : t.kind = .number → ∃ number, t.value = .number number
  char : t.kind = .flag → ∃ c, t.value = .char c

namespace Grammar

variable {α β : Type}

theorem exists_optional? {value? : α → Option β} {part : Option α}
    (h : ∀ a, part = some a → ∃ b, value? a = some b) : ∃ b, optional? value? part = some b := by
  cases part with
  | none => exact ⟨none, rfl⟩
  | some a =>
      obtain ⟨b, hValue⟩ := h a rfl
      exact ⟨some b, by rw [optional?, hValue, Option.map_some]⟩

theorem exists_mapM {value? : α → Option β} {parts : List α}
    (h : ∀ a ∈ parts, ∃ b, value? a = some b) : ∃ bs, parts.mapM value? = some bs := by
  induction parts with
  | nil => exact ⟨[], rfl⟩
  | cons a as ih =>
      obtain ⟨b, hHead⟩ := h a (by simp)
      obtain ⟨bs, hTail⟩ := ih fun x hx => h x (by simp [hx])
      exact ⟨b :: bs, by simp [hHead, hTail]⟩

namespace Leaf

variable {kind : TokenKind}

theorem exists_text {l : Leaf kind} (h : l.token.IsComplete)
    (hKind : kind.carriesText = true) : ∃ text, l.text? = some text := by
  obtain ⟨text, hValue⟩ := h.text (by rw [l.kind_eq, hKind])
  exact ⟨text, by rw [text?, hValue, TokenValue.text?]⟩

theorem exists_day {l : Leaf .date} (h : l.token.IsComplete) : ∃ date, l.day? = some date := by
  obtain ⟨text, date, hValue, hDate⟩ := h.day l.kind_eq
  exact ⟨date, by rw [day?, text?, hValue, TokenValue.text?, Option.bind_some, hDate]⟩

theorem exists_number {l : Leaf .number} (h : l.token.IsComplete) :
    ∃ x, l.number? = some x := by
  obtain ⟨x, hValue⟩ := h.number l.kind_eq
  exact ⟨x, by rw [number?, hValue]⟩

theorem exists_char {l : Leaf .flag} (h : l.token.IsComplete) : ∃ c, l.char? = some c := by
  obtain ⟨c, hValue⟩ := h.char l.kind_eq
  exact ⟨c, by rw [char?, hValue]⟩

end Leaf

theorem AmountNode.exists_value {n : AmountNode} (h : ∀ token ∈ n.tokens, token.IsComplete) :
    ∃ a, n.value? = some a := by
  simp only [tokens, List.forall_mem_cons] at h
  obtain ⟨number, hNumber⟩ := Leaf.exists_number h.1
  obtain ⟨currency, hCurrency⟩ := Leaf.exists_text h.2.1 rfl
  exact ⟨⟨number, currency⟩, by simp [value?, hNumber, hCurrency]⟩

theorem LotCostNode.exists_value {n : LotCostNode} (h : ∀ token ∈ n.tokens, token.IsComplete) :
    ∃ c, n.value? = some c := by
  simp only [tokens, List.cons_append, List.forall_mem_cons, List.forall_mem_append] at h
  obtain ⟨-, ⟨hCost, hDate⟩, -⟩ := h
  obtain ⟨cost, hCost⟩ := AmountNode.exists_value hCost
  have hPart : ∃ date, optional? LotDateNode.value? n.date = some date := by
    refine exists_optional? fun d hd => ?_
    rw [hd] at hDate
    exact Leaf.exists_day (hDate d.date.token (by simp [LotDateNode.tokens]))
  obtain ⟨date, hDate⟩ := hPart
  exact ⟨⟨cost, date⟩, by simp [value?, hCost, hDate]⟩

theorem PositionNode.exists_value {n : PositionNode}
    (h : ∀ token ∈ n.tokens, token.IsComplete) : ∃ p, n.value? = some p := by
  simp only [tokens, List.forall_mem_append] at h
  obtain ⟨units, hUnits⟩ := AmountNode.exists_value h.1
  have hPart : ∃ cost, optional? LotCostNode.value? n.cost = some cost := by
    refine exists_optional? fun c hc => ?_
    have hCost := h.2
    rw [hc] at hCost
    exact LotCostNode.exists_value hCost
  obtain ⟨cost, hCost⟩ := hPart
  exact ⟨⟨units, cost⟩, by simp [value?, hUnits, hCost]⟩

theorem PostingNode.exists_value {n : PostingNode} (h : ∀ token ∈ n.tokens, token.IsComplete) :
    ∃ p, n.value? = some p := by
  simp only [tokens, List.cons_append, List.append_assoc, List.forall_mem_cons,
    List.forall_mem_append] at h
  obtain ⟨-, hFlag, hAccount, hMovement, -⟩ := h
  have hFlagPart : ∃ flag, optional? Leaf.char? n.flag = some flag := by
    refine exists_optional? fun l hl => Leaf.exists_char ?_
    exact hFlag l.token (by simp [optionalToken, hl])
  have hPositionPart : ∃ position,
      optional? (fun m : MovementNode => m.position.value?) n.movement = some position := by
    refine exists_optional? fun m hm => PositionNode.exists_value fun token hToken => ?_
    exact hMovement token (by simp [hm, MovementNode.tokens, hToken])
  have hPricePart : ∃ price, optional? (fun price : PriceSign × AmountNode => price.2.value?)
      (n.movement.bind MovementNode.price) = some price := by
    refine exists_optional? fun price hPrice => AmountNode.exists_value fun token hToken => ?_
    obtain ⟨m, hm, hPrice⟩ := Option.bind_eq_some_iff.1 hPrice
    exact hMovement token (by simp [hm, MovementNode.tokens, hPrice, hToken])
  obtain ⟨flag, hFlag⟩ := hFlagPart
  obtain ⟨account, hAccount⟩ := Leaf.exists_text hAccount rfl
  obtain ⟨position, hPosition⟩ := hPositionPart
  obtain ⟨price, hPrice⟩ := hPricePart
  refine ⟨⟨flag, account, position, price, n.movement.elim false MovementNode.isTotal⟩, ?_⟩
  simp only [value?, hFlag, hAccount, hPosition, hPrice, Option.bind_eq_bind, Option.bind_some,
    Option.pure_def]

theorem PostingLineNode.exists_postings {lines : List PostingLineNode}
    (h : ∀ token ∈ allTokens lines, token.IsComplete) :
    ∃ postings, postings? lines = some postings := by
  have hLine : ∀ line ∈ lines, ∃ value, value? line = some value := by
    intro line hMem
    have hTokens : ∀ token ∈ line.tokens, token.IsComplete := fun token hToken =>
      h token (List.mem_flatMap.2 ⟨line, hMem, hToken⟩)
    cases line with
    | comment text lineEnd => exact ⟨none, rfl⟩
    | posting n =>
        obtain ⟨p, hPosting⟩ := PostingNode.exists_value hTokens
        exact ⟨some p, by rw [value?, hPosting, Option.map_some]⟩
  obtain ⟨values, hValues⟩ := exists_mapM hLine
  exact ⟨values.filterMap id, by rw [postings?, hValues, Option.map_some]⟩

theorem FlagNode.exists_value {n : FlagNode} (h : n.token.IsComplete) :
    ∃ c, n.value? = some c := by
  cases n with
  | txn word => exact ⟨'*', rfl⟩
  | flag sign => exact Leaf.exists_char h

theorem TitleNode.exists_value {n : TitleNode} (h : ∀ token ∈ n.tokens, token.IsComplete) :
    ∃ title, n.value? = some title := by
  cases n with
  | narration n =>
      obtain ⟨narration, hNarration⟩ := Leaf.exists_text (h n.token (by simp [tokens])) rfl
      exact ⟨(none, narration), by simp [value?, hNarration]⟩
  | payee p pipe n =>
      obtain ⟨payee, hPayee⟩ := Leaf.exists_text (h p.token (by simp [tokens])) rfl
      obtain ⟨narration, hNarration⟩ := Leaf.exists_text (h n.token (by simp [tokens])) rfl
      exact ⟨(some payee, narration), by simp [value?, hPayee, hNarration]⟩

/-- The leaves of a repetition have their texts. -/
theorem Leaf.exists_texts {kind : TokenKind} {ls : List (Leaf kind)}
    (h : ∀ token ∈ ls.map Leaf.token, token.IsComplete) (hKind : kind.carriesText = true) :
    ∃ texts, ls.mapM Leaf.text? = some texts :=
  exists_mapM fun l hl => exists_text (h l.token (List.mem_map_of_mem hl)) hKind

theorem TransactionNode.exists_value {n : TransactionNode} (date : Date)
    (h : ∀ token ∈ n.tokens, token.IsComplete) : ∃ x, n.value? date = some x := by
  simp only [tokens, List.cons_append, List.append_assoc, List.forall_mem_cons,
    List.forall_mem_append] at h
  obtain ⟨hFlag, hTitle, hTags, hLinks, -, hLines⟩ := h
  obtain ⟨flag, hFlag⟩ := FlagNode.exists_value hFlag
  obtain ⟨title, hTitle⟩ := TitleNode.exists_value hTitle
  obtain ⟨tags, hTags⟩ := Leaf.exists_texts hTags rfl
  obtain ⟨links, hLinks⟩ := Leaf.exists_texts hLinks rfl
  obtain ⟨postings, hPostings⟩ := PostingLineNode.exists_postings hLines
  refine ⟨⟨date, flag, title.1, title.2, tags, links, postings⟩, ?_⟩
  simp only [value?, hFlag, hTitle, hTags, hLinks, hPostings, Option.bind_eq_bind,
    Option.bind_some, Option.pure_def]

theorem CurrenciesNode.exists_value {n : CurrenciesNode}
    (h : ∀ token ∈ n.tokens, token.IsComplete) : ∃ values, n.value? = some values := by
  induction n with
  | one l =>
      obtain ⟨text, hText⟩ := Leaf.exists_text (h l.token (by simp [tokens])) rfl
      exact ⟨[text], by simp [value?, hText]⟩
  | more l comma others ih =>
      simp only [tokens, List.cons_append, List.forall_mem_cons, List.forall_mem_append] at h
      obtain ⟨text, hText⟩ := Leaf.exists_text h.1 rfl
      obtain ⟨values, hValues⟩ := ih h.2.2
      exact ⟨text :: values, by simp [value?, hText, hValues]⟩

theorem CurrenciesNode.exists_listed {n : Option CurrenciesNode}
    (h : ∀ token ∈ n.elim [] CurrenciesNode.tokens, token.IsComplete) :
    ∃ values, listed? n = some values := by
  cases n with
  | none => exact ⟨[], rfl⟩
  | some n => exact exists_value h

theorem LineNode.exists_value {n : LineNode} (date : Date)
    (h : ∀ token ∈ n.tokens, token.IsComplete) : ∃ c, n.value? date = some c := by
  -- Two texts, or a text and an amount, are what most of the lines consist of.
  have hTwo {first second : TokenKind} {a : Leaf first} {b : Leaf second}
      (hFirst : first.carriesText = true) (hSecond : second.carriesText = true)
      (ha : a.token.IsComplete) (hb : b.token.IsComplete) :
      ∃ x y, a.text? = some x ∧ b.text? = some y := by
    obtain ⟨x, hx⟩ := Leaf.exists_text ha hFirst
    obtain ⟨y, hy⟩ := Leaf.exists_text hb hSecond
    exact ⟨x, y, hx, hy⟩
  have hAmount {first : TokenKind} {a : Leaf first} {m : AmountNode}
      (hFirst : first.carriesText = true) (ha : a.token.IsComplete)
      (hm : ∀ token ∈ m.tokens, token.IsComplete) :
      ∃ x y, a.text? = some x ∧ m.value? = some y := by
    obtain ⟨x, hx⟩ := Leaf.exists_text ha hFirst
    obtain ⟨y, hy⟩ := AmountNode.exists_value hm
    exact ⟨x, y, hx, hy⟩
  cases n <;> simp only [tokens, List.forall_mem_cons] at h
  case opening word account currencies =>
    obtain ⟨x, hx⟩ := Leaf.exists_text h.2.1 rfl
    obtain ⟨y, hy⟩ := CurrenciesNode.exists_listed h.2.2
    exact ⟨.opening date x y, by simp [value?, hx, hy]⟩
  case closing word account =>
    obtain ⟨x, hx⟩ := Leaf.exists_text h.2.1 rfl
    exact ⟨.closing date x, by simp [value?, hx]⟩
  case pad word account source =>
    obtain ⟨x, y, hx, hy⟩ := hTwo rfl rfl h.2.1 h.2.2.1
    exact ⟨.pad date x y, by simp [value?, hx, hy]⟩
  case check word account amount =>
    obtain ⟨x, y, hx, hy⟩ := hAmount rfl h.2.1 h.2.2
    exact ⟨.balance date x y, by simp [value?, hx, hy]⟩
  case price word currency amount =>
    obtain ⟨x, y, hx, hy⟩ := hAmount rfl h.2.1 h.2.2
    exact ⟨.price date x y, by simp [value?, hx, hy]⟩
  case event word topic description =>
    obtain ⟨x, y, hx, hy⟩ := hTwo rfl rfl h.2.1 h.2.2.1
    exact ⟨.event date x y, by simp [value?, hx, hy]⟩
  case note word account comment =>
    obtain ⟨x, y, hx, hy⟩ := hTwo rfl rfl h.2.1 h.2.2.1
    exact ⟨.note date x y, by simp [value?, hx, hy]⟩
  case document word account path =>
    obtain ⟨x, y, hx, hy⟩ := hTwo rfl rfl h.2.1 h.2.2.1
    exact ⟨.document date x y, by simp [value?, hx, hy]⟩

/-- A tree has a value if all its tokens carry what their kinds call for. -/
theorem StatementNode.exists_value {n : StatementNode}
    (h : ∀ token ∈ n.tokens, token.IsComplete) : ∃ c, n.value? = some c := by
  rw [tokens, List.forall_mem_cons] at h
  cases n with
  | entry l dated =>
      obtain ⟨date, hDate⟩ := Leaf.exists_day h.1
      cases dated with
      | transaction t =>
          obtain ⟨x, hx⟩ := TransactionNode.exists_value date h.2
          exact ⟨.transaction x, by simp [value?, hDate, DatedNode.value?, hx]⟩
      | line m lineEnd =>
          have hLine : ∀ token ∈ m.tokens, token.IsComplete := fun token hToken =>
            h.2 token (List.mem_append_left _ hToken)
          obtain ⟨c, hc⟩ := LineNode.exists_value date hLine
          exact ⟨c, by simp [value?, hDate, DatedNode.value?, hc]⟩
  | option word k v lineEnd =>
      simp only [tail, List.forall_mem_cons] at h
      obtain ⟨key, hKey⟩ := Leaf.exists_text h.2.1 rfl
      obtain ⟨text, hText⟩ := Leaf.exists_text h.2.2.1 rfl
      exact ⟨.option key text, by simp [value?, hKey, hText]⟩

end Grammar

end LedgerText
