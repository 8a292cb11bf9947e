import LedgerText.Proofs.Grammar.Transactions

/-!
# The tags of a header

A transaction names tags on its first line and nowhere else. So the tags that it
names are the texts of the tags among its tokens (`tags_of_directive`).
-/

namespace LedgerText

/-- The text of a tag; other tokens have none. -/
def Token.tag? (token : Token) : Option String :=
  if token.kind = .tag then token.value.text? else none

namespace Grammar

open Parse

/-! ## Kinds of tokens -/

/-- The kinds of tokens that postings and line ends consist of. -/
def postingTokenKinds : List TokenKind :=
  [.indent, .flag, .account, .number, .currency, .mark .leftBrace, .mark .slash, .date,
   .mark .rightBrace, .mark .singleAt, .mark .doubleAt, .lineEnd, .comment]

theorem kind_mem_of_lineEnd (e : LineEndNode) :
    ∀ token ∈ e.tokens, token.kind ∈ postingTokenKinds := by
  rcases e with l | ⟨l, _ | m⟩ | ⟨l, _ | m⟩ <;>
    simp [LineEndNode.tokens, optionalToken, Leaf.kind_eq, postingTokenKinds]

theorem kind_mem_of_amount (a : AmountNode) :
    ∀ token ∈ a.tokens, token.kind ∈ postingTokenKinds := by
  simp [AmountNode.tokens, Leaf.kind_eq, postingTokenKinds]

theorem kind_mem_of_position (p : PositionNode) :
    ∀ token ∈ p.tokens, token.kind ∈ postingTokenKinds := by
  rcases p with ⟨units, _ | ⟨leftBrace, cost, _ | date, rightBrace⟩⟩ <;>
    simp [PositionNode.tokens, LotCostNode.tokens, AmountNode.tokens, LotDateNode.tokens,
      Leaf.kind_eq, postingTokenKinds]

theorem kind_mem_of_movement (m : MovementNode) :
    ∀ token ∈ m.tokens, token.kind ∈ postingTokenKinds := by
  obtain ⟨position, price⟩ := m
  rw [MovementNode.tokens, List.forall_mem_append]
  refine ⟨kind_mem_of_position position, ?_⟩
  rcases price with _ | ⟨sign | sign, amount⟩
  · exact List.forall_mem_nil _
  · exact List.forall_mem_cons.2 ⟨by simp [PriceSign.token, Leaf.kind_eq, postingTokenKinds],
      kind_mem_of_amount amount⟩
  · exact List.forall_mem_cons.2 ⟨by simp [PriceSign.token, Leaf.kind_eq, postingTokenKinds],
      kind_mem_of_amount amount⟩

theorem kind_mem_of_line (line : PostingLineNode) :
    ∀ token ∈ line.tokens, token.kind ∈ postingTokenKinds := by
  cases line with
  | comment text lineEnd => exact kind_mem_of_lineEnd (.comment text lineEnd)
  | posting p =>
      obtain ⟨indent, flag, account, movement, lineEnd⟩ := p
      simp only [PostingLineNode.tokens, PostingNode.tokens, List.cons_append, List.append_assoc,
        List.forall_mem_cons, List.forall_mem_append]
      refine ⟨?_, ?_, ?_, ?_, kind_mem_of_lineEnd lineEnd⟩
      · simp [Leaf.kind_eq, postingTokenKinds]
      · cases flag <;> simp [optionalToken, Leaf.kind_eq, postingTokenKinds]
      · simp [Leaf.kind_eq, postingTokenKinds]
      · cases movement with
        | none => exact List.forall_mem_nil _
        | some m => exact kind_mem_of_movement m

/-! ## Tags among tokens -/

theorem tag?_eq_some {token : Token} {tag : String} :
    token.tag? = some tag ↔ token.kind = .tag ∧ token.value.text? = some tag := by
  rw [Token.tag?]
  by_cases hKind : token.kind = .tag
  · rw [if_pos hKind]
    exact ⟨fun h => ⟨hKind, h⟩, And.right⟩
  · rw [if_neg hKind]
    exact ⟨fun h => absurd h.symm (Option.some_ne_none tag), fun h => absurd h.1 hKind⟩

theorem tag?_of_kind_ne {token : Token} (h : token.kind ≠ .tag) : token.tag? = none := if_neg h

theorem filterMap_tag?_of_kind_mem {tokens : List Token}
    (h : ∀ token ∈ tokens, token.kind ∈ postingTokenKinds) : tokens.filterMap Token.tag? = [] := by
  rw [List.filterMap_eq_nil_iff]
  intro token hMem
  apply tag?_of_kind_ne
  intro hKind
  have hPosting := h token hMem
  rw [hKind] at hPosting
  revert hPosting
  decide

theorem filterMap_tag?_of_leaves {ls : List (Leaf .tag)} {texts : List String}
    (h : ls.mapM Leaf.text? = some texts) : (ls.map Leaf.token).filterMap Token.tag? = texts := by
  induction ls generalizing texts with
  | nil =>
      cases h
      rfl
  | cons l rest ih =>
      obtain ⟨text, others, hText, hRest, rfl⟩ := mapM_cons_eq_some.1 h
      rw [List.map_cons, List.filterMap_cons_some (tag?_eq_some.2 ⟨l.kind_eq, hText⟩), ih hRest]

/-- The tags among the tokens of a transaction are those that its header names. -/
theorem filterMap_tag?_of_transaction {n : TransactionNode} {texts : List String}
    (h : n.tags.mapM Leaf.text? = some texts) : n.tokens.filterMap Token.tag? = texts := by
  have hFlag : n.flag.token.tag? = none := by
    apply tag?_of_kind_ne
    cases n.flag <;> simp [FlagNode.token, Leaf.kind_eq]
  have hTitle : n.title.tokens.filterMap Token.tag? = [] := by
    have hKind : ∀ token ∈ n.title.tokens, token.kind ≠ .tag := by
      rcases n.title with m | ⟨m, _ | pipe, l⟩ <;>
        simp [TitleNode.tokens, optionalToken, Leaf.kind_eq]
    rw [List.filterMap_eq_nil_iff]
    intro token hMem
    exact tag?_of_kind_ne (hKind token hMem)
  have hLinks : (n.links.map Leaf.token).filterMap Token.tag? = [] := by
    rw [List.filterMap_eq_nil_iff, List.forall_mem_map]
    intro l _
    exact tag?_of_kind_ne (by simp [l.kind_eq])
  have hLines : (PostingLineNode.allTokens n.lines).filterMap Token.tag? = [] := by
    apply filterMap_tag?_of_kind_mem
    intro token hMem
    obtain ⟨line, -, hToken⟩ := List.mem_flatMap.1 hMem
    exact kind_mem_of_line line token hToken
  rw [TransactionNode.tokens, List.cons_append, List.cons_append, List.cons_append,
    List.cons_append, List.filterMap_cons_none hFlag, List.filterMap_append, List.filterMap_append,
    List.filterMap_append, List.filterMap_append, hTitle, filterMap_tag?_of_leaves h, hLinks,
    filterMap_tag?_of_kind_mem (kind_mem_of_lineEnd n.lineEnd), hLines]
  simp

/-! ## Tags of directives -/

section

variable {tags : TagContext} {x : Spanned Directive} {read : Transaction}

/-- A tree that stands for a transaction is the tree of one. -/
theorem exists_of_transaction {m : StatementNode} {written : Transaction}
    (h : m.value? = some (.transaction written)) : ∃ date n,
      m = .entry date (.transaction n) ∧ n.tags.mapM Leaf.text? = some written.tags := by
  cases m with
  | option word key value lineEnd =>
      simp [StatementNode.value?, Option.bind_eq_some_iff] at h
  | entry date dated =>
      obtain ⟨day, -, hDated⟩ := Option.bind_eq_some_iff.1 h
      cases dated with
      | line line lineEnd =>
          cases line <;>
            simp [DatedNode.value?, LineNode.value?, Option.bind_eq_some_iff] at hDated
      | transaction n =>
          obtain ⟨found, hFound, hSame⟩ := Option.map_eq_some_iff.1 hDated
          cases hSame
          exact ⟨date, n, rfl, (transactionNode_value?_eq_some.1 hFound).2.2.1⟩

/-- A tree that stands for a transaction adds the active tags to those of its header. -/
theorem tags_of_directive {m : StatementNode} {filename : String}
    (h : m.directive? filename tags = some x) (hContent : x.value.content = .transaction read) :
    read.tags = m.tokens.filterMap Token.tag? ++
      tags.active.filter fun tag => !(m.tokens.filterMap Token.tag?).contains tag := by
  obtain ⟨content, hValue, rfl⟩ := Option.map_eq_some_iff.1 h
  have hAdd : content.addTags tags = .transaction read := hContent
  cases content with
  | transaction written =>
      cases hAdd
      obtain ⟨date, n, rfl, hTags⟩ := exists_of_transaction hValue
      have hDate : date.token.tag? = none := tag?_of_kind_ne (by simp [date.kind_eq])
      have hHeader : (StatementNode.entry date (.transaction n)).tokens.filterMap Token.tag? =
          written.tags :=
        (List.filterMap_cons_none hDate).trans (filterMap_tag?_of_transaction hTags)
      rw [hHeader]
      rfl
  | _ => cases hAdd

end

end Grammar

end LedgerText
