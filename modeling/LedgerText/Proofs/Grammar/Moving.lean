import LedgerText.Proofs.Grammar.Tree

/-!
# Moving and closing trees

Two changes that leave what a statement says alone. `moved` puts its tokens in
other places, and `closed` adds the line end that the last of its lines does
not have. Between them they are all that happens to a statement that is taken
out of its text.

The kinds of tokens that stand within a line are `isInline`; a statement ends
with a line end that has such a token in front of it, or with a comment
(`StatementNode.ends`).
-/

namespace LedgerText

/-- A token with its place moved. -/
def Token.moved (move : Span → Span) (t : Token) : Token := { t with span := move t.span }

/-- Whether tokens of this kind stand within the lines of a statement. -/
def TokenKind.isInline : TokenKind → Bool
  | .endOfInput | .error | .indent | .lineEnd | .comment | .skipped => false
  | _ => true

namespace Grammar

/-! ## Moved trees -/

section

variable (move : Span → Span)

def Leaf.moved {kind : TokenKind} (l : Leaf kind) : Leaf kind := ⟨l.token.moved move, l.kind_eq⟩

@[simp] theorem Leaf.text?_moved {kind : TokenKind} (l : Leaf kind) :
    (l.moved move).text? = l.text? := rfl

@[simp] theorem Leaf.char?_moved {kind : TokenKind} (l : Leaf kind) :
    (l.moved move).char? = l.char? := rfl

@[simp] theorem Leaf.day?_moved {kind : TokenKind} (l : Leaf kind) :
    (l.moved move).day? = l.day? := rfl

@[simp] theorem optionalToken_moved {kind : TokenKind} (leaf : Option (Leaf kind)) :
    optionalToken (leaf.map (Leaf.moved move)) =
      (optionalToken leaf).map (Token.moved move) := by
  cases leaf <;> rfl

/-- What comes next is of the same kind. -/
@[simp] theorem nextKind_moved (w : List Token) :
    nextKind (w.map (Token.moved move)) = nextKind w := by
  cases w <;> rfl

theorem optional?_map {α β : Type} {value? : α → Option β} {f : α → α}
    (h : ∀ a, value? (f a) = value? a) (part : Option α) :
    optional? value? (part.map f) = optional? value? part := by
  cases part with
  | none => rfl
  | some a => exact congrArg (Option.map some) (h a)

theorem mapM_map {α β : Type} {value? : α → Option β} {f : α → α}
    (h : ∀ a, value? (f a) = value? a) (parts : List α) :
    (parts.map f).mapM value? = parts.mapM value? := by
  induction parts with
  | nil => rfl
  | cons a parts ih => rw [List.map_cons, List.mapM_cons, List.mapM_cons, h a, ih]

namespace LineEndNode

def moved : LineEndNode → LineEndNode
  | .plain lineEnd => .plain (lineEnd.moved move)
  | .indent blanks lineEnd => .indent (blanks.moved move) (lineEnd.map (Leaf.moved move))
  | .comment text lineEnd => .comment (text.moved move) (lineEnd.map (Leaf.moved move))

@[simp] theorem tokens_moved (e : LineEndNode) :
    (e.moved move).tokens = e.tokens.map (Token.moved move) := by
  cases e <;> simp [moved, tokens, Leaf.moved]

@[simp] theorem closesLine_moved (e : LineEndNode) :
    (e.moved move).closesLine = e.closesLine := by
  cases e <;> simp [moved, closesLine]

theorem greedy_moved {e : LineEndNode} {rest : List Token} (h : e.Greedy rest) :
    (e.moved move).Greedy (rest.map (Token.moved move)) := by
  rw [Greedy, closesLine_moved, nextKind_moved]
  exact h

end LineEndNode

def AmountNode.moved (a : AmountNode) : AmountNode := ⟨a.number.moved move, a.currency.moved move⟩

def LotDateNode.moved (d : LotDateNode) : LotDateNode := ⟨d.slash.moved move, d.date.moved move⟩

namespace LotCostNode

def moved (c : LotCostNode) : LotCostNode :=
  ⟨c.leftBrace.moved move, c.cost.moved move, c.date.map (LotDateNode.moved move),
    c.rightBrace.moved move⟩

@[simp] theorem tokens_moved (c : LotCostNode) :
    (c.moved move).tokens = c.tokens.map (Token.moved move) := by
  obtain ⟨leftBrace, cost, date, rightBrace⟩ := c
  cases date <;> rfl

@[simp] theorem value?_moved (c : LotCostNode) : (c.moved move).value? = c.value? := by
  obtain ⟨leftBrace, cost, date, rightBrace⟩ := c
  cases date <;> rfl

end LotCostNode

namespace PositionNode

def moved (p : PositionNode) : PositionNode :=
  ⟨p.units.moved move, p.cost.map (LotCostNode.moved move)⟩

@[simp] theorem tokens_moved (p : PositionNode) :
    (p.moved move).tokens = p.tokens.map (Token.moved move) := by
  obtain ⟨units, cost⟩ := p
  cases cost <;> simp [moved, tokens, AmountNode.moved, AmountNode.tokens, Leaf.moved]

@[simp] theorem value?_moved (p : PositionNode) : (p.moved move).value? = p.value? := by
  have hUnits : (p.units.moved move).value? = p.units.value? := rfl
  rw [value?, value?, moved, hUnits, optional?_map (LotCostNode.value?_moved move)]

end PositionNode

def PriceSign.moved : PriceSign → PriceSign
  | .each sign => .each (sign.moved move)
  | .total sign => .total (sign.moved move)

@[simp] theorem PriceSign.token_moved (p : PriceSign) :
    (p.moved move).token = p.token.moved move := by
  cases p <;> rfl

@[simp] theorem PriceSign.isTotal_moved (p : PriceSign) : (p.moved move).isTotal = p.isTotal := by
  cases p <;> rfl

namespace MovementNode

def moved (m : MovementNode) : MovementNode :=
  ⟨m.position.moved move, m.price.map fun price => (price.1.moved move, price.2.moved move)⟩

@[simp] theorem tokens_moved (m : MovementNode) :
    (m.moved move).tokens = m.tokens.map (Token.moved move) := by
  obtain ⟨position, price⟩ := m
  cases price <;> simp [moved, tokens, AmountNode.moved, AmountNode.tokens, Leaf.moved]

@[simp] theorem isTotal_moved (m : MovementNode) : (m.moved move).isTotal = m.isTotal := by
  obtain ⟨position, price⟩ := m
  cases price <;> simp [moved, isTotal]

end MovementNode

namespace PostingNode

def moved (p : PostingNode) : PostingNode :=
  ⟨p.indent.moved move, p.flag.map (Leaf.moved move), p.account.moved move,
    p.movement.map (MovementNode.moved move), p.lineEnd.moved move⟩

@[simp] theorem tokens_moved (p : PostingNode) :
    (p.moved move).tokens = p.tokens.map (Token.moved move) := by
  obtain ⟨indent, flag, account, movement, lineEnd⟩ := p
  cases movement <;> simp [moved, tokens, Leaf.moved]

@[simp] theorem value?_moved (p : PostingNode) : (p.moved move).value? = p.value? := by
  obtain ⟨indent, flag, account, movement, lineEnd⟩ := p
  have hFlag : optional? Leaf.char? (flag.map (Leaf.moved move)) = optional? Leaf.char? flag :=
    optional?_map (Leaf.char?_moved move) flag
  cases movement with
  | none => simp [moved, value?, hFlag]
  | some m =>
      have hPosition : optional? (fun n : MovementNode => n.position.value?)
          (some (m.moved move)) = optional? (fun n => n.position.value?) (some m) :=
        optional?_map (f := MovementNode.moved move)
          (fun n => n.position.value?_moved move) (some m)
      have hPrice : optional? (fun price : PriceSign × AmountNode => price.2.value?)
          (m.moved move).price = optional? (fun price => price.2.value?) m.price :=
        optional?_map (f := fun price => (price.1.moved move, price.2.moved move))
          (fun _ => rfl) m.price
      simp [moved, value?, hFlag, hPosition, hPrice]

end PostingNode

namespace PostingLineNode

def moved : PostingLineNode → PostingLineNode
  | .posting p => .posting (p.moved move)
  | .comment text lineEnd => .comment (text.moved move) (lineEnd.map (Leaf.moved move))

@[simp] theorem tokens_moved (line : PostingLineNode) :
    (line.moved move).tokens = line.tokens.map (Token.moved move) := by
  cases line <;> simp [moved, tokens, Leaf.moved]

@[simp] theorem lineEnd_moved (line : PostingLineNode) :
    (line.moved move).lineEnd = line.lineEnd.moved move := by
  cases line <;> rfl

@[simp] theorem isComment_moved (line : PostingLineNode) :
    (line.moved move).isComment = line.isComment := by
  cases line <;> rfl

theorem value?_moved (line : PostingLineNode) : (line.moved move).value? = line.value? := by
  cases line <;> simp [moved, value?]

@[simp] theorem allTokens_moved (lines : List PostingLineNode) :
    allTokens (lines.map (moved move)) = (allTokens lines).map (Token.moved move) := by
  simp [allTokens, List.flatMap_map, List.map_flatMap]

@[simp] theorem postings?_moved (lines : List PostingLineNode) :
    postings? (lines.map (moved move)) = postings? lines := by
  rw [postings?, postings?, mapM_map (value?_moved move)]

theorem allGreedy_moved {lines : List PostingLineNode} {fresh : Bool} {rest : List Token}
    (h : AllGreedy fresh lines rest) :
    AllGreedy fresh (lines.map (moved move)) (rest.map (Token.moved move)) := by
  induction lines generalizing fresh with
  | nil => simpa [AllGreedy] using h
  | cons line lines ih =>
      obtain ⟨hComment, hLine, hMore⟩ := h
      refine ⟨by simpa using hComment, ?_, ?_⟩
      · rw [lineEnd_moved, allTokens_moved, ← List.map_append]
        exact LineEndNode.greedy_moved move hLine
      · rw [lineEnd_moved, LineEndNode.closesLine_moved]
        exact ih hMore

end PostingLineNode

namespace FlagNode

def moved : FlagNode → FlagNode
  | .txn word => .txn (word.moved move)
  | .flag sign => .flag (sign.moved move)

@[simp] theorem token_moved (n : FlagNode) : (n.moved move).token = n.token.moved move := by
  cases n <;> rfl

@[simp] theorem value?_moved (n : FlagNode) : (n.moved move).value? = n.value? := by
  cases n <;> rfl

end FlagNode

namespace TitleNode

def moved : TitleNode → TitleNode
  | .narration n => .narration (n.moved move)
  | .payee p pipe n => .payee (p.moved move) (pipe.map (Leaf.moved move)) (n.moved move)

@[simp] theorem tokens_moved (n : TitleNode) :
    (n.moved move).tokens = n.tokens.map (Token.moved move) := by
  cases n <;> simp [moved, tokens, Leaf.moved]

@[simp] theorem value?_moved (n : TitleNode) : (n.moved move).value? = n.value? := by
  cases n <;> rfl

end TitleNode

namespace TransactionNode

def moved (t : TransactionNode) : TransactionNode :=
  ⟨t.flag.moved move, t.title.moved move, t.tags.map (Leaf.moved move),
    t.links.map (Leaf.moved move), t.lineEnd.moved move, t.lines.map (PostingLineNode.moved move)⟩

@[simp] theorem tokens_moved (t : TransactionNode) :
    (t.moved move).tokens = t.tokens.map (Token.moved move) := by
  simp [moved, tokens, Leaf.moved, Function.comp_def]

@[simp] theorem value?_moved (t : TransactionNode) (date : Date) :
    (t.moved move).value? date = t.value? date := by
  have hTexts {kind : TokenKind} (ls : List (Leaf kind)) :
      (ls.map (Leaf.moved move)).mapM Leaf.text? = ls.mapM Leaf.text? :=
    mapM_map (Leaf.text?_moved move) ls
  simp [moved, value?, hTexts]

theorem greedy_moved {t : TransactionNode} {rest : List Token} (h : t.Greedy rest) :
    (t.moved move).Greedy (rest.map (Token.moved move)) := by
  obtain ⟨hLine, hLines⟩ := h
  constructor
  · show (t.lineEnd.moved move).Greedy (PostingLineNode.allTokens (t.lines.map _) ++ _)
    rw [PostingLineNode.allTokens_moved, ← List.map_append]
    exact LineEndNode.greedy_moved move hLine
  · show PostingLineNode.AllGreedy (t.lineEnd.moved move).closesLine (t.lines.map _) _
    rw [LineEndNode.closesLine_moved]
    exact PostingLineNode.allGreedy_moved move hLines

end TransactionNode

namespace CurrenciesNode

def moved : CurrenciesNode → CurrenciesNode
  | .one currency => .one (currency.moved move)
  | .more currency comma others =>
      .more (currency.moved move) (comma.map (Leaf.moved move)) others.moved

@[simp] theorem tokens_moved (n : CurrenciesNode) :
    (n.moved move).tokens = n.tokens.map (Token.moved move) := by
  induction n with
  | one currency => rfl
  | more currency comma others ih => simp [moved, tokens, Leaf.moved, ih]

@[simp] theorem value?_moved (n : CurrenciesNode) : (n.moved move).value? = n.value? := by
  induction n with
  | one currency => rfl
  | more currency comma others ih =>
      rw [moved, value?, value?, ih, Leaf.text?_moved]

end CurrenciesNode

namespace LineNode

def moved : LineNode → LineNode
  | .opening word account currencies =>
      .opening (word.moved move) (account.moved move) (currencies.map (CurrenciesNode.moved move))
  | .closing word account => .closing (word.moved move) (account.moved move)
  | .pad word account source => .pad (word.moved move) (account.moved move) (source.moved move)
  | .check word account amount =>
      .check (word.moved move) (account.moved move) (amount.moved move)
  | .price word currency amount =>
      .price (word.moved move) (currency.moved move) (amount.moved move)
  | .event word topic description =>
      .event (word.moved move) (topic.moved move) (description.moved move)
  | .note word account comment => .note (word.moved move) (account.moved move) (comment.moved move)
  | .document word account path =>
      .document (word.moved move) (account.moved move) (path.moved move)

@[simp] theorem tokens_moved (n : LineNode) :
    (n.moved move).tokens = n.tokens.map (Token.moved move) := by
  cases n with
  | opening word account currencies =>
      cases currencies <;> simp [moved, tokens, Leaf.moved]
  | _ => rfl

@[simp] theorem value?_moved (n : LineNode) (date : Date) :
    (n.moved move).value? date = n.value? date := by
  cases n with
  | opening word account currencies =>
      have hListed : CurrenciesNode.listed? (currencies.map (CurrenciesNode.moved move)) =
          CurrenciesNode.listed? currencies := by
        cases currencies with
        | none => rfl
        | some n => exact n.value?_moved move
      rw [moved, value?, value?, hListed, Leaf.text?_moved]
  | _ => rfl

end LineNode

namespace DatedNode

def moved : DatedNode → DatedNode
  | .transaction t => .transaction (t.moved move)
  | .line l lineEnd => .line (l.moved move) (lineEnd.moved move)

@[simp] theorem tokens_moved (n : DatedNode) :
    (n.moved move).tokens = n.tokens.map (Token.moved move) := by
  cases n <;> simp [moved, tokens]

@[simp] theorem value?_moved (n : DatedNode) (date : Date) :
    (n.moved move).value? date = n.value? date := by
  cases n <;> simp [moved, value?]

theorem greedy_moved {n : DatedNode} {rest : List Token} (h : n.Greedy rest) :
    (n.moved move).Greedy (rest.map (Token.moved move)) := by
  cases n with
  | transaction t => exact TransactionNode.greedy_moved move h
  | line l lineEnd => exact LineEndNode.greedy_moved move h

end DatedNode

namespace StatementNode

def moved : StatementNode → StatementNode
  | .entry date dated => .entry (date.moved move) (dated.moved move)
  | .option word key value lineEnd =>
      .option (word.moved move) (key.moved move) (value.moved move) (lineEnd.moved move)

@[simp] theorem head_moved (n : StatementNode) : (n.moved move).head = n.head.moved move := by
  cases n <;> rfl

@[simp] theorem tokens_moved (n : StatementNode) :
    (n.moved move).tokens = n.tokens.map (Token.moved move) := by
  cases n <;> simp [moved, tokens, head, tail, Leaf.moved]

@[simp] theorem value?_moved (n : StatementNode) : (n.moved move).value? = n.value? := by
  cases n with
  | entry date dated => simp [moved, value?]
  | option word key value lineEnd => rfl

theorem head_kind (n : StatementNode) :
    n.head.kind = .date ∨ n.head.kind = .keyword .option := by
  cases n with
  | entry date dated => exact .inl date.kind_eq
  | option word key value lineEnd => exact .inr word.kind_eq

theorem getLast?_tokens (n : StatementNode) : n.tokens.getLast? = some n.last := by
  rw [tokens, last, List.getLast?_cons, List.getLastD_eq_getLast?]

@[simp] theorem last_moved (n : StatementNode) : (n.moved move).last = n.last.moved move := by
  have hLast := (n.moved move).getLast?_tokens
  rw [tokens_moved, List.getLast?_map, getLast?_tokens, Option.map_some, Option.some.injEq] at hLast
  exact hLast.symm

theorem greedy_moved {n : StatementNode} {rest : List Token} (h : n.Greedy rest) :
    (n.moved move).Greedy (rest.map (Token.moved move)) := by
  cases n with
  | entry date dated => exact DatedNode.greedy_moved move h
  | option word key value lineEnd => exact LineEndNode.greedy_moved move h

end StatementNode

end

/-! ## The last line of a statement -/

/-- Tokens that end with a line end, which is a comment or has something in front of it on its
line. -/
def LineEndNode.Ends (e : LineEndNode) (w : List Token) : Prop :=
  ∃ front back, w = front ++ back ++ e.tokens ∧ ((∃ text lineEnd, e = .comment text lineEnd) ∨
    back ≠ [] ∧ ∀ token ∈ back, token.kind.isInline = true)

section

variable {e : LineEndNode} {w : List Token}

/-- Something in front of the line end, and nothing but that in front of it on the line. -/
theorem LineEndNode.ends_of_inline (hSome : w ≠ [])
    (hInline : ∀ token ∈ w, token.kind.isInline = true) : e.Ends (w ++ e.tokens) :=
  ⟨[], w, rfl, .inr ⟨hSome, hInline⟩⟩

theorem LineEndNode.Ends.append (h : e.Ends w) (front : List Token) : e.Ends (front ++ w) := by
  obtain ⟨more, back, rfl, hBack⟩ := h
  exact ⟨front ++ more, back, by simp, hBack⟩

/-- An indent that ends a line is not the first token on it. -/
theorem LineEndNode.Ends.exists_inline {blanks : Leaf .indent} {lineEnd : Option (Leaf .lineEnd)}
    (h : (LineEndNode.indent blanks lineEnd).Ends w) :
    ∃ front token, w = front ++ token :: blanks.token :: optionalToken lineEnd ∧
      token.kind.isInline = true := by
  obtain ⟨front, back, rfl, ⟨text, other, hComment⟩ | ⟨hSome, hInline⟩⟩ := h
  · cases hComment
  · obtain ⟨others, token, rfl⟩ := (List.eq_nil_or_concat back).resolve_left hSome
    refine ⟨front ++ others, token, by simp [tokens], hInline token (by simp)⟩

end

theorem Leaf.isInline {kind : TokenKind} (l : Leaf kind) (hKind : kind.isInline = true) :
    l.token.kind.isInline = true := by
  rw [l.kind_eq]
  exact hKind

theorem optionalToken_isInline {kind : TokenKind} {leaf : Option (Leaf kind)}
    (hKind : kind.isInline = true) : ∀ token ∈ optionalToken leaf, token.kind.isInline = true := by
  cases leaf with
  | none => exact List.forall_mem_nil _
  | some l => exact List.forall_mem_singleton.2 (l.isInline hKind)

theorem AmountNode.isInline (a : AmountNode) : ∀ token ∈ a.tokens, token.kind.isInline = true := by
  simp only [tokens, List.forall_mem_cons]
  exact ⟨a.number.isInline rfl, a.currency.isInline rfl, List.forall_mem_nil _⟩

theorem LotDateNode.isInline (d : LotDateNode) :
    ∀ token ∈ d.tokens, token.kind.isInline = true := by
  simp only [tokens, List.forall_mem_cons]
  exact ⟨d.slash.isInline rfl, d.date.isInline rfl, List.forall_mem_nil _⟩

theorem LotCostNode.isInline (c : LotCostNode) :
    ∀ token ∈ c.tokens, token.kind.isInline = true := by
  obtain ⟨leftBrace, cost, date, rightBrace⟩ := c
  simp only [tokens, List.cons_append, List.forall_mem_cons, List.forall_mem_append]
  refine ⟨leftBrace.isInline rfl, ⟨cost.isInline, ?_⟩, rightBrace.isInline rfl,
    List.forall_mem_nil _⟩
  cases date with
  | none => exact List.forall_mem_nil _
  | some d => exact d.isInline

theorem PositionNode.isInline (p : PositionNode) :
    ∀ token ∈ p.tokens, token.kind.isInline = true := by
  obtain ⟨units, cost⟩ := p
  rw [tokens, List.forall_mem_append]
  refine ⟨units.isInline, ?_⟩
  cases cost with
  | none => exact List.forall_mem_nil _
  | some c => exact c.isInline

theorem MovementNode.isInline (m : MovementNode) :
    ∀ token ∈ m.tokens, token.kind.isInline = true := by
  obtain ⟨position, price⟩ := m
  rw [tokens, List.forall_mem_append]
  refine ⟨position.isInline, ?_⟩
  cases price with
  | none => exact List.forall_mem_nil _
  | some price =>
      refine List.forall_mem_cons.2 ⟨?_, price.2.isInline⟩
      cases price.1 with
      | each sign => exact sign.isInline rfl
      | total sign => exact sign.isInline rfl

theorem TitleNode.isInline (n : TitleNode) : ∀ token ∈ n.tokens, token.kind.isInline = true := by
  cases n with
  | narration n => exact List.forall_mem_singleton.2 (n.isInline rfl)
  | payee p pipe n =>
      simp only [tokens, List.cons_append, List.forall_mem_cons, List.forall_mem_append]
      exact ⟨p.isInline rfl, optionalToken_isInline rfl, n.isInline rfl, List.forall_mem_nil _⟩

theorem FlagNode.isInline (n : FlagNode) : n.token.kind.isInline = true := by
  cases n with
  | txn word => exact word.isInline rfl
  | flag sign => exact sign.isInline rfl

theorem CurrenciesNode.isInline (n : CurrenciesNode) :
    ∀ token ∈ n.tokens, token.kind.isInline = true := by
  induction n with
  | one currency => exact List.forall_mem_singleton.2 (currency.isInline rfl)
  | more currency comma others ih =>
      simp only [tokens, List.cons_append, List.forall_mem_cons, List.forall_mem_append]
      exact ⟨currency.isInline rfl, optionalToken_isInline rfl, ih⟩

theorem LineNode.isInline (n : LineNode) : ∀ token ∈ n.tokens, token.kind.isInline = true := by
  cases n with
  | opening word account currencies =>
      refine List.forall_mem_cons.2 ⟨word.isInline rfl,
        List.forall_mem_cons.2 ⟨account.isInline rfl, ?_⟩⟩
      cases currencies with
      | none => exact List.forall_mem_nil _
      | some n => exact n.isInline
  | check word account amount | price word account amount =>
      exact List.forall_mem_cons.2 ⟨word.isInline rfl,
        List.forall_mem_cons.2 ⟨account.isInline rfl, amount.isInline⟩⟩
  | closing word account => simp [tokens, Leaf.kind_eq, TokenKind.isInline]
  | pad word first second | event word first second | note word first second
  | document word first second => simp [tokens, Leaf.kind_eq, TokenKind.isInline]

/-- The line end of the last of some lines; `first` is the one in front of them. -/
def PostingLineNode.lastLineEnd : LineEndNode → List PostingLineNode → LineEndNode
  | first, [] => first
  | _, line :: more => lastLineEnd line.lineEnd more

/-- The line end of the last line of a statement. -/
def StatementNode.lineEnd : StatementNode → LineEndNode
  | .entry _ (.transaction t) => PostingLineNode.lastLineEnd t.lineEnd t.lines
  | .entry _ (.line _ lineEnd) => lineEnd
  | .option _ _ _ lineEnd => lineEnd

theorem PostingLineNode.ends (line : PostingLineNode) : line.lineEnd.Ends line.tokens := by
  cases line with
  | comment text lineEnd => exact ⟨[], [], rfl, .inl ⟨text, lineEnd, rfl⟩⟩
  | posting p =>
      have hInline : ∀ token ∈ p.account.token :: p.movement.elim [] MovementNode.tokens,
          token.kind.isInline = true := by
        refine List.forall_mem_cons.2 ⟨p.account.isInline rfl, ?_⟩
        cases p.movement with
        | none => exact List.forall_mem_nil _
        | some m => exact m.isInline
      have hEnds := LineEndNode.ends_of_inline (e := p.lineEnd) (List.cons_ne_nil _ _) hInline
      have hTokens := hEnds.append (p.indent.token :: optionalToken p.flag)
      simpa [lineEnd, tokens, PostingNode.tokens] using hTokens

theorem PostingLineNode.ends_lines {first : LineEndNode} {w : List Token} (h : first.Ends w)
    (lines : List PostingLineNode) : (lastLineEnd first lines).Ends (w ++ allTokens lines) := by
  induction lines generalizing first w with
  | nil =>
      rw [allTokens, List.flatMap_nil, List.append_nil]
      exact h
  | cons line lines ih =>
      have hMore := ih (line.ends.append w)
      rw [allTokens, List.flatMap_cons, ← List.append_assoc]
      exact hMore

/-- A statement ends with its last line end. -/
theorem StatementNode.ends (n : StatementNode) : n.lineEnd.Ends n.tokens := by
  cases n with
  | option word key value lineEnd =>
      have hInline : ∀ token ∈ [word.token, key.token, value.token],
          token.kind.isInline = true := by
        simp [Leaf.kind_eq, TokenKind.isInline]
      exact LineEndNode.ends_of_inline (List.cons_ne_nil _ _) hInline
  | entry date dated =>
      cases dated with
      | line l lineEnd =>
          have hInline : ∀ token ∈ date.token :: l.tokens, token.kind.isInline = true :=
            List.forall_mem_cons.2 ⟨date.isInline rfl, l.isInline⟩
          exact LineEndNode.ends_of_inline (List.cons_ne_nil _ _) hInline
      | transaction t =>
          have hInline : ∀ token ∈ date.token :: (t.flag.token :: t.title.tokens ++
              t.tags.map Leaf.token ++ t.links.map Leaf.token), token.kind.isInline = true := by
            simp only [List.cons_append, List.forall_mem_cons, List.forall_mem_append,
              List.forall_mem_map]
            exact ⟨date.isInline rfl, t.flag.isInline, ⟨t.title.isInline,
              fun l _ => l.isInline rfl⟩, fun l _ => l.isInline rfl⟩
          have hFirst := LineEndNode.ends_of_inline (e := t.lineEnd) (List.cons_ne_nil _ _) hInline
          exact PostingLineNode.ends_lines hFirst t.lines

/-- The last token of a line end. -/
def LineEndNode.last : LineEndNode → Token
  | .plain lineEnd => lineEnd.token
  | .indent blanks lineEnd => (lineEnd.map Leaf.token).getD blanks.token
  | .comment text lineEnd => (lineEnd.map Leaf.token).getD text.token

theorem LineEndNode.getLast?_tokens (e : LineEndNode) : e.tokens.getLast? = some e.last := by
  cases e with
  | plain lineEnd => rfl
  | indent blanks lineEnd | comment blanks lineEnd => cases lineEnd <;> rfl

theorem StatementNode.last_eq (n : StatementNode) : n.last = n.lineEnd.last := by
  obtain ⟨front, back, hTokens, -⟩ := n.ends
  have hLast := n.getLast?_tokens
  rw [hTokens, List.getLast?_append, LineEndNode.getLast?_tokens, Option.some_or,
    Option.some.injEq] at hLast
  exact hLast.symm

/-- The last token of a statement is an `EOL` where its last line is closed. -/
theorem StatementNode.last_kind (n : StatementNode) :
    n.last.kind = .lineEnd ↔ n.lineEnd.closesLine = true := by
  rw [last_eq]
  cases n.lineEnd with
  | plain l => simp [LineEndNode.last, LineEndNode.closesLine, l.kind_eq]
  | indent l lineEnd | comment l lineEnd =>
      cases lineEnd <;> simp [LineEndNode.last, LineEndNode.closesLine, Leaf.kind_eq]

/-- A statement that ends with an indent has something else in front of it on its line. -/
theorem StatementNode.exists_inline {n : StatementNode} (h : n.last.kind = .indent) :
    ∃ front token, n.tokens = front ++ [token, n.last] ∧ token.kind.isInline = true := by
  have hEnds := n.ends
  rw [last_eq] at h ⊢
  cases hEnd : n.lineEnd with
  | plain l => simp [hEnd, LineEndNode.last, l.kind_eq] at h
  | comment l lineEnd => cases lineEnd <;> simp [hEnd, LineEndNode.last, Leaf.kind_eq] at h
  | indent l lineEnd =>
      cases lineEnd with
      | some e => simp [hEnd, LineEndNode.last, e.kind_eq] at h
      | none =>
          rw [hEnd] at hEnds
          exact hEnds.exists_inline

@[simp] theorem StatementNode.closesLine_moved (move : Span → Span) (n : StatementNode) :
    (n.moved move).lineEnd.closesLine = n.lineEnd.closesLine := by
  rw [Bool.eq_iff_iff, ← last_kind, ← last_kind, last_moved]
  exact Iff.rfl

theorem Leaf.kind_ne {kind : TokenKind} (l : Leaf kind)
    (h : kind ≠ .endOfInput ∧ kind ≠ .error) :
    l.token.kind ≠ .endOfInput ∧ l.token.kind ≠ .error := by
  rw [l.kind_eq]
  exact h

theorem kind_ne_of_isInline {token : Token} (h : token.kind.isInline = true) :
    token.kind ≠ .endOfInput ∧ token.kind ≠ .error := by
  constructor <;> (intro hKind; rw [hKind] at h; cases h)

theorem LineEndNode.kind_ne (e : LineEndNode) :
    ∀ token ∈ e.tokens, token.kind ≠ .endOfInput ∧ token.kind ≠ .error := by
  have hOptional (lineEnd : Option (Leaf .lineEnd)) : ∀ token ∈ optionalToken lineEnd,
      token.kind ≠ .endOfInput ∧ token.kind ≠ .error := by
    cases lineEnd with
    | none => exact List.forall_mem_nil _
    | some l => exact List.forall_mem_singleton.2 (l.kind_ne (by decide))
  cases e with
  | plain l => exact List.forall_mem_singleton.2 (l.kind_ne (by decide))
  | indent l lineEnd | comment l lineEnd =>
      exact List.forall_mem_cons.2 ⟨l.kind_ne (by decide), hOptional lineEnd⟩

theorem PostingLineNode.kind_ne (line : PostingLineNode) :
    ∀ token ∈ line.tokens, token.kind ≠ .endOfInput ∧ token.kind ≠ .error := by
  cases line with
  | comment text lineEnd => exact LineEndNode.kind_ne (.comment text lineEnd)
  | posting p =>
      simp only [PostingLineNode.tokens, PostingNode.tokens, List.cons_append, List.append_assoc,
        List.forall_mem_cons, List.forall_mem_append]
      refine ⟨p.indent.kind_ne (by decide), fun token hMem =>
        kind_ne_of_isInline (optionalToken_isInline rfl token hMem), p.account.kind_ne (by decide),
        ?_, p.lineEnd.kind_ne⟩
      cases p.movement with
      | none => exact List.forall_mem_nil _
      | some m => exact fun token hMem => kind_ne_of_isInline (m.isInline token hMem)

/-- A statement has no tokens but those that can be part of one. -/
theorem StatementNode.kind_ne (n : StatementNode) :
    ∀ token ∈ n.tokens, token.kind ≠ .endOfInput ∧ token.kind ≠ .error := by
  cases n with
  | option word key value e =>
      exact List.forall_mem_cons.2 ⟨word.kind_ne (by decide),
        List.forall_mem_cons.2 ⟨key.kind_ne (by decide),
          List.forall_mem_cons.2 ⟨value.kind_ne (by decide), e.kind_ne⟩⟩⟩
  | entry date dated =>
      refine List.forall_mem_cons.2 ⟨date.kind_ne (by decide), ?_⟩
      cases dated with
      | line l e =>
          exact List.forall_mem_append.2
            ⟨fun token hMem => kind_ne_of_isInline (l.isInline token hMem), e.kind_ne⟩
      | transaction t =>
          simp only [tail, DatedNode.tokens, TransactionNode.tokens, List.cons_append,
            List.append_assoc, List.forall_mem_cons, List.forall_mem_append, List.forall_mem_map]
          refine ⟨kind_ne_of_isInline t.flag.isInline,
            fun token hMem => kind_ne_of_isInline (t.title.isInline token hMem),
            fun l _ => l.kind_ne (by decide), fun l _ => l.kind_ne (by decide),
            t.lineEnd.kind_ne, ?_⟩
          intro token hMem
          obtain ⟨line, -, hToken⟩ := List.mem_flatMap.1 hMem
          exact line.kind_ne token hToken

/-- A declaration has no tokens but those that can be part of one. -/
theorem DeclarationNode.kind_ne (n : DeclarationNode) :
    ∀ token ∈ n.tokens, token.kind ≠ .endOfInput ∧ token.kind ≠ .error := by
  cases n with
  | statement n => exact n.kind_ne
  | pushtag word tag | poptag word tag =>
      exact List.forall_mem_cons.2 ⟨word.kind_ne (by decide),
        List.forall_mem_singleton.2 (tag.kind_ne (by decide))⟩
  | lineEnd e => exact e.kind_ne
  | skipped line => exact List.forall_mem_singleton.2 (line.kind_ne (by decide))

/-! ## Closed trees -/

section

variable (last : Leaf .lineEnd) {after rest : List Token}

namespace LineEndNode

/-- What a line end lacks to close its line. -/
def missing (e : LineEndNode) : List Token := if e.closesLine then [] else [last.token]

def closed : LineEndNode → LineEndNode
  | .plain lineEnd => .plain lineEnd
  | .indent blanks lineEnd => .indent blanks (lineEnd.or (some last))
  | .comment text lineEnd => .comment text (lineEnd.or (some last))

@[simp] theorem tokens_closed (e : LineEndNode) :
    (e.closed last).tokens = e.tokens ++ e.missing last := by
  cases e with
  | plain lineEnd => rfl
  | indent blanks lineEnd | comment blanks lineEnd => cases lineEnd <;> rfl

@[simp] theorem closesLine_closed (e : LineEndNode) : (e.closed last).closesLine = true := by
  cases e with
  | plain lineEnd => rfl
  | indent blanks lineEnd | comment blanks lineEnd => cases lineEnd <;> rfl

/-- A closed line end takes no more. -/
theorem greedy_closed (e : LineEndNode) : (e.closed last).Greedy after := by
  intro hOpen
  rw [closesLine_closed] at hOpen
  cases hOpen

end LineEndNode

namespace PostingLineNode

def closed : PostingLineNode → PostingLineNode
  | .posting p => .posting { p with lineEnd := p.lineEnd.closed last }
  | .comment text lineEnd => .comment text (lineEnd.or (some last))

@[simp] theorem lineEnd_closed (line : PostingLineNode) :
    (line.closed last).lineEnd = line.lineEnd.closed last := by
  cases line <;> rfl

@[simp] theorem isComment_closed (line : PostingLineNode) :
    (line.closed last).isComment = line.isComment := by
  cases line <;> rfl

@[simp] theorem value?_closed (line : PostingLineNode) :
    (line.closed last).value? = line.value? := by
  cases line <;> rfl

@[simp] theorem tokens_closed (line : PostingLineNode) :
    (line.closed last).tokens = line.tokens ++ line.lineEnd.missing last := by
  cases line with
  | posting p => simp [closed, tokens, PostingNode.tokens, lineEnd]
  | comment text lineEnd => exact LineEndNode.tokens_closed last (.comment text lineEnd)

theorem tokens_ne_nil (line : PostingLineNode) : line.tokens ≠ [] := by
  cases line <;> exact List.cons_ne_nil _ _

/-- Closes the last of some lines. -/
def closeLast : List PostingLineNode → List PostingLineNode
  | [] => []
  | [line] => [line.closed last]
  | line :: next :: more => line :: closeLast (next :: more)

theorem allTokens_cons (line : PostingLineNode) (lines : List PostingLineNode) :
    allTokens (line :: lines) = line.tokens ++ allTokens lines := List.flatMap_cons

theorem tokens_closeLast (line : PostingLineNode) (lines : List PostingLineNode) :
    allTokens (closeLast last (line :: lines)) =
      allTokens (line :: lines) ++ (lastLineEnd line.lineEnd lines).missing last := by
  induction lines generalizing line with
  | nil => simp [closeLast, allTokens, lastLineEnd]
  | cons next more ih =>
      rw [closeLast, allTokens_cons, ih next, lastLineEnd, allTokens_cons line,
        List.append_assoc]

@[simp] theorem postings?_closeLast (lines : List PostingLineNode) :
    postings? (closeLast last lines) = postings? lines := by
  have hValues : (closeLast last lines).mapM value? = lines.mapM value? := by
    induction lines using closeLast.induct with
    | case1 => rfl
    | case2 line => rw [closeLast, List.mapM_cons, List.mapM_cons, value?_closed]
    | case3 line next more ih => rw [closeLast, List.mapM_cons, List.mapM_cons, ih]
  rw [postings?, postings?, hValues]

/-- In front of another statement there are no more lines. -/
theorem allGreedy_nil {fresh : Bool} (hAfter : (nextKind after).startsStatement = true) :
    AllGreedy fresh [] after := by
  have hBegins : nextKind after ≠ .indent ∧ nextKind after ≠ .comment := by
    constructor <;> (intro hKind; rw [hKind] at hAfter; cases hAfter)
  exact ⟨hBegins.1, fun _ => hBegins.2⟩

/-- Closing the last of some lines does not change how they begin. -/
theorem greedy_closeLast {e : LineEndNode} {line : PostingLineNode} {lines : List PostingLineNode}
    (h : e.Greedy (allTokens (line :: lines) ++ rest)) :
    e.Greedy (allTokens (closeLast last (line :: lines)) ++ after) := by
  obtain ⟨token, others, hTokens⟩ := List.exists_cons_of_ne_nil line.tokens_ne_nil
  have hNext : nextKind (allTokens (closeLast last (line :: lines)) ++ after) =
      nextKind (allTokens (line :: lines) ++ rest) := by
    rw [tokens_closeLast, allTokens_cons, hTokens]
    rfl
  rw [LineEndNode.Greedy, hNext]
  exact h

/-- Lines of which the last one is closed take no more, wherever a statement begins behind them. -/
theorem allGreedy_closeLast {line : PostingLineNode} {lines : List PostingLineNode} {fresh : Bool}
    (hAfter : (nextKind after).startsStatement = true) (h : AllGreedy fresh (line :: lines) rest) :
    AllGreedy fresh (closeLast last (line :: lines)) after := by
  induction lines generalizing line fresh with
  | nil =>
      refine ⟨by simpa using h.1, ?_, ?_⟩
      · rw [lineEnd_closed]
        exact line.lineEnd.greedy_closed last
      · exact allGreedy_nil hAfter
  | cons next more ih =>
      obtain ⟨hComment, hLine, hMore⟩ := h
      exact ⟨hComment, greedy_closeLast last hLine, ih hMore⟩

end PostingLineNode

namespace TransactionNode

def closed : TransactionNode → TransactionNode
  | ⟨flag, title, tags, links, lineEnd, []⟩ =>
      ⟨flag, title, tags, links, lineEnd.closed last, []⟩
  | ⟨flag, title, tags, links, lineEnd, line :: lines⟩ =>
      ⟨flag, title, tags, links, lineEnd, PostingLineNode.closeLast last (line :: lines)⟩

theorem tokens_closed (t : TransactionNode) : (t.closed last).tokens =
    t.tokens ++ (PostingLineNode.lastLineEnd t.lineEnd t.lines).missing last := by
  obtain ⟨flag, title, tags, links, lineEnd, lines⟩ := t
  cases lines with
  | nil => simp [closed, tokens, PostingLineNode.lastLineEnd, PostingLineNode.allTokens]
  | cons line lines =>
      simp [closed, tokens, PostingLineNode.tokens_closeLast, PostingLineNode.lastLineEnd]

theorem value?_closed (t : TransactionNode) (date : Date) :
    (t.closed last).value? date = t.value? date := by
  obtain ⟨flag, title, tags, links, lineEnd, lines⟩ := t
  cases lines with
  | nil => rfl
  | cons line lines => simp [closed, value?]

theorem greedy_closed {t : TransactionNode} (hAfter : (nextKind after).startsStatement = true)
    (h : t.Greedy rest) : (t.closed last).Greedy after := by
  obtain ⟨flag, title, tags, links, lineEnd, lines⟩ := t
  obtain ⟨hLine, hLines⟩ := h
  cases lines with
  | nil => exact ⟨lineEnd.greedy_closed last, PostingLineNode.allGreedy_nil hAfter⟩
  | cons line lines =>
      exact ⟨PostingLineNode.greedy_closeLast last hLine,
        PostingLineNode.allGreedy_closeLast last hAfter hLines⟩

end TransactionNode

namespace StatementNode

def closed : StatementNode → StatementNode
  | .entry date (.transaction t) => .entry date (.transaction (t.closed last))
  | .entry date (.line l lineEnd) => .entry date (.line l (lineEnd.closed last))
  | .option word key value lineEnd => .option word key value (lineEnd.closed last)

@[simp] theorem head_closed (n : StatementNode) : (n.closed last).head = n.head := by
  cases n with
  | option word key value lineEnd => rfl
  | entry date dated => cases dated <;> rfl

theorem tokens_closed (n : StatementNode) :
    (n.closed last).tokens = n.tokens ++ n.lineEnd.missing last := by
  cases n with
  | option word key value e => simp [closed, tokens, head, tail, lineEnd]
  | entry date dated =>
      cases dated with
      | line l e => simp [closed, tokens, head, tail, lineEnd, DatedNode.tokens]
      | transaction t =>
          simp [closed, tokens, head, tail, lineEnd, DatedNode.tokens,
            TransactionNode.tokens_closed]

theorem value?_closed (n : StatementNode) : (n.closed last).value? = n.value? := by
  cases n with
  | option word key value lineEnd => rfl
  | entry date dated =>
      cases dated with
      | line l lineEnd => rfl
      | transaction t => simp [closed, value?, DatedNode.value?, TransactionNode.value?_closed]

/-- The last token of a closed statement is the line end it lacked, if it lacked one. -/
theorem last_closed (n : StatementNode) :
    (n.closed last).last = if n.lineEnd.closesLine then n.last else last.token := by
  have hLast := (n.closed last).getLast?_tokens
  rw [tokens_closed, LineEndNode.missing] at hLast
  split at hLast
  · next hCloses =>
      rw [List.append_nil, getLast?_tokens, Option.some.injEq] at hLast
      rw [if_pos hCloses, hLast]
  · next hOpen =>
      rw [List.getLast?_concat, Option.some.injEq] at hLast
      rw [if_neg hOpen, hLast]

/-- A closed statement ends where it is, if another one begins behind it. -/
theorem greedy_closed {n : StatementNode} (hAfter : (nextKind after).startsStatement = true)
    (h : n.Greedy rest) : (n.closed last).Greedy after := by
  cases n with
  | option word key value e => exact e.greedy_closed last
  | entry date dated =>
      cases dated with
      | line l e => exact e.greedy_closed last
      | transaction t => exact TransactionNode.greedy_closed last hAfter h

end StatementNode

end

end Grammar

end LedgerText
