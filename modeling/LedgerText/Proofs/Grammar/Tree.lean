import LedgerText.Builder

/-!
# Parse trees

The grammar of statements as a type. A tree has one node for each production
that was applied, and its leaves are tokens of the kinds that the production
asks for, so a tree exists only where the grammar derives its tokens.

* `tokens` lists the leaves from left to right.
* `value?` is what the leaves say, each at its place. There is none if a leaf
  does not carry what its kind calls for.
* `Greedy` compares a tree with the tokens behind it. The grammar alone does
  not say how far a line end reaches, nor whether a comment still belongs to
  the transaction above it; `Greedy` says that the tree takes what it can.

Nothing here refers to how a ledger is parsed.
-/

namespace LedgerText.Grammar

/-! ## Leaves -/

/-- A token of a kind. -/
structure Leaf (kind : TokenKind) where
  token : Token
  kind_eq : token.kind = kind

namespace Leaf

variable {kind : TokenKind}

/-- The text that a leaf carries. -/
def text? (l : Leaf kind) : Option String := l.token.value.text?

/-- The number that a leaf carries. -/
def number? (l : Leaf kind) : Option Decimal :=
  match l.token.value with
  | .number number => some number
  | _ => none

/-- The flag character that a leaf carries. -/
def char? (l : Leaf kind) : Option Char :=
  match l.token.value with
  | .char c => some c
  | _ => none

/-- The day that the text of a leaf names. -/
def day? (l : Leaf kind) : Option Date := l.text?.bind Date.ofText?

end Leaf

/-- The token of a leaf that may be absent. -/
def optionalToken {kind : TokenKind} (leaf : Option (Leaf kind)) : List Token :=
  leaf.toList.map Leaf.token

/-- The value of a part that may be absent: a part that is there must have one. -/
def optional? {α β : Type} (value? : α → Option β) : Option α → Option (Option β)
  | none => some none
  | some a => (value? a).map some

/-- The kind of the first of some tokens. -/
def nextKind : List Token → TokenKind
  | [] => .endOfInput
  | token :: _ => token.kind

/-! ## Line ends -/

/-- `eol := EOL | INDENT [EOL] | COMMENT [EOL]` -/
inductive LineEndNode where
  | plain (lineEnd : Leaf .lineEnd)
  | indent (blanks : Leaf .indent) (lineEnd : Option (Leaf .lineEnd))
  | comment (text : Leaf .comment) (lineEnd : Option (Leaf .lineEnd))

namespace LineEndNode

def tokens : LineEndNode → List Token
  | .plain lineEnd => [lineEnd.token]
  | .indent blanks lineEnd => blanks.token :: optionalToken lineEnd
  | .comment text lineEnd => text.token :: optionalToken lineEnd

/-- Whether the last token is an `EOL`. -/
def closesLine : LineEndNode → Bool
  | .plain _ => true
  | .indent _ lineEnd => lineEnd.isSome
  | .comment _ lineEnd => lineEnd.isSome

/-- An `EOL` right behind a line end belongs to it, if it does not have one yet. -/
def Greedy (e : LineEndNode) (rest : List Token) : Prop :=
  e.closesLine = false → nextKind rest ≠ .lineEnd

end LineEndNode

/-! ## Amounts and positions -/

/-- `amount := NUMBER CURRENCY` -/
structure AmountNode where
  number : Leaf .number
  currency : Leaf .currency

namespace AmountNode

def tokens (a : AmountNode) : List Token := [a.number.token, a.currency.token]

def value? (a : AmountNode) : Option Amount := do
  pure ⟨← a.number.number?, ← a.currency.text?⟩

end AmountNode

/-- `lot_date := SLASH DATE` -/
structure LotDateNode where
  slash : Leaf (.mark .slash)
  date : Leaf .date

namespace LotDateNode

def tokens (d : LotDateNode) : List Token := [d.slash.token, d.date.token]

def value? (d : LotDateNode) : Option Date := d.date.day?

end LotDateNode

/-- `lot_cost := LCURL amount [lot_date] RCURL` -/
structure LotCostNode where
  leftBrace : Leaf (.mark .leftBrace)
  cost : AmountNode
  date : Option LotDateNode
  rightBrace : Leaf (.mark .rightBrace)

namespace LotCostNode

def tokens (c : LotCostNode) : List Token :=
  c.leftBrace.token :: c.cost.tokens ++ (c.date.elim [] LotDateNode.tokens) ++
    [c.rightBrace.token]

def value? (c : LotCostNode) : Option LotCost := do
  pure ⟨← c.cost.value?, ← optional? LotDateNode.value? c.date⟩

end LotCostNode

/-- `position := amount [lot_cost]` -/
structure PositionNode where
  units : AmountNode
  cost : Option LotCostNode

namespace PositionNode

def tokens (p : PositionNode) : List Token :=
  p.units.tokens ++ p.cost.elim [] LotCostNode.tokens

def value? (p : PositionNode) : Option Position := do
  pure ⟨← p.units.value?, ← optional? LotCostNode.value? p.cost⟩

end PositionNode

/-! ## Postings -/

/-- `price_sign := AT | ATAT` -/
inductive PriceSign where
  | each (sign : Leaf (.mark .singleAt))
  | total (sign : Leaf (.mark .doubleAt))

namespace PriceSign

def token : PriceSign → Token
  | .each sign => sign.token
  | .total sign => sign.token

/-- Whether the price is for all units. -/
def isTotal : PriceSign → Bool
  | .each _ => false
  | .total _ => true

end PriceSign

/-- `movement := position [price_sign amount]` -/
structure MovementNode where
  position : PositionNode
  price : Option (PriceSign × AmountNode)

namespace MovementNode

def tokens (m : MovementNode) : List Token :=
  m.position.tokens ++ m.price.elim [] fun price => price.1.token :: price.2.tokens

/-- Whether there is a price, and it is for all units. -/
def isTotal (m : MovementNode) : Bool := m.price.elim false fun price => price.1.isTotal

end MovementNode

/-- `posting := INDENT [FLAG] ACCOUNT [movement] eol` -/
structure PostingNode where
  indent : Leaf .indent
  flag : Option (Leaf .flag)
  account : Leaf .account
  movement : Option MovementNode
  lineEnd : LineEndNode

namespace PostingNode

def tokens (p : PostingNode) : List Token :=
  p.indent.token :: optionalToken p.flag ++ p.account.token ::
    p.movement.elim [] MovementNode.tokens ++ p.lineEnd.tokens

def value? (p : PostingNode) : Option Posting := do
  let flag ← optional? Leaf.char? p.flag
  let account ← p.account.text?
  let position ← optional? (fun m : MovementNode => m.position.value?) p.movement
  let price ← optional? (fun price : PriceSign × AmountNode => price.2.value?)
    (p.movement.bind MovementNode.price)
  pure ⟨flag, account, position, price, p.movement.elim false MovementNode.isTotal⟩

end PostingNode

/-- `posting_line := posting | COMMENT [EOL]` -/
inductive PostingLineNode where
  | posting (posting : PostingNode)
  | comment (text : Leaf .comment) (lineEnd : Option (Leaf .lineEnd))

namespace PostingLineNode

def tokens : PostingLineNode → List Token
  | .posting p => p.tokens
  | .comment text lineEnd => text.token :: optionalToken lineEnd

/-- The line end of a line; of a comment, all of it. -/
def lineEnd : PostingLineNode → LineEndNode
  | .posting p => p.lineEnd
  | .comment text lineEnd => .comment text lineEnd

def isComment : PostingLineNode → Bool
  | .posting _ => false
  | .comment _ _ => true

/-- The posting on a line; a comment has none. -/
def value? : PostingLineNode → Option (Option Posting)
  | .posting p => p.value?.map some
  | .comment _ _ => some none

/-- The tokens of lines that follow each other. -/
def allTokens (lines : List PostingLineNode) : List Token := lines.flatMap tokens

/-- The postings on lines that follow each other. -/
def postings? (lines : List PostingLineNode) : Option (List Posting) :=
  (lines.mapM value?).map fun values => values.filterMap id

/-- Every line end takes an `EOL` along, a comment line starts right behind an `EOL`, and the
lines go on as long as there is an indent, or a comment right behind an `EOL`. `fresh` says whether
the token in front of the lines is an `EOL`. -/
def AllGreedy (fresh : Bool) : List PostingLineNode → List Token → Prop
  | [], rest => nextKind rest ≠ .indent ∧ (fresh → nextKind rest ≠ .comment)
  | line :: more, rest =>
      (line.isComment → fresh) ∧ line.lineEnd.Greedy (allTokens more ++ rest) ∧
        AllGreedy line.lineEnd.closesLine more rest

end PostingLineNode

/-! ## Transactions -/

/-- `flag := TXN | FLAG` -/
inductive FlagNode where
  | txn (word : Leaf (.keyword .txn))
  | flag (sign : Leaf .flag)

namespace FlagNode

def token : FlagNode → Token
  | .txn word => word.token
  | .flag sign => sign.token

/-- The flag; the word stands for a star. -/
def value? : FlagNode → Option Char
  | .txn _ => some '*'
  | .flag sign => sign.char?

end FlagNode

/-- `title := STRING [[PIPE] STRING]` -/
inductive TitleNode where
  | narration (narration : Leaf .string)
  | payee (payee : Leaf .string) (pipe : Option (Leaf (.mark .pipe))) (narration : Leaf .string)

namespace TitleNode

def tokens : TitleNode → List Token
  | .narration n => [n.token]
  | .payee p pipe n => p.token :: optionalToken pipe ++ [n.token]

/-- The payee of a title, and its narration. -/
def value? : TitleNode → Option (Option String × String)
  | .narration n => do pure (none, ← n.text?)
  | .payee p _ n => do pure (some (← p.text?), ← n.text?)

end TitleNode

/-- `transaction := flag title TAG* LINK* eol posting_line*` -/
structure TransactionNode where
  flag : FlagNode
  title : TitleNode
  tags : List (Leaf .tag)
  links : List (Leaf .link)
  lineEnd : LineEndNode
  lines : List PostingLineNode

namespace TransactionNode

def tokens (t : TransactionNode) : List Token :=
  t.flag.token :: t.title.tokens ++ t.tags.map Leaf.token ++ t.links.map Leaf.token ++
    t.lineEnd.tokens ++ PostingLineNode.allTokens t.lines

def value? (t : TransactionNode) (date : Date) : Option Transaction := do
  let flag ← t.flag.value?
  let (payee, narration) ← t.title.value?
  let tags ← t.tags.mapM Leaf.text?
  let links ← t.links.mapM Leaf.text?
  let postings ← PostingLineNode.postings? t.lines
  pure { date, flag, payee, narration, tags, links, postings }

def Greedy (t : TransactionNode) (rest : List Token) : Prop :=
  t.lineEnd.Greedy (PostingLineNode.allTokens t.lines ++ rest) ∧
    PostingLineNode.AllGreedy t.lineEnd.closesLine t.lines rest

end TransactionNode

/-! ## Statements -/

/-- `currencies := CURRENCY | CURRENCY [COMMA] currencies` -/
inductive CurrenciesNode where
  | one (currency : Leaf .currency)
  | more (currency : Leaf .currency) (comma : Option (Leaf (.mark .comma)))
      (others : CurrenciesNode)

namespace CurrenciesNode

def tokens : CurrenciesNode → List Token
  | .one currency => [currency.token]
  | .more currency comma others => currency.token :: optionalToken comma ++ others.tokens

def value? : CurrenciesNode → Option (List String)
  | .one currency => do pure [← currency.text?]
  | .more currency _ others => do pure ((← currency.text?) :: (← others.value?))

/-- The currencies that are listed, if there is a list. -/
def listed? : Option CurrenciesNode → Option (List String)
  | none => some []
  | some n => n.value?

end CurrenciesNode

/--
What stands between the date of a statement other than a transaction and the end of its line.

* `open := OPEN ACCOUNT [currencies]`
* `close := CLOSE ACCOUNT`
* `pad := PAD ACCOUNT ACCOUNT`
* `check := CHECK ACCOUNT amount`
* `price := PRICE CURRENCY amount`
* `event := EVENT STRING STRING`
* `note := NOTE ACCOUNT STRING`
* `document := DOCUMENT ACCOUNT STRING`
-/
inductive LineNode where
  | opening (word : Leaf (.keyword .opening)) (account : Leaf .account)
      (currencies : Option CurrenciesNode)
  | closing (word : Leaf (.keyword .closing)) (account : Leaf .account)
  | pad (word : Leaf (.keyword .pad)) (account source : Leaf .account)
  | check (word : Leaf (.keyword .check)) (account : Leaf .account) (amount : AmountNode)
  | price (word : Leaf (.keyword .price)) (currency : Leaf .currency) (amount : AmountNode)
  | event (word : Leaf (.keyword .event)) (topic description : Leaf .string)
  | note (word : Leaf (.keyword .note)) (account : Leaf .account) (comment : Leaf .string)
  | document (word : Leaf (.keyword .document)) (account : Leaf .account) (path : Leaf .string)

namespace LineNode

def tokens : LineNode → List Token
  | .opening word account currencies =>
      word.token :: account.token :: currencies.elim [] CurrenciesNode.tokens
  | .closing word account => [word.token, account.token]
  | .pad word account source => [word.token, account.token, source.token]
  | .check word account amount => word.token :: account.token :: amount.tokens
  | .price word currency amount => word.token :: currency.token :: amount.tokens
  | .event word topic description => [word.token, topic.token, description.token]
  | .note word account comment => [word.token, account.token, comment.token]
  | .document word account path => [word.token, account.token, path.token]

def value? (date : Date) : LineNode → Option Content
  | .opening _ account currencies => do
      pure (.opening date (← account.text?) (← CurrenciesNode.listed? currencies))
  | .closing _ account => do pure (.closing date (← account.text?))
  | .pad _ account source => do pure (.pad date (← account.text?) (← source.text?))
  | .check _ account amount => do pure (.balance date (← account.text?) (← amount.value?))
  | .price _ currency amount => do pure (.price date (← currency.text?) (← amount.value?))
  | .event _ topic description => do
      pure (.event date (← topic.text?) (← description.text?))
  | .note _ account comment => do pure (.note date (← account.text?) (← comment.text?))
  | .document _ account path => do pure (.document date (← account.text?) (← path.text?))

end LineNode

/-- `dated := transaction | line eol` -/
inductive DatedNode where
  | transaction (transaction : TransactionNode)
  | line (line : LineNode) (lineEnd : LineEndNode)

namespace DatedNode

def tokens : DatedNode → List Token
  | .transaction t => t.tokens
  | .line l lineEnd => l.tokens ++ lineEnd.tokens

def value? (date : Date) : DatedNode → Option Content
  | .transaction t => (t.value? date).map .transaction
  | .line l _ => l.value? date

def Greedy (rest : List Token) : DatedNode → Prop
  | .transaction t => t.Greedy rest
  | .line _ lineEnd => lineEnd.Greedy rest

end DatedNode

/--
* `entry := DATE dated`
* `option := OPTION STRING STRING eol`
-/
inductive StatementNode where
  | entry (date : Leaf .date) (dated : DatedNode)
  | option (word : Leaf (.keyword .option)) (key value : Leaf .string) (lineEnd : LineEndNode)

namespace StatementNode

/-- The token that a statement begins with. -/
def head : StatementNode → Token
  | .entry date _ => date.token
  | .option word _ _ _ => word.token

/-- The tokens behind the first. -/
def tail : StatementNode → List Token
  | .entry _ dated => dated.tokens
  | .option _ key value lineEnd => key.token :: value.token :: lineEnd.tokens

def tokens (s : StatementNode) : List Token := s.head :: s.tail

/-- The last token. -/
def last (s : StatementNode) : Token := s.tail.getLastD s.head

def value? : StatementNode → Option Content
  | .entry date dated => do dated.value? (← date.day?)
  | .option _ key value _ => do pure (.option (← key.text?) (← value.text?))

/-- What a tree adds to a ledger where some tags are active: its content, the line that its first
token is on, and the part of the text from there to its last token. -/
def directive? (n : StatementNode) (filename : String) (tags : TagContext) :
    Option (Spanned Directive) :=
  n.value?.map fun content =>
    ⟨⟨content.addTags tags, ⟨filename, n.head.span.start.line⟩⟩, n.head.span.upTo n.last.span⟩

def Greedy (rest : List Token) : StatementNode → Prop
  | .entry _ dated => dated.Greedy rest
  | .option _ _ _ lineEnd => lineEnd.Greedy rest

end StatementNode

/-- `declaration := entry | option | PUSHTAG TAG | POPTAG TAG | eol | SKIPPED` -/
inductive DeclarationNode where
  | statement (statement : StatementNode)
  | pushtag (word : Leaf (.keyword .pushtag)) (tag : Leaf .tag)
  | poptag (word : Leaf (.keyword .poptag)) (tag : Leaf .tag)
  | lineEnd (lineEnd : LineEndNode)
  | skipped (line : Leaf .skipped)

namespace DeclarationNode

def tokens : DeclarationNode → List Token
  | .statement n => n.tokens
  | .pushtag word tag => [word.token, tag.token]
  | .poptag word tag => [word.token, tag.token]
  | .lineEnd e => e.tokens
  | .skipped line => [line.token]

def Greedy (rest : List Token) : DeclarationNode → Prop
  | .statement n => n.Greedy rest
  | .lineEnd e => e.Greedy rest
  | _ => True

end DeclarationNode

end LedgerText.Grammar
