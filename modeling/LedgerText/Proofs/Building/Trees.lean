import LedgerText.Parse.Statement
import LedgerText.Proofs.Building.Visits
import LedgerText.Proofs.Grammar.Tree

/-!
# Visits of parse trees

How a parse tree is visited: from left to right, its leaves as they come, and
every node that stands for a value behind the last of its parts. So the requests
of a visit are the nodes of the tree in post-order. What a node hands to the
builder is put together from the leaves and from the answers about its parts.

A visit reads the tokens of the tree (`covers_visit`). What a statement says is
visited without asking about whole statements; the statement itself is what the
builder is asked about last.
-/

namespace LedgerText.Grammar

open Visit

variable {α : Type} {kind : TokenKind}

namespace Leaf

/-- Reads a leaf and takes what it carries. -/
def visit (l : Leaf kind) (value? : Leaf kind → Option α) : Visit α :=
  .read l.token (leaf (value? l))

/-- Reads a leaf. -/
def pass (l : Leaf kind) : Visit Unit := readAll [l.token]

theorem covers_visit (l : Leaf kind) (value? : Leaf kind → Option α) :
    (l.visit value?).Covers [l.token] :=
  (covers_leaf _).read l.token

theorem covers_pass (l : Leaf kind) : l.pass.Covers [l.token] := covers_readAll _

end Leaf

/-! ## Amounts and positions -/

def AmountNode.visit (n : AmountNode) : Visit Amount := do
  let number ← n.number.visit Leaf.number?
  let currency ← n.currency.visit Leaf.text?
  hand (.amount ⟨number, currency⟩)

theorem AmountNode.covers_visit (n : AmountNode) : n.visit.Covers n.tokens :=
  (n.number.covers_visit _).bind fun _ => (n.currency.covers_visit _).finish fun _ =>
    covers_hand trivial

def LotDateNode.visit (n : LotDateNode) : Visit Date := do
  n.slash.pass
  let text ← n.date.visit Leaf.text?
  hand (.date text)

theorem LotDateNode.covers_visit (n : LotDateNode) : n.visit.Covers n.tokens :=
  n.slash.covers_pass.bind fun _ => (n.date.covers_visit _).finish fun _ => covers_hand trivial

def LotCostNode.visit (n : LotCostNode) : Visit LotCost := do
  n.leftBrace.pass
  let cost ← n.cost.visit
  let date ← optional LotDateNode.visit n.date
  n.rightBrace.pass
  hand (.lotCost ⟨cost, date⟩)

theorem LotCostNode.covers_visit (n : LotCostNode) : n.visit.Covers n.tokens := by
  have hRest (cost : Amount) (date : Option Date) :
      (n.rightBrace.pass >>= fun _ => hand (.lotCost ⟨cost, date⟩)).Covers [n.rightBrace.token] :=
    n.rightBrace.covers_pass.finish fun _ => covers_hand trivial
  simp only [LotCostNode.tokens, List.cons_append, List.append_assoc]
  rw [← List.singleton_append]
  exact n.leftBrace.covers_pass.bind fun _ => n.cost.covers_visit.bind fun cost =>
    (covers_optional LotDateNode.covers_visit n.date).bind (hRest cost)

def PositionNode.visit (n : PositionNode) : Visit Position := do
  let units ← n.units.visit
  let cost ← optional LotCostNode.visit n.cost
  hand (.position ⟨units, cost⟩)

theorem PositionNode.covers_visit (n : PositionNode) : n.visit.Covers n.tokens :=
  n.units.covers_visit.bind fun _ => (covers_optional LotCostNode.covers_visit n.cost).finish
    fun _ => covers_hand trivial

/-! ## Postings -/

/-- Visits a price with its sign. -/
def PriceSign.visit (price : PriceSign × AmountNode) : Visit Amount := do
  readAll [price.1.token]
  price.2.visit

theorem PriceSign.covers_visit (price : PriceSign × AmountNode) :
    (PriceSign.visit price).Covers (price.1.token :: price.2.tokens) :=
  (covers_readAll [price.1.token]).bind fun _ => price.2.covers_visit

/-- Visits what a posting line says behind the account, if it says anything. -/
def MovementNode.visit : Option MovementNode → Visit Parse.Movement
  | none => pure ⟨none, none, false⟩
  | some n => do
      let position ← n.position.visit
      let price ← optional PriceSign.visit n.price
      pure ⟨some position, price, n.isTotal⟩

theorem MovementNode.covers_visit (n : Option MovementNode) :
    (MovementNode.visit n).Covers (n.elim [] MovementNode.tokens) := by
  cases n with
  | none => exact covers_pure _
  | some n =>
      exact n.position.covers_visit.bind fun _ =>
        (covers_optional PriceSign.covers_visit n.price).finish fun _ => covers_pure _

def PostingNode.visit (n : PostingNode) : Visit Posting := do
  n.indent.pass
  let flag ← optional (Leaf.visit · Leaf.char?) n.flag
  let account ← n.account.visit Leaf.text?
  let moved ← MovementNode.visit n.movement
  readAll n.lineEnd.tokens
  hand (.posting ⟨flag, account, moved.position, moved.price, moved.priceIsTotal⟩)

/-- The token of a leaf that may be absent, as the tokens of an optional part. -/
theorem optionalToken_eq (l : Option (Leaf kind)) :
    optionalToken l = l.elim [] fun l => [l.token] := by
  cases l <;> rfl

theorem PostingNode.covers_visit (n : PostingNode) : n.visit.Covers n.tokens := by
  have hFlag : (optional (Leaf.visit · Leaf.char?) n.flag).Covers (optionalToken n.flag) :=
    optionalToken_eq n.flag ▸ covers_optional (fun l => l.covers_visit Leaf.char?) n.flag
  simp only [PostingNode.tokens, List.cons_append, List.append_assoc]
  rw [← List.singleton_append]
  exact n.indent.covers_pass.bind fun _ => hFlag.bind fun _ =>
    (n.account.covers_visit _).bind fun _ => (MovementNode.covers_visit n.movement).bind fun _ =>
      (covers_readAll _).finish fun _ => covers_hand trivial

def PostingLineNode.visit : PostingLineNode → Visit (Option Posting)
  | .posting n => do pure (some (← n.visit))
  | .comment text lineEnd => do
      readAll (text.token :: optionalToken lineEnd)
      pure none

theorem PostingLineNode.covers_visit (n : PostingLineNode) : n.visit.Covers n.tokens := by
  cases n with
  | posting n => exact n.covers_visit.finish fun _ => covers_pure _
  | comment text lineEnd => exact (covers_readAll _).finish fun _ => covers_pure _

/-! ## Transactions -/

def FlagNode.visit (n : FlagNode) : Visit Char := .read n.token (leaf n.value?)

theorem FlagNode.covers_visit (n : FlagNode) : n.visit.Covers [n.token] :=
  (covers_leaf _).read n.token

def TitleNode.visit : TitleNode → Visit Parse.Title
  | .narration n => do pure ⟨none, ← n.visit Leaf.text?⟩
  | .payee p pipe n => do
      let payee ← p.visit Leaf.text?
      readAll (optionalToken pipe)
      let narration ← n.visit Leaf.text?
      pure ⟨some payee, narration⟩

theorem TitleNode.covers_visit (n : TitleNode) : n.visit.Covers n.tokens := by
  cases n with
  | narration n => exact (n.covers_visit _).finish fun _ => covers_pure _
  | payee p pipe n =>
      rw [TitleNode.tokens, List.cons_append, ← List.singleton_append]
      exact (p.covers_visit _).bind fun _ => (covers_readAll _).bind fun _ =>
        (n.covers_visit _).finish fun _ => covers_pure _

/-- Visits what a transaction says behind its date. -/
def TransactionNode.content (n : TransactionNode) (date : Date) : Visit Content := do
  let flag ← n.flag.visit
  let title ← n.title.visit
  let tags ← each (Leaf.visit · Leaf.text?) n.tags
  let links ← each (Leaf.visit · Leaf.text?) n.links
  readAll n.lineEnd.tokens
  let postings ← each PostingLineNode.visit n.lines
  pure (.transaction
    ⟨date, flag, title.payee, title.narration, tags, links, postings.filterMap id⟩)

theorem covers_texts (ls : List (Leaf kind)) :
    (each (Leaf.visit · Leaf.text?) ls).Covers (ls.map Leaf.token) := by
  rw [List.map_eq_flatMap]
  exact covers_each (fun l => l.covers_visit Leaf.text?) ls

theorem TransactionNode.covers_content (n : TransactionNode) (date : Date) :
    (n.content date).Covers n.tokens := by
  rw [TransactionNode.tokens]
  simp only [List.cons_append, List.append_assoc]
  rw [← List.singleton_append]
  exact n.flag.covers_visit.bind fun _ => n.title.covers_visit.bind fun _ =>
    (covers_texts n.tags).bind fun _ => (covers_texts n.links).bind fun _ =>
      (covers_readAll _).bind fun _ =>
        (covers_each PostingLineNode.covers_visit n.lines).finish fun _ => covers_pure _

/-! ## Statements -/

def CurrenciesNode.visit : CurrenciesNode → Visit (List String)
  | .one currency => do pure [← currency.visit Leaf.text?]
  | .more currency comma others => do
      let text ← currency.visit Leaf.text?
      readAll (optionalToken comma)
      let texts ← others.visit
      pure (text :: texts)

theorem CurrenciesNode.covers_visit (n : CurrenciesNode) : n.visit.Covers n.tokens := by
  induction n with
  | one currency => exact (currency.covers_visit _).finish fun _ => covers_pure _
  | more currency comma others ih =>
      rw [CurrenciesNode.tokens, List.cons_append, ← List.singleton_append]
      exact (currency.covers_visit _).bind fun _ => (covers_readAll _).bind fun _ =>
        ih.finish fun _ => covers_pure _

/-- Visits the currencies that are listed, if there is a list. -/
def CurrenciesNode.visitListed : Option CurrenciesNode → Visit (List String)
  | none => pure []
  | some n => n.visit

theorem CurrenciesNode.covers_visitListed (n : Option CurrenciesNode) :
    (CurrenciesNode.visitListed n).Covers (n.elim [] CurrenciesNode.tokens) := by
  cases n with
  | none => exact covers_pure []
  | some n => exact n.covers_visit

/-- Visits what a line says between the date and its end. -/
def LineNode.content (date : Date) : LineNode → Visit Content
  | .opening word account currencies => do
      word.pass
      let account ← account.visit Leaf.text?
      let currencies ← CurrenciesNode.visitListed currencies
      pure (.opening date account currencies)
  | .closing word account => do
      word.pass
      let account ← account.visit Leaf.text?
      pure (.closing date account)
  | .pad word account source => do
      word.pass
      let account ← account.visit Leaf.text?
      let source ← source.visit Leaf.text?
      pure (.pad date account source)
  | .check word account amount => do
      word.pass
      let account ← account.visit Leaf.text?
      let amount ← amount.visit
      pure (.balance date account amount)
  | .price word currency amount => do
      word.pass
      let currency ← currency.visit Leaf.text?
      let amount ← amount.visit
      pure (.price date currency amount)
  | .event word topic description => do
      word.pass
      let topic ← topic.visit Leaf.text?
      let description ← description.visit Leaf.text?
      pure (.event date topic description)
  | .note word account comment => do
      word.pass
      let account ← account.visit Leaf.text?
      let comment ← comment.visit Leaf.text?
      pure (.note date account comment)
  | .document word account path => do
      word.pass
      let account ← account.visit Leaf.text?
      let path ← path.visit Leaf.text?
      pure (.document date account path)

theorem LineNode.covers_content (n : LineNode) (date : Date) :
    (n.content date).Covers n.tokens := by
  have hTwo {kind first second : TokenKind} (word : Leaf kind) (x : Leaf first) (y : Leaf second)
      (f : String → String → Content) :
      (word.pass >>= fun _ => x.visit Leaf.text? >>= fun text => y.visit Leaf.text? >>= fun other =>
        pure (f text other)).Covers [word.token, x.token, y.token] :=
    word.covers_pass.bind fun _ => (x.covers_visit _).bind fun _ =>
      (y.covers_visit _).finish fun _ => covers_pure _
  have hAmount {kind first : TokenKind} (word : Leaf kind) (x : Leaf first) (a : AmountNode)
      (f : String → Amount → Content) :
      (word.pass >>= fun _ => x.visit Leaf.text? >>= fun text => a.visit >>= fun amount =>
        pure (f text amount)).Covers (word.token :: x.token :: a.tokens) :=
    word.covers_pass.bind fun _ => (x.covers_visit _).bind fun _ =>
      a.covers_visit.finish fun _ => covers_pure _
  cases n with
  | opening word account currencies =>
      exact word.covers_pass.bind fun _ => (account.covers_visit _).bind fun _ =>
        (CurrenciesNode.covers_visitListed currencies).finish fun _ => covers_pure _
  | closing word account =>
      exact word.covers_pass.bind fun _ => (account.covers_visit _).finish fun _ => covers_pure _
  | pad word account source => exact hTwo word account source _
  | check word account amount => exact hAmount word account amount _
  | price word currency amount => exact hAmount word currency amount _
  | event word topic description => exact hTwo word topic description _
  | note word account comment => exact hTwo word account comment _
  | document word account path => exact hTwo word account path _

def DatedNode.content (date : Date) : DatedNode → Visit Content
  | .transaction n => n.content date
  | .line n lineEnd => do
      let content ← n.content date
      readAll lineEnd.tokens
      pure content

theorem DatedNode.covers_content (n : DatedNode) (date : Date) :
    (n.content date).Covers n.tokens := by
  cases n with
  | transaction n => exact n.covers_content date
  | line n lineEnd =>
      exact (n.covers_content date).bind fun _ => (covers_readAll _).finish fun _ => covers_pure _

/-- Visits what a statement says. -/
def StatementNode.content : StatementNode → Visit Content
  | .entry date dated => do
      let text ← date.visit Leaf.text?
      let day ← hand (.date text)
      dated.content day
  | .option word key value lineEnd => do
      word.pass
      let key ← key.visit Leaf.text?
      let value ← value.visit Leaf.text?
      readAll lineEnd.tokens
      pure (.option key value)

theorem StatementNode.covers_content (n : StatementNode) : n.content.Covers n.tokens := by
  cases n with
  | entry date dated =>
      have hPart (text : String) : (Request.date text).IsPart := trivial
      have hDay (text : String) : (hand (.date text) >>= dated.content).Covers dated.tokens :=
        (covers_hand (hPart text)).bind fun day => dated.covers_content day
      exact (date.covers_visit _).bind hDay
  | option word key value lineEnd =>
      exact word.covers_pass.bind fun _ => (key.covers_visit _).bind fun _ =>
        (value.covers_visit _).bind fun _ => (covers_readAll _).finish fun _ => covers_pure _

/-- Visits what a statement says, and then the statement itself. -/
def asStatement (active : TagContext) (location : Location) (content : Visit Content) :
    Visit Directive := do
  hand (.directive active ⟨← content, location⟩)

/-- Visits a statement of a text with a name, where some tags are active. -/
def StatementNode.visit (filename : String) (active : TagContext) (n : StatementNode) :
    Visit Directive :=
  asStatement active ⟨filename, n.head.span.start.line⟩ n.content

/-- Visits a word and the tag behind it. -/
def visitTag (word : Leaf kind) (tag : Leaf .tag) : Visit String := do
  word.pass
  tag.visit Leaf.text?

theorem covers_visitTag (word : Leaf kind) (tag : Leaf .tag) :
    (visitTag word tag).Covers [word.token, tag.token] :=
  word.covers_pass.bind fun _ => tag.covers_visit _

/-- Visits a declaration, which may be a statement. -/
def DeclarationNode.visit (filename : String) (active : TagContext) :
    DeclarationNode → Visit (Option Directive)
  | .statement n => do pure (some (← n.visit filename active))
  | .pushtag word tag => do
      let _ ← visitTag word tag
      pure none
  | .poptag word tag => do
      let _ ← visitTag word tag
      pure none
  | .lineEnd e => do
      readAll e.tokens
      pure none
  | .skipped line => do
      line.pass
      pure none

/-- The tags that a declaration leaves active where some were active before. -/
def DeclarationNode.retag (active : TagContext) : DeclarationNode → TagContext
  | .pushtag _ tag => tag.text?.elim active active.push
  | .poptag _ tag => tag.text?.elim active active.pop
  | _ => active

/-! ## What comes of a declaration -/

/-- What the tokens and calls of a visit have to do with the tree: the tokens are the first ones of
the tree, and all of them if the visit comes to a value; a statement that the calls yielded is in
that value; and a call about a whole statement comes with the tags that are active. -/
structure TraceOf (covered : List Token) (active : TagContext) (tokens : List Token)
    (calls : List Call) (value? : Option (Option Directive)) : Prop where
  tokens_prefix : tokens <+: covered
  tokens_eq : value?.isSome → tokens = covered
  directives_eq : calls.filterMap Call.directive? = value?.join.toList
  active_eq : ∀ call ∈ calls, ∀ tags, call.active? = some tags → tags = active

section

variable {σ : Type} {builder : Builder σ} {filename : String} {active : TagContext}
  {state after : σ} {covered tokens : List Token} {calls : List Call}

/-- A visit that asks about parts alone yields no statement. -/
theorem trace_of_covers {v : Visit α} {upshot : Upshot α} {value? : Option (Option Directive)}
    (h : v.Runs builder state tokens calls upshot after) (hv : v.Covers covered)
    (hValue : value?.isSome → upshot.value?.isSome) (hNone : value?.join = none) :
    TraceOf covered active tokens calls value? := by
  have hParts := h.active?_eq_none hv
  obtain ⟨hFirst, hAll⟩ := h.tokens_eq hv
  refine ⟨hFirst, fun hSome => hAll (hValue hSome), ?_, fun call hCall tags hTags => ?_⟩
  · rw [hNone]
    exact List.filterMap_eq_nil_iff.2 fun call hCall => Call.directive?_eq_none (hParts call hCall)
  · rw [hParts call hCall] at hTags
    cases hTags

/-- Of a statement, what it says is visited, and then the statement itself. -/
theorem StatementNode.trace_of_runs {n : StatementNode} {upshot : Upshot Directive}
    (h : (n.visit filename active).Runs builder state tokens calls upshot after) :
    TraceOf n.tokens active tokens calls (upshot.value?.map some) := by
  rcases h.of_bind with ⟨first, hFirst, hNone, hRuns⟩ |
    ⟨content, front, back, early, late, between, hFront, hBack, rfl, rfl⟩
  · rw [hNone]
    exact trace_of_covers hRuns n.covers_content nofun rfl
  · -- All that the statement says has been read, and the only call left is about all of it.
    obtain ⟨hPrefix, hAll, hDirectives, hActive⟩ :
        TraceOf n.tokens active front early (some none) :=
      trace_of_covers hFront n.covers_content (fun _ => rfl) rfl
    have hLast : back = [] ∧ late.filterMap Call.directive? = upshot.value?.toList ∧
        ∀ call ∈ late, ∀ tags, call.active? = some tags → tags = active := by
      have hOne {given : Directive} {answer : Except Refusal Directive} :
          ∀ call ∈ [Call.directive active given answer], ∀ tags, call.active? = some tags →
            tags = active := by
        rintro call hCall tags hTags
        rw [List.mem_singleton.1 hCall] at hTags
        cases hTags
        rfl
      cases hBack with
      | refused answer => exact ⟨rfl, rfl, hOne⟩
      | asked answer rest =>
          cases rest
          exact ⟨rfl, rfl, hOne⟩
    obtain ⟨rfl, hYield, hTags⟩ := hLast
    rw [List.append_nil]
    refine ⟨hPrefix, fun _ => hAll rfl, ?_, List.forall_mem_append.2 ⟨hActive, hTags⟩⟩
    rw [List.filterMap_append, hDirectives, hYield]
    cases upshot.value? <;> rfl

/-- Where no statement is asked about, none is yielded. -/
theorem trace_of_none {v : Visit α} {upshot : Upshot (Option Directive)}
    (h : (v >>= fun _ => pure none).Runs builder state tokens calls upshot after)
    (hv : v.Covers covered) : TraceOf covered active tokens calls upshot.value? := by
  have hNone : upshot.value?.join = none := by
    rcases h.of_bind with ⟨first, -, hNone, -⟩ |
      ⟨a, front, back, early, late, between, -, hBack, -, -⟩
    · rw [hNone]
      rfl
    · cases hBack
      rfl
  exact trace_of_covers h (hv.finish fun _ => covers_pure none) id hNone

theorem DeclarationNode.trace_of_runs {n : DeclarationNode} {upshot : Upshot (Option Directive)}
    (h : (n.visit filename active).Runs builder state tokens calls upshot after) :
    TraceOf n.tokens active tokens calls upshot.value? := by
  cases n with
  | statement n =>
      rcases h.of_bind with ⟨first, hFirst, hNone, hRuns⟩ |
        ⟨d, front, back, early, late, between, hFront, hBack, rfl, rfl⟩
      · have hTrace := StatementNode.trace_of_runs hRuns
        rw [hFirst] at hTrace
        rw [hNone]
        exact hTrace
      · cases hBack
        rw [List.append_nil, List.append_nil]
        exact StatementNode.trace_of_runs hFront
  | pushtag word tag => exact trace_of_none h (covers_visitTag word tag)
  | poptag word tag => exact trace_of_none h (covers_visitTag word tag)
  | lineEnd e => exact trace_of_none h (covers_readAll _)
  | skipped line => exact trace_of_none h line.covers_pass

end

end LedgerText.Grammar
