import LedgerText.Proofs.Lexing.Classes
import LedgerText.Proofs.Recovery.Settling
import LedgerText.Proofs.RoundTrip.Reparsing

/-!
# Writing what was read

Whatever the text, the directives that a parse of it adds can be written down:
their names are names of tokens, their days have plain years, a price has a
position, and the tags that a transaction inherits were pushed by tokens too.
Written and parsed again, they come back as they are, so writing them once more
gives the same text.

The first part goes through the parse trees. A tree whose leaves are tokens of
a text has a value that is well formed.
-/

namespace LedgerText

namespace Grammar

/-! ## Leaves of a text -/

/-- A part that is absent has no value, and one that is there has its own. -/
theorem exists_of_optional? {α β : Type} {value? : α → Option β} {part : Option α}
    {result : Option β} {b : β} (h : optional? value? part = some result)
    (hSome : result = some b) :
    ∃ a, part = some a ∧ value? a = some b := by
  cases part with
  | none =>
      cases h
      cases hSome
  | some a =>
      obtain ⟨c, hValue, rfl⟩ := Option.map_eq_some_iff.1 h
      cases hSome
      exact ⟨a, rfl, hValue⟩

/-- Every value of a list is the value of one of the parts. -/
theorem exists_mem_of_mapM {α β : Type} {value? : α → Option β} {parts : List α}
    {values : List β} (h : parts.mapM value? = some values) :
    ∀ b ∈ values, ∃ a ∈ parts, value? a = some b := by
  induction parts generalizing values with
  | nil =>
      cases h
      exact List.forall_mem_nil _
  | cons a parts ih =>
      obtain ⟨b, others, hFirst, hOthers, rfl⟩ := Parse.mapM_cons_eq_some.1 h
      refine List.forall_mem_cons.2 ⟨⟨a, List.mem_cons_self, hFirst⟩, fun c hc => ?_⟩
      obtain ⟨d, hMem, hValue⟩ := ih hOthers c hc
      exact ⟨d, List.mem_cons_of_mem a hMem, hValue⟩

namespace Leaf

variable {text : String}

/-- The text of a leaf is the one that its token has, and is of its class. -/
theorem class_of_text? {kind : TokenKind} {l : Leaf kind} {IsClass : String → Prop}
    (h : ∃ name, l.token.value = .text name ∧ IsClass name) (hText : l.text? = some text) :
    IsClass text := by
  obtain ⟨name, hValue, hClass⟩ := h
  rw [text?, hValue] at hText
  cases hText
  exact hClass

theorem isAccount {l : Leaf .account} (h : l.token.IsLexical) (hText : l.text? = some text) :
    IsAccount text := by
  rw [Token.IsLexical, l.kind_eq] at h
  exact class_of_text? h hText

theorem isCurrency {l : Leaf .currency} (h : l.token.IsLexical) (hText : l.text? = some text) :
    IsCurrency text := by
  rw [Token.IsLexical, l.kind_eq] at h
  exact class_of_text? h hText

theorem isTagName_of_tag {l : Leaf .tag} (h : l.token.IsLexical) (hText : l.text? = some text) :
    IsTagName text := by
  rw [Token.IsLexical, l.kind_eq] at h
  exact class_of_text? h hText

theorem isTagName_of_link {l : Leaf .link} (h : l.token.IsLexical)
    (hText : l.text? = some text) : IsTagName text := by
  rw [Token.IsLexical, l.kind_eq] at h
  exact class_of_text? h hText

theorem hasPlainYear {l : Leaf .date} {day : Date} (h : l.token.IsLexical)
    (hDay : l.day? = some day) : day.HasPlainYear := by
  rw [Token.IsLexical, l.kind_eq] at h
  obtain ⟨text, hText, hDate⟩ := Option.bind_eq_some_iff.1 hDay
  have hClass : ∀ d, Date.ofText? text = some d → d.HasPlainYear := class_of_text? h hText
  exact hClass day hDate

theorem isFlag {l : Leaf .flag} {c : Char} (h : l.token.IsLexical) (hChar : l.char? = some c) :
    c ∈ Lexeme.flagChars := by
  rw [Token.IsLexical, l.kind_eq] at h
  obtain ⟨d, hValue, hFlag⟩ := h
  rw [char?, hValue] at hChar
  cases hChar
  exact hFlag

end Leaf

/-! ## Trees of a text -/

theorem AmountNode.isWellFormed {n : AmountNode} {a : Amount}
    (h : ∀ token ∈ n.tokens, token.IsLexical) (hValue : n.value? = some a) : a.IsWellFormed := by
  simp only [value?, Option.pure_def, Option.bind_eq_bind, Option.bind_eq_some_iff,
    Option.some.injEq] at hValue
  obtain ⟨number, -, currency, hCurrency, rfl⟩ := hValue
  exact Leaf.isCurrency (h _ (by simp [tokens])) hCurrency

theorem LotCostNode.isWellFormed {n : LotCostNode} {c : LotCost}
    (h : ∀ token ∈ n.tokens, token.IsLexical) (hValue : n.value? = some c) : c.IsWellFormed := by
  simp only [value?, Option.pure_def, Option.bind_eq_bind, Option.bind_eq_some_iff,
    Option.some.injEq] at hValue
  obtain ⟨cost, hCost, date, hDate, rfl⟩ := hValue
  simp only [tokens, List.cons_append, List.forall_mem_cons, List.forall_mem_append] at h
  refine ⟨AmountNode.isWellFormed h.2.1.1 hCost, fun day hDay => ?_⟩
  obtain ⟨d, hNode, hDay⟩ := exists_of_optional? hDate hDay
  have hTokens := h.2.1.2
  rw [hNode] at hTokens
  exact Leaf.hasPlainYear (hTokens _ (by simp [LotDateNode.tokens])) hDay

theorem PositionNode.isWellFormed {n : PositionNode} {p : Position}
    (h : ∀ token ∈ n.tokens, token.IsLexical) (hValue : n.value? = some p) : p.IsWellFormed := by
  simp only [value?, Option.pure_def, Option.bind_eq_bind, Option.bind_eq_some_iff,
    Option.some.injEq] at hValue
  obtain ⟨units, hUnits, cost, hCost, rfl⟩ := hValue
  rw [tokens, List.forall_mem_append] at h
  refine ⟨AmountNode.isWellFormed h.1 hUnits, fun lot hLot => ?_⟩
  obtain ⟨c, hNode, hLot⟩ := exists_of_optional? hCost hLot
  have hTokens := h.2
  rw [hNode] at hTokens
  exact LotCostNode.isWellFormed hTokens hLot

/-- The movement of a posting is where its price is, so there is none without a position. -/
theorem PostingNode.isWellFormed {n : PostingNode} {p : Posting}
    (h : ∀ token ∈ n.tokens, token.IsLexical) (hValue : n.value? = some p) : p.IsWellFormed := by
  simp only [value?, Option.pure_def, Option.bind_eq_bind, Option.bind_eq_some_iff,
    Option.some.injEq] at hValue
  obtain ⟨flag, hFlag, account, hAccount, position, hPosition, price, hPrice, rfl⟩ := hValue
  simp only [tokens, List.cons_append, List.append_assoc, List.forall_mem_cons,
    List.forall_mem_append] at h
  obtain ⟨-, hFlagToken, hAccountToken, hMovement, -⟩ := h
  refine ⟨fun c hSome => ?_, Leaf.isAccount hAccountToken hAccount, fun q hSome => ?_,
    fun a hSome => ?_, fun hSome => ?_, fun hNone => ?_⟩
  · obtain ⟨l, hNode, hChar⟩ := exists_of_optional? hFlag hSome
    rw [hNode] at hFlagToken
    exact Leaf.isFlag (hFlagToken _ (by simp [optionalToken])) hChar
  · obtain ⟨m, hNode, hUnits⟩ := exists_of_optional? hPosition hSome
    rw [hNode] at hMovement
    rw [Option.elim_some, MovementNode.tokens, List.forall_mem_append] at hMovement
    exact PositionNode.isWellFormed hMovement.1 hUnits
  · obtain ⟨q, hNode, hAmount⟩ := exists_of_optional? hPrice hSome
    obtain ⟨m, hMoved, hPriced⟩ := Option.bind_eq_some_iff.1 hNode
    rw [hMoved, Option.elim_some, MovementNode.tokens, List.forall_mem_append, hPriced,
      Option.elim_some, List.forall_mem_cons] at hMovement
    exact AmountNode.isWellFormed hMovement.2.2 hAmount
  · obtain ⟨a, hSome⟩ := Option.isSome_iff_exists.1 hSome
    obtain ⟨q, hNode, -⟩ := exists_of_optional? hPrice hSome
    obtain ⟨m, hMoved, -⟩ := Option.bind_eq_some_iff.1 hNode
    rw [hMoved, Parse.optional?_eq_some_some] at hPosition
    obtain ⟨c, -, rfl⟩ := hPosition
    rfl
  · change price = none at hNone
    subst hNone
    show n.movement.elim false MovementNode.isTotal = false
    cases hMoved : n.movement with
    | none => rfl
    | some m =>
        rw [hMoved, Option.bind_some] at hPrice
        cases hPriced : m.price with
        | none =>
            rw [Option.elim_some, MovementNode.isTotal, hPriced]
            rfl
        | some q =>
            rw [hPriced, Parse.optional?_eq_some_some] at hPrice
            obtain ⟨c, -, hAbsent⟩ := hPrice
            cases hAbsent

theorem PostingLineNode.forall_isWellFormed {lines : List PostingLineNode}
    {postings : List Posting} (h : ∀ token ∈ allTokens lines, token.IsLexical)
    (hValue : postings? lines = some postings) : ∀ p ∈ postings, p.IsWellFormed := by
  obtain ⟨values, hValues, rfl⟩ := Option.map_eq_some_iff.1 hValue
  intro p hp
  rw [List.mem_filterMap] at hp
  obtain ⟨value, hMem, rfl⟩ := hp
  obtain ⟨line, hLine, hSaid⟩ := exists_mem_of_mapM hValues _ hMem
  have hTokens : ∀ token ∈ line.tokens, token.IsLexical := fun token hToken =>
    h token (List.mem_flatMap.2 ⟨line, hLine, hToken⟩)
  cases line with
  | comment text lineEnd => cases hSaid
  | posting n =>
      obtain ⟨q, hPosting, hSame⟩ := Option.map_eq_some_iff.1 hSaid
      cases hSame
      exact PostingNode.isWellFormed hTokens hPosting

/-- The word for a plain transaction stands for a flag that can be written. -/
theorem FlagNode.isFlag {n : FlagNode} {c : Char} (h : n.token.IsLexical)
    (hValue : n.value? = some c) : c ∈ Lexeme.flagChars := by
  cases n with
  | txn word =>
      cases hValue
      decide
  | flag sign => exact Leaf.isFlag h hValue

theorem TransactionNode.isWellFormed {n : TransactionNode} {date : Date} {x : Transaction}
    (hDate : date.HasPlainYear) (h : ∀ token ∈ n.tokens, token.IsLexical)
    (hValue : n.value? date = some x) : x.IsWellFormed := by
  obtain ⟨hFlag, -, hTags, hLinks, hPostings, rfl⟩ :=
    Parse.transactionNode_value?_eq_some.1 hValue
  simp only [tokens, List.cons_append, List.append_assoc, List.forall_mem_cons,
    List.forall_mem_append, List.forall_mem_map] at h
  obtain ⟨hFlagToken, -, hTagTokens, hLinkTokens, -, hLines⟩ := h
  refine ⟨hDate, FlagNode.isFlag hFlagToken hFlag, fun tag hTag => ?_, fun link hLink => ?_,
    PostingLineNode.forall_isWellFormed hLines hPostings⟩
  · obtain ⟨l, hMem, hText⟩ := exists_mem_of_mapM hTags tag hTag
    exact Leaf.isTagName_of_tag (hTagTokens l hMem) hText
  · obtain ⟨l, hMem, hText⟩ := exists_mem_of_mapM hLinks link hLink
    exact Leaf.isTagName_of_link (hLinkTokens l hMem) hText

theorem CurrenciesNode.forall_isCurrency {n : CurrenciesNode} {values : List String}
    (h : ∀ token ∈ n.tokens, token.IsLexical) (hValue : n.value? = some values) :
    ∀ currency ∈ values, IsCurrency currency := by
  induction n generalizing values with
  | one l =>
      obtain ⟨text, hText, hSame⟩ := Option.bind_eq_some_iff.1 hValue
      cases hSame
      exact List.forall_mem_singleton.2 (Leaf.isCurrency (h _ (by simp [tokens])) hText)
  | more l comma others ih =>
      simp only [value?, Option.pure_def, Option.bind_eq_bind, Option.bind_eq_some_iff,
        Option.some.injEq] at hValue
      obtain ⟨text, hText, texts, hTexts, rfl⟩ := hValue
      simp only [tokens, List.cons_append, List.forall_mem_cons, List.forall_mem_append] at h
      exact List.forall_mem_cons.2 ⟨Leaf.isCurrency h.1 hText, ih h.2.2 hTexts⟩

theorem LineNode.isWellFormed {n : LineNode} {date : Date} {c : Content}
    (hDate : date.HasPlainYear) (h : ∀ token ∈ n.tokens, token.IsLexical)
    (hValue : n.value? date = some c) : c.IsWellFormed := by
  cases n with
  | opening word account currencies =>
      simp only [value?, Option.pure_def, Option.bind_eq_bind, Option.bind_eq_some_iff,
        Option.some.injEq] at hValue
      obtain ⟨name, hName, listed, hListed, rfl⟩ := hValue
      simp only [tokens, List.forall_mem_cons] at h
      refine ⟨hDate, Leaf.isAccount h.2.1 hName, ?_⟩
      cases currencies with
      | none =>
          cases hListed
          exact List.forall_mem_nil _
      | some m => exact CurrenciesNode.forall_isCurrency h.2.2 hListed
  | closing word account =>
      obtain ⟨name, hName, hSame⟩ := Option.bind_eq_some_iff.1 hValue
      cases hSame
      exact ⟨hDate, Leaf.isAccount (h _ (by simp [tokens])) hName⟩
  | pad word account source =>
      simp only [value?, Option.pure_def, Option.bind_eq_bind, Option.bind_eq_some_iff,
        Option.some.injEq] at hValue
      obtain ⟨name, hName, other, hOther, rfl⟩ := hValue
      exact ⟨hDate, Leaf.isAccount (h _ (by simp [tokens])) hName,
        Leaf.isAccount (h _ (by simp [tokens])) hOther⟩
  | check word account amount =>
      simp only [value?, Option.pure_def, Option.bind_eq_bind, Option.bind_eq_some_iff,
        Option.some.injEq] at hValue
      obtain ⟨name, hName, units, hUnits, rfl⟩ := hValue
      simp only [tokens, List.forall_mem_cons] at h
      exact ⟨hDate, Leaf.isAccount h.2.1 hName, AmountNode.isWellFormed h.2.2 hUnits⟩
  | price word currency amount =>
      simp only [value?, Option.pure_def, Option.bind_eq_bind, Option.bind_eq_some_iff,
        Option.some.injEq] at hValue
      obtain ⟨name, hName, units, hUnits, rfl⟩ := hValue
      simp only [tokens, List.forall_mem_cons] at h
      exact ⟨hDate, Leaf.isCurrency h.2.1 hName, AmountNode.isWellFormed h.2.2 hUnits⟩
  | event word topic description =>
      simp only [value?, Option.pure_def, Option.bind_eq_bind, Option.bind_eq_some_iff,
        Option.some.injEq] at hValue
      obtain ⟨first, -, second, -, rfl⟩ := hValue
      exact hDate
  | note word account comment =>
      simp only [value?, Option.pure_def, Option.bind_eq_bind, Option.bind_eq_some_iff,
        Option.some.injEq] at hValue
      obtain ⟨name, hName, second, -, rfl⟩ := hValue
      exact ⟨hDate, Leaf.isAccount (h _ (by simp [tokens])) hName⟩
  | document word account path =>
      simp only [value?, Option.pure_def, Option.bind_eq_bind, Option.bind_eq_some_iff,
        Option.some.injEq] at hValue
      obtain ⟨name, hName, second, -, rfl⟩ := hValue
      exact ⟨hDate, Leaf.isAccount (h _ (by simp [tokens])) hName⟩

theorem StatementNode.isWellFormed {n : StatementNode} {c : Content}
    (h : ∀ token ∈ n.tokens, token.IsLexical) (hValue : n.value? = some c) : c.IsWellFormed := by
  rw [tokens, List.forall_mem_cons] at h
  cases n with
  | option word key value lineEnd =>
      simp only [value?, Option.pure_def, Option.bind_eq_bind, Option.bind_eq_some_iff,
        Option.some.injEq] at hValue
      obtain ⟨first, -, second, -, rfl⟩ := hValue
      trivial
  | entry l dated =>
      obtain ⟨date, hDay, hDated⟩ := Option.bind_eq_some_iff.1 hValue
      have hDate : date.HasPlainYear := Leaf.hasPlainYear h.1 hDay
      cases dated with
      | line m lineEnd =>
          have hLine : ∀ token ∈ m.tokens, token.IsLexical := fun token hToken =>
            h.2 token (List.mem_append_left _ hToken)
          exact LineNode.isWellFormed hDate hLine hDated
      | transaction m =>
          obtain ⟨x, hTransaction, rfl⟩ := Option.map_eq_some_iff.1 hDated
          exact TransactionNode.isWellFormed hDate h.2 hTransaction

end Grammar

/-! ## Directives of a parse -/

/-- Every push is of a name that a tag can have. -/
def TagContext.IsWellFormed (t : TagContext) : Prop := ∀ tag ∈ t.pushed, IsTagName tag

/-- What a transaction inherits are names of tags, so it stays well formed. -/
theorem Content.IsWellFormed.addTags {c : Content} {tags : TagContext} (h : c.IsWellFormed)
    (hTags : tags.IsWellFormed) : (c.addTags tags).IsWellFormed := by
  cases c with
  | transaction t =>
      refine ⟨h.date, h.flag, fun tag hTag => ?_, h.links, h.postings⟩
      rcases List.mem_append.1 hTag with hOwn | hInherited
      · exact h.tags tag hOwn
      · have hActive : tag ∈ tags.pushed.reverse.eraseDups := (List.mem_filter.1 hInherited).1
        rw [List.mem_eraseDups, List.mem_reverse] at hActive
        exact hTags tag hActive
  | _ => exact h

namespace Parse

open Grammar

variable {options : Options} {tokens : List Token} {s t : State Unit}

/-- What was read from a state within a text are tokens of the text. -/
theorem isLexical_of_reads (hTidy : Tidy tokens) (h : s.spot.IsWithin tokens) {w : List Token}
    (hReads : s.Reads w t) : ∀ token ∈ w, token.IsLexical := by
  obtain ⟨-, front, hTokens, -⟩ := h
  change tokens = front ++ s.input at hTokens
  intro token hMem
  apply hTidy.lexical
  rw [hTokens, hReads.input_eq]
  simp [hMem]

/-- The active tags are names of tokens, from statement to statement. -/
theorem Advances.tags_isWellFormed (hTidy : Tidy tokens) (hWithin : s.spot.IsWithin tokens)
    (h : s.tags.IsWellFormed) (hStep : Advances (.standard options) s t) :
    t.tags.IsWellFormed := by
  rcases statement_eq_ok.1 hStep.2 with hOk | ⟨error, u, hError, -, rfl⟩
  · obtain ⟨n, u, hReads, -, hState⟩ := exists_node hOk
    have hLexical := isLexical_of_reads hTidy hWithin hReads
    rw [← hReads.tags_eq] at h
    cases n with
    | statement m =>
        obtain ⟨x, -, rfl⟩ := Option.map_eq_some_iff.1 hState
        exact h
    | pushtag word l =>
        obtain ⟨tag, hText, rfl⟩ := Option.map_eq_some_iff.1 hState
        have hName : IsTagName tag :=
          Leaf.isTagName_of_tag (hLexical _ (by simp [DeclarationNode.tokens])) hText
        exact List.forall_mem_cons.2 ⟨hName, h⟩
    | poptag word l =>
        obtain ⟨tag, -, rfl⟩ := Option.map_eq_some_iff.1 hState
        intro other hOther
        split at hOther
        · exact h other (List.mem_of_mem_erase hOther)
        · exact h other hOther
    | lineEnd e =>
        cases hState
        exact h
    | skipped line =>
        cases hState
        exact h
  · have hSame : u.tags = s.tags := (unmoved_of_error hError).1.tags_eq
    show u.tags.IsWellFormed
    rw [hSame]
    exact h

/-- Between two statements of a parse, only names of tags are active. -/
theorem tags_isWellFormed_of_reaches (hTidy : Tidy tokens) (hSteady : Steady options tokens s)
    (h : s.tags.IsWellFormed) (hReaches : Reaches (.standard options) s t) :
    t.tags.IsWellFormed := by
  induction hReaches with
  | refl => exact h
  | tail hFront hStep ih =>
      exact hStep.tags_isWellFormed hTidy (steady_of_reaches hTidy hSteady hFront).within ih

/-- What a statement of a text adds can be written. -/
theorem Adds.isWellFormed {x : Spanned Directive} (hTidy : Tidy tokens)
    (hWithin : s.spot.IsWithin tokens) (hTags : s.tags.IsWellFormed) (h : Adds options s x) :
    x.value.IsWellFormed := by
  obtain ⟨n, u, hReads, -, hValue⟩ := h
  obtain ⟨c, hContent, rfl⟩ := Option.map_eq_some_iff.1 hValue
  have hLexical := isLexical_of_reads hTidy hWithin hReads
  exact (StatementNode.isWellFormed hLexical hContent).addTags hTags

/-- Whatever is read from a text can be written. -/
theorem isWellFormed_of_mem_text (source : String) (options : Options) :
    ∀ x ∈ (text source options).directives, x.value.IsWellFormed := by
  intro x hx
  have hTidy := tidy_tokens source
  have hSteady : Steady options (Token.tokens source) (.begin () .empty (Token.tokens source)) :=
    steady_begin hTidy .empty
  obtain ⟨t, hReaches, hLast⟩ := exists_last options .empty (Token.tokens source)
  have hMem : x ∈ t.directives := hLast ▸ hx
  obtain ⟨before, after, hSplit⟩ := List.append_of_mem hMem
  obtain ⟨s, -, hStart, -, -, -, hAdds⟩ := exists_added hReaches rfl hSplit
  exact hAdds.isWellFormed hTidy (steady_of_reaches hTidy hSteady hStart).within
    (tags_isWellFormed_of_reaches hTidy hSteady (List.forall_mem_nil _) hStart)

/-! ## Writing twice -/

/-- What is written does not say where it was read. -/
theorem writtenAll_eq_of_unplaced {layout : Layout} {ds es : List Directive}
    (h : ds.map Directive.unplaced = es.map Directive.unplaced) :
    Directive.writtenAll layout ds = Directive.writtenAll layout es := by
  have hWritten (d : Directive) : d.written layout = d.unplaced.written layout := rfl
  have hMap (ds : List Directive) : ds.map (fun d => d.written layout) =
      (ds.map Directive.unplaced).map fun d => d.written layout := by
    rw [List.map_map]
    exact List.map_congr_left fun d _ => hWritten d
  rw [Directive.writtenAll, Directive.writtenAll, hMap ds, hMap es, h]

/-- Written directives are read to the end of the text without an error, and come back as they
are. -/
structure Reread (layout : Layout) (ds : List Directive) (s : State Unit) : Prop where
  errors : s.errors = []
  accepted : s.phase = .accepted
  directives : (s.directives.map Spanned.value).map Directive.unplaced =
    ds.map Directive.unplaced
  written : Directive.writtenAll layout (s.directives.map Spanned.value) =
    Directive.writtenAll layout ds

/-- The directives of any text, complete or not, are read again from what is written of them, and
writing them again changes nothing. -/
theorem text_reread (source : String) (options : Options) (amountColumn : Nat) :
    Reread { amountColumn } ((text source options).directives.map Spanned.value)
      (text (Directive.writtenAll { amountColumn }
        ((text source options).directives.map Spanned.value)) {}) := by
  generalize hDirectives : (text source options).directives.map Spanned.value = directives
  have hIndent : "  ".toList ≠ [] ∧ "  ".toList.all isBlank = true := by decide
  have hLayout : Layout.IsWellFormed { amountColumn } := hIndent
  have hAll : ∀ d ∈ directives, d.IsWellFormed := by
    rw [← hDirectives, List.forall_mem_map]
    exact isWellFormed_of_mem_text source options
  have hRoom : 1 + 5 < (10000 : Nat) := by decide
  have hRun : ∃ t, statements (.standard {}) (.begin () .empty
      (Token.tokens (Directive.writtenAll { amountColumn } directives))) = (.ok (), t) ∧
      State.Gains (.begin () .empty
        (Token.tokens (Directive.writtenAll { amountColumn } directives))) t directives :=
    statements_written hLayout hAll hRoom rfl rfl
  obtain ⟨t, hStatements, hGains⟩ := hRun
  have hText : text (Directive.writtenAll { amountColumn } directives) {} =
      { t with depth := t.depth - 1, phase := .accepted } := run_of_ok (by decide) hStatements
  have hSame : (t.directives.map Spanned.value).map Directive.unplaced =
      directives.map Directive.unplaced := by
    rw [List.map_map]
    exact hGains.directives
  rw [hText]
  exact ⟨hGains.errors, rfl, hSame, writtenAll_eq_of_unplaced hSame⟩

end Parse

end LedgerText
