import LedgerText.Proofs.RoundTrip.Phrases

/-!
# The trees of written statements

What is written of a statement is cut into the tokens of a tree from the start
of one line to the start of another, and the value of the tree is what was
written (`exists_statement`). The tree takes all it can, whatever comes next,
unless that is an indent or a comment, which may still belong to a transaction
above it.
-/

namespace LedgerText.Token

open Grammar Lexeme

section

variable {place : Place} {rest : List Char} {layout : Layout}

/-! ## Postings -/

/-- What is written of a flag in front of an account. -/
def flagText : Option Char → List Char
  | some flag => [flag, ' ']
  | none => []

theorem exists_optionalFlag {flag : Option Char} (h : ∀ c, flag = some c → c ∈ flagChars) :
    ∃ n : Option (Leaf .flag), optional? Leaf.char? n = some flag ∧
      CutInline place (flagText flag) rest (optionalToken n) := by
  cases flag with
  | none => exact ⟨none, rfl, cut_nil⟩
  | some c =>
      obtain ⟨l, hChar, hCut⟩ := exists_flag (h c rfl)
      have hBlank : [' '].all isBlank = true := by decide
      refine ⟨some l, ?_, hCut.append (cut_blanks hBlank)⟩
      rw [optional?, hChar, Option.map_some]

/-- Behind the indent of a posting stands a flag or an account. -/
theorem scan_flagText {flag : Option Char} {name : String}
    (hFlag : ∀ c, flag = some c → c ∈ flagChars) (hName : IsAccount name)
    (hRest : Delimited rest) :
    (scan (flagText flag ++ (name.toList ++ rest))).1 = .flag ∨
      (scan (flagText flag ++ (name.toList ++ rest))).1 = .account := by
  cases flag with
  | none =>
      have hScan := scan_account hName hRest
      rw [flagText, List.nil_append, hScan]
      exact .inr rfl
  | some c =>
      have hScan := scan_flag (hFlag c rfl) (name.toList ++ rest)
      left
      exact congrArg Prod.fst hScan

theorem toList_writtenPosting (layout : Layout) (p : Posting) : (p.written layout).toList =
    layout.indent.toList ++ (flagText p.flag ++ (p.account.toList ++ movementText layout p)) := by
  cases hPosition : p.position with
  | none =>
      cases hFlag : p.flag <;>
        simp [Posting.written, Posting.accountText, flagText, movementText, hPosition, hFlag]
  | some position =>
      cases hFlag : p.flag <;>
        simp [Posting.written, Posting.accountText, flagText, movementText, hPosition, hFlag]

theorem exists_posting {p : Posting} (hLayout : layout.IsWellFormed) (h : p.IsWellFormed) :
    ∃ n : PostingNode, n.value? = some p ∧ n.lineEnd.closesLine = true ∧
      Cut true true place ((p.written layout).toList ++ ['\n']) rest n.tokens := by
  have hLine : Delimited ('\n' :: rest) := delimited_cons rest (by decide)
  have hBehind := delimited_movementText layout p hLine
  have hShape : (scan (flagText p.flag ++ (p.account.toList ++ movementText layout p) ++
      ['\n'] ++ rest)).1 ∈ [Shape.flag, Shape.account] := by
    have hScan := scan_flagText h.flag h.account hBehind
    simpa using hScan
  have hOther : ∀ shape ∈ [Shape.flag, Shape.account],
      shape ≠ .unknown ∧ shape ≠ .newline ∧ shape ≠ .comment := by decide
  obtain ⟨indent, hIndent⟩ := exists_indent hLayout.2 hLayout.1 (hOther _ hShape)
  obtain ⟨flag, hFlag, hFlagCut⟩ := exists_optionalFlag h.flag
  obtain ⟨account, hAccount, hAccountCut⟩ := exists_account h.account hBehind
  obtain ⟨movement, hPosition, hPrice, hTotal, hMovement⟩ := exists_movement h hLine
  obtain ⟨lineEnd, hLineEnd⟩ := exists_lineEnd
  refine ⟨⟨indent, flag, account, movement, .plain lineEnd⟩, ?_, rfl, ?_⟩
  · simp [PostingNode.value?, hFlag, hAccount, hPosition, hPrice, hTotal]
  · have hTokens : PostingNode.tokens ⟨indent, flag, account, movement, .plain lineEnd⟩ =
        [indent.token] ++ (optionalToken flag ++ ([account.token] ++
          movement.elim [] MovementNode.tokens) ++ [lineEnd.token]) := by
      simp [PostingNode.tokens, LineEndNode.tokens]
    rw [toList_writtenPosting, hTokens, List.append_assoc]
    exact hIndent.append ((hFlagCut.append (hAccountCut.append hMovement)).append hLineEnd)

/-! ## Transactions -/

/-- Postings as they are written, one on each line. -/
def postingsText (layout : Layout) (postings : List Posting) : List Char :=
  postings.flatMap fun posting => (posting.written layout).toList ++ ['\n']

/-- There is nothing more to take from the tokens of the next line, be it for a comment or a
posting. -/
def BeginsAnew (more : List Token) : Prop := nextKind more ≠ .indent ∧ nextKind more ≠ .comment

theorem exists_lines {postings : List Posting} (hLayout : layout.IsWellFormed)
    (h : ∀ posting ∈ postings, posting.IsWellFormed) :
    ∃ ls : List PostingLineNode, ls.mapM PostingLineNode.value? = some (postings.map some) ∧
      (∀ more, BeginsAnew more → PostingLineNode.AllGreedy true ls more) ∧
      Cut true true place (postingsText layout postings) rest (PostingLineNode.allTokens ls) := by
  induction postings generalizing place with
  | nil =>
      refine ⟨[], rfl, ?_, cut_nil⟩
      intro more hMore
      exact ⟨hMore.1, fun _ => hMore.2⟩
  | cons posting postings ih =>
      obtain ⟨n, hValue, hClosed, hFirst⟩ := exists_posting hLayout (h posting (by simp))
      obtain ⟨ls, hValues, hGreedy, hMore⟩ := ih fun other hOther => h other (by simp [hOther])
      refine ⟨.posting n :: ls, ?_, ?_, hFirst.append hMore⟩
      · simp [PostingLineNode.value?, hValue, hValues]
      · intro more hNext
        -- The line ends with a line break, so nothing behind it belongs to its end.
        have hLineEnd : n.lineEnd.Greedy (PostingLineNode.allTokens ls ++ more) := by
          intro hOpen
          rw [hClosed] at hOpen
          exact absurd hOpen (by decide)
        refine ⟨fun hComment => absurd hComment (by simp [PostingLineNode.isComment]), hLineEnd, ?_⟩
        show PostingLineNode.AllGreedy n.lineEnd.closesLine ls more
        rw [hClosed]
        exact hGreedy more hNext

/-- What is written of a transaction behind its date. -/
def transactionText (layout : Layout) (t : Transaction) : List Char :=
  [t.flag] ++ ((titleText t.payee t.narration ++ (signedText '#' t.tags ++
    (signedText '^' t.links ++ ['\n']))) ++ postingsText layout t.postings)

theorem toList_writtenTransaction (layout : Layout) (t : Transaction) :
    (t.written layout).toList = t.date.toText.toList ++ ' ' :: transactionText layout t := by
  have hSigned (sign : Char) (names : List String) :
      (signed (String.singleton sign) names).toList = signedText sign names := by
    simp [signed, signedText, List.flatMap_map]
  have hLines : (String.join (t.postings.map fun posting =>
      posting.written layout ++ "\n")).toList = postingsText layout t.postings := by
    simp [postingsText, List.flatMap_map]
  have hTags : (signed "#" t.tags).toList = signedText '#' t.tags := hSigned '#' t.tags
  have hLinks : (signed "^" t.links).toList = signedText '^' t.links := hSigned '^' t.links
  cases hPayee : t.payee with
  | none =>
      simp [Transaction.written, transactionText, titleText, hPayee, hTags, hLinks, hLines]
  | some payee =>
      simp [Transaction.written, transactionText, titleText, hPayee, hTags, hLinks, hLines]

theorem exists_transaction {t : Transaction} (hLayout : layout.IsWellFormed)
    (h : t.IsWellFormed) :
    ∃ n : TransactionNode, n.value? t.date = some t ∧ (∀ more, BeginsAnew more → n.Greedy more) ∧
      Cut false true place (transactionText layout t) rest n.tokens := by
  let behind := postingsText layout t.postings ++ rest
  have hLine : Delimited (['\n'] ++ behind) := delimited_cons behind (by decide)
  have hLinkRest : Delimited (signedText '^' t.links ++ ['\n'] ++ behind) := by
    rw [List.append_assoc]
    exact delimited_signedText '^' t.links hLine
  have hFlagLeaf : ∃ l : Leaf .flag, l.char? = some t.flag ∧
      CutInline place [t.flag] (titleText t.payee t.narration ++ (signedText '#' t.tags ++
        (signedText '^' t.links ++ ['\n'])) ++ postingsText layout t.postings ++ rest)
        [l.token] := by
    obtain ⟨tail, hTail⟩ := exists_titleText_cons t.payee t.narration
    rw [hTail]
    exact exists_flag h.flag
  obtain ⟨flag, hFlag, hFlagCut⟩ := hFlagLeaf
  obtain ⟨title, hTitle, hTitleCut⟩ := exists_title t.payee t.narration
  obtain ⟨tags, hTags, hTagsCut⟩ := exists_signed
    (fun name hName _ _ hRest => exists_tag (h.tags name hName) hRest) hLinkRest
  obtain ⟨links, hLinks, hLinksCut⟩ := exists_signed
    (fun name hName _ _ hRest => exists_link (h.links name hName) hRest) hLine
  obtain ⟨lineEnd, hLineEnd⟩ := exists_lineEnd
  obtain ⟨lines, hValues, hGreedy, hLines⟩ := exists_lines hLayout h.postings
  have hPostings : PostingLineNode.postings? lines = some t.postings := by
    simp [PostingLineNode.postings?, hValues]
  refine ⟨⟨.flag flag, title, tags, links, .plain lineEnd, lines⟩, ?_, ?_, ?_⟩
  · simp [TransactionNode.value?, FlagNode.value?, hFlag, hTitle, hTags, hLinks, hPostings]
  · intro more hMore
    exact ⟨fun hOpen => absurd hOpen (by simp [LineEndNode.closesLine]), hGreedy more hMore⟩
  · have hTokens : TransactionNode.tokens ⟨.flag flag, title, tags, links, .plain lineEnd, lines⟩ =
        [flag.token] ++ ((title.tokens ++ (tags.map Leaf.token ++ (links.map Leaf.token ++
          [lineEnd.token]))) ++ PostingLineNode.allTokens lines) := by
      simp [TransactionNode.tokens, FlagNode.token, LineEndNode.tokens]
    rw [hTokens]
    exact hFlagCut.append ((hTitleCut.append (hTagsCut.append
      (hLinksCut.append hLineEnd))).append hLines)

/-! ## Statements of one line -/

section

variable {account : String} {date : Date}

theorem exists_opening {currencies : List String} (hAccount : IsAccount account)
    (hCurrencies : ∀ currency ∈ currencies, IsCurrency currency) :
    ∃ n : LineNode, n.value? date = some (.opening date account currencies) ∧
      CutInline place (Keyword.opening.text.toList ++ ' ' :: (account.toList ++
        if currencies.isEmpty then [] else ' ' :: (String.intercalate "," currencies).toList))
        ('\n' :: rest) n.tokens := by
  have hLine : Delimited ('\n' :: rest) := delimited_cons rest (by decide)
  cases currencies with
  | nil =>
      obtain ⟨word, hWord⟩ := exists_keyword .opening
      obtain ⟨l, hValue, hCut⟩ := exists_account hAccount hLine
      refine ⟨.opening word l none, ?_, ?_⟩
      · simp [LineNode.value?, hValue, CurrenciesNode.listed?]
      · rw [if_pos (by rfl), List.append_nil]
        exact hWord.append hCut.blank
  | cons first others =>
      have hBlank : Delimited (' ' :: (String.intercalate "," (first :: others)).toList ++
          '\n' :: rest) := delimited_cons _ (by decide)
      obtain ⟨word, hWord⟩ := exists_keyword .opening
      obtain ⟨l, hValue, hCut⟩ := exists_account hAccount hBlank
      obtain ⟨n, hNames, hMore⟩ := exists_currencies hCurrencies hLine
      refine ⟨.opening word l (some n), ?_, ?_⟩
      · simp [LineNode.value?, hValue, hNames, CurrenciesNode.listed?]
      · rw [if_neg (by simp)]
        exact hWord.append (hCut.append hMore.blank).blank

theorem exists_closing (hAccount : IsAccount account) :
    ∃ n : LineNode, n.value? date = some (.closing date account) ∧
      CutInline place (Keyword.closing.text.toList ++ ' ' :: account.toList) ('\n' :: rest)
        n.tokens := by
  have hLine : Delimited ('\n' :: rest) := delimited_cons rest (by decide)
  obtain ⟨word, hWord⟩ := exists_keyword .closing
  obtain ⟨l, hValue, hCut⟩ := exists_account hAccount hLine
  refine ⟨.closing word l, ?_, hWord.append hCut.blank⟩
  simp [LineNode.value?, hValue]

theorem exists_pad {source : String} (hAccount : IsAccount account) (hSource : IsAccount source) :
    ∃ n : LineNode, n.value? date = some (.pad date account source) ∧
      CutInline place (Keyword.pad.text.toList ++ ' ' :: (account.toList ++ ' ' :: source.toList))
        ('\n' :: rest) n.tokens := by
  have hLine : Delimited ('\n' :: rest) := delimited_cons rest (by decide)
  have hBlank : Delimited (' ' :: source.toList ++ '\n' :: rest) := delimited_cons _ (by decide)
  obtain ⟨word, hWord⟩ := exists_keyword .pad
  obtain ⟨l, hValue, hFirst⟩ := exists_account hAccount hBlank
  obtain ⟨m, hOther, hSecond⟩ := exists_account hSource hLine
  refine ⟨.pad word l m, ?_, hWord.append (hFirst.append hSecond.blank).blank⟩
  simp [LineNode.value?, hValue, hOther]

theorem exists_check {amount : Amount} (hAccount : IsAccount account)
    (hAmount : amount.IsWellFormed) :
    ∃ n : LineNode, n.value? date = some (.balance date account amount) ∧
      CutInline place (Keyword.check.text.toList ++ ' ' :: (account.toList ++
        ' ' :: amount.toText.toList)) ('\n' :: rest) n.tokens := by
  have hLine : Delimited ('\n' :: rest) := delimited_cons rest (by decide)
  have hBlank : Delimited (' ' :: amount.toText.toList ++ '\n' :: rest) :=
    delimited_cons _ (by decide)
  obtain ⟨word, hWord⟩ := exists_keyword .check
  obtain ⟨l, hValue, hFirst⟩ := exists_account hAccount hBlank
  obtain ⟨n, hNumber, hSecond⟩ := exists_amount hAmount hLine
  refine ⟨.check word l n, ?_, hWord.append (hFirst.append hSecond.blank).blank⟩
  simp [LineNode.value?, hValue, hNumber]

theorem exists_priceLine {currency : String} {amount : Amount} (hCurrency : IsCurrency currency)
    (hAmount : amount.IsWellFormed) :
    ∃ n : LineNode, n.value? date = some (.price date currency amount) ∧
      CutInline place (Keyword.price.text.toList ++ ' ' :: (currency.toList ++
        ' ' :: amount.toText.toList)) ('\n' :: rest) n.tokens := by
  have hLine : Delimited ('\n' :: rest) := delimited_cons rest (by decide)
  have hBlank : Delimited (' ' :: amount.toText.toList ++ '\n' :: rest) :=
    delimited_cons _ (by decide)
  obtain ⟨word, hWord⟩ := exists_keyword .price
  obtain ⟨l, hValue, hFirst⟩ := exists_currency hCurrency hBlank
  obtain ⟨n, hNumber, hSecond⟩ := exists_amount hAmount hLine
  refine ⟨.price word l n, ?_, hWord.append (hFirst.append hSecond.blank).blank⟩
  simp [LineNode.value?, hValue, hNumber]

theorem exists_event (topic description : String) :
    ∃ n : LineNode, n.value? date = some (.event date topic description) ∧
      CutInline place (Keyword.event.text.toList ++ ' ' :: ((Quoted.literal topic).toList ++
        ' ' :: (Quoted.literal description).toList)) rest n.tokens := by
  obtain ⟨word, hWord⟩ := exists_keyword .event
  obtain ⟨l, hTopic, hFirst⟩ := exists_string topic
  obtain ⟨m, hDescription, hSecond⟩ := exists_string description
  refine ⟨.event word l m, ?_, hWord.append (hFirst.append hSecond.blank).blank⟩
  simp [LineNode.value?, hTopic, hDescription]

theorem exists_note (hAccount : IsAccount account) (comment : String) :
    ∃ n : LineNode, n.value? date = some (.note date account comment) ∧
      CutInline place (Keyword.note.text.toList ++ ' ' :: (account.toList ++
        ' ' :: (Quoted.literal comment).toList)) rest n.tokens := by
  have hBlank : Delimited (' ' :: (Quoted.literal comment).toList ++ rest) :=
    delimited_cons _ (by decide)
  obtain ⟨word, hWord⟩ := exists_keyword .note
  obtain ⟨l, hValue, hFirst⟩ := exists_account hAccount hBlank
  obtain ⟨m, hComment, hSecond⟩ := exists_string comment
  refine ⟨.note word l m, ?_, hWord.append (hFirst.append hSecond.blank).blank⟩
  simp [LineNode.value?, hValue, hComment]

theorem exists_document (hAccount : IsAccount account) (path : String) :
    ∃ n : LineNode, n.value? date = some (.document date account path) ∧
      CutInline place (Keyword.document.text.toList ++ ' ' :: (account.toList ++
        ' ' :: (Quoted.literal path).toList)) rest n.tokens := by
  have hBlank : Delimited (' ' :: (Quoted.literal path).toList ++ rest) :=
    delimited_cons _ (by decide)
  obtain ⟨word, hWord⟩ := exists_keyword .document
  obtain ⟨l, hValue, hFirst⟩ := exists_account hAccount hBlank
  obtain ⟨m, hPath, hSecond⟩ := exists_string path
  refine ⟨.document word l m, ?_, hWord.append (hFirst.append hSecond.blank).blank⟩
  simp [LineNode.value?, hValue, hPath]

end

/-! ## Statements -/

/-- A date at the start of a line. -/
theorem exists_leadingDate {d : Date} (h : d.HasPlainYear) :
    ∃ l : Leaf .date, l.day? = some d ∧ Cut true false place d.toText.toList rest [l.token] := by
  obtain ⟨c, digits, hYear⟩ := List.exists_cons_of_ne_nil (Digits.padded_ne_nil 4 d.year.natAbs)
  have hDigit : c.isDigit = true := Digits.isDigit_of_mem_padded (hYear ▸ List.mem_cons_self)
  have hBlank : isBlank c = false := by
    rw [isBlank, Bool.or_eq_false_iff, beq_eq_false_iff_ne, beq_eq_false_iff_ne]
    exact ⟨ne_of_class hDigit (by decide), ne_of_class hDigit (by decide)⟩
  have hStar : c ≠ '*' := ne_of_class hDigit (by decide)
  obtain ⟨l, hDay, hCut⟩ := exists_date h
  refine ⟨l, hDay, ?_⟩
  rw [Date.toList_toText h, hYear] at *
  exact hCut.lineStart hBlank hStar

/-- A date, and what is written behind it up to the next line. -/
theorem exists_entry {d : Date} {text : List Char} {c : Content} (hDate : d.HasPlainYear)
    (hText : ∀ place : Place, ∃ n : DatedNode, n.value? d = some c ∧
      (∀ more, BeginsAnew more → n.Greedy more) ∧ Cut false true place text rest n.tokens) :
    ∃ n : StatementNode, n.value? = some c ∧ (∀ more, BeginsAnew more → n.Greedy more) ∧
      Cut true true place (d.toText.toList ++ ' ' :: text) rest n.tokens := by
  obtain ⟨l, hDay, hFirst⟩ := exists_leadingDate hDate
  obtain ⟨n, hValue, hGreedy, hMore⟩ := hText _
  refine ⟨.entry l n, ?_, hGreedy, hFirst.append hMore.blank⟩
  simp [StatementNode.value?, hDay, hValue]

/-- A date, what stands behind it on one line, and the line break. -/
theorem exists_dated {d : Date} {text whole : List Char} {c : Content} (hDate : d.HasPlainYear)
    (hText : ∀ place : Place, ∃ n : LineNode, n.value? d = some c ∧
      CutInline place text ('\n' :: rest) n.tokens)
    (hWhole : whole = d.toText.toList ++ ' ' :: (text ++ ['\n'])) :
    ∃ n : StatementNode, n.value? = some c ∧ (∀ more, BeginsAnew more → n.Greedy more) ∧
      Cut true true place whole rest n.tokens := by
  rw [hWhole]
  refine exists_entry hDate fun place => ?_
  obtain ⟨n, hValue, hCut⟩ := hText place
  obtain ⟨lineEnd, hLineEnd⟩ := exists_lineEnd
  refine ⟨.line n (.plain lineEnd), hValue, ?_, hCut.append hLineEnd⟩
  intro more hMore hOpen
  exact absurd hOpen (by simp [LineEndNode.closesLine])

theorem exists_leadingOption :
    ∃ l : Leaf (.keyword .option),
      Cut true false place Keyword.option.text.toList rest [l.token] := by
  obtain ⟨l, hCut⟩ := exists_keyword .option
  have hText : Keyword.option.text.toList = 'o' :: ['p', 't', 'i', 'o', 'n'] := by
    simp [Keyword.text]
  refine ⟨l, ?_⟩
  rw [hText] at *
  exact hCut.lineStart (by decide) (by decide)

theorem exists_option (key value : String) :
    ∃ n : StatementNode, n.value? = some (.option key value) ∧
      (∀ more, BeginsAnew more → n.Greedy more) ∧
      Cut true true place (Keyword.option.text.toList ++ (' ' :: ((Quoted.literal key).toList ++
        ' ' :: (Quoted.literal value).toList) ++ ['\n'])) rest n.tokens := by
  obtain ⟨word, hWord⟩ := exists_leadingOption
  obtain ⟨l, hKey, hFirst⟩ := exists_string key
  obtain ⟨m, hValue, hSecond⟩ := exists_string value
  obtain ⟨lineEnd, hLineEnd⟩ := exists_lineEnd
  refine ⟨.option word l m (.plain lineEnd), ?_, ?_,
    hWord.append ((hFirst.append hSecond.blank).blank.append hLineEnd)⟩
  · simp [StatementNode.value?, hKey, hValue]
  · intro more hMore hOpen
    exact absurd hOpen (by simp [LineEndNode.closesLine])

/-- What is written of a statement is read as a tree that says the same. -/
theorem exists_statement {c : Content} (hLayout : layout.IsWellFormed) (h : c.IsWellFormed) :
    ∃ n : StatementNode, n.value? = some c ∧ (∀ more, BeginsAnew more → n.Greedy more) ∧
      Cut true true place (c.written layout).toList rest n.tokens := by
  cases c with
  | transaction t =>
      have hTransaction (place : Place) : ∃ n : DatedNode, n.value? t.date = some (.transaction t) ∧
          (∀ more, BeginsAnew more → n.Greedy more) ∧
          Cut false true place (transactionText layout t) rest n.tokens := by
        obtain ⟨n, hValue, hGreedy, hCut⟩ := exists_transaction hLayout h
        refine ⟨.transaction n, ?_, hGreedy, hCut⟩
        rw [DatedNode.value?, hValue, Option.map_some]
      have hText : ((Content.transaction t).written layout).toList = _ :=
        toList_writtenTransaction layout t
      rw [hText]
      exact exists_entry h.date hTransaction
  | opening date account currencies =>
      refine exists_dated h.1 (fun _ => exists_opening h.2.1 h.2.2) ?_
      cases currencies with
      | nil => simp [Content.written, Keyword.text]
      | cons first others => simp [Content.written, Keyword.text]
  | closing date account =>
      refine exists_dated h.1 (fun _ => exists_closing h.2) ?_
      simp [Content.written, Keyword.text]
  | pad date account source =>
      refine exists_dated h.1 (fun _ => exists_pad h.2.1 h.2.2) ?_
      simp [Content.written, Keyword.text]
  | balance date account amount =>
      refine exists_dated h.1 (fun _ => exists_check h.2.1 h.2.2) ?_
      simp [Content.written, Keyword.text]
  | price date currency amount =>
      refine exists_dated h.1 (fun _ => exists_priceLine h.2.1 h.2.2) ?_
      simp [Content.written, Keyword.text]
  | event date topic description =>
      refine exists_dated h (fun _ => exists_event topic description) ?_
      simp [Content.written, Keyword.text]
  | note date account comment =>
      refine exists_dated h.1 (fun _ => exists_note h.2 comment) ?_
      simp [Content.written, Keyword.text]
  | document date account path =>
      refine exists_dated h.1 (fun _ => exists_document h.2 path) ?_
      simp [Content.written, Keyword.text]
  | option key value =>
      have hText : ((Content.option key value).written layout).toList =
          Keyword.option.text.toList ++ (' ' :: ((Quoted.literal key).toList ++
            ' ' :: (Quoted.literal value).toList) ++ ['\n']) := by
        simp [Content.written, Keyword.text]
      rw [hText]
      exact exists_option key value

end

end LedgerText.Token
