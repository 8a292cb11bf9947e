import LedgerText.Proofs.RoundTrip.Cutting

/-!
# The trees of written phrases

What is written of an amount, a position, a price, a title or a list of names is
cut into the tokens of a tree, and the value of the tree is what was written.
Every statement holds at any place and in front of any text that begins with a
delimiter, so that longer phrases are put together from shorter ones.
-/

namespace LedgerText.Token

open Grammar Lexeme

section

variable {place : Place} {rest : List Char}

/-! ## Amounts and positions -/

theorem exists_amount {a : Amount} (h : a.IsWellFormed) (hRest : Delimited rest) :
    ∃ n : AmountNode, n.value? = some a ∧ CutInline place a.toText.toList rest n.tokens := by
  have hText : a.toText.toList = a.number.toText.toList ++ ' ' :: a.currency.toList := by
    simp [Amount.toText]
  obtain ⟨l, hNumber, hFirst⟩ := exists_number a.number
  obtain ⟨m, hCurrency, hSecond⟩ := exists_currency h hRest
  refine ⟨⟨l, m⟩, ?_, ?_⟩
  · simp [AmountNode.value?, hNumber, hCurrency]
  · rw [hText]
    exact hFirst.append hSecond.blank

theorem exists_lotDate {d : Date} (h : d.HasPlainYear) :
    ∃ n : LotDateNode, n.value? = some d ∧
      CutInline place ('/' :: ' ' :: d.toText.toList) rest n.tokens := by
  obtain ⟨slash, hSlash⟩ := exists_mark .slash (by simp)
  obtain ⟨date, hDay, hDate⟩ := exists_date h
  exact ⟨⟨slash, date⟩, hDay, hSlash.append hDate.blank⟩

theorem exists_lotCost {c : LotCost} (h : c.IsWellFormed) :
    ∃ n : LotCostNode, n.value? = some c ∧ CutInline place c.toText.toList rest n.tokens := by
  cases hDate : c.date with
  | none =>
      have hText : c.toText.toList = '\x7b' :: (c.cost.toText.toList ++ ['\x7d']) := by
        simp [LotCost.toText, hDate]
      have hBrace : Delimited ('\x7d' :: rest) := delimited_cons rest (by decide)
      obtain ⟨left, hLeft⟩ := exists_mark .leftBrace (by simp)
      obtain ⟨cost, hCost, hAmount⟩ := exists_amount h.cost hBrace
      obtain ⟨right, hRight⟩ := exists_mark .rightBrace (by simp)
      have hDay : optional? LotDateNode.value? none = some c.date := by
        rw [hDate, optional?]
      refine ⟨⟨left, cost, none, right⟩, ?_, ?_⟩
      · simp [LotCostNode.value?, hCost, hDay]
      · rw [hText]
        exact hLeft.append (hAmount.append hRight)
  | some date =>
      have hText : c.toText.toList = '\x7b' :: (c.cost.toText.toList ++
          ' ' :: ('/' :: ' ' :: date.toText.toList ++ ['\x7d'])) := by
        simp [LotCost.toText, hDate]
      have hBlank : Delimited (' ' :: ('/' :: ' ' :: date.toText.toList ++ ['\x7d']) ++ rest) :=
        delimited_cons _ (by decide)
      obtain ⟨left, hLeft⟩ := exists_mark .leftBrace (by simp)
      obtain ⟨cost, hCost, hAmount⟩ := exists_amount h.cost hBlank
      obtain ⟨lotDate, hLotDay, hLotDate⟩ := exists_lotDate (h.date date hDate)
      obtain ⟨right, hRight⟩ := exists_mark .rightBrace (by simp)
      have hDay : optional? LotDateNode.value? (some lotDate) = some c.date := by
        rw [hDate, optional?, hLotDay, Option.map_some]
      refine ⟨⟨left, cost, some lotDate, right⟩, ?_, ?_⟩
      · simp [LotCostNode.value?, hCost, hDay]
      · rw [hText]
        exact hLeft.append (hAmount.append (hLotDate.append hRight).blank)

theorem exists_position {p : Position} (h : p.IsWellFormed) (hRest : Delimited rest) :
    ∃ n : PositionNode, n.value? = some p ∧ CutInline place p.toText.toList rest n.tokens := by
  cases hCost : p.cost with
  | none =>
      have hText : p.toText.toList = p.units.toText.toList := by
        simp [Position.toText, hCost]
      obtain ⟨units, hUnits, hAmount⟩ := exists_amount h.units hRest
      have hLot : optional? LotCostNode.value? none = some p.cost := by
        rw [hCost, optional?]
      refine ⟨⟨units, none⟩, ?_, ?_⟩
      · simp [PositionNode.value?, hUnits, hLot]
      · rw [hText]
        simpa [PositionNode.tokens] using hAmount
  | some cost =>
      have hText : p.toText.toList = p.units.toText.toList ++ ' ' :: cost.toText.toList := by
        simp [Position.toText, hCost]
      have hBlank : Delimited (' ' :: cost.toText.toList ++ rest) := delimited_cons _ (by decide)
      obtain ⟨units, hUnits, hAmount⟩ := exists_amount h.units hBlank
      obtain ⟨lotCost, hValue, hBraces⟩ := exists_lotCost (h.cost cost hCost)
      have hLot : optional? LotCostNode.value? (some lotCost) = some p.cost := by
        rw [hCost, optional?, hValue, Option.map_some]
      refine ⟨⟨units, some lotCost⟩, ?_, ?_⟩
      · simp [PositionNode.value?, hUnits, hLot]
      · rw [hText]
        exact hAmount.append hBraces.blank

/-! ## Prices -/

/-- What is written between a posting's units and its price. -/
theorem exists_priceSign (total : Bool) : ∃ n : PriceSign, n.isTotal = total ∧
    CutInline place (if total then ['@', '@'] else ['@']) (' ' :: rest) [n.token] := by
  cases total with
  | false =>
      have hOther : Mark.singleAt = .singleAt → (' ' :: rest).head? ≠ some '@' := by
        simp
      obtain ⟨sign, hSign⟩ := exists_mark .singleAt hOther
      exact ⟨.each sign, rfl, hSign⟩
  | true =>
      obtain ⟨sign, hSign⟩ := exists_mark .doubleAt (by simp)
      exact ⟨.total sign, rfl, hSign⟩

theorem exists_price {p : Posting} (h : p.IsWellFormed) (hRest : Delimited rest) :
    ∃ n : Option (PriceSign × AmountNode),
      optional? (fun price : PriceSign × AmountNode => price.2.value?) n = some p.price ∧
      n.elim false (fun price => price.1.isTotal) = p.priceIsTotal ∧
      CutInline place p.priceText.toList rest
        (n.elim [] fun price => price.1.token :: price.2.tokens) := by
  cases hPrice : p.price with
  | none =>
      have hText : p.priceText.toList = [] := by
        simp [Posting.priceText, hPrice]
      refine ⟨none, rfl, (h.priceIsTotal hPrice).symm, ?_⟩
      rw [hText]
      exact cut_nil
  | some price =>
      have hText : p.priceText.toList = ' ' :: ((if p.priceIsTotal then ['@', '@'] else ['@']) ++
          ' ' :: price.toText.toList) := by
        cases hTotal : p.priceIsTotal <;> simp [Posting.priceText, hPrice, hTotal]
      obtain ⟨sign, hTotal, hSign⟩ := exists_priceSign p.priceIsTotal
      obtain ⟨amount, hValue, hAmount⟩ := exists_amount (h.price price hPrice) hRest
      refine ⟨some (sign, amount), ?_, hTotal, ?_⟩
      · rw [optional?, hValue, Option.map_some]
      · rw [hText]
        exact (hSign.append hAmount.blank).blank

theorem delimited_priceText (p : Posting) (hRest : Delimited rest) :
    Delimited (p.priceText.toList ++ rest) := by
  cases hPrice : p.price with
  | none => simpa [Posting.priceText, hPrice] using hRest
  | some price =>
      have hText : ∃ tail, p.priceText.toList = ' ' :: tail := by
        cases hTotal : p.priceIsTotal <;> simp [Posting.priceText, hPrice, hTotal]
      obtain ⟨tail, hTail⟩ := hText
      rw [hTail]
      exact delimited_cons _ (by decide)

/-! ## Movements -/

/-- What is written of a posting behind its account. -/
def movementText (layout : Layout) (p : Posting) : List Char :=
  match p.position with
  | some position =>
      List.replicate (Posting.gap layout (p.accountText layout) position.units.toText) ' ' ++
        (position.toText.toList ++ p.priceText.toList)
  | none => []

theorem exists_movement {layout : Layout} {p : Posting} (h : p.IsWellFormed)
    (hRest : Delimited rest) :
    ∃ n : Option MovementNode,
      optional? (fun m : MovementNode => m.position.value?) n = some p.position ∧
      optional? (fun price : PriceSign × AmountNode => price.2.value?)
        (n.bind MovementNode.price) = some p.price ∧
      n.elim false MovementNode.isTotal = p.priceIsTotal ∧
      CutInline place (movementText layout p) rest (n.elim [] MovementNode.tokens) := by
  cases hPosition : p.position with
  | none =>
      have hPrice : p.price = none := by
        cases hSome : p.price with
        | none => rfl
        | some price => simpa [hPosition, hSome] using h.priced
      have hText : movementText layout p = [] := by
        rw [movementText, hPosition]
      refine ⟨none, rfl, ?_, (h.priceIsTotal hPrice).symm, ?_⟩
      · rw [hPrice]
        rfl
      · rw [hText]
        exact cut_nil
  | some position =>
      obtain ⟨price, hPrice, hTotal, hSign⟩ := exists_price h hRest
      obtain ⟨n, hValue, hUnits⟩ :=
        exists_position (h.position position hPosition) (delimited_priceText p hRest)
      refine ⟨some ⟨n, price⟩, ?_, hPrice, hTotal, ?_⟩
      · rw [optional?, hValue, Option.map_some]
      · rw [movementText, hPosition]
        exact (cut_blanks (by simp [isBlank])).append (hUnits.append hSign)

theorem delimited_movementText (layout : Layout) (p : Posting) (hRest : Delimited rest) :
    Delimited (movementText layout p ++ rest) := by
  unfold movementText
  split
  · next position _ =>
      have hGap : ∃ k, Posting.gap layout (p.accountText layout) position.units.toText = k + 1 := by
        refine ⟨Posting.gap layout (p.accountText layout) position.units.toText - 1, ?_⟩
        unfold Posting.gap
        omega
      obtain ⟨k, hk⟩ := hGap
      rw [hk, List.replicate_succ]
      exact delimited_cons _ (by decide)
  · exact hRest

/-! ## Titles and lists of names -/

/-- The narration of a transaction, with the payee in front if there is one. -/
def titleText (payee : Option String) (narration : String) : List Char :=
  match payee with
  | some payee =>
      ' ' :: ((Quoted.literal payee).toList ++ [' ', '|'] ++
        ' ' :: (Quoted.literal narration).toList)
  | none => ' ' :: (Quoted.literal narration).toList

theorem exists_titleText_cons (payee : Option String) (narration : String) :
    ∃ tail, titleText payee narration = ' ' :: tail := by
  cases payee <;> exact ⟨_, rfl⟩

theorem exists_title (payee : Option String) (narration : String) :
    ∃ n : TitleNode, n.value? = some (payee, narration) ∧
      CutInline place (titleText payee narration) rest n.tokens := by
  cases payee with
  | none =>
      obtain ⟨n, hNarration, hCut⟩ := exists_string narration
      refine ⟨.narration n, ?_, hCut.blank⟩
      simp [TitleNode.value?, hNarration]
  | some payee =>
      obtain ⟨l, hPayee, hFirst⟩ := exists_string payee
      obtain ⟨pipe, hPipe⟩ := exists_mark .pipe (by simp)
      obtain ⟨n, hNarration, hSecond⟩ := exists_string narration
      refine ⟨.payee l (some pipe) n, ?_, ?_⟩
      · simp [TitleNode.value?, hPayee, hNarration]
      · exact ((hFirst.append hPipe.blank).append hSecond.blank).blank

/-- Names, each behind a blank and a sign. -/
def signedText (sign : Char) (names : List String) : List Char :=
  names.flatMap fun name => ' ' :: sign :: name.toList

theorem delimited_signedText (sign : Char) (names : List String) (hRest : Delimited rest) :
    Delimited (signedText sign names ++ rest) := by
  cases names with
  | nil => exact hRest
  | cons name names => exact delimited_cons _ (by decide)

/-- A list of tags or of links, by what is known of one of them. -/
theorem exists_signed {kind : TokenKind} {sign : Char} {names : List String}
    (hLeaf : ∀ name ∈ names, ∀ (place : Place) (rest : List Char), Delimited rest →
      ∃ l : Leaf kind, l.text? = some name ∧
        CutInline place (sign :: name.toList) rest [l.token]) (hRest : Delimited rest) :
    ∃ ls : List (Leaf kind), ls.mapM Leaf.text? = some names ∧
      CutInline place (signedText sign names) rest (ls.map Leaf.token) := by
  induction names generalizing place with
  | nil => exact ⟨[], rfl, cut_nil⟩
  | cons name names ih =>
      obtain ⟨l, hName, hFirst⟩ := hLeaf name (by simp) _ _ (delimited_signedText sign names hRest)
      obtain ⟨ls, hNames, hMore⟩ := ih fun other hOther => hLeaf other (by simp [hOther])
      refine ⟨l :: ls, ?_, hFirst.blank.append hMore⟩
      simp [hName, hNames]

/-- Currencies, with a comma between each two of them. -/
theorem exists_currencies {first : String} {others : List String}
    (h : ∀ name ∈ first :: others, IsCurrency name) (hRest : Delimited rest) :
    ∃ n : CurrenciesNode, n.value? = some (first :: others) ∧
      CutInline place (String.intercalate "," (first :: others)).toList rest n.tokens := by
  induction others generalizing place first with
  | nil =>
      obtain ⟨l, hName, hCut⟩ := exists_currency (h first (by simp)) hRest
      refine ⟨.one l, ?_, ?_⟩
      · simp [CurrenciesNode.value?, hName]
      · simpa [CurrenciesNode.tokens] using hCut
  | cons second others ih =>
      have hText : (String.intercalate "," (first :: second :: others)).toList =
          first.toList ++ ',' :: (String.intercalate "," (second :: others)).toList := by
        simp
      have hComma : Delimited (',' :: (String.intercalate "," (second :: others)).toList ++ rest) :=
        delimited_cons _ (by decide)
      obtain ⟨l, hName, hFirst⟩ := exists_currency (h first (by simp)) hComma
      obtain ⟨comma, hMark⟩ := exists_mark .comma (by simp)
      have hOthers : ∀ name ∈ second :: others, IsCurrency name := fun name hMem =>
        h name (List.mem_cons_of_mem first hMem)
      obtain ⟨n, hNames, hMore⟩ := ih hOthers
      refine ⟨.more l (some comma) n, ?_, ?_⟩
      · simp [CurrenciesNode.value?, hName, hNames]
      · rw [hText]
        exact hFirst.append (hMark.append hMore)

end

end LedgerText.Token
