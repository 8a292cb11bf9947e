import LedgerText.Proofs.Building.Following

/-!
# Productions as visits

Every production follows the visits of its parse trees, down to the statement
itself: what a production asks the builder is in post-order of the tree, and
with the tags that were active when the statement began.

The proofs have the shape of the productions. Where a production decides by the
token that comes next, its trees are told apart by what they begin with. The
trees of a list of currencies are followed in another grouping than the one in
which the list is read, with each comma in front of what it announces.
-/

namespace LedgerText.Parse

open Grammar Step Visit

variable {σ α β ι κ : Type} {setup : Setup σ} {builder : Builder σ} {s t u : State σ}

/-! ## Amounts and positions -/

theorem follows_amount (s : State σ) :
    Follows setup.builder AmountNode.visit s (amount setup s) :=
  follows_nested (fun t _ _ =>
    (follows_bind follows_number fun number _ _ _ =>
      follows_bind (follows_takeText (by decide) _) fun currency _ _ _ =>
        follows_reviewFrom t.lookahead.span (.amount ⟨number, currency⟩)).as
      (fun n => ⟨n.1, n.2.1⟩) fun _ => rfl) ⟨default, _, _, rfl⟩

theorem follows_lotDate (s : State σ) :
    Follows setup.builder (Visit.optional LotDateNode.visit) s (lotDate setup s) := by
  rw [lotDate, peek_bind]
  generalize hNext : s.lookahead.kind = kind
  split
  · exact (follows_bind (follows_skip (by decide) hNext) fun _ _ _ _ =>
      follows_bind (follows_take (by decide) _) fun token _ _ _ =>
        follows_bind (follows_day token) fun date _ _ _ => follows_pure (some date)).as
      (fun n => some ⟨n.1, n.2.1⟩) fun n => by
        simp only [Visit.optional, LotDateNode.visit, bind_assoc]
        rfl
  · exact (follows_pure none).as (fun _ => none) fun _ => rfl
  · exact follows_halt rfl ⟨some default, _, _, rfl⟩

theorem follows_lotCost (hNext : s.lookahead.kind = .mark .leftBrace) :
    Follows setup.builder LotCostNode.visit s (lotCost setup s) := by
  refine follows_nested (fun t _ hSame => ?_) ⟨default, _, _, rfl⟩
  exact (follows_bind (follows_skip (by decide) (hSame.trans hNext)) fun _ _ _ _ =>
    follows_bind (follows_amount _) fun cost _ _ _ =>
      follows_bind (follows_lotDate _) fun date _ _ _ =>
        follows_bind (follows_take (by decide) _) fun _ _ _ _ =>
          follows_reviewFrom t.lookahead.span (.lotCost ⟨cost, date⟩)).as
    (fun n => ⟨n.1, n.2.1, n.2.2.1, n.2.2.2.1⟩) fun _ => rfl

theorem follows_position (s : State σ) :
    Follows setup.builder PositionNode.visit s (position setup s) :=
  follows_nested (fun t _ _ =>
    (follows_bind (follows_amount t) fun units _ _ _ =>
      follows_bind (follows_whenNext follows_lotCost) fun cost _ _ _ =>
        follows_reviewFrom t.lookahead.span (.position ⟨units, cost⟩)).as
      (fun n => ⟨n.1, n.2.1⟩) fun _ => rfl) ⟨default, _, _, rfl⟩

/-! ## Line ends -/

theorem follows_lineEnd (also : List TokenKind) (s : State σ) :
    Follows builder (fun e : LineEndNode => readAll e.tokens) s (lineEnd also s) := by
  rw [lineEnd, peek_bind]
  generalize hNext : s.lookahead.kind = kind
  split
  · exact (follows_skip (by decide) hNext).as .plain fun _ => rfl
  · exact (follows_bind (follows_skip (by decide) hNext) fun _ _ _ _ =>
      follows_skipIf (by decide)).as (fun n => .indent n.1 n.2) fun _ => rfl
  · exact (follows_bind (follows_skip (by decide) hNext) fun _ _ _ _ =>
      follows_skipIf (by decide)).as (fun n => .comment n.1 n.2) fun _ => rfl
  · exact follows_halt rfl ⟨default, _, _, rfl⟩

/-- A line of its own for a comment. -/
theorem follows_commentLine (also : List TokenKind) (hNext : s.lookahead.kind = .comment) :
    Follows builder (fun n : Leaf .comment × Option (Leaf .lineEnd) =>
      readAll (n.1.token :: optionalToken n.2)) s (lineEnd also s) := by
  rw [lineEnd, peek_bind, hNext]
  exact (follows_bind (follows_skip (by decide) hNext) fun _ _ _ _ =>
    follows_skipIf (by decide)).as id fun _ => rfl

/-! ## Postings -/

/-- What is visited behind a position. -/
def visitPrice (position : Position) (n : Option (PriceSign × AmountNode) × LineEndNode) :
    Visit Movement := do
  let price ← Visit.optional PriceSign.visit n.1
  readAll n.2.tokens
  pure ⟨some position, price, n.1.elim false fun price => price.1.isTotal⟩

theorem follows_priceTag {kind : TokenKind} (hKind : kind ≠ .endOfInput)
    (hNext : s.lookahead.kind = kind) (position : Position) (sign : Leaf kind → PriceSign)
    (total : Bool) (hSign : ∀ l, (sign l).token = l.token ∧ (sign l).isTotal = total) :
    Follows setup.builder (visitPrice position) s (priceTag setup position total s) :=
  (follows_bind (follows_skip hKind hNext) fun _ _ _ _ =>
    follows_bind (follows_amount _) fun price _ _ _ =>
      follows_bind (follows_lineEnd [] _) fun _ _ _ _ =>
        follows_pure (Movement.mk (some position) (some price) total)).as
    (fun n => (some (sign n.1, n.2.1), n.2.2.1)) fun n => by
      simp only [visitPrice, Visit.optional, PriceSign.visit, bind_assoc, pure_bind, hSign,
        Option.elim]
      rfl

/-- Visits what a posting line says behind the account, and the end of the line. -/
def visitMovement (n : Option MovementNode × LineEndNode) : Visit Movement := do
  let moved ← MovementNode.visit n.1
  readAll n.2.tokens
  pure moved

theorem follows_movement (s : State σ) :
    Follows setup.builder visitMovement s (movement setup s) := by
  rw [movement, peek_bind]
  generalize s.lookahead.kind = kind
  split
  · refine (follows_bind (g := visitPrice) (follows_position s) fun position t _ _ => ?_).as
      (fun n => (some ⟨n.1, n.2.1⟩, n.2.2)) fun n => by
        simp only [visitMovement, MovementNode.visit, visitPrice, bind_assoc, pure_bind]
        rfl
    rw [peek_bind]
    generalize hNext : t.lookahead.kind = kind
    split
    · exact follows_priceTag (by decide) hNext position .each false fun _ => ⟨rfl, rfl⟩
    · exact follows_priceTag (by decide) hNext position .total true fun _ => ⟨rfl, rfl⟩
    · exact (follows_bind (follows_lineEnd _ t) fun _ _ _ _ => follows_pure _).as
        (fun n => (none, n.1)) fun _ => rfl
  · exact (follows_bind (follows_lineEnd _ s) fun _ _ _ _ => follows_pure _).as
      (fun n => (none, n.1)) fun _ => rfl

theorem follows_flagSign (hNext : s.lookahead.kind = .flag) :
    Follows builder (fun l : Leaf .flag => l.visit Leaf.char?) s (flag s) := by
  refine follows_advance_bind (by decide) hNext fun l t => ?_
  unfold Leaf.char?
  rw [l.kind_eq]
  cases l.token.value with
  | char c => exact follows_pure c
  | _ => exact follows_missing l.token

theorem follows_flag (hNext : s.lookahead.kind = .keyword .txn ∨ s.lookahead.kind = .flag) :
    Follows builder FlagNode.visit s (flag s) := by
  rcases hNext with hTxn | hFlag
  · refine (follows_advance_bind (by decide) hTxn fun l t => ?_).as .txn fun _ => rfl
    rw [l.kind_eq]
    exact follows_pure '*'
  · exact (follows_flagSign hFlag).as .flag fun _ => rfl

theorem follows_posting (hNext : s.lookahead.kind = .indent) :
    Follows setup.builder PostingNode.visit s (posting setup s) := by
  refine follows_nested (fun t _ hSame => ?_) ⟨default, _, _, rfl⟩
  rw [here_bind]
  refine (follows_bind (follows_skip (by decide) (hSame.trans hNext)) fun _ _ _ _ =>
    follows_bind (follows_whenNext follows_flagSign) fun flag _ _ _ =>
      follows_bind (follows_takeText (show TokenKind.account ≠ .endOfInput by decide) _)
          fun account _ _ _ =>
        follows_bind (follows_movement _) fun moved _ _ _ =>
          follows_reviewFrom t.lookahead.span (.posting
            ⟨flag, account, moved.position, moved.price, moved.priceIsTotal⟩)).as
    (fun n => PostingNode.mk n.1 n.2.1 n.2.2.1 n.2.2.2.1.1 n.2.2.2.1.2) fun n => ?_
  simp only [PostingNode.visit, visitMovement, bind_assoc, pure_bind]

theorem follows_postingLine (hAhead : postingAhead s = true) :
    Follows setup.builder PostingLineNode.visit s (postingLine setup s) := by
  rw [postingLine, peek_bind]
  generalize hNext : s.lookahead.kind = kind
  split
  · exact (follows_bind (follows_posting hNext) fun posting _ _ _ =>
      follows_pure (some posting)).as (fun n => .posting n.1) fun _ => rfl
  · rename_i hOther
    have hComment : s.lookahead.kind = .comment := by
      simp only [postingAhead, decide_eq_true_eq] at hAhead
      rcases hAhead with hIndent | ⟨hComment, -⟩
      · exact absurd (hNext.symm.trans hIndent) hOther
      · exact hComment
    exact (follows_bind (follows_commentLine [] hComment) fun _ _ _ _ => follows_pure none).as
      (fun n => .comment n.1.1 n.1.2) fun _ => rfl

/-! ## Transactions -/

theorem follows_texts {kind : TokenKind} (hKind : kind ≠ .endOfInput) (s : State σ) :
    Follows builder (each fun l : Leaf kind => l.visit Leaf.text?) s (texts kind hKind s) :=
  follows_repeatWhile (fun _ _ => follows_takeText hKind _) s

/-- What is visited behind the first text of a title. -/
def visitTitle (first : String) : Option (Option (Leaf (.mark .pipe)) × Leaf .string) → Visit Title
  | none => pure ⟨none, first⟩
  | some (pipe, n) => do
      readAll (optionalToken pipe)
      let narration ← n.visit Leaf.text?
      pure ⟨some first, narration⟩

theorem follows_title (s : State σ) : Follows builder TitleNode.visit s (title s) := by
  refine (follows_bind (g := visitTitle) (follows_takeText (by decide) _)
    fun first t _ _ => ?_).as (fun n => n.2.elim (.narration n.1) fun m => .payee n.1 m.1 m.2) ?_
  · rw [peek_bind]
    generalize hNext : t.lookahead.kind = kind
    split
    · exact (follows_bind (follows_skip (by decide) hNext) fun _ _ _ _ =>
        follows_bind (follows_takeText (by decide) _) fun narration _ _ _ => follows_pure _).as
        (fun n => some (some n.1, n.2.1)) fun _ => rfl
    · exact (follows_bind (follows_takeText (by decide) _) fun narration _ _ _ =>
        follows_pure _).as (fun n => some (none, n.1)) fun _ => rfl
    · exact (follows_pure _).as (fun _ => none) fun _ => rfl
  · rintro ⟨l, _ | ⟨pipe, n⟩⟩ <;> rfl

theorem follows_postingLines (s : State σ) :
    Follows setup.builder (fun lines : List PostingLineNode =>
      each PostingLineNode.visit lines >>= fun values => pure (values.filterMap id)) s
      (postingLines setup s) :=
  (follows_bind (follows_repeatWhile (fun _ => follows_postingLine) s) fun values _ _ _ =>
    follows_pure (values.filterMap id)).as Prod.fst fun _ => rfl

/-- A statement is handed to the builder with the tags that are active. -/
theorem follows_conclude {active : TagContext} (hTags : s.tags = active) (heading : Heading)
    (content : Content) :
    Follows setup.builder (fun _ : Unit => hand (.directive active ⟨content, heading.location⟩)) s
      (conclude setup heading content s) :=
  hTags ▸ follows_reviewFrom heading.start (.directive s.tags ⟨content, heading.location⟩)

/-- The flag comes next, since the transaction begins with it. -/
theorem follows_transaction {active : TagContext} (hTags : s.tags = active)
    (hNext : s.lookahead.kind = .keyword .txn ∨ s.lookahead.kind = .flag) (heading : Heading)
    (date : Date) :
    Follows setup.builder (fun n : TransactionNode =>
      asStatement active heading.location (n.content date)) s
        (transaction setup heading date s) := by
  refine follows_nested (fun t hUnmoved hSame => ?_) ⟨default, _, _, rfl⟩
  rw [← hSame] at hNext
  exact (follows_bind (follows_flag hNext) fun flag _ _ h₁ =>
    follows_bind (follows_title _) fun title _ _ h₂ =>
      follows_bind (follows_texts _ _) fun tags _ _ h₃ =>
        follows_bind (follows_texts _ _) fun links _ _ h₄ =>
          follows_bind (follows_lineEnd _ _) fun _ _ _ h₅ =>
            follows_bind (follows_postingLines _) fun postings _ _ h₆ =>
              follows_conclude (by
                rw [h₆.tags_eq, h₅.tags_eq, h₄.tags_eq, h₃.tags_eq, h₂.tags_eq, h₁.tags_eq,
                  hUnmoved.tags_eq, hTags]) heading
                (.transaction ⟨date, flag, title.payee, title.narration, tags, links, postings⟩)).as
    (fun n => TransactionNode.mk n.1 n.2.1 n.2.2.1 n.2.2.2.1 n.2.2.2.2.1 n.2.2.2.2.2.1) fun n => by
      simp only [asStatement, TransactionNode.content, bind_assoc, pure_bind]

/-! ## Currencies -/

/-- What is visited behind a currency. -/
def visitMore (text : String) : Option (Option (Leaf (.mark .comma)) × CurrenciesNode) →
    Visit (List String)
  | none => pure [text]
  | some (comma, others) => do
      readAll (optionalToken comma)
      let texts ← others.visit
      pure (text :: texts)

/-- Behind a comma there has to be another currency; without one, there may be. The induction is on
the tokens that are left. -/
theorem follows_currencies (s : State σ) :
    Follows builder CurrenciesNode.visitListed s (currencies s) ∧
      (s.lookahead.kind = .currency → Follows builder CurrenciesNode.visit s (currencies s)) := by
  generalize hLength : s.input.length = length
  induction length using Nat.strongRecOn generalizing s with
  | _ length ih =>
      subst hLength
      have hSome (hNext : s.lookahead.kind = .currency) :
          Follows builder CurrenciesNode.visit s (currencies s) := by
        rw [currencies, repeatWhile_of_true (by simpa [comesNext] using hNext)]
        show Follows builder CurrenciesNode.visit s (((takeText .currency [.currency] >>= _) >>=
          fun text => currencies >>= fun others => pure (text :: others)) s)
        rw [bind_bind]
        refine (follows_bind (g := visitMore)
          (follows_takeText (show TokenKind.currency ≠ .endOfInput by decide) [.currency])
          fun text t hStep _ => ?_).as
          (fun n => n.2.elim (CurrenciesNode.one n.1) fun m => .more n.1 m.1 m.2) ?_
        · have hLess : t.input.length < s.input.length :=
            consumes_takeText _ _ s text t (by rw [hNext]; decide) hStep
          rw [bind_bind, peek_bind]
          generalize hComma : t.lookahead.kind = kind
          split
          · rw [bind_bind]
            refine (follows_bind (g := fun _ others => visitMore text (some (none, others)))
              (follows_skip (by decide) hComma) fun _ u hSkip _ => ?_).as
              (fun n => some (some n.1, n.2)) fun _ => rfl
            have hLater : u.input.length < s.input.length := by
              cases hSkip
              exact Nat.lt_of_le_of_lt (State.next_input_le t) hLess
            rw [bind_bind, peek_bind]
            generalize hMore : u.lookahead.kind = kind
            split
            · exact (follows_bind ((ih _ hLater u rfl).2 hMore) fun others _ _ _ =>
                follows_pure (text :: others)).as Prod.fst fun _ => rfl
            · exact follows_halt rfl ⟨default, _, _, rfl⟩
          · exact (follows_bind (ih _ hLess t rfl).1 fun others _ _ _ =>
              follows_pure (text :: others)).as (fun n => n.1.map fun m => (none, m)) fun n => by
                rcases n with ⟨_ | m, _⟩ <;> rfl
        · rintro ⟨l, _ | ⟨comma, others⟩⟩ <;> rfl
      refine ⟨?_, hSome⟩
      by_cases hNext : s.lookahead.kind = .currency
      · exact (hSome hNext).as some fun _ => rfl
      · rw [currencies, repeatWhile_of_false (by simpa [comesNext] using hNext)]
        exact (follows_pure []).as (fun _ => none) fun _ => rfl

/-! ## Statements -/

/-- A text, and what comes behind it. -/
theorem follows_text [Inhabited κ] {kind : TokenKind} (hKind : kind ≠ .endOfInput)
    {f : String → Step σ β} {visit : String → κ → Visit β}
    (hf : ∀ text t, s.Unmoved t → Follows builder (visit text) t (f text t)) :
    Follows builder (fun n : Leaf kind × κ =>
      n.1.visit Leaf.text? >>= fun text => visit text n.2) s ((takeText kind [kind] >>= f) s) :=
  follows_bind (follows_takeText hKind [kind]) fun text t _ h => hf text t h

/-- A word that comes next and a text, and what comes behind them. -/
theorem follows_word [Inhabited κ] {word kind : TokenKind} (hWord : word ≠ .endOfInput)
    (hNext : s.lookahead.kind = word) (hKind : kind ≠ .endOfInput) {f : String → Step σ β}
    {visit : String → κ → Visit β}
    (hf : ∀ text t, s.Unmoved t → Follows builder (visit text) t (f text t)) :
    Follows builder (fun n : Leaf word × Leaf kind × κ =>
      n.1.pass >>= fun _ => n.2.1.visit Leaf.text? >>= fun text => visit text n.2.2) s
      ((skip >>= fun _ => takeText kind [kind] >>= f) s) :=
  follows_bind (follows_skip hWord hNext) fun _ _ _ h =>
    follows_text hKind fun text u k => hf text u (h.trans k)

section

variable {active : TagContext} {heading : Heading} {date : Date}

/-- The end of a line, and the statement that it completes. -/
theorem follows_finish (hTags : s.tags = active) (also : List TokenKind) (content : Content) :
    Follows setup.builder (fun n : LineEndNode × Unit => readAll n.1.tokens >>= fun _ =>
        hand (.directive active ⟨content, heading.location⟩)) s
      ((lineEnd also >>= fun _ => conclude setup heading content) s) :=
  follows_bind (follows_lineEnd also s) fun _ _ _ h =>
    follows_conclude (h.tags_eq.trans hTags) heading content

section Lines

variable {word first second : TokenKind} (hTags : s.tags = active) (hWord : word ≠ .endOfInput)
  (hNext : s.lookahead.kind = word) (hFirst : first ≠ .endOfInput)
include hTags hWord hNext hFirst

/-- A line with a word and two texts. -/
theorem follows_texts_line (hSecond : second ≠ .endOfInput)
    (line : Leaf word → Leaf first → Leaf second → LineNode) (content : String → String → Content)
    (hLine : ∀ w x y, (line w x y).content date = w.pass >>= fun _ => x.visit Leaf.text? >>=
      fun text => y.visit Leaf.text? >>= fun other => pure (content text other)) :
    Follows setup.builder
      (fun n : DatedNode => asStatement active heading.location (n.content date)) s
      ((skip >>= fun _ => takeText first [first] >>= fun text => takeText second [second] >>=
        fun other => lineEnd [] >>= fun _ => conclude setup heading (content text other)) s) := by
  refine (follows_word hWord hNext hFirst fun text t h => follows_text hSecond
    fun other u k => follows_finish (k.tags_eq.trans (h.tags_eq.trans hTags)) []
      (content text other)).as
    (fun n => .line (line n.1 n.2.1 n.2.2.1) n.2.2.2.1) fun n => ?_
  simp only [asStatement, DatedNode.content, hLine, bind_assoc, pure_bind]

/-- A line with a word, a text and an amount. -/
theorem follows_amount_line (line : Leaf word → Leaf first → AmountNode → LineNode)
    (content : String → Amount → Content)
    (hLine : ∀ w x a, (line w x a).content date = w.pass >>= fun _ => x.visit Leaf.text? >>=
      fun text => a.visit >>= fun amount => pure (content text amount)) :
    Follows setup.builder
      (fun n : DatedNode => asStatement active heading.location (n.content date)) s
      ((skip >>= fun _ => takeText first [first] >>= fun text => amount setup >>=
        fun amount => lineEnd [] >>= fun _ => conclude setup heading (content text amount)) s) := by
  refine (follows_word hWord hNext hFirst fun text t h => follows_bind (follows_amount t)
    fun amount u _ k => follows_finish (k.tags_eq.trans (h.tags_eq.trans hTags)) []
      (content text amount)).as
    (fun n => .line (line n.1 n.2.1 n.2.2.1) n.2.2.2.1) fun n => ?_
  simp only [asStatement, DatedNode.content, hLine, bind_assoc, pure_bind]

end Lines

/-- What stands behind the date of a statement. -/
theorem follows_dated (hTags : s.tags = active) :
    Follows setup.builder (fun n : DatedNode =>
      asStatement active heading.location (n.content date)) s (dated setup heading date s) := by
  have hAccount : TokenKind.account ≠ .endOfInput := by decide
  have hString : TokenKind.string ≠ .endOfInput := by decide
  rw [dated, peek_bind]
  generalize hNext : s.lookahead.kind = kind
  split
  · exact (follows_transaction hTags (.inl hNext) heading date).as .transaction fun _ => rfl
  · exact (follows_transaction hTags (.inr hNext) heading date).as .transaction fun _ => rfl
  · refine (follows_word (by decide) hNext hAccount fun account t h =>
      follows_bind (follows_currencies t).1 fun currencies _ _ k => follows_finish
        (k.tags_eq.trans (h.tags_eq.trans hTags)) _ (.opening date account currencies)).as
      (fun n => .line (.opening n.1 n.2.1 n.2.2.1) n.2.2.2.1) fun n => ?_
    simp only [asStatement, DatedNode.content, LineNode.content, bind_assoc, pure_bind]
  · refine (follows_word (by decide) hNext hAccount fun account t h =>
      follows_finish (h.tags_eq.trans hTags) _ (.closing date account)).as
      (fun n => .line (.closing n.1 n.2.1) n.2.2.1) fun n => ?_
    simp only [asStatement, DatedNode.content, LineNode.content, bind_assoc, pure_bind]
  · exact follows_texts_line hTags (by decide) hNext hAccount hAccount .pad _ fun _ _ _ => rfl
  · exact follows_amount_line hTags (by decide) hNext hAccount .check _ fun _ _ _ => rfl
  · exact follows_amount_line hTags (by decide) hNext (by decide) .price _ fun _ _ _ => rfl
  · exact follows_texts_line hTags (by decide) hNext hString hString .event _ fun _ _ _ => rfl
  · exact follows_texts_line hTags (by decide) hNext hAccount hString .note _ fun _ _ _ => rfl
  · exact follows_texts_line hTags (by decide) hNext hAccount hString .document _ fun _ _ _ => rfl
  · exact follows_halt rfl ⟨default, _, _, rfl⟩

end

/-- The span of a statement is noted, which reads nothing. -/
theorem follows_spanFrom (start : Span) :
    Follows builder (fun span : Span => pure span) s (spanFrom start s) :=
  ⟨start.upTo s.lastSpan, [], [], .refl s, .done _ s.builder⟩

/-- The visit of a statement, whatever its span is. -/
def visitSpanned (filename : String) (active : TagContext) (n : StatementNode × Span) :
    Visit (Spanned Directive) := do
  pure ⟨← n.1.visit filename active, n.2⟩

theorem follows_entry (hNext : s.lookahead.kind = .date) :
    Follows setup.builder (visitSpanned setup.options.filename s.tags) s (entry setup s) := by
  refine follows_nested (fun t hUnmoved hSame => ?_) ⟨default, _, _, rfl⟩
  refine (follows_bind (follows_advance (by decide) (hSame.trans hNext)) fun token _ _ h =>
    follows_bind (follows_day token) fun date _ _ k =>
      follows_bind (follows_dated (k.tags_eq.trans (h.tags_eq.trans hUnmoved.tags_eq)))
          fun directive _ _ _ =>
        follows_bind (follows_spanFrom token.span) fun span _ _ _ =>
          follows_pure (Spanned.mk directive span)).as
    (fun n => (.entry n.1 n.2.2.1, n.2.2.2.1)) fun n => ?_
  simp only [visitSpanned, StatementNode.visit, asStatement, StatementNode.content, bind_assoc]
  rfl

theorem follows_option (hNext : s.lookahead.kind = .keyword .option) :
    Follows setup.builder (visitSpanned setup.options.filename s.tags) s (option setup s) := by
  have hString : TokenKind.string ≠ .endOfInput := by decide
  refine follows_nested (fun t hUnmoved hSame => ?_) ⟨default, _, _, rfl⟩
  refine (follows_bind (follows_advance (by decide) (hSame.trans hNext)) fun token _ _ h₁ =>
    follows_text hString fun key _ h₂ => follows_text hString fun value _ h₃ =>
      follows_bind (follows_lineEnd [] _) fun _ _ _ h₄ =>
        follows_bind (follows_conclude (by
          rw [h₄.tags_eq, h₃.tags_eq, h₂.tags_eq, h₁.tags_eq, hUnmoved.tags_eq])
            (headingAt setup token) (.option key value)) fun directive _ _ _ =>
          follows_bind (follows_spanFrom token.span) fun span _ _ _ =>
            follows_pure (Spanned.mk directive span)).as
    (fun n => (.option n.1 n.2.1 n.2.2.1 n.2.2.2.1, n.2.2.2.2.2.1)) fun n => ?_
  simp only [visitSpanned, StatementNode.visit, asStatement, StatementNode.content, bind_assoc]
  rfl

end LedgerText.Parse
