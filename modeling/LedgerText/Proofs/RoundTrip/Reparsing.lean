import LedgerText.Proofs.Grammar.Declarations
import LedgerText.Proofs.Parse.Ledger
import LedgerText.Proofs.RoundTrip.Entries

/-!
# Parsing what was written

Write a list of directives and parse the text: nothing is reported, and the same
directives come back in the same order, with other locations.

One written statement is a tree (`exists_statement`), which a parse reads with
nothing left over, as the text behind it begins with another statement or is at
its end (`statement_written`). All of them follow by induction on the list
(`statements_written`). Nothing of the text but the places of its tokens depends
on what comes before it, and the places only show in locations.
-/

namespace LedgerText

open Grammar Token

/-- The directive, as if it was not read from a text. -/
def Directive.unplaced (d : Directive) : Directive := { d with location := .unknown }

theorem Directive.unplaced_eq {d e : Directive} (h : d.content = e.content) :
    d.unplaced = e.unplaced := by
  rw [unplaced, unplaced, h]

/-- Where no tag is active, a statement stays as it is. -/
theorem Content.addTags_empty (c : Content) : c.addTags .empty = c := by
  cases c with
  | transaction t =>
      have hActive : TagContext.empty.active = [] := rfl
      rw [addTags, hActive, Transaction.addTags, List.filter_nil, List.append_nil]
  | _ => rfl

namespace Parse

variable {options : Options} {layout : Layout} {directives : List Directive} {place : Place}

/-- Written directives begin with the start of a statement, or there are none. -/
theorem beginsAnew_written (hLayout : layout.IsWellFormed)
    (h : ∀ d ∈ directives, d.IsWellFormed) :
    BeginsAnew (tokensFrom true place (Directive.writtenAll layout directives).toList) := by
  cases directives with
  | nil =>
      have hText : (Directive.writtenAll layout []).toList = [] := by
        simp [Directive.writtenAll]
      have hEnd : TokenKind.endOfInput ≠ .indent ∧ TokenKind.endOfInput ≠ .comment := by decide
      rw [hText, tokensFrom_nil]
      exact hEnd
  | cons d others =>
      have hText : (Directive.writtenAll layout (d :: others)).toList =
          (d.content.written layout).toList ++ (Directive.writtenAll layout others).toList := by
        simp [Directive.writtenAll, Directive.written]
      obtain ⟨n, -, -, hCut⟩ := exists_statement hLayout (h d (by simp))
      rw [hText, hCut]
      show n.head.kind ≠ .indent ∧ n.head.kind ≠ .comment
      cases n with
      | entry date dated =>
          show date.token.kind ≠ .indent ∧ date.token.kind ≠ .comment
          rw [date.kind_eq]
          exact ⟨by decide, by decide⟩
      | option word key value lineEnd =>
          show word.token.kind ≠ .indent ∧ word.token.kind ≠ .comment
          rw [word.kind_eq]
          exact ⟨by decide, by decide⟩

/-- What becomes of a parse that reads some directives and nothing else. -/
structure State.Gains (s t : State Unit) (directives : List Directive) : Prop where
  directives : t.directives.map (fun x => x.value.unplaced) =
    s.directives.map (fun x => x.value.unplaced) ++ directives.map Directive.unplaced
  errors : t.errors = s.errors
  tags : t.tags = s.tags
  depth : t.depth = s.depth

theorem State.Gains.none (s : State Unit) : s.Gains s [] :=
  ⟨(List.append_nil _).symm, rfl, rfl, rfl⟩

theorem State.Gains.append {s t u : State Unit} {front back : List Directive}
    (hFront : s.Gains t front) (hBack : t.Gains u back) : s.Gains u (front ++ back) where
  directives := by
    rw [hBack.directives, hFront.directives, List.map_append, List.append_assoc]
  errors := hBack.errors.trans hFront.errors
  tags := hBack.tags.trans hFront.tags
  depth := hBack.depth.trans hFront.depth

/-- A statement is read to its end where its tree takes all that it can of what is ahead, and adds
the directive that the tree stands for. -/
theorem statement_of_tree {n : StatementNode} {x : Spanned Directive} {s : State Unit}
    {rest : List Token} (hRoom : s.depth + 5 < options.maxDepth)
    (hInput : s.input = n.tokens ++ rest) (hGreedy : n.Greedy rest)
    (hValue : n.directive? options.filename s.tags = some x) :
    moreAhead s = true ∧ ∃ u, s.Reads n.tokens u ∧ u.input = rest ∧
      statement (.standard options) s = (.ok (), { u with directives := u.directives ++ [x] }) := by
  obtain ⟨u, hReads, hLeft⟩ := State.exists_reads hInput
  have hNext := lookahead_of_declaration (n := .statement n) hReads
  have hApply : (DeclarationNode.statement n).applyTo? options.filename u =
      some { u with directives := u.directives ++ [x] } := by
    rw [DeclarationNode.applyTo?, hReads.tags_eq, hValue, Option.map_some]
  have hStep : declaration (.standard options) s =
      (.ok (), { u with directives := u.directives ++ [x] }) :=
    (declaration_statement_eq_ok hRoom hNext).2 ⟨n, u, hReads, hLeft ▸ hGreedy, hApply⟩
  refine ⟨?_, u, hReads, hLeft, statement_of_ok hStep⟩
  rw [moreAhead_iff, ← State.lookahead_kind]
  rcases hNext with hNext | hNext
  · rw [hNext]
    decide
  · rw [hNext]
    decide

/-- A written statement is read to its end, and adds one directive that says the same. -/
theorem statement_written {d : Directive} {rest : List Char} {s : State Unit}
    (hLayout : layout.IsWellFormed) (h : d.IsWellFormed) (hRoom : s.depth + 5 < options.maxDepth)
    (hTags : s.tags = .empty)
    (hInput : s.input = tokensFrom true place ((d.written layout).toList ++ rest))
    (hRest : ∀ stop, BeginsAnew (tokensFrom true stop rest)) :
    moreAhead s = true ∧ ∃ t stop, statement (.standard options) s = (.ok (), t) ∧
      s.Gains t [d] ∧ t.input = tokensFrom true stop rest := by
  obtain ⟨n, hValue, hGreedy, hCut⟩ := exists_statement hLayout h
  let x : Spanned Directive := ⟨⟨d.content, ⟨options.filename, n.head.span.start.line⟩⟩,
    n.head.span.upTo n.last.span⟩
  have hDirective : n.directive? options.filename s.tags = some x := by
    rw [StatementNode.directive?, hValue, hTags, Option.map_some, Content.addTags_empty]
  obtain ⟨hMore, u, hReads, hLeft, hStep⟩ :=
    statement_of_tree hRoom (hInput.trans hCut) (hGreedy _ (hRest _)) hDirective
  have hSame : x.value.unplaced = d.unplaced := Directive.unplaced_eq rfl
  refine ⟨hMore, _, _, hStep, ⟨?_, ?_, ?_, ?_⟩, hLeft⟩
  · rw [hReads.state_eq]
    simp [hSame]
  · rw [hReads.state_eq]
  · exact hReads.tags_eq
  · exact hReads.depth_eq

/-- Written directives are read one by one. The induction is on the list; what carries it is that
no tag becomes active and the depth stays what it is. -/
theorem statements_written {s : State Unit} (hLayout : layout.IsWellFormed)
    (h : ∀ d ∈ directives, d.IsWellFormed) (hRoom : s.depth + 5 < options.maxDepth)
    (hTags : s.tags = .empty)
    (hInput : s.input = tokensFrom true place (Directive.writtenAll layout directives).toList) :
    ∃ t, statements (.standard options) s = (.ok (), t) ∧ s.Gains t directives := by
  induction directives generalizing s place with
  | nil =>
      have hText : (Directive.writtenAll layout []).toList = [] := by
        simp [Directive.writtenAll]
      have hEnd : moreAhead s = false := by
        rw [← Bool.not_eq_true, moreAhead_iff, hInput, hText, tokensFrom_nil]
        exact fun hMore => hMore rfl
      exact ⟨s, statements_of_false hEnd, .none s⟩
  | cons d others ih =>
      have hOthers : ∀ e ∈ others, e.IsWellFormed := fun e he => h e (by simp [he])
      have hText : (Directive.writtenAll layout (d :: others)).toList =
          (d.written layout).toList ++ (Directive.writtenAll layout others).toList := by
        simp [Directive.writtenAll]
      rw [hText] at hInput
      obtain ⟨hMore, t, stop, hStep, hFirst, hLeft⟩ :=
        statement_written hLayout (h d (by simp)) hRoom hTags hInput
          fun _ => beginsAnew_written hLayout hOthers
      obtain ⟨u, hRun, hGains⟩ := ih hOthers (hFirst.depth ▸ hRoom)
        (hFirst.tags.trans hTags) hLeft
      refine ⟨u, ?_, hFirst.append hGains⟩
      rw [statements_of_ok hMore hStep, hRun]

/-- Parsing undoes writing: no error is reported, the end of the text is reached, and the
directives are those that were written, in their order, apart from their locations. -/
theorem text_writtenAll (layout : Layout) (directives : List Directive)
    (hLayout : layout.IsWellFormed) (h : ∀ d ∈ directives, d.IsWellFormed) :
    (text (Directive.writtenAll layout directives) {}).errors = [] ∧
      (text (Directive.writtenAll layout directives) {}).phase = .accepted ∧
      (text (Directive.writtenAll layout directives) {}).directives.map
        (fun x => x.value.unplaced) = directives.map Directive.unplaced := by
  have hRoom : 1 + 5 < (10000 : Nat) := by decide
  have hRun : ∃ t, statements (.standard {}) (.begin () .empty
      (Token.tokens (Directive.writtenAll layout directives))) = (.ok (), t) ∧
      State.Gains (.begin () .empty
        (Token.tokens (Directive.writtenAll layout directives))) t directives :=
    statements_written hLayout h hRoom rfl rfl
  obtain ⟨t, hStatements, hGains⟩ := hRun
  have hText : text (Directive.writtenAll layout directives) {} =
      { t with depth := t.depth - 1, phase := .accepted } := run_of_ok (by decide) hStatements
  rw [hText]
  exact ⟨hGains.errors, rfl, hGains.directives⟩

/-- A purchase with all that a transaction can have, and names that need quoting. -/
def purchase : Transaction where
  date := ⟨2024, 2, 29, by decide⟩
  flag := 'P'
  payee := some "The \"Exchange\""
  narration := "Shares,\nat last"
  tags := ["broker/2024"]
  links := ["inv-1", "inv-2"]
  postings :=
    [{ flag := some '!'
       account := "Assets:Shares-1"
       position := some ⟨⟨⟨false, 150, 2, by decide, by decide, by decide⟩, "HOOL"⟩,
         some ⟨⟨⟨false, 5, 0, by decide, by decide, by decide⟩, "US.D"⟩,
           some ⟨1, 12, 31, by decide⟩⟩⟩
       price := some ⟨⟨true, 5, 3, by decide, by decide, by decide⟩, "EUR"⟩
       priceIsTotal := true },
     .auto "Equity:Opening"]

theorem purchase_wellFormed : purchase.IsWellFormed where
  date := by decide
  flag := by decide
  tags := by decide
  links := by decide
  postings := by
    have hShares : IsAccount "Assets:Shares-1" := ⟨"Assets", by decide,
      [('S', ['h', 'a', 'r', 'e', 's', '-', '1'])], by decide, by decide, by decide⟩
    have hOpening : IsAccount "Equity:Opening" := ⟨"Equity", by decide,
      [('O', ['p', 'e', 'n', 'i', 'n', 'g'])], by decide, by decide, by decide⟩
    have hUnits : IsCurrency "HOOL" :=
      ⟨'H', ['O', 'O', 'L'], by decide, by decide, by decide, by decide⟩
    have hCost : IsCurrency "US.D" :=
      ⟨'U', ['S', '.', 'D'], by decide, by decide, by decide, by decide⟩
    have hPrice : IsCurrency "EUR" :=
      ⟨'E', ['U', 'R'], by decide, by decide, by decide, by decide⟩
    simp only [purchase, List.forall_mem_cons]
    refine ⟨⟨?_, hShares, ?_, ?_, fun _ => rfl, ?_⟩, ⟨?_, hOpening, ?_, ?_, ?_, fun _ => rfl⟩,
      List.forall_mem_nil _⟩
    · intro flag hFlag
      cases hFlag
      decide
    · intro position hPosition
      cases hPosition
      refine ⟨hUnits, ?_⟩
      intro cost hLot
      cases hLot
      refine ⟨hCost, ?_⟩
      intro date hDate
      cases hDate
      decide
    · intro price hSome
      cases hSome
      exact hPrice
    · intro hNone
      cases hNone
    · intro flag hFlag
      cases hFlag
    · intro position hPosition
      cases hPosition
    · intro price hSome
      cases hSome
    · intro hSome
      cases hSome

theorem text_writtenAll_purchase :
    (text (Directive.writtenAll {} [.ofContent (.transaction purchase),
        .ofContent (.option "title" "My \"own\" books")]) {}).errors = [] ∧
      (text (Directive.writtenAll {} [.ofContent (.transaction purchase),
        .ofContent (.option "title" "My \"own\" books")]) {}).phase = .accepted ∧
      (text (Directive.writtenAll {} [.ofContent (.transaction purchase),
        .ofContent (.option "title" "My \"own\" books")]) {}).directives.map
        (fun x => x.value.unplaced) =
        [.ofContent (.transaction purchase), .ofContent (.option "title" "My \"own\" books")] := by
  have hLayout : Layout.IsWellFormed {} := ⟨by decide, by decide⟩
  refine text_writtenAll {} _ hLayout ?_
  simp only [List.forall_mem_cons]
  exact ⟨purchase_wellFormed, trivial, List.forall_mem_nil _⟩

end Parse

end LedgerText
