import LedgerText.Proofs.Lexing.Parts
import LedgerText.Proofs.Recovery.Settling
import LedgerText.Proofs.RoundTrip.Reparsing

/-!
# A directive and its text

The span of a directive covers its text, all of it and no more: read on its own,
with the same tags active, the text says the same and nothing else.

A directive stands for a parse tree. The tokens of the tree are those of the
text that the span covers (`Token.exists_part`), so the tree of that text is the
same one in another place, closed with a line end if it has none.
-/

namespace LedgerText

/-- The characters of a text that a span covers. -/
def Span.chars (s : Span) (text : List Char) : List Char :=
  text.extract (s.charRange text).start (s.charRange text).stop

section

variable (front part back : List Char)

/-- The part of a text from the place behind some characters to the place behind more. -/
theorem Span.charRange_advance :
    (Span.mk (Place.origin.advance front) (Place.origin.advance (front ++ part))).charRange
        (front ++ part ++ back) =
      ⟨front.length, front.length + part.length, Nat.le_add_right _ _⟩ := by
  have hStart : (Place.origin.advance front).offset (front ++ part ++ back) = front.length := by
    rw [List.append_assoc, Place.offset_advance]
  have hStop : (Place.origin.advance (front ++ part)).offset (front ++ part ++ back) =
      front.length + part.length := by
    rw [Place.offset_advance, List.length_append]
  have hMax : max (front.length + part.length) front.length = front.length + part.length :=
    Nat.max_eq_left (Nat.le_add_right _ _)
  simp only [charRange, hStart, hStop, hMax]

theorem Span.chars_advance :
    (Span.mk (Place.origin.advance front) (Place.origin.advance (front ++ part))).chars
      (front ++ part ++ back) = part := by
  rw [chars, charRange_advance, List.extract_eq_take_drop, List.append_assoc, List.drop_left]
  simp

end

namespace Parse

open Grammar Token

variable {options : Options} {s : State Unit}

/-- In a text, no statement ends with the blanks that a line begins with. -/
theorem last_kind_ne_indent {source : String} {front rest : List Token} {n : StatementNode}
    (hTokens : Token.tokens source = front ++ n.tokens ++ rest) : n.last.kind ≠ .indent := by
  intro hIndent
  obtain ⟨others, token, hEnd, hInline⟩ := StatementNode.exists_inline hIndent
  have hSplit : Token.tokens source = (front ++ others) ++ token :: n.last :: rest := by
    rw [hTokens, hEnd]
    simp
  rw [kind_of_indent hSplit hIndent] at hInline
  cases hInline

/-- A statement of a text that adds a directive is a part of the text, from the start of the span of
the directive to its end. On its own, the part has the tokens of the same tree, in another place and
closed. -/
theorem Adds.exists_tree {source : String} {x : Spanned Directive}
    (hWithin : s.spot.IsWithin (Token.tokens source)) (h : Adds options s x) :
    ∃ (front part back : List Char) (n : StatementNode) (y : Spanned Directive),
      source.toList = front ++ part ++ back ∧
      x.span = ⟨Place.origin.advance front, Place.origin.advance (front ++ part)⟩ ∧
      x.value.location = ⟨options.filename, x.span.start.line⟩ ∧
      Token.tokens (String.ofList part) =
        n.tokens ++ [endOfInput (.point (Place.origin.advance part))] ∧
      n.Greedy [endOfInput (.point (Place.origin.advance part))] ∧
      n.directive? (Options.filename {}) s.tags = some y ∧
      y.value.unplaced = x.value.unplaced ∧ y.span = ⟨.origin, Place.origin.advance part⟩ := by
  obtain ⟨n, u, hReads, hGreedy, hValue⟩ := h
  obtain ⟨content, hContent, rfl⟩ := Option.map_eq_some_iff.1 hValue
  obtain ⟨-, before, hTokens, -⟩ := hWithin
  change Token.tokens source = before ++ s.input at hTokens
  rw [hReads.input_eq, ← List.append_assoc] at hTokens
  obtain ⟨front, part, back, hSource, hStart, hStop, hPart⟩ :=
    exists_part hTokens n.head_kind n.kind_ne (last_kind_ne_indent hTokens)
  change n.last.span.stop = _ at hStop
  let stop : Span := .point (Place.origin.advance part)
  let lineEnd : Leaf .lineEnd := ⟨bare .lineEnd stop, rfl⟩
  let m := (n.moved (Span.since n.head.span.start)).closed lineEnd
  have hHead : m.head.span.start = .origin := by
    rw [StatementNode.head_closed, StatementNode.head_moved]
    exact Place.since_advance n.head.span.start []
  have hLast : m.last.span.stop = Place.origin.advance part := by
    rw [StatementNode.last_closed]
    split
    · rw [StatementNode.last_moved]
      show Place.since n.head.span.start n.last.span.stop = _
      rw [hStop, hStart, Place.advance_append, Place.since_advance]
    · rfl
  have hTree : m.tokens = n.tokens.map (moved (Span.since n.head.span.start)) ++
      if n.last.kind = .lineEnd then [] else [bare .lineEnd stop] := by
    rw [StatementNode.tokens_closed, StatementNode.tokens_moved, LineEndNode.missing,
      StatementNode.closesLine_moved]
    simp only [← StatementNode.last_kind]
    rfl
  have hSpan : n.head.span.upTo n.last.span =
      ⟨Place.origin.advance front, Place.origin.advance (front ++ part)⟩ := by
    rw [Span.upTo, hStart, hStop]
  have hDirective : m.directive? (Options.filename {}) s.tags =
      some ⟨⟨content.addTags s.tags, ⟨Options.filename {}, m.head.span.start.line⟩⟩,
        m.head.span.upTo m.last.span⟩ := by
    rw [StatementNode.directive?, StatementNode.value?_closed, StatementNode.value?_moved, hContent]
    rfl
  refine ⟨front, part, back, m, _, hSource, hSpan, rfl, ?_, ?_, hDirective,
    Directive.unplaced_eq rfl, ?_⟩
  · rw [hTree]
    exact hPart
  · exact StatementNode.greedy_closed lineEnd rfl (StatementNode.greedy_moved _ hGreedy)
  · show m.head.span.upTo m.last.span = _
    rw [Span.upTo, hHead, hLast]

/-- The parse of a part of a text, where some tags are active. -/
def alone (tags : TagContext) (part : List Char) : State Unit :=
  run (.standard {}) () tags (Token.tokens (String.ofList part))

/-- The text that the span of a directive covers says what the directive does, and nothing else. -/
structure Delimited (options : Options) (source : String) (tags : TagContext)
    (x : Spanned Directive) : Prop where
  location : x.value.location = ⟨options.filename, x.span.start.line⟩
  errors : (alone tags (x.span.chars source.toList)).errors = []
  accepted : (alone tags (x.span.chars source.toList)).phase = .accepted
  same : ∃ y, (alone tags (x.span.chars source.toList)).directives = [y] ∧
    y.value.unplaced = x.value.unplaced ∧
    (y.span.charRange (x.span.chars source.toList)).start = 0 ∧
    (y.span.charRange (x.span.chars source.toList)).stop = (x.span.chars source.toList).length

/-- A tree of a whole text is all that is read from it. -/
theorem alone_of_tree {tags : TagContext} {part : List Char} {n : StatementNode}
    {y : Spanned Directive} {last : Token} (hLast : last.kind = .endOfInput)
    (hTokens : Token.tokens (String.ofList part) = n.tokens ++ [last])
    (hGreedy : n.Greedy [last]) (hValue : n.directive? (Options.filename {}) tags = some y) :
    (alone tags part).errors = [] ∧ (alone tags part).phase = .accepted ∧
      (alone tags part).directives = [y] := by
  have hRoom : 1 + 5 < (10000 : Nat) := by decide
  have hBegin : (State.begin () tags (Token.tokens (String.ofList part))).input =
      n.tokens ++ [last] := hTokens
  obtain ⟨hMore, u, hReads, hLeft, hStep⟩ := statement_of_tree hRoom hBegin hGreedy hValue
  have hStop : moreAhead { u with directives := u.directives ++ [y] } = false := by
    rw [← Bool.not_eq_true, moreAhead_iff]
    show ¬ nextKind u.input ≠ .endOfInput
    rw [hLeft]
    exact fun hOther => hOther hLast
  have hStatements := statements_of_ok hMore hStep
  rw [statements_of_false hStop] at hStatements
  have hRun : alone tags part = _ := run_of_ok (by decide) hStatements
  rw [hRun, hReads.state_eq]
  exact ⟨rfl, rfl, rfl⟩

theorem Adds.delimited {source : String} {x : Spanned Directive}
    (hWithin : s.spot.IsWithin (Token.tokens source)) (h : Adds options s x) :
    Delimited options source s.tags x := by
  obtain ⟨front, part, back, n, y, hSource, hSpan, hLocation, hTokens, hGreedy, hValue, hSame,
    hWhole⟩ := h.exists_tree hWithin
  have hPart : x.span.chars source.toList = part := by
    rw [hSpan, hSource, Span.chars_advance]
  have hRange : y.span.charRange part = ⟨0, part.length, Nat.zero_le _⟩ := by
    have hAll := Span.charRange_advance [] part []
    simpa [hWhole] using hAll
  obtain ⟨hErrors, hAccepted, hDirectives⟩ := alone_of_tree rfl hTokens hGreedy hValue
  refine ⟨hLocation, ?_, ?_, y, ?_⟩
  all_goals rw [hPart]
  · exact hErrors
  · exact hAccepted
  · exact ⟨hDirectives, hSame, by rw [hRange], by rw [hRange]⟩

/-- Every directive of a text is what the characters in its span say on their own, with the tags
active that were active where it was read. -/
theorem text_delimited (source : String) (options : Options)
    {before after : List (Spanned Directive)} {x : Spanned Directive}
    (h : (text source options).directives = before ++ x :: after) :
    ∃ s t : State Unit,
      Reaches (.standard options) (.begin () .empty (Token.tokens source)) s ∧
      Advances (.standard options) s t ∧ s.directives = before ∧ t.directives = before ++ [x] ∧
      Delimited options source s.tags x := by
  have hTidy := tidy_tokens source
  have hBegin : Steady options (Token.tokens source) (.begin () .empty (Token.tokens source)) :=
    steady_begin hTidy .empty
  obtain ⟨last, hReaches, hLast⟩ := exists_last options .empty (Token.tokens source)
  have hSplit : last.directives = before ++ x :: after := hLast ▸ h
  obtain ⟨s, t, hStart, hStep, hBefore, hAdded, hAdds⟩ := exists_added hReaches rfl hSplit
  have hWithin := (steady_of_reaches hTidy hBegin hStart).within
  exact ⟨s, t, hStart, hStep, hBefore, hAdded, hAdds.delimited hWithin⟩

/-- A transaction in the middle of a line, and where no line ends. -/
def taggedTea : Spanned Directive where
  value :=
    { content := .transaction
        { date := ⟨2024, 1, 1, by decide⟩
          flag := '*'
          payee := none
          narration := "Tea"
          tags := ["trip"]
          links := []
          postings := [] }
      location := ⟨"<string>", 1⟩ }
  span := ⟨⟨1, 15⟩, ⟨1, 33⟩⟩

theorem text_delimited_taggedTea :
    (text "pushtag #trip 2024-01-01 * \"Tea\"" {}).directives = [] ++ taggedTea :: [] ∧
    ∃ s t : State Unit,
      Reaches (.standard {}) (.begin () .empty
        (Token.tokens "pushtag #trip 2024-01-01 * \"Tea\"")) s ∧
      Advances (.standard {}) s t ∧ s.directives = [] ∧ t.directives = [] ++ [taggedTea] ∧
      Delimited {} "pushtag #trip 2024-01-01 * \"Tea\"" s.tags taggedTea := by
  have hText : (text "pushtag #trip 2024-01-01 * \"Tea\"" {}).directives =
      [] ++ taggedTea :: [] := by decide +kernel
  exact ⟨hText, text_delimited _ {} hText⟩

end Parse

end LedgerText
