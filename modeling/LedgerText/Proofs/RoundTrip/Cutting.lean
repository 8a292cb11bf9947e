import LedgerText.Proofs.Grammar.Tree
import LedgerText.Proofs.RoundTrip.Scanning

/-!
# Cutting what was written into tokens

`Cut before after place text rest w` says that a text `text`, with `rest` behind
it, is cut into the tokens `w`. `before` and `after` say whether a line begins
in front of the text and behind it. Texts are put together from blanks, which
leave nothing behind (`cut_blanks`), and lexemes, which leave one token each
(`cut_lexeme`), and `Cut.append` puts the tokens together in the same way. What
a token says is what was written: there is one lemma for each kind of leaf.

The first lexeme of a line is different. It has an indent in front of it if
blanks are (`exists_indent`), and must not be a star if there are none
(`Cut.lineStart`).
-/

namespace LedgerText.Token

open Grammar Lexeme

/-! ## One lexeme -/

section

variable {place : Place} {blanks text : List Char} {c : Char}

/-- Blanks and then a lexeme, unless it begins a heading. -/
theorem tokensFrom_cons {lineStart : Bool} (hBlanks : blanks.all isBlank = true)
    (hHead : isBlank c = false) (hHeading : ¬ (lineStart = true ∧ blanks = [] ∧ c = '*')) :
    tokensFrom lineStart place (blanks ++ c :: text) =
      indent lineStart (scan (c :: text)).1 blanks ⟨place, place.advance blanks⟩ ++
        ofLexeme (scan (c :: text)).1 (c :: text.take ((scan (c :: text)).2 - 1))
          ⟨place.advance blanks, (place.advance blanks).advance
            (c :: text.take ((scan (c :: text)).2 - 1))⟩ ::
        tokensFrom ((scan (c :: text)).1 = .newline)
          ((place.advance blanks).advance (c :: text.take ((scan (c :: text)).2 - 1)))
          (text.drop ((scan (c :: text)).2 - 1)) := by
  have hTake : (blanks ++ c :: text).takeWhile isBlank = blanks := takeWhile_of_cons hBlanks hHead
  have hDrop : (blanks ++ c :: text).dropWhile isBlank = c :: text := by
    rw [List.dropWhile_append_of_pos (List.all_eq_true.1 hBlanks),
      List.dropWhile_cons_of_neg (by simp [hHead])]
  rw [tokensFrom]
  split
  · next hRest =>
      rw [hDrop] at hRest
      cases hRest
  · next hRest =>
      rw [hDrop] at hRest
      cases hRest
      rw [hTake, if_neg hHeading]

/-- Within a line, blanks are passed over. -/
theorem tokensFrom_blank (hBlank : isBlank c = true) :
    tokensFrom false place (c :: text) = tokensFrom false (place.after c) text := by
  have hTake : (c :: text).takeWhile isBlank = c :: text.takeWhile isBlank :=
    List.takeWhile_cons_of_pos hBlank
  have hDrop : (c :: text).dropWhile isBlank = text.dropWhile isBlank :=
    List.dropWhile_cons_of_pos hBlank
  conv => lhs; rw [tokensFrom]
  conv => rhs; rw [tokensFrom]
  simp only [Bool.false_eq_true, false_and, if_false]
  split
  · next hRest =>
      rw [hDrop] at hRest
      split
      · rw [hTake]
        rfl
      · next hOther =>
          rw [hRest] at hOther
          cases hOther
  · next hRest =>
      rw [hDrop] at hRest
      split
      · next hOther =>
          rw [hRest] at hOther
          cases hOther
      · next hOther =>
          rw [hRest] at hOther
          cases hOther
          rw [hTake]
          simp [indent]

/-- At the end of a text that ends with a line, there is nothing but the end. -/
theorem tokensFrom_nil : tokensFrom true place [] = [endOfInput (.point place)] := by
  rw [tokensFrom]
  rfl

end

/-! ## Pieces of text -/

/-- A text `text` with `rest` behind it is cut into the tokens `w`. `before` says whether the text
begins a line, and `after` whether `rest` does. -/
def Cut (before after : Bool) (place : Place) (text rest : List Char) (w : List Token) : Prop :=
  tokensFrom before place (text ++ rest) = w ++ tokensFrom after (place.advance text) rest

/-- Within a line, `text` with `rest` behind it is cut into the tokens `w`. -/
abbrev CutInline (place : Place) (text rest : List Char) (w : List Token) : Prop :=
  Cut false false place text rest w

section

variable {before within after : Bool} {place : Place}
  {front back text lexeme blanks rest : List Char} {v w : List Token} {shape : Shape}

theorem cut_nil : Cut before before place [] rest [] := rfl

theorem Cut.append (hFront : Cut before within place front (back ++ rest) v)
    (hBack : Cut within after (place.advance front) back rest w) :
    Cut before after place (front ++ back) rest (v ++ w) := by
  rw [Cut] at *
  rw [List.append_assoc, hFront, hBack, List.append_assoc, Place.advance_append]

theorem cut_blanks (h : blanks.all isBlank = true) : CutInline place blanks rest [] := by
  induction blanks generalizing place with
  | nil => exact cut_nil
  | cons c blanks ih =>
      rw [List.all_cons, Bool.and_eq_true] at h
      have hMore : CutInline (place.after c) blanks rest [] := ih h.2
      unfold CutInline Cut at *
      rw [List.cons_append, tokensFrom_blank h.1, hMore, Place.advance_cons]

/-- A text behind a blank. -/
theorem Cut.blank (h : Cut false after (place.after ' ') text rest w) :
    Cut false after place (' ' :: text) rest w := by
  have hBlank : CutInline place [' '] (text ++ rest) [] := cut_blanks (by decide)
  exact hBlank.append h

/-- No lexeme begins with a blank. -/
theorem isBlank_of_scan {c : Char} (h : (scan (c :: text)).1 ≠ .unknown) : isBlank c = false := by
  have hUnknown {blank : Char} (hBare : IsBare blank) (hOther : blank ≠ '\n' ∧ blank ≠ '\r' ∧
      blank ≠ ';' ∧ blank ≠ '"' ∧ blank ∉ flagChars) : (scan (blank :: text)).1 = .unknown := by
    unfold scan
    simp only [hBare.unnamed, hBare.unsigned]
    simp [newline?, comment?, hOther]
  rw [isBlank, Bool.or_eq_false_iff, beq_eq_false_iff_ne, beq_eq_false_iff_ne]
  constructor
  · intro hSpace
    rw [hSpace] at h
    exact h (hUnknown (by decide) (by decide))
  · intro hTab
    rw [hTab] at h
    exact h (hUnknown (by decide) (by decide))

/-- Blanks and then a lexeme, wherever a token may begin. -/
theorem tokensFrom_lexeme (hBlanks : blanks.all isBlank = true) (hSome : lexeme ≠ [])
    (hScan : scan (lexeme ++ rest) = (shape, lexeme.length))
    (hShape : shape ≠ .unknown ∧ shape ≠ .newline) (hFlag : before = true → shape ≠ .flag) :
    tokensFrom before place (blanks ++ lexeme ++ rest) =
      indent before shape blanks ⟨place, place.advance blanks⟩ ++
        ofLexeme shape lexeme ⟨place.advance blanks, (place.advance blanks).advance lexeme⟩ ::
          tokensFrom false ((place.advance blanks).advance lexeme) rest := by
  obtain ⟨c, tail, rfl⟩ := List.exists_cons_of_ne_nil hSome
  rw [List.cons_append] at hScan
  have hKnown : (scan (c :: (tail ++ rest))).1 ≠ .unknown := by
    rw [hScan]
    exact hShape.1
  -- A star would begin a heading, but it is scanned as a flag.
  have hHeading : ¬ (before = true ∧ blanks = [] ∧ c = '*') := by
    rintro ⟨hBefore, -, rfl⟩
    have hStar := scan_star (tail ++ rest)
    rw [hScan] at hStar
    exact hFlag hBefore hStar
  rw [List.append_assoc, List.cons_append,
    tokensFrom_cons hBlanks (isBlank_of_scan hKnown) hHeading, hScan]
  simp [hShape.2]

theorem cut_lexeme (hSome : lexeme ≠ []) (hScan : scan (lexeme ++ rest) = (shape, lexeme.length))
    (hShape : shape ≠ .unknown ∧ shape ≠ .newline) :
    CutInline place lexeme rest [ofLexeme shape lexeme ⟨place, place.advance lexeme⟩] := by
  have hTokens : tokensFrom false place ([] ++ lexeme ++ rest) = _ :=
    tokensFrom_lexeme List.all_nil hSome hScan hShape nofun
  rw [List.nil_append] at hTokens
  rw [CutInline, Cut, hTokens]
  simp [indent]

/-- A line that begins neither with blanks nor with a star begins like the rest of a line. -/
theorem Cut.lineStart {c : Char} (h : Cut false after place (c :: text) rest w)
    (hHead : isBlank c = false) (hStar : c ≠ '*') : Cut true after place (c :: text) rest w := by
  have hLine (lineStart : Bool) : tokensFrom lineStart place (c :: (text ++ rest)) = _ :=
    tokensFrom_cons List.all_nil hHead (by simp [hStar])
  have hSame : tokensFrom true place (c :: (text ++ rest)) =
      tokensFrom false place (c :: (text ++ rest)) := by
    rw [hLine true, hLine false]
    simp [indent]
  rw [Cut] at *
  rw [List.cons_append, hSame]
  exact h

/-- The blanks at the start of a line become a token of their own. -/
theorem exists_indent (hBlanks : blanks.all isBlank = true) (hIndent : blanks ≠ [])
    (hShape : (scan rest).1 ≠ .unknown ∧ (scan rest).1 ≠ .newline ∧ (scan rest).1 ≠ .comment) :
    ∃ l : Leaf .indent, Cut true false place blanks rest [l.token] := by
  cases rest with
  | nil => exact absurd rfl hShape.1
  | cons c tail =>
      have hHead : isBlank c = false := isBlank_of_scan hShape.1
      have hLine : tokensFrom false (place.advance blanks) (c :: tail) = _ :=
        tokensFrom_cons List.all_nil hHead (by simp)
      refine ⟨⟨bare .indent ⟨place, place.advance blanks⟩, rfl⟩, ?_⟩
      rw [Cut, hLine, tokensFrom_cons hBlanks hHead (by simp [hIndent])]
      simp [indent, hIndent, hShape.2]

/-- A line break ends the line. -/
theorem exists_lineEnd : ∃ l : Leaf .lineEnd, Cut false true place ['\n'] rest [l.token] := by
  have hHead : isBlank '\n' = false := by decide
  have hCons : tokensFrom false place ('\n' :: rest) = _ :=
    tokensFrom_cons List.all_nil hHead (by simp)
  refine ⟨⟨bare .lineEnd ⟨place, place.after '\n'⟩, rfl⟩, ?_⟩
  rw [Cut, List.singleton_append, hCons, scan_newline]
  simp [indent, ofLexeme]

end

/-! ## Leaves -/

/-- What a lexeme stands for is a leaf. -/
theorem exists_leaf {kind : TokenKind} {value : TokenValue} {place : Place}
    {lexeme rest : List Char} {shape : Shape} (hSome : lexeme ≠ [])
    (hScan : scan (lexeme ++ rest) = (shape, lexeme.length))
    (hShape : shape ≠ .unknown ∧ shape ≠ .newline)
    (hToken : ∀ span, ofLexeme shape lexeme span = ⟨kind, value, span⟩) :
    ∃ l : Leaf kind, l.token.value = value ∧ CutInline place lexeme rest [l.token] := by
  have hCut : CutInline place lexeme rest _ := cut_lexeme hSome hScan hShape
  rw [hToken] at hCut
  exact ⟨⟨_, rfl⟩, rfl, hCut⟩

section

variable {place : Place} {rest : List Char}

theorem exists_date {d : Date} (h : d.HasPlainYear) :
    ∃ l : Leaf .date, l.day? = some d ∧ CutInline place d.toText.toList rest [l.token] := by
  have hSome : d.toText.toList ≠ [] := by
    rw [Date.toList_toText h]
    simp
  obtain ⟨l, hValue, hCut⟩ := exists_leaf hSome (scan_date h rest) (by decide) fun _ => rfl
  refine ⟨l, ?_, hCut⟩
  rw [Leaf.day?, Leaf.text?, hValue, TokenValue.text?, Option.bind_some, String.ofList_toList]
  exact Date.ofText?_toText h

/-- A number in front of a blank. -/
theorem exists_number (d : Decimal) :
    ∃ l : Leaf .number, l.number? = some d ∧
      CutInline place d.toText.toList (' ' :: rest) [l.token] := by
  have hSome : d.toText.toList ≠ [] := by
    have hWhole := d.wholeDigits_ne_nil
    rw [d.toList_toText]
    simp [hWhole]
  have hNumber : number? d.toText.toList = some d := by
    have hFilter : d.toText.toList.filter (· != ',') = d.toText.toList := by
      rw [List.filter_eq_self]
      intro c hc
      have hComma : c ≠ ',' := by
        intro hSame
        exact d.comma_notMem_toText (hSame ▸ hc)
      simp [hComma]
    rw [number?, hFilter, String.ofList_toList]
    exact d.ofText?_toText
  have hToken (span : Span) :
      ofLexeme .number d.toText.toList span = ⟨.number, .number d, span⟩ := by
    rw [ofLexeme, hNumber]
  obtain ⟨l, hValue, hCut⟩ := exists_leaf hSome (scan_number d rest) (by decide) hToken
  refine ⟨l, ?_, hCut⟩
  rw [Leaf.number?, hValue]

/-- A literal stands for the text that it was written for. -/
theorem ofLexeme_literal (text : String) (span : Span) :
    ofLexeme .string (Quoted.literal text).toList span = ⟨.string, .text text, span⟩ := by
  have hBody : (Quoted.literal text).toList.tail.dropLast = Quoted.escape text.toList := by
    rw [Quoted.toList_literal, List.tail_cons, List.dropLast_concat]
  rw [ofLexeme, hBody, Quoted.unescape_escape, String.ofList_toList]

theorem exists_string (text : String) : ∃ l : Leaf .string, l.text? = some text ∧
    CutInline place (Quoted.literal text).toList rest [l.token] := by
  obtain ⟨l, hValue, hCut⟩ := exists_leaf (Quoted.literal_ne_nil text) (scan_string text rest)
    (by decide) (ofLexeme_literal text)
  refine ⟨l, ?_, hCut⟩
  rw [Leaf.text?, hValue, TokenValue.text?]

theorem exists_account {name : String} (h : IsAccount name) (hRest : Delimited rest) :
    ∃ l : Leaf .account, l.text? = some name ∧ CutInline place name.toList rest [l.token] := by
  have hSome : name.toList ≠ [] := by
    obtain ⟨root, hRoot, parts, -, -, hName⟩ := h
    obtain ⟨first, second, others, hText, -⟩ := accountRoots_spelled hRoot
    simp [hName, hText]
  obtain ⟨l, hValue, hCut⟩ := exists_leaf hSome (scan_account h hRest) (by decide) fun _ => rfl
  refine ⟨l, ?_, hCut⟩
  rw [Leaf.text?, hValue, TokenValue.text?, String.ofList_toList]

theorem exists_currency {name : String} (h : IsCurrency name) (hRest : Delimited rest) :
    ∃ l : Leaf .currency, l.text? = some name ∧ CutInline place name.toList rest [l.token] := by
  have hSome : name.toList ≠ [] := by
    obtain ⟨first, others, hName, -⟩ := h
    simp [hName]
  obtain ⟨l, hValue, hCut⟩ := exists_leaf hSome (scan_currency h hRest) (by decide) fun _ => rfl
  refine ⟨l, ?_, hCut⟩
  rw [Leaf.text?, hValue, TokenValue.text?, String.ofList_toList]

theorem exists_tag {name : String} (h : IsTagName name) (hRest : Delimited rest) :
    ∃ l : Leaf .tag, l.text? = some name ∧ CutInline place ('#' :: name.toList) rest [l.token] := by
  obtain ⟨l, hValue, hCut⟩ := exists_leaf (List.cons_ne_nil _ _) (scan_tag h hRest) (by decide)
    fun _ => rfl
  refine ⟨l, ?_, hCut⟩
  rw [Leaf.text?, hValue, TokenValue.text?, List.tail_cons, String.ofList_toList]

theorem exists_link {name : String} (h : IsTagName name) (hRest : Delimited rest) :
    ∃ l : Leaf .link, l.text? = some name ∧
      CutInline place ('^' :: name.toList) rest [l.token] := by
  obtain ⟨l, hValue, hCut⟩ := exists_leaf (List.cons_ne_nil _ _) (scan_link h hRest) (by decide)
    fun _ => rfl
  refine ⟨l, ?_, hCut⟩
  rw [Leaf.text?, hValue, TokenValue.text?, List.tail_cons, String.ofList_toList]

/-- A flag in front of a blank. -/
theorem exists_flag {flag : Char} (h : flag ∈ flagChars) :
    ∃ l : Leaf .flag, l.char? = some flag ∧ CutInline place [flag] (' ' :: rest) [l.token] := by
  have hScan : scan ([flag] ++ ' ' :: rest) = (.flag, 1) := scan_flag h rest
  obtain ⟨l, hValue, hCut⟩ := exists_leaf (List.cons_ne_nil flag []) hScan (by decide) fun _ => rfl
  refine ⟨l, ?_, hCut⟩
  rw [Leaf.char?, hValue]
  rfl

theorem exists_keyword (keyword : Keyword) :
    ∃ l : Leaf (.keyword keyword), CutInline place keyword.text.toList rest [l.token] := by
  have hSome : keyword.text.toList ≠ [] := by
    cases keyword <;> simp [Keyword.text]
  obtain ⟨l, -, hCut⟩ := exists_leaf hSome (scan_keyword keyword rest) (by simp) fun _ => rfl
  exact ⟨l, hCut⟩

/-- The sign `@` must not stand in front of another one. -/
theorem exists_mark (mark : Mark) (h : mark = .singleAt → rest.head? ≠ some '@') :
    ∃ l : Leaf (.mark mark), CutInline place mark.text.toList rest [l.token] := by
  have hSome : mark.text.toList ≠ [] := by
    cases mark <;> simp [Mark.text]
  obtain ⟨l, -, hCut⟩ := exists_leaf hSome (scan_mark h) (by simp) fun _ => rfl
  exact ⟨l, hCut⟩

end

end LedgerText.Token
