import LedgerText.Proofs.Lexing.Lossless

/-!
# Lines

Which tokens a text has because of its lines: a line end behind every line, an
indentation in front of every line that begins with blanks and has something on
it, and a token for every heading (`tokens_lines`).

A line begins behind a line feed that is not within a token. The text is cut
there (`Lexed.cut_at`), and the tokens behind it are those of a text that begins
a line. There is one exception: an error that begins with a quote can end with a
line feed and is no line end. What follows it is neither a blank nor a star
(`literal_open`), so that line has no indentation and is no heading anyway.
-/

namespace LedgerText.Token

open Lexeme

/-! ## Where lines begin -/

/-- The number of characters in front of a token. -/
def start (source : List Char) (t : Token) : Nat := (t.span.charRange source).start

/-- The number of characters up to the end of a token. -/
def stop (source : List Char) (t : Token) : Nat := (t.span.charRange source).stop

/-- A line begins at an offset, and no token reaches across it. -/
structure IsLineStart (source : List Char) (w : List Token) (p : Nat) : Prop where
  begins : p = 0 ∨ source[p - 1]? = some '\n'
  outside : ∀ t ∈ w, ¬ (start source t < p ∧ p < stop source t)

/-- Behind some blanks, a token stands that is neither a line end nor a comment. -/
def IsIndented (source : List Char) (w : List Token) (p : Nat) : Prop :=
  ∃ gap t, gap ≠ [] ∧ (∀ c ∈ gap, c = ' ' ∨ c = '\t') ∧ gap <+: source.drop p ∧ t ∈ w ∧
    start source t = p + gap.length ∧ t.kind ≠ .lineEnd ∧ t.kind ≠ .comment

/-- How the tokens of a text in front of its end go by its lines. -/
structure Lines (source : List Char) (w : List Token) : Prop where
  /-- The last token is a line end. -/
  closed : w = [] ∨ ∃ t, w.getLast? = some t ∧ t.kind = .lineEnd
  /-- No two tokens begin at the same character. -/
  distinct : (w.map (start source)).Pairwise (· < ·)
  /-- The blanks that indented lines begin with are tokens, and there are no other indentations. -/
  indented : ∀ p, (∃ t ∈ w, t.kind = .indent ∧ start source t = p) ↔
    IsLineStart source w p ∧ IsIndented source w p
  /-- The lines that begin with a star are skipped, and nothing else is. -/
  headings : ∀ p, (∃ t ∈ w, t.kind = .skipped ∧ start source t = p) ↔
    IsLineStart source w p ∧ source[p]? = some '*'
  /-- Both kinds of tokens come first on their line. -/
  begins : ∀ front t back, w = front ++ t :: back → t.kind = .indent ∨ t.kind = .skipped →
    front = [] ∨ ∃ last, front.getLast? = some last ∧ last.kind = .lineEnd
  /-- Behind an indentation, there is something on the line. -/
  content : ∀ front t back, w = front ++ t :: back → t.kind = .indent →
    ∃ next others, back = next :: others ∧
      next.kind ∉ [.lineEnd, .comment, .indent, .skipped, .endOfInput]

/-! ## What is read -/

/-- Where only one pattern belongs to a class, it reads what is scanned. -/
theorem read?_of_scan {p : Pattern} {text : List Char} {n : Nat}
    (hOnly : ∀ q : Pattern, q.shape = p.shape → q = p) (hKnown : p.shape ≠ .unknown)
    (hText : text ≠ []) (h : scan text = (p.shape, n)) : p.read? text = some n := by
  obtain ⟨q, hShape, hRead⟩ := Pattern.exists_read?_of_scan hText (by rw [h]; exact hKnown)
  rw [h] at hShape hRead
  rw [← hOnly q hShape]
  exact hRead

/-- A literal goes on up to its end, a backslash or the end of the text. -/
theorem literal_open {text : List Char} (h : (literal text).1 = false) :
    text.drop (literal text).2 = [] ∨ (text.drop (literal text).2).head? = some '\\' := by
  induction text using literal_induction with
  | nil => exact .inl rfl
  | quote rest => cases h
  | alone => exact .inr rfl
  | escaped c rest ih =>
      rw [literal_escaped] at h ⊢
      by_cases hLine : c = '\n'
      · rw [if_pos hLine]
        exact .inr rfl
      · rw [if_neg hLine] at h ⊢
        exact ih h
  | plain c rest hQuote hEscape ih =>
      rw [literal_plain rest hQuote hEscape] at h ⊢
      exact ih h

section

variable {before within after : Bool} {place : Place} {gap body text rest front back : List Char}
  {token : Token} {w : List Token}

theorem newline?_of_scan {n : Nat} (hText : text ≠ []) (h : scan text = (.newline, n)) :
    newline? text = some n :=
  read?_of_scan (p := .newline) (by intro q hq; cases q <;> cases hq; rfl) Shape.noConfusion
    hText h

/-- A line end is a line feed, with a carriage return or without. -/
theorem eq_of_scan_newline (hSome : body ≠ [])
    (hScan : scan (body ++ rest) = (.newline, body.length)) :
    body = ['\n'] ∨ body = ['\r', '\n'] := by
  have hNewline := newline?_of_scan (List.append_ne_nil_of_left_ne_nil hSome rest) hScan
  unfold newline? at hNewline
  split at hNewline
  · next hText =>
      match body, hSome with
      | [c], _ =>
          obtain ⟨rfl, -⟩ := List.cons.inj hText
          exact .inl rfl
      | _ :: _ :: _, _ => simp at hNewline
  · next hText =>
      match body, hSome with
      | [c, d], _ =>
          obtain ⟨rfl, hMore⟩ := List.cons.inj hText
          obtain ⟨rfl, -⟩ := List.cons.inj hMore
          exact .inr rfl
      | [_], _ => simp at hNewline
      | _ :: _ :: _ :: _, _ => simp at hNewline
  · cases hNewline

/-- Where nothing is read, a string literal does not end, or one character is an error. -/
theorem scan_unknown {c : Char} (h : (scan (c :: rest)).1 = .unknown) :
    c = '"' ∧ (literal rest).1 = false ∧ (scan (c :: rest)).2 = (literal rest).2 + 1 ∨
      c ≠ '"' ∧ (scan (c :: rest)).2 = 1 := by
  rw [scan_eq] at h ⊢
  cases hClass : classed? (c :: rest) with
  | some found =>
      obtain ⟨read?, hMem, hRead⟩ := List.exists_of_findSome?_eq_some hClass
      rw [hClass, Option.getD_some] at h
      exact absurd h (known_of_mem hMem hRead).1
  | none =>
      rw [hClass, Option.getD_none] at h
      rw [Option.getD_none]
      by_cases hQuote : c = '"'
      · subst hQuote
        refine .inl ⟨rfl, ?_, by rw [unclassed_quote]⟩
        by_contra hClosed
        rw [Bool.not_eq_false] at hClosed
        rw [unclassed_quote, if_pos hClosed] at h
        cases h
      · exact .inr ⟨hQuote, by rw [unclassed_plain rest hQuote]⟩

/-- Where nothing is read, a line feed can only be within a string literal that does not end. -/
theorem behind_unknown (hSome : body ≠ []) (hScan : scan (body ++ rest) = (.unknown, body.length))
    (hLine : body.getLast? = some '\n') : rest = [] ∨ rest.head? = some '\\' := by
  obtain ⟨c, tail, rfl⟩ := List.exists_cons_of_ne_nil hSome
  rw [List.cons_append] at hScan
  have hLength : (scan (c :: (tail ++ rest))).2 = tail.length + 1 := congrArg Prod.snd hScan
  rcases scan_unknown (congrArg Prod.fst hScan) with ⟨-, hOpen, hCount⟩ | ⟨-, hCount⟩
  · have hBehind := literal_open hOpen
    have hBoth : (literal (tail ++ rest)).2 = tail.length := by omega
    rwa [hBoth, List.drop_left] at hBehind
  · -- A line feed on its own is read.
    have hOne : tail = [] := List.eq_nil_of_length_eq_zero (by omega)
    subst hOne
    obtain rfl : c = '\n' := Option.some.inj hLine
    rw [List.nil_append, scan_newline] at hScan
    cases hScan

/-- Behind a line feed that ends no line, there is neither a blank nor a star. -/
theorem Piece.behind_newline (h : Piece before gap body rest token false)
    (hLine : body.getLast? = some '\n') : rest = [] ∨ rest.head? = some '\\' := by
  generalize hAfter : false = after at h
  cases h with
  | indent hBlanks =>
      exact absurd (List.mem_of_getLast? hLine) (not_mem_of_blanks hBlanks)
  | heading hRun => exact absurd hLine (getLast?_heading hRun)
  | @lexeme _ _ tail _ c shape span hBlanks hHead hStart hScan =>
      by_cases hShape : shape = .unknown
      · subst hShape
        exact behind_unknown (List.cons_ne_nil _ _) hScan hLine
      · have hNewline := shape_of_newline (List.cons_ne_nil _ _) hScan hShape hLine
        rw [hNewline] at hAfter
        cases hAfter
  | close => cases hLine

/-! ## Cutting at the start of a line -/

/-- Only where a line begins, there are indentations and headings. -/
theorem Piece.before_of_layout (h : Piece before gap body rest token after)
    (hKind : token.kind = .indent ∨ token.kind = .skipped) : before = true ∧ gap = [] := by
  cases h with
  | indent => exact ⟨rfl, rfl⟩
  | heading => exact ⟨rfl, rfl⟩
  | lexeme =>
      obtain ⟨-, hIndent, hSkipped⟩ := ofLexeme_kind_ne _ _ _
      exact absurd hKind (not_or.2 ⟨hIndent, hSkipped⟩)
  | close => simp [bare] at hKind

/-- A line begins behind a line feed, or at the end of the text. -/
theorem Piece.lineFeed (h : Piece before gap body rest token true) :
    body.getLast? = some '\n' ∨ body = [] ∧ rest = [] := by
  generalize hAfter : true = after at h
  cases h with
  | indent => cases hAfter
  | heading => cases hAfter
  | lexeme hBlanks hHead hStart hScan =>
      obtain rfl := of_decide_eq_true hAfter.symm
      rcases eq_of_scan_newline (List.cons_ne_nil _ _) hScan with hBody | hBody
      · exact .inl (by rw [hBody]; rfl)
      · exact .inl (by rw [hBody]; rfl)
  | close => exact .inr ⟨rfl, rfl⟩

/-- Every token ends within the text. -/
theorem Lexed.stop_le (front : List Char)
    (h : Lexed rest before (Place.origin.advance front) text w after) (back : List Char) :
    ∀ t ∈ w, stop (front ++ text ++ back) t ≤ front.length + text.length := by
  generalize hPlace : Place.origin.advance front = place at h
  induction h generalizing front with
  | nil => exact List.forall_mem_nil _
  | @cons before within after place gap body text token w hPiece hSpan hMore ih =>
      subst hPlace
      have hOthers := ih (front ++ gap ++ body) (by rw [Place.advance_append, Place.advance_append])
      have hText : front ++ gap ++ body ++ text ++ back =
          front ++ (gap ++ body ++ text) ++ back := by simp
      rw [hText] at hOthers
      simp only [List.length_append] at hOthers ⊢
      refine List.forall_mem_cons.2 ⟨?_, fun t ht => ?_⟩
      · rw [stop, (charRange_of_span front text back hSpan).2]
        omega
      · have hLater := hOthers t ht
        omega

/-- Each token begins behind the start of the one before it. -/
theorem Lexed.starts_pairwise (front : List Char)
    (h : Lexed rest before (Place.origin.advance front) text w after) :
    (w.map (start (front ++ text ++ rest))).Pairwise (· < ·) := by
  generalize hPlace : Place.origin.advance front = place at h
  induction h generalizing front with
  | nil => exact .nil
  | @cons before within after place gap body text token w hPiece hSpan hMore ih =>
      subst hPlace
      have hPlace : Place.origin.advance (front ++ gap ++ body) =
          ((Place.origin.advance front).advance gap).advance body := by
        rw [Place.advance_append, Place.advance_append]
      have hText : front ++ gap ++ body ++ text ++ rest =
          front ++ (gap ++ body ++ text) ++ rest := by simp
      have hPairwise := ih (front ++ gap ++ body) hPlace
      rw [← hPlace] at hMore
      have hStarts := (hMore.ordered (front ++ gap ++ body) rest).1
      rw [hText] at hPairwise hStarts
      rw [List.map_cons, List.pairwise_cons]
      refine ⟨List.forall_mem_map.2 fun t ht => ?_, hPairwise⟩
      have hLater := hStarts t ht
      simp only [List.length_append] at hLater
      rw [start, (charRange_of_span front text rest hSpan).1]
      rcases hPiece.body_ne_nil with hSome | ⟨-, -, hRest, rfl⟩
      · have hLength := List.length_pos_iff.2 hSome
        exact Nat.lt_of_lt_of_le (by omega) hLater
      · obtain ⟨rfl, rfl⟩ := List.append_eq_nil_iff.1 hRest
        rw [hMore.eq_nil] at ht
        cases ht

/-- Behind a line feed that is not within a token, the text is cut. -/
theorem Lexed.cut_at (front : List Char)
    (h : Lexed rest before (Place.origin.advance front) text w after) {p : Nat}
    (hLow : front.length ≤ p) (hHigh : p ≤ front.length + text.length)
    (hLine : p = front.length ∨ (front ++ text ++ rest)[p - 1]? = some '\n')
    (hOutside : ∀ t ∈ w,
      ¬ (start (front ++ text ++ rest) t < p ∧ p < stop (front ++ text ++ rest) t)) :
    ∃ v u first second within, w = v ++ u ∧ text = first ++ second ∧
      p = front.length + first.length ∧
      Lexed (second ++ rest) before (Place.origin.advance front) first v within ∧
      Lexed rest within (Place.origin.advance (front ++ first)) second u after := by
  generalize hPlace : Place.origin.advance front = place at h
  induction h generalizing front with
  | nil =>
      subst hPlace
      rw [List.length_nil] at hHigh
      exact ⟨[], [], [], [], _, rfl, rfl, by rw [List.length_nil]; omega, .nil, by
        rw [List.append_nil]
        exact .nil⟩
  | @cons before within after place gap body text token w hPiece hSpan hMore ih =>
      subst hPlace
      by_cases hHere : p = front.length
      · exact ⟨[], token :: w, [], gap ++ body ++ text, before, rfl, rfl, hHere, .nil, by
          rw [List.append_nil]
          exact .cons hPiece hSpan hMore⟩
      · have hFeed := hLine.resolve_left hHere
        obtain ⟨hStart, hStop⟩ := charRange_of_span front text rest hSpan
        obtain ⟨hFirst, hOthers⟩ := List.forall_mem_cons.1 hOutside
        rw [start, stop, hStart, hStop] at hFirst
        -- A line feed is not among the blanks in front of the token.
        have hGap : front.length + gap.length < p := by
          by_contra hLess
          have hSource : front ++ (gap ++ body ++ text) ++ rest =
              front ++ (gap ++ (body ++ text ++ rest)) := by simp
          rw [hSource, List.getElem?_append_right (by omega),
            List.getElem?_append_left (by omega)] at hFeed
          exact absurd (List.all_eq_true.1 hPiece.gap_blank '\n' (List.mem_of_getElem? hFeed))
            (by decide)
        have hPlace : Place.origin.advance (front ++ gap ++ body) =
            ((Place.origin.advance front).advance gap).advance body := by
          rw [Place.advance_append, Place.advance_append]
        have hText : front ++ gap ++ body ++ text ++ rest =
            front ++ (gap ++ body ++ text) ++ rest := by simp
        simp only [List.length_append] at hHigh
        obtain ⟨v, u, first, second, middle, rfl, rfl, rfl, hFront, hBack⟩ :=
          ih (front ++ gap ++ body) (by simp only [List.length_append]; omega)
            (by simp only [List.length_append]; omega) (.inr (by rw [hText]; exact hFeed))
            (by rw [hText]; exact hOthers) hPlace
        rw [List.append_assoc] at hPiece
        refine ⟨token :: v, u, gap ++ body ++ first, second, middle, rfl,
          (List.append_assoc _ _ _).symm, ?_, .cons hPiece hSpan hFront, ?_⟩
        · simp only [List.length_append]
          omega
        · rw [← List.append_assoc, ← List.append_assoc]
          exact hBack

/-- A text is followed by neither a blank nor a star where it ends with a line feed and no line
begins behind it. -/
theorem Lexed.behind_newline (h : Lexed rest true place text w false)
    (hLine : text = [] ∨ text.getLast? = some '\n') : rest = [] ∨ rest.head? = some '\\' := by
  rcases List.eq_nil_or_concat w with rfl | ⟨v, token, rfl⟩
  · cases h
  · rw [List.concat_eq_append] at h
    obtain ⟨front, back, within, rfl, -, hLast⟩ := lexed_append.1 h
    cases hLast with
    | @cons _ _ _ _ gap body _ _ _ hPiece hSpan hMore =>
        cases hMore
        rw [List.append_nil] at hLine
        rcases hPiece.body_ne_nil with hSome | ⟨-, -, hRest, -⟩
        · have hEnd := hLine.resolve_left fun hNone =>
            hSome (List.append_eq_nil_iff.1 (List.append_eq_nil_iff.1 hNone).2).2
          rw [← List.append_assoc, List.getLast?_append_of_ne_nil _ hSome] at hEnd
          exact hPiece.behind_newline hEnd
        · exact .inl hRest

/-! ## Indentations and headings -/

/-- Where a line begins, the text in front is empty or ends with a line feed. -/
theorem Lexed.lineFeed (h : Lexed rest true place text w true) (hRest : rest ≠ []) :
    text = [] ∨ text.getLast? = some '\n' := by
  rcases List.eq_nil_or_concat w with rfl | ⟨v, token, rfl⟩
  · cases h
    exact .inl rfl
  · rw [List.concat_eq_append] at h
    obtain ⟨front, back, within, rfl, -, hLast⟩ := lexed_append.1 h
    cases hLast with
    | @cons _ _ _ _ gap body _ _ _ hPiece hSpan hMore =>
        cases hMore
        rcases hPiece.lineFeed with hEnd | ⟨-, hNone⟩
        · right
          rw [List.append_nil]
          exact getLast?_append_of_mem (getLast?_append_of_mem hEnd)
        · exact absurd hNone hRest

/-- An indentation or a heading stands where a line begins. -/
theorem Lexed.layout {v u : List Token} (h : Lexed rest true .origin text (v ++ token :: u) after)
    (hKind : token.kind = .indent ∨ token.kind = .skipped) :
    (v = [] ∨ ∃ last, v.getLast? = some last ∧ last.kind = .lineEnd) ∧
      ∃ first body second within, text = first ++ (body ++ second) ∧
        start (text ++ rest) token = first.length ∧
        IsLineStart (text ++ rest) (v ++ token :: u) first.length ∧
        Piece true [] body (second ++ rest) token within ∧
        Lexed rest within (Place.origin.advance (first ++ body)) second u after := by
  have hOrdered := (Lexed.ordered [] h rest).2
  obtain ⟨first, behind, anew, hText, hFront, hBack⟩ := lexed_append.1 h
  cases hBack with
  | @cons _ within _ _ gap body second _ _ hPiece hSpan hMore =>
      obtain ⟨rfl, rfl⟩ := hPiece.before_of_layout hKind
      have hBody : body ≠ [] := by
        rcases hPiece.body_ne_nil with hSome | ⟨hEnd, -⟩
        · exact hSome
        · rw [hEnd] at hKind
          simp at hKind
      have hSome : [] ++ body ++ second ++ rest ≠ [] := by simp [hBody]
      obtain ⟨hStart, hStop⟩ := charRange_of_span first second rest hSpan
      rw [← hText, List.length_nil, Nat.add_zero] at hStart hStop
      have hAfter := hFront.after_eq
      refine ⟨?_, first, body, second, within, hText, hStart, ⟨?_, ?_⟩, hPiece, ?_⟩
      · cases hLast : v.getLast? with
        | none => exact .inl (List.getLast?_eq_none_iff.1 hLast)
        | some last =>
            rw [hLast] at hAfter
            exact .inr ⟨last, rfl, of_decide_eq_true hAfter.symm⟩
      · rcases hFront.lineFeed hSome with rfl | hLine
        · exact .inl rfl
        · obtain ⟨init, rfl⟩ := List.getLast?_eq_some_iff.1 hLine
          right
          rw [hText, List.length_append, List.length_singleton, Nat.add_sub_cancel]
          simp
      · -- All other tokens end in front of this one, or begin behind it.
        rw [List.nil_append, List.map_append, List.map_cons, List.pairwise_append,
          List.pairwise_cons] at hOrdered
        obtain ⟨-, ⟨hLater, -⟩, hEarlier⟩ := hOrdered
        intro t ht
        rcases List.mem_append.1 ht with hMem | hMem
        · have hLess := hEarlier _ (List.mem_map_of_mem hMem) _ List.mem_cons_self
          rw [hStart] at hLess
          exact fun hAcross => Nat.not_lt.2 hLess hAcross.2
        · rcases List.mem_cons.1 hMem with rfl | hMem
          · exact fun hAcross => Nat.lt_irrefl _ (hStart ▸ hAcross.1)
          · have hLess := hLater _ (List.mem_map_of_mem hMem)
            rw [hStop] at hLess
            refine fun hAcross => Nat.not_lt.2 (Nat.le_trans (Nat.le_add_right _ _) hLess) hAcross.1
      · rw [Place.advance_append]
        exact hMore

theorem Lexed.isLineStart {v u : List Token}
    (h : Lexed rest true .origin text (v ++ token :: u) after)
    (hKind : token.kind = .indent ∨ token.kind = .skipped) :
    IsLineStart (text ++ rest) (v ++ token :: u) (start (text ++ rest) token) := by
  obtain ⟨-, first, -, -, -, -, hStart, hLine, -⟩ := h.layout hKind
  rw [hStart]
  exact hLine

/-- Where a line begins with a blank or a star, the tokens behind it are those of a text that begins
there. -/
theorem Lexed.anew {p : Nat} {c : Char} (h : Lexed rest true .origin text w true)
    (hBlanks : rest.all isBlank = true) (hLine : IsLineStart (text ++ rest) w p)
    (hChar : (text ++ rest)[p]? = some c) (hc : isBlank c = true ∨ c = '*') :
    ∃ v u first second, w = v ++ u ∧ text = first ++ second ∧ p = first.length ∧
      second ++ rest = (text ++ rest).drop p ∧
      Lexed rest true (Place.origin.advance first) second u true ∧
      ∀ t ∈ v, start (text ++ rest) t ≤ p := by
  have hHigh : p ≤ text.length := by
    by_contra hMore
    rcases hLine.begins with hZero | hFeed
    · omega
    · rw [List.getElem?_append_right (by omega)] at hFeed
      exact absurd (List.mem_of_getElem? hFeed) (not_mem_of_blanks hBlanks)
  obtain ⟨v, u, first, second, within, rfl, rfl, hp, hFront, hBack⟩ :=
    Lexed.cut_at [] h (Nat.zero_le p) (by rw [List.length_nil, Nat.zero_add]; exact hHigh)
      hLine.begins hLine.outside
  rw [List.length_nil, Nat.zero_add] at hp
  subst hp
  have hDrop : second ++ rest = (first ++ second ++ rest).drop first.length := by
    rw [List.append_assoc, List.drop_left]
  have hHead : (second ++ rest).head? = some c := by
    rw [hDrop, List.head?_drop]
    exact hChar
  have hWithin : within = true := by
    by_contra hFalse
    rw [Bool.not_eq_true] at hFalse
    subst hFalse
    have hEnd : first = [] ∨ first.getLast? = some '\n' := by
      rcases hLine.begins with hZero | hFeed
      · exact .inl (List.eq_nil_of_length_eq_zero hZero)
      · by_cases hNone : first = []
        · exact .inl hNone
        · have hPos := List.length_pos_iff.2 hNone
          rw [List.append_assoc, List.getElem?_append_left (by omega)] at hFeed
          exact .inr (List.getLast?_eq_getElem?.trans hFeed)
    rcases hFront.behind_newline hEnd with hNone | hEscape
    · rw [hNone] at hHead
      cases hHead
    · rw [hEscape] at hHead
      cases hHead
      revert hc
      decide
  subst hWithin
  refine ⟨v, u, first, second, rfl, rfl, rfl, hDrop, hBack, fun t ht => ?_⟩
  have hStop := Lexed.stop_le [] hFront (second ++ rest) t ht
  rw [List.nil_append, List.length_nil, Nat.zero_add, ← List.append_assoc] at hStop
  exact Nat.le_trans (t.span.charRange _).start_le_stop hStop

/-- A line that begins with a star is skipped. -/
theorem Lexed.exists_heading {p : Nat} (h : Lexed rest true .origin text w true)
    (hBlanks : rest.all isBlank = true) (hLine : IsLineStart (text ++ rest) w p)
    (hStar : (text ++ rest)[p]? = some '*') :
    ∃ t ∈ w, t.kind = .skipped ∧ start (text ++ rest) t = p := by
  obtain ⟨v, u, first, second, rfl, rfl, rfl, hDrop, hBack, -⟩ :=
    h.anew hBlanks hLine hStar (.inr rfl)
  have hHead : (second ++ rest).head? = some '*' := by
    rw [hDrop, List.head?_drop]
    exact hStar
  cases hBack with
  | nil =>
      rw [List.nil_append] at hHead
      exact absurd (List.all_eq_true.1 hBlanks '*' (List.mem_of_head? hHead)) (by decide)
  | @cons _ within _ _ gap body second token w hPiece hSpan hMore =>
      obtain ⟨hStart, -⟩ := charRange_of_span first second rest hSpan
      have hNoBlank {blanks others : List Char} (hGap : blanks.all isBlank = true)
          (hText : blanks ++ others = gap ++ body ++ second ++ rest) : blanks = [] := by
        cases blanks with
        | nil => rfl
        | cons d blanks =>
            rw [← hText] at hHead
            cases hHead
            simp [isBlank] at hGap
      generalize second ++ rest = behind at hPiece
      cases hPiece with
      | indent hGap hSome =>
          exact absurd (hNoBlank hGap (by rw [List.nil_append, List.append_assoc])) hSome
      | heading =>
          exact ⟨_, List.mem_append_right v List.mem_cons_self, rfl, hStart⟩
      | @lexeme _ _ tail _ c shape span hGap hHead' hStart' hScan =>
          have hNone := hNoBlank hGap (by rw [List.append_assoc, List.append_assoc])
          subst hNone
          cases hHead
          exact absurd ⟨rfl, rfl⟩ (hStart' rfl).2

/-- As many characters are blank as come before the first one that is not. -/
theorem length_le_of_blanks {blanks : List Char} {c : Char} (hGap : gap.all isBlank = true)
    (hHead : isBlank c = false) (h : gap <+: blanks ++ c :: text) : gap.length ≤ blanks.length := by
  by_contra hLonger
  rw [Nat.not_le] at hLonger
  obtain ⟨more, hMore⟩ := h
  have hChar : (gap ++ more)[blanks.length]? = some c := by
    rw [hMore]
    simp
  rw [List.getElem?_append_left hLonger] at hChar
  have hBlank := List.all_eq_true.1 hGap c (List.mem_of_getElem? hChar)
  rw [hHead] at hBlank
  cases hBlank

/-- The blanks that an indented line begins with are a token. -/
theorem Lexed.exists_indent {p : Nat} (h : Lexed rest true .origin text w true)
    (hBlanks : rest.all isBlank = true) (hLine : IsLineStart (text ++ rest) w p)
    (hIndented : IsIndented (text ++ rest) w p) :
    ∃ t ∈ w, t.kind = .indent ∧ start (text ++ rest) t = p := by
  obtain ⟨gap, t, hSome, hGap, hPrefix, ht, hBehind, hNoEnd, hNoComment⟩ := hIndented
  obtain ⟨c, others, rfl⟩ := List.exists_cons_of_ne_nil hSome
  have hBlank := isBlank_iff.2 (hGap c List.mem_cons_self)
  have hChar : (text ++ rest)[p]? = some c := by
    obtain ⟨more, hMore⟩ := hPrefix
    rw [← List.head?_drop, ← hMore]
    rfl
  obtain ⟨v, u, first, second, rfl, rfl, rfl, hDrop, hBack, hFront⟩ :=
    h.anew hBlanks hLine hChar (.inl hBlank)
  rw [List.length_cons] at hBehind
  have hMem : t ∈ u := by
    rcases List.mem_append.1 ht with hFirst | hSecond
    · have hLe := hFront t hFirst
      omega
    · exact hSecond
  rw [← hDrop] at hPrefix
  cases hBack with
  | nil => cases hMem
  | @cons _ within _ _ blanks body second token w hPiece hSpan hMore =>
      obtain ⟨hStart, hStop⟩ := charRange_of_span first second rest hSpan
      generalize second ++ rest = behind at hPiece
      cases hPiece with
      | indent => exact ⟨_, List.mem_append_right v List.mem_cons_self, rfl, hStart⟩
      | heading =>
          obtain ⟨more, hMore⟩ := hPrefix
          obtain ⟨rfl, -⟩ := List.cons.inj hMore
          simp [isBlank] at hBlank
      | @lexeme _ _ tail _ d shape span hSpace hHead hBegin hScan =>
          have hText : blanks ++ d :: tail ++ second ++ rest =
              blanks ++ d :: (tail ++ second ++ rest) := by simp
          rw [hText] at hPrefix
          have hLength := length_le_of_blanks
            (List.all_eq_true.2 fun e he => isBlank_iff.2 (hGap e he)) hHead hPrefix
          rw [List.length_cons] at hLength
          have hBegins : blanks ≠ [] := by
            rintro rfl
            rw [List.length_nil] at hLength
            omega
          rcases List.mem_cons.1 hMem with rfl | hLater
          · -- The token is a line end or a comment, since there are blanks in front of it.
            rcases (hBegin rfl).1 with hNone | rfl | rfl
            · exact absurd hNone hBegins
            · exact absurd rfl hNoEnd
            · exact absurd rfl hNoComment
          · have hStarts := (Lexed.ordered (first ++ blanks ++ d :: tail)
              (by rw [Place.advance_append, Place.advance_append]; exact hMore) rest).1 t hLater
            have hSource : first ++ blanks ++ d :: tail ++ second ++ rest =
                first ++ (blanks ++ d :: tail ++ second) ++ rest := by simp
            rw [hSource] at hStarts
            simp only [List.length_append, List.length_cons] at hStarts
            rw [start] at hBehind
            omega

theorem ofLexeme_kind_eq_comment (shape : Shape) (lexeme : List Char) (span : Span) :
    (ofLexeme shape lexeme span).kind = .comment ↔ shape = .comment := by
  cases shape with
  | number =>
      rw [ofLexeme]
      split <;> simp
  | _ => simp [ofLexeme, bare]

/-- Within a line, a token stands where the text goes on with anything but a blank. -/
theorem Lexed.exists_content {c : Char} (h : Lexed rest false place text w true)
    (hText : text ++ rest = c :: front) (hHead : isBlank c = false)
    (hShape : (scan (c :: front)).1 ≠ .newline ∧ (scan (c :: front)).1 ≠ .comment) :
    ∃ next others, w = next :: others ∧ next.span.start = place ∧
      next.kind ∉ [.lineEnd, .comment, .indent, .skipped, .endOfInput] := by
  cases h with
  | @cons _ within _ _ gap body text token w hPiece hSpan hMore =>
      refine ⟨token, w, rfl, ?_⟩
      generalize hRest : text ++ rest = behind at hPiece
      rw [List.append_assoc, List.append_assoc, hRest] at hText
      cases hPiece with
      | @lexeme _ _ tail _ d shape span hBlanks hFirst hStart hScan =>
          obtain rfl : gap = [] := by
            cases gap with
            | nil => rfl
            | cons e gap =>
                obtain ⟨rfl, -⟩ := List.cons.inj hText
                simp [hHead] at hBlanks
          rw [List.nil_append] at hText
          rw [← hText, hScan] at hShape
          obtain ⟨hEnd, hIndent, hSkipped⟩ := ofLexeme_kind_ne shape (d :: tail) span
          refine ⟨by rw [hSpan]; rfl, ?_⟩
          simp [ofLexeme_kind_eq_lineEnd, ofLexeme_kind_eq_comment, hShape, hEnd, hIndent, hSkipped]
      | close hBlanks =>
          rw [List.append_nil, List.append_nil] at hText
          rw [hText] at hBlanks
          simp [hHead] at hBlanks

/-- Behind an indentation, there is something on the line. -/
theorem Lexed.content {v u : List Token} (h : Lexed rest true .origin text (v ++ token :: u) true)
    (hKind : token.kind = .indent) :
    IsIndented (text ++ rest) (v ++ token :: u) (start (text ++ rest) token) ∧
      ∃ next others, u = next :: others ∧
        next.kind ∉ [.lineEnd, .comment, .indent, .skipped, .endOfInput] := by
  obtain ⟨-, first, body, second, within, rfl, hStart, -, hPiece, hMore⟩ := h.layout (.inl hKind)
  generalize hBehind : second ++ rest = behind at hPiece
  cases hPiece with
  | indent hBlanks hSome hHead hShape =>
      obtain ⟨next, others, rfl, hNext, hContent⟩ := hMore.exists_content hBehind hHead hShape
      have hSource : first ++ (body ++ second) ++ rest = first ++ body ++ (second ++ rest) := by
        simp
      refine ⟨⟨body, next, hSome, fun c hc => isBlank_iff.1 (List.all_eq_true.1 hBlanks c hc), ?_,
        by simp, ?_, ?_, ?_⟩, next, others, rfl, hContent⟩
      · rw [hStart, hSource, List.append_assoc, List.drop_left]
        exact List.prefix_append body _
      · have hOffset : start (first ++ (body ++ second) ++ rest) next =
            next.span.start.offset (first ++ (body ++ second) ++ rest) := rfl
        rw [hStart, hOffset, hNext, hSource, Place.offset_advance, List.length_append]
      · exact fun hEnd => hContent (by simp [hEnd])
      · exact fun hComment => hContent (by simp [hComment])
  | heading => cases hKind
  | lexeme => exact absurd hKind (ofLexeme_kind_ne _ _ _).2.1

/-- A heading begins with a star. -/
theorem Lexed.star_of_heading {v u : List Token}
    (h : Lexed rest true .origin text (v ++ token :: u) true) (hKind : token.kind = .skipped) :
    (text ++ rest)[start (text ++ rest) token]? = some '*' := by
  obtain ⟨-, first, body, second, within, rfl, hStart, -, hPiece, -⟩ := h.layout (.inr hKind)
  rw [hStart]
  generalize second ++ rest = behind at hPiece
  cases hPiece with
  | indent => cases hKind
  | heading => simp
  | lexeme => exact absurd hKind (ofLexeme_kind_ne _ _ _).2.2

end

/-! ## The tokens of a text -/

/-- At the end of a text, the supply stays. -/
theorem supply_nil (span : Span) (count : Nat) :
    supply span count [] = List.replicate count (endOfInput span) := by
  induction count with
  | zero => rfl
  | succ count ih => rw [supply, ih, List.replicate_succ]

/-- Behind the other tokens, the end of the text is supplied over and over. -/
theorem supply_append {w : List Token} (h : ∀ t ∈ w, t.kind ≠ .endOfInput) (stop span : Span)
    (count : Nat) : supply stop count (w ++ [endOfInput span]) =
      w.take count ++ List.replicate (count - w.length) (endOfInput span) := by
  induction w generalizing stop count with
  | nil =>
      cases count with
      | zero => rfl
      | succ count =>
          have hEnd : (endOfInput span).kind = .endOfInput := rfl
          rw [List.nil_append, supply, if_pos hEnd, List.take_nil, List.nil_append, List.length_nil,
            Nat.sub_zero, List.replicate_succ]
          exact congrArg _ (supply_nil span count)
  | cons t w ih =>
      obtain ⟨hFirst, hOthers⟩ := List.forall_mem_cons.1 h
      cases count with
      | zero =>
          rw [Nat.zero_sub]
          rfl
      | succ count =>
          rw [List.cons_append, supply, if_neg hFirst, ih hOthers, List.take_succ_cons,
            List.length_cons, Nat.add_sub_add_right, List.cons_append]

/-- The tokens of a text go by its lines, and the end of the text is supplied over and over. -/
theorem tokens_lines (source : String) :
    ∃ (w : List Token) (last : Token), tokens source = w ++ [last] ∧ last.kind = .endOfInput ∧
      (∀ t ∈ w, t.kind ≠ .endOfInput) ∧
      (∀ count, supply .origin count (tokens source) =
        w.take count ++ List.replicate (count - w.length) last) ∧
      Lines source.toList w := by
  obtain ⟨text, blanks, w, hText, hBlanks, hLexed, hTokens⟩ := exists_tokens source
  have hKinds := hLexed.kind_ne_endOfInput
  have hAfter := hLexed.after_eq
  have hStarts := Lexed.starts_pairwise [] hLexed
  rw [List.nil_append] at hStarts
  refine ⟨w, _, hTokens, rfl, hKinds, fun count => by rw [hTokens, supply_append hKinds], ?_⟩
  rw [hText]
  refine ⟨?_, hStarts, fun p => ⟨?_, fun h => hLexed.exists_indent hBlanks h.1 h.2⟩,
    fun p => ⟨?_, fun h => hLexed.exists_heading hBlanks h.1 h.2⟩, ?_, ?_⟩
  · cases hLast : w.getLast? with
    | none => exact .inl (List.getLast?_eq_none_iff.1 hLast)
    | some last =>
        rw [hLast] at hAfter
        exact .inr ⟨last, rfl, of_decide_eq_true hAfter.symm⟩
  · rintro ⟨t, ht, hKind, rfl⟩
    obtain ⟨front, back, rfl⟩ := List.append_of_mem ht
    exact ⟨hLexed.isLineStart (.inl hKind), (hLexed.content hKind).1⟩
  · rintro ⟨t, ht, hKind, rfl⟩
    obtain ⟨front, back, rfl⟩ := List.append_of_mem ht
    exact ⟨hLexed.isLineStart (.inr hKind), hLexed.star_of_heading hKind⟩
  · rintro front t back rfl hKind
    exact (hLexed.layout hKind).1
  · rintro front t back rfl hKind
    exact (hLexed.content hKind).2

end LedgerText.Token
