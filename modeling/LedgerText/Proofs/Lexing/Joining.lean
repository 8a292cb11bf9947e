import LedgerText.Proofs.Lexing.Longest

/-!
# Joining texts at a line end

The tokens of two texts, one behind the other, are those of the first and then
those of the second, on later lines, if the first text is empty or ends a line
and has no error (`tokens_append`).

Of all lexemes, only string literals go on behind a line feed (`avoids_newline`),
and one that has not ended yet is an error. So what is read of the first text is
read in front of the second as well (`scan_append`), and behind its last token a
line begins, as at the start of a text.
-/

namespace LedgerText

open Lexeme
open scoped Computability

/-! ## Line breaks in lexemes -/

namespace Pattern

/-- No text of the language has the character. -/
def Avoids (b : Char) (L : Language Char) : Prop := ∀ w ∈ L, b ∉ w

section

variable {b : Char} {L M : Language Char}

theorem avoids_one {s : Set Char} (h : b ∉ s) : Avoids b (one s) := by
  rintro w ⟨c, hc, rfl⟩ hMem
  rw [List.mem_singleton] at hMem
  exact h (hMem ▸ hc)

theorem avoids_word {text : String} (h : b ∉ text.toList) : Avoids b (word text) := by
  rintro w rfl
  exact h

theorem Avoids.mul (hL : Avoids b L) (hM : Avoids b M) : Avoids b (L * M) := by
  rintro w ⟨v, hv, x, hx, rfl⟩ hMem
  rcases List.mem_append.1 hMem with hFirst | hSecond
  · exact hL v hv hFirst
  · exact hM x hx hSecond

theorem Avoids.add (hL : Avoids b L) (hM : Avoids b M) : Avoids b (L + M) := by
  rintro w (hw | hw)
  · exact hL w hw
  · exact hM w hw

theorem Avoids.kstar (hL : Avoids b L) : Avoids b L∗ := by
  intro w hw hMem
  obtain ⟨texts, rfl, hTexts⟩ := Language.mem_kstar.1 hw
  obtain ⟨t, ht, hLine⟩ := List.mem_flatten.1 hMem
  exact hL t (hTexts t ht) hLine

theorem Avoids.pow (hL : Avoids b L) (n : Nat) : Avoids b (L ^ n) := by
  intro w hw hMem
  obtain ⟨texts, rfl, -, hTexts⟩ := Language.mem_pow.1 hw
  obtain ⟨t, ht, hLine⟩ := List.mem_flatten.1 hMem
  exact hL t (hTexts t ht) hLine

theorem Avoids.maybe (hL : Avoids b L) : Avoids b (maybe L) := by
  intro w hw
  rcases mem_maybe.1 hw with rfl | hMem
  · exact List.not_mem_nil
  · exact hL w hMem

theorem Avoids.several (hL : Avoids b L) : Avoids b (several L) := hL.mul hL.kstar

end

/-- Only string literals and line ends have characters that are not of a line. -/
theorem avoids_lineBreak {p : Pattern} {b : Char} (hString : p ≠ .string) (hNewline : p ≠ .newline)
    (hBreak : isLineChar b = false) : Avoids b p.language := by
  have hEither : b = '\n' ∨ b = '\r' := eq_of_lineBreak hBreak
  have hClass {q : Char → Prop} {s : Set Char} (hs : ∀ {c}, q c ↔ c ∈ s)
      (hFeed : ¬ q '\n') (hReturn : ¬ q '\r') : Avoids b (one s) := by
    refine avoids_one fun hMem => ?_
    rcases hEither with rfl | rfl
    · exact hFeed (hs.2 hMem)
    · exact hReturn (hs.2 hMem)
  have hWord {text : String} (h : text.toList.all isLineChar = true) : Avoids b (word text) :=
    avoids_word fun hMem =>
      Bool.false_ne_true (hBreak.symm.trans (List.all_eq_true.1 h b hMem))
  have hDigit : Avoids b digit := hClass Iff.rfl (by decide) (by decide)
  have hGrouped : Avoids b grouped :=
    (((hDigit.pow 1).add (hDigit.pow 2)).add (hDigit.pow 3)).mul
      ((hWord rfl).mul (hDigit.pow 3)).kstar
  have hSeparator : Avoids b (one (among "-/")) := hClass isSeparator_iff (by decide) (by decide)
  have hUpper : Avoids b (one (upTo 'A' 'Z')) := hClass isUpper_iff (by decide) (by decide)
  have hAccount : Avoids b (one (alphanumeric ∪ among "-")) :=
    hClass isAccountChar_iff (by decide) (by decide)
  have hCurrency : Avoids b (one (upTo 'A' 'Z' ∪ upTo '0' '9' ∪ among "\x27._-")) :=
    hClass isCurrencyChar_iff (by decide) (by decide)
  have hTag : Avoids b (one (alphanumeric ∪ among "_/.-")) :=
    hClass isTagChar_iff (by decide) (by decide)
  have hLine : Avoids b (one (among "\n\r")ᶜ) := hClass isLineChar_iff (by decide) (by decide)
  cases p with
  | date =>
      exact ((((hDigit.pow 4).mul hSeparator).mul (hDigit.pow 2)).mul hSeparator).mul
        (hDigit.pow 2)
  | number =>
      exact ((hWord rfl).maybe.mul (hGrouped.add hDigit.several)).mul
        ((hWord rfl).mul hDigit.several).maybe
  | string => exact absurd rfl hString
  | account =>
      exact (((((hWord rfl).add (hWord rfl)).add (hWord rfl)).add (hWord rfl)).add
        (hWord rfl)).mul (((hWord rfl).mul hUpper).mul hAccount.kstar).several
  | currency => exact hUpper.mul hCurrency.several
  | tag => exact (hWord rfl).mul hTag.several
  | link => exact (hWord rfl).mul hTag.several
  | keyword k => exact hWord (by cases k <;> rfl)
  | mark m => exact hWord (by cases m <;> rfl)
  | star => exact hWord rfl
  | pending => exact hWord rfl
  | flag =>
      refine avoids_one fun hMem => ?_
      have hAll : "PSTCURM?%&".toList.all isLineChar = true := rfl
      exact Bool.false_ne_true (hBreak.symm.trans (List.all_eq_true.1 hAll b hMem))
  | newline => exact absurd rfl hNewline
  | comment => exact (hWord rfl).mul hLine.kstar

/-- Only string literals and line ends have line feeds. -/
theorem avoids_newline {p : Pattern} (hString : p ≠ .string) (hNewline : p ≠ .newline) :
    Avoids '\n' p.language :=
  avoids_lineBreak hString hNewline (by decide)

variable {p : Pattern} {w : List Char}

/-- Apart from string literals, a lexeme ends where its line does. -/
theorem eq_nil_of_newline {front back : List Char} (h : w ∈ p.language) (hString : p ≠ .string)
    (hLine : w = front ++ '\n' :: back) : p = .newline ∧ back = [] := by
  have hMem : '\n' ∈ w := by
    rw [hLine]
    exact List.mem_append_right _ List.mem_cons_self
  have hNewline : p = .newline := by
    by_contra hOther
    exact avoids_newline hString hOther w h hMem
  subst hNewline
  obtain ⟨_, hReturn, _, rfl, hText⟩ := Language.mem_mul.1 h
  refine ⟨rfl, ?_⟩
  rcases mem_maybe.1 hReturn with rfl | rfl
  · have hSame : ['\n'] = front ++ '\n' :: back := hText.trans hLine
    cases front with
    | nil => exact (List.cons.inj hSame).2.symm
    | cons c front => simp at hSame
  · have hSame : ['\r', '\n'] = front ++ '\n' :: back := hText.trans hLine
    match front with
    | [] => cases hSame
    | [c] => exact (List.cons.inj (List.cons.inj hSame).2).2.symm
    | c :: d :: front => simp at hSame

/-- The comma that a number takes along does not end a line. -/
theorem IsTaken.eq_nil_of_newline {input text body front back : List Char}
    (h : IsTaken input text body) (hMem : text ∈ p.language) (hString : p ≠ .string)
    (hLine : body = front ++ '\n' :: back) : p = .newline ∧ back = [] := by
  rcases h.taken with ⟨hBody, -⟩ | ⟨hBody, hGrouped, -⟩
  · exact Pattern.eq_nil_of_newline hMem hString (hBody.symm.trans hLine)
  · have hNumber := number_of_grouped hGrouped
    have hNone : '\n' ∉ body := by
      rw [hBody, List.mem_append, List.mem_singleton, not_or]
      exact ⟨avoids_newline (by decide) (by decide) text hNumber, by decide⟩
    rw [hLine] at hNone
    exact absurd (List.mem_append_right _ List.mem_cons_self) hNone

/-- What is read of a text that begins with no quote is not a literal. -/
theorem IsTaken.ne_string {c : Char} {input text body : List Char}
    (h : IsTaken (c :: input) text body) (hMem : text ∈ p.language) (hQuote : c ≠ '"') :
    p ≠ .string := by
  rintro rfl
  obtain ⟨_, ⟨_, rfl, inner, -, rfl⟩, _, rfl, rfl⟩ := hMem
  obtain ⟨more, hMore⟩ := h.isPrefix
  exact hQuote (List.cons.inj hMore).1.symm

/-- What is read of a text that begins on a line is not a line end. -/
theorem IsTaken.ne_newline {c : Char} {input text body : List Char}
    (h : IsTaken (c :: input) text body) (hMem : text ∈ p.language) (hLine : isLineChar c = true) :
    p ≠ .newline := by
  rintro rfl
  obtain ⟨more, hMore⟩ := h.isPrefix
  obtain ⟨_, hReturn, _, rfl, rfl⟩ := hMem
  rcases mem_maybe.1 hReturn with rfl | rfl
  · obtain rfl : '\n' = c := (List.cons.inj hMore).1
    cases hLine
  · obtain rfl : '\r' = c := (List.cons.inj hMore).1
    cases hLine

/-- A literal begins and ends with a quote, and takes nothing else along. -/
theorem IsTaken.exists_quoted {input text body : List Char} (h : IsTaken input text body)
    (hMem : text ∈ Pattern.string.language) :
    ∃ inner, body = '"' :: (inner ++ ['"']) := by
  rcases h.taken with ⟨rfl, -⟩ | ⟨-, hGrouped, -⟩
  · obtain ⟨_, ⟨_, rfl, inner, -, rfl⟩, _, rfl, rfl⟩ := hMem
    exact ⟨inner, rfl⟩
  · cases eq_of_mem hMem (number_of_grouped hGrouped)

end Pattern

/-! ## Scanning in front of another text -/

namespace Lexeme

open Pattern

/-- A literal that has ended goes on no further. -/
theorem literal_append_of_closed {text : List Char} (h : (literal text).1 = true)
    (back : List Char) : literal (text ++ back) = literal text := by
  obtain ⟨body, hBody, hTake⟩ := exists_body h
  have hText : text = body ++ '"' :: text.drop (literal text).2 := by
    conv => lhs; rw [← List.take_append_drop (literal text).2 text, hTake]
    simp
  have hWhole : text ++ back = body ++ '"' :: (text.drop (literal text).2 ++ back) := by
    conv => lhs; rw [hText]
    simp
  conv => rhs; rw [hText]
  rw [hWhole, literal_append hBody, literal_append hBody]

/-- Up to a line feed, the same lexeme is read whatever stands behind it, unless it is an error. -/
theorem scan_append {text : List Char} (hKnown : (scan text).1 ≠ .unknown)
    (hLine : text.getLast? = some '\n') (back : List Char) : scan (text ++ back) = scan text := by
  have hText : text ≠ [] := by
    rintro rfl
    cases hLine
  obtain ⟨c, rest, hCons⟩ := List.exists_cons_of_ne_nil hText
  by_cases hQuote : c = '"'
  · subst hQuote
    subst hCons
    rw [scan_eq, classed?_of_head (by decide), Option.getD_none, unclassed_quote] at hKnown
    have hClosed : (literal rest).1 = true := by
      by_contra hOpen
      rw [if_neg hOpen] at hKnown
      exact hKnown rfl
    rw [scan_eq, scan_eq, List.cons_append, classed?_of_head (by decide),
      classed?_of_head (by decide), Option.getD_none, Option.getD_none, unclassed_quote,
      unclassed_quote, literal_append_of_closed hClosed]
  · have hBehind : (scan (text ++ back)).1 ≠ .unknown := by
      obtain ⟨p, longest, -, hMem, hTaken⟩ := exists_isTaken hText hKnown
      exact fun hNone => not_isMatch_of_scan hNone longest
        (hTaken.isPrefix.trans (List.prefix_append text back)) ⟨p, hMem⟩
    obtain ⟨p, longest, -, hMem, hTaken⟩ :=
      exists_isTaken (List.append_ne_nil_of_left_ne_nil hText back) hBehind
    have hString : p ≠ .string := by
      rw [hCons] at hTaken
      exact hTaken.ne_string hMem hQuote
    refine (scan_of_append hBehind ?_).symm
    by_contra hLong
    -- A longer lexeme would have the line feed within it.
    obtain ⟨init, hInit⟩ := List.getLast?_eq_some_iff.1 hLine
    have hTake : (text ++ back).take (scan (text ++ back)).2 =
        init ++ '\n' :: back.take ((scan (text ++ back)).2 - text.length) := by
      rw [List.take_append, List.take_of_length_le (by omega)]
      conv => lhs; lhs; rw [hInit]
      simp
    have hNone := (hTaken.eq_nil_of_newline hMem hString hTake).2
    have hEnd := (scan_bounds (List.append_ne_nil_of_left_ne_nil hText back)).2
    rw [List.take_eq_nil_iff] at hNone
    rw [List.length_append] at hEnd
    rcases hNone with hZero | rfl
    · omega
    · rw [List.length_nil] at hEnd
      omega

/-- A lexeme that ends with a line feed is a line end. -/
theorem shape_of_newline {body rest : List Char} {shape : Shape} (hSome : body ≠ [])
    (hScan : scan (body ++ rest) = (shape, body.length)) (hKnown : shape ≠ .unknown)
    (hLine : body.getLast? = some '\n') : shape = .newline := by
  obtain ⟨init, hInit⟩ := List.getLast?_eq_some_iff.1 hLine
  obtain ⟨p, longest, hShape, hMem, hTaken⟩ := exists_isTaken_of_scan hSome hScan hKnown
  have hString : p ≠ .string := by
    rintro rfl
    obtain ⟨inner, hInner⟩ := hTaken.exists_quoted hMem
    rw [hInner, ← List.cons_append, List.getLast?_concat] at hLine
    cases hLine
  obtain ⟨rfl, -⟩ := hTaken.eq_nil_of_newline hMem hString hInit
  exact hShape.symm

end Lexeme

/-! ## Later lines -/

/-- A place, as many lines further down. -/
def Place.lower (lines : Nat) (p : Place) : Place := ⟨p.line + lines, p.column⟩

/-- A span, as many lines further down. -/
def Span.lower (lines : Nat) (s : Span) : Span := ⟨s.start.lower lines, s.stop.lower lines⟩

namespace Place

theorem after_lower (lines : Nat) (p : Place) (c : Char) :
    (p.lower lines).after c = (p.after c).lower lines := by
  unfold after
  split
  · exact congrArg (Place.mk · 1) (Nat.add_right_comm _ _ _)
  · rfl

theorem advance_lower (lines : Nat) (p : Place) (text : List Char) :
    (p.lower lines).advance text = (p.advance text).lower lines := by
  induction text generalizing p with
  | nil => rfl
  | cons c text ih => rw [advance_cons, advance_cons, after_lower, ih]

/-- Behind a line feed a line begins, as many lines further down as there are line feeds. -/
theorem advance_of_newline {text : List Char} (h : ∀ c ∈ text.getLast?, c = '\n') :
    origin.advance text = origin.lower (text.count '\n') := by
  have hFrom : ∀ (text : List Char) (p : Place), (∀ c ∈ text.getLast?, c = '\n') → text ≠ [] →
      p.advance text = ⟨p.line + text.count '\n', 1⟩ := by
    intro text
    induction text with
    | nil => exact fun p _ hNil => absurd rfl hNil
    | cons c text ih =>
        intro p hLast _
        cases text with
        | nil =>
            cases hLast c rfl
            rfl
        | cons d text =>
            have hMore := ih (p.after c) (fun e he => hLast e (by rwa [List.getLast?_cons_cons]))
              (List.cons_ne_nil _ _)
            rw [advance_cons, hMore]
            by_cases hLine : c = '\n'
            · rw [hLine, after, if_pos rfl, List.count_cons_self]
              exact congrArg (Place.mk · 1) (Nat.add_right_comm _ _ _)
            · rw [after, if_neg hLine, List.count_cons_of_ne hLine]
  cases text with
  | nil => rfl
  | cons c text => rw [hFrom (c :: text) origin h (List.cons_ne_nil _ _)]; rfl

end Place

namespace Token

section

variable {before within after : Bool} {place : Place} {front gap body text rest : List Char}
  {token : Token} {w : List Token}

theorem spanAt_lower (lines : Nat) (place : Place) (gap body : List Char) :
    spanAt (place.lower lines) gap body = (spanAt place gap body).lower lines := by
  rw [spanAt, Place.advance_lower, Place.advance_lower]
  rfl

/-- The tokens of a text further down are the same, further down. -/
theorem Lexed.lower (h : Lexed rest before place text w after) (lines : Nat) :
    Lexed rest before (place.lower lines) text (w.map (moved (Span.lower lines))) after := by
  induction h with
  | nil => exact .nil
  | cons hPiece hSpan hMore ih =>
      refine .cons (hPiece.placed _) ?_ ?_
      · rw [spanAt_lower, ← hSpan]
        rfl
      · rw [Place.advance_lower, Place.advance_lower]
        exact ih

theorem tokensFrom_lower (lines : Nat) (before : Bool) (place : Place) (text : List Char) :
    tokensFrom before (place.lower lines) text =
      (tokensFrom before place text).map (moved (Span.lower lines)) := by
  obtain ⟨front, blanks, w, rfl, hBlanks, hLexed⟩ := exists_lexed before place text
  have hCut := hLexed.cut
  have hLower := (hLexed.lower lines).cut
  rw [Cut] at hCut hLower
  rw [hCut, hLower, tokensFrom_blanks hBlanks, tokensFrom_blanks hBlanks, Place.advance_lower,
    Place.advance_lower, List.map_append]
  rfl

/-! ## Tokens in front of another text -/

theorem getLast?_append_of_mem {c : Char} (h : c ∈ text.getLast?) :
    c ∈ (front ++ text).getLast? := by
  rw [Option.mem_def] at h ⊢
  rw [List.getLast?_append, h]
  rfl

/-- Behind the blanks of a line stands a token, and if it is no error, something is read there. -/
theorem Lexed.scan_of_head {c : Char} (h : Lexed [] false place text w after)
    (hText : text = c :: front) (hHead : isBlank c = false) (hError : ∀ t ∈ w, t.kind ≠ .error) :
    (scan text).1 ≠ .unknown := by
  cases h with
  | nil => cases hText
  | @cons _ _ _ _ gap body text token w hPiece hSpan hMore =>
      rw [List.append_nil] at hPiece
      obtain ⟨rfl, hKnown, -⟩ := hPiece.scan_of_head hText hHead (hError token List.mem_cons_self)
      exact hKnown

/-- A heading does not reach behind its line. -/
theorem getLast?_heading {line : List Char} (h : line.all isLineChar = true) :
    ('*' :: line).getLast? ≠ some '\n' := by
  intro hLast
  rcases List.mem_cons.1 (List.mem_of_getLast? hLast) with hStar | hMem
  · cases hStar
  · exact absurd (List.all_eq_true.1 h '\n' hMem) (by decide)

theorem getLast?_of_ne_nil (h : ∀ c ∈ text.getLast?, c = '\n') (hSome : text ≠ []) :
    text.getLast? = some '\n' := by
  cases hLast : text.getLast? with
  | none => exact absurd (List.getLast?_eq_none_iff.1 hLast) hSome
  | some c => rw [h c hLast]

/-- Blanks do not end a line. -/
theorem eq_nil_of_blanks (hBlanks : gap.all isBlank = true) (hLine : ∀ c ∈ gap.getLast?, c = '\n') :
    gap = [] := by
  by_contra hSome
  exact not_mem_of_blanks hBlanks (List.mem_of_getLast? (getLast?_of_ne_nil hLine hSome))

/-- A piece of a text that ends a line is one in front of another text as well. -/
theorem Piece.extended (h : Piece before gap body text token within) (hError : token.kind ≠ .error)
    (hNext : token.kind = .indent → (scan text).1 ≠ .unknown)
    (hStart : gap ++ body ++ text = [] → before = true)
    (hLine : ∀ c ∈ (gap ++ body ++ text).getLast?, c = '\n') (back : List Char) :
    Piece before gap body (text ++ back) token within := by
  cases h with
  | @indent _ rest c span hBlanks hSome hHead hShape =>
      have hLast := getLast?_of_ne_nil (fun d hd => hLine d (getLast?_append_of_mem hd))
        (List.cons_ne_nil c rest)
      have hSame : scan (c :: (rest ++ back)) = scan (c :: rest) := scan_append (hNext rfl) hLast back
      rw [← hSame] at hShape
      exact .indent hBlanks hSome hHead hShape
  | @heading line _ span hRun hEnd =>
      refine .heading hRun ?_
      cases text with
      | nil =>
          rw [List.nil_append, List.append_nil] at hLine
          exact absurd (getLast?_of_ne_nil hLine (List.cons_ne_nil _ _)) (getLast?_heading hRun)
      | cons c text =>
          by_cases hc : isLineChar c = true
          · rw [List.takeWhile_cons_of_pos hc] at hEnd
            cases hEnd
          · exact List.takeWhile_cons_of_neg hc
  | @lexeme _ _ tail _ c shape span hBlanks hHead hBegin hScan =>
      have hKnown : shape ≠ .unknown := by
        rintro rfl
        exact hError rfl
      have hLast : (c :: tail ++ text).getLast? = some '\n' := getLast?_of_ne_nil
        (fun d hd => hLine d (by rw [List.append_assoc]; exact getLast?_append_of_mem hd))
        (List.cons_ne_nil _ _)
      refine .lexeme hBlanks hHead hBegin ?_
      rw [← List.append_assoc, scan_append (by rw [hScan]; exact hKnown) hLast]
      exact hScan
  | close hBlanks =>
      rw [List.append_nil, List.append_nil] at hStart hLine
      -- Without any blanks, nothing would be left to close.
      cases hStart (eq_nil_of_blanks hBlanks hLine)

/-- Behind the last piece of a text that ends a line, a line begins. -/
theorem Piece.after_of_newline (h : Piece before gap body [] token within)
    (hError : token.kind ≠ .error) (hLine : ∀ c ∈ (gap ++ body).getLast?, c = '\n') :
    within = true := by
  generalize hRest : ([] : List Char) = rest at h
  cases h with
  | indent => cases hRest
  | heading hRun hEnd =>
      rw [List.nil_append] at hLine
      exact absurd (getLast?_of_ne_nil hLine (List.cons_ne_nil _ _)) (getLast?_heading hRun)
  | @lexeme _ _ tail _ c shape span hBlanks hHead hBegin hScan =>
      have hKnown : shape ≠ .unknown := by
        rintro rfl
        exact hError rfl
      have hLast := getLast?_of_ne_nil (fun d hd => hLine d (getLast?_append_of_mem hd))
        (List.cons_ne_nil c tail)
      exact decide_eq_true (shape_of_newline (List.cons_ne_nil c tail) hScan hKnown hLast)
  | close => rfl

/-- The tokens of a text that ends a line are the same in front of another text. -/
theorem Lexed.extended (h : Lexed [] before place text w after)
    (hError : ∀ t ∈ w, t.kind ≠ .error) (hStart : text = [] → before = true)
    (hLine : ∀ c ∈ text.getLast?, c = '\n') (back : List Char) :
    Lexed back before place text w after := by
  induction h with
  | nil => exact .nil
  | @cons before within after place gap body text token w hPiece hSpan hMore ih =>
      rw [List.append_nil] at hPiece
      obtain ⟨hFirst, hOthers⟩ := List.forall_mem_cons.1 hError
      have hIndent (hKind : token.kind = .indent) : (scan text).1 ≠ .unknown := by
        cases hPiece with
        | indent hBlanks hSome hHead hShape => exact hMore.scan_of_head rfl hHead hOthers
        | heading => cases hKind
        | lexeme => exact absurd hKind (ofLexeme_kind_ne _ _ _).2.1
        | close => cases hKind
      have hEnd : text = [] → within = true := by
        rintro rfl
        rw [List.append_nil] at hLine
        exact hPiece.after_of_newline hFirst hLine
      exact .cons (hPiece.extended hFirst hIndent hStart hLine back) hSpan
        (ih hOthers hEnd fun c hc => hLine c (getLast?_append_of_mem hc))

end

/-- Where a text ends a line and has no error, the tokens of a text behind it follow its own tokens,
as many lines further down as the first text has. -/
theorem tokens_append {front back : String}
    (hLine : front = "" ∨ front.toList.getLast? = some '\n')
    (hError : ∀ token ∈ tokens front, token.kind ≠ .error) :
    tokens (front ++ back) =
      (tokens front).takeWhile (fun token => decide (token.kind ≠ .endOfInput)) ++
        (tokens back).map (moved (Span.lower (front.toList.count '\n'))) := by
  have hLast : ∀ c ∈ front.toList.getLast?, c = '\n' := by
    rcases hLine with rfl | hEnd
    · simp
    · rw [hEnd]
      rintro c ⟨⟩
      rfl
  obtain ⟨text, blanks, w, hText, hBlanks, hLexed, hTokens⟩ := exists_tokens front
  -- A text that ends a line does not end with blanks.
  have hNone : blanks = [] := by
    by_contra hSome
    rw [hText] at hLast
    have hEnd := getLast?_of_ne_nil (fun c hc => hLast c (getLast?_append_of_mem hc)) hSome
    exact absurd (List.all_eq_true.1 hBlanks '\n' (List.mem_of_getLast? hEnd)) (by decide)
  subst hNone
  rw [List.append_nil] at hText
  subst hText
  rw [hTokens, List.forall_mem_append] at hError
  have hKinds := hLexed.kind_ne_endOfInput
  have hCut := (hLexed.extended hError.1 (fun _ => rfl) hLast back.toList).cut
  rw [Cut, Place.advance_of_newline hLast, tokensFrom_lower] at hCut
  have hTake : (tokens front).takeWhile (fun token => decide (token.kind ≠ .endOfInput)) = w := by
    rw [hTokens, List.takeWhile_append_of_pos fun token hMem => decide_eq_true (hKinds token hMem)]
    simp [endOfInput, bare]
  rw [hTake, tokens, String.toList_append, hCut]
  rfl

theorem tokens_append_heading :
    ("* One\n" = "" ∨ "* One\n".toList.getLast? = some '\n') ∧
      (∀ token ∈ tokens "* One\n", token.kind ≠ .error) ∧
      tokens ("* One\n" ++ "pad") =
        (tokens "* One\n").takeWhile (fun token => decide (token.kind ≠ .endOfInput)) ++
          (tokens "pad").map (moved (Span.lower ("* One\n".toList.count '\n'))) := by
  have hLine : "* One\n" = "" ∨ "* One\n".toList.getLast? = some '\n' := .inr rfl
  have hError : ∀ token ∈ tokens "* One\n", token.kind ≠ .error := by decide +kernel
  exact ⟨hLine, hError, tokens_append hLine hError⟩

end Token

end LedgerText
