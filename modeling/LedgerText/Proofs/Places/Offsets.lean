import LedgerText.Proofs.Lexing.Lossless

/-!
# Places and offsets

A place is found in a text by going through the characters until one stands at
the place or behind it. So an offset is the first one that is not in front of the
place, which is all there is to say of it (`Place.offset_le_iff`): offsets are in
the order of their places, whether the text has these places or not, and the
offset of a place that the text has is the number of characters in front of it.

Tokens count their places while they are cut off the text, each from where the
one before it has ended. Both ways of counting agree on every token
(`locates_chars`).
-/

namespace LedgerText

namespace Place

/-! ## Offsets -/

/-- As far as an offset the text ends, or stands at the place or behind it. -/
theorem offsetFrom_le_iff (here p : Place) (text : List Char) (i : Nat) :
    offsetFrom here p text ≤ i ↔ text.length ≤ i ∨ p ≤ here.advance (text.take i) := by
  induction text generalizing here i with
  | nil => exact iff_of_true (Nat.zero_le i) (.inl (Nat.zero_le i))
  | cons c rest ih =>
      rw [offsetFrom]
      by_cases hReached : p ≤ here
      · rw [if_pos hReached]
        exact iff_of_true (Nat.zero_le i) (.inr (le_trans hReached (here.le_advance _)))
      · rw [if_neg hReached]
        cases i with
        | zero =>
            rw [List.length_cons, List.take_zero, advance_nil]
            exact iff_of_false (Nat.not_succ_le_zero _) fun h =>
              h.elim (Nat.not_succ_le_zero _) hReached
        | succ j =>
            rw [List.length_cons, List.take_succ_cons, advance_cons, Nat.succ_le_succ_iff,
              Nat.succ_le_succ_iff]
            exact ih (here.after c) j

theorem offset_le_iff (p : Place) (text : List Char) (i : Nat) :
    p.offset text ≤ i ↔ text.length ≤ i ∨ p ≤ origin.advance (text.take i) :=
  offsetFrom_le_iff origin p text i

theorem offset_le_length (p : Place) (text : List Char) : p.offset text ≤ text.length :=
  (offset_le_iff p text _).2 (.inl (Nat.le_refl _))

/-- The offsets of places are in the order of the places. -/
theorem offset_mono {p q : Place} (h : p ≤ q) (text : List Char) : p.offset text ≤ q.offset text :=
  (offset_le_iff p text _).2
    (((offset_le_iff q text _).1 (Nat.le_refl _)).imp_right fun hq => le_trans h hq)

/-- The place in front of a character has as its offset the index of the character. -/
theorem offset_advance_take {text : List Char} {i : Nat} (h : i ≤ text.length) :
    (origin.advance (text.take i)).offset text = i := by
  have hOffset := offset_advance (text.take i) (text.drop i)
  rwa [List.take_append_drop, List.length_take_of_le h] at hOffset

example : (⟨2, 4⟩ : Place).offset "ab\ncd\u00e9\nf".toList = 6 := by decide

end Place

/-- The characters of a span are some of the text, in their order. -/
theorem Span.charRange_le_length (s : Span) (text : List Char) :
    (s.charRange text).stop ≤ text.length :=
  Nat.max_le.2 ⟨Place.offset_le_length _ _, Place.offset_le_length _ _⟩

namespace Token

/-! ## The characters of a token -/

/-- Behind `front`, a token was made of `body`. The blanks `gap` in front of it were passed over,
and what is left of the text was cut into the tokens behind it. -/
def MadeOf (token : Token) (later : List Token) (front gap body rest : List Char) : Prop :=
  ∃ before after, Piece before gap body rest token after ∧
    tokensFrom before (.advance .origin front) (gap ++ body ++ rest) = token :: later ∧
      tokensFrom after (.advance .origin (front ++ gap ++ body)) rest = later

variable {source : String} {earlier later : List Token} {token : Token}

/-- Every token of a text was made of some of its characters, and has the places of these. -/
theorem exists_madeOf (h : tokens source = earlier ++ token :: later)
    (hKind : token.kind ≠ .endOfInput) :
    ∃ front gap body rest, source.toList = front ++ gap ++ body ++ rest ∧
      token.MadeOf later front gap body rest ∧
        token.span = spanAt (Place.origin.advance front) gap body := by
  obtain ⟨text, blanks, w, hText, hBlanks, hLexed, hTokens⟩ := exists_tokens source
  rcases List.eq_nil_or_concat later with rfl | ⟨others, last, rfl⟩
  · -- The last token is the one for the end.
    obtain ⟨-, hLast⟩ := List.append_inj' (hTokens.symm.trans h) rfl
    obtain rfl := List.singleton_inj.1 hLast
    exact absurd rfl hKind
  · rw [List.concat_eq_append, ← List.cons_append, ← List.append_assoc] at h
    obtain ⟨rfl, hLast⟩ := List.append_inj' (hTokens.symm.trans h) rfl
    obtain ⟨front, back, within, rfl, -, hBack⟩ := lexed_append.1 hLexed
    cases hBack with
    | @cons _ after _ _ gap body more _ _ hPiece hSpan hMore =>
        have hLater : tokensFrom after (Place.origin.advance (front ++ gap ++ body))
            (more ++ blanks) = others ++ [last] := by
          have hCut := hMore.cut
          rw [Cut, tokensFrom_blanks hBlanks] at hCut
          rw [← hLast, hText, Place.advance_append, Place.advance_append, hCut]
          simp
        refine ⟨front, gap, body, more ++ blanks, by simp [hText], ⟨within, after, hPiece, ?_, ?_⟩,
          hSpan⟩
        · rw [hPiece.tokensFrom_eq hSpan, List.concat_eq_append, ← hLater, Place.advance_append,
            Place.advance_append]
        · rw [hLater, List.concat_eq_append]

/-- How places and offsets of a text belong together. -/
structure LocatesChars (source : String) : Prop where
  /-- The offset of the place that comes with an index is that index. -/
  offset_place : ∀ i ≤ source.toList.length,
    (Place.origin.advance (source.toList.take i)).offset source.toList = i
  /-- The span of a token covers the characters that the token was made of. -/
  charRange_token : ∀ earlier token later, tokens source = earlier ++ token :: later →
    token.kind ≠ .endOfInput → ∃ front gap body rest,
      source.toList = front ++ gap ++ body ++ rest ∧ token.MadeOf later front gap body rest ∧
        (token.span.charRange source.toList).start = (front ++ gap).length ∧
          (token.span.charRange source.toList).stop = (front ++ gap ++ body).length
  /-- The span of the token for the end covers no characters, behind all others. -/
  charRange_end : ∀ token ∈ tokens source, token.kind = .endOfInput →
    (token.span.charRange source.toList).start = source.toList.length ∧
      (token.span.charRange source.toList).stop = source.toList.length
  /-- The offsets of any places are in the order of the places. -/
  offset_mono : ∀ p q : Place, p ≤ q → p.offset source.toList ≤ q.offset source.toList
  /-- The characters of any span are some of the text. -/
  charRange_le : ∀ s : Span,
    (s.charRange source.toList).start ≤ (s.charRange source.toList).stop ∧
      (s.charRange source.toList).stop ≤ source.toList.length

/-- Offsets take back the places that a text has, tokens cover the characters that they were made
of, and places that the text does not have are put in order with the others. -/
theorem locates_chars (source : String) : LocatesChars source where
  offset_place i hi := Place.offset_advance_take hi
  charRange_token earlier token later h hKind := by
    obtain ⟨front, gap, body, rest, hSource, hMade, hSpan⟩ := exists_madeOf h hKind
    have hRange := Span.charRange_advance (front ++ gap) body rest
    have hLength : (front ++ gap ++ body).length = (front ++ gap).length + body.length :=
      List.length_append
    refine ⟨front, gap, body, rest, hSource, hMade, ?_⟩
    rw [hSpan, spanAt, ← Place.advance_append, ← Place.advance_append, hSource, hRange, hLength]
    exact ⟨rfl, rfl⟩
  charRange_end token hMem hKind := by
    obtain ⟨text, blanks, w, -, -, hLexed, hTokens⟩ := exists_tokens source
    rw [hTokens, List.mem_append, List.mem_singleton] at hMem
    obtain rfl := hMem.resolve_left fun hLexical => hLexed.kind_ne_endOfInput token hLexical hKind
    have hRange := Span.charRange_advance source.toList [] []
    simp only [List.append_nil] at hRange
    show ((Span.mk _ _).charRange _).start = _ ∧ ((Span.mk _ _).charRange _).stop = _
    rw [hRange]
    exact ⟨rfl, Nat.add_zero _⟩
  offset_mono _ _ h := Place.offset_mono h _
  charRange_le s := ⟨(s.charRange source.toList).start_le_stop, s.charRange_le_length _⟩

end Token

end LedgerText
