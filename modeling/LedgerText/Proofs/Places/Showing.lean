import LedgerText.Proofs.Lexing.Lossless

/-!
# Places as they are shown

Readers are shown places that are found by counting characters, and lines by
more terminators than the line feed (`Lines.locate`). In a text whose lines are
plain, the two ways of counting agree on every place but one: where a text ends
in a line feed, its end is shown on the line before (`Place.IsShown`,
`Place.locate_offset`).

Tokens begin at places that are shown (`Token.isShown_of_split`). The line end
that the last line gets is the one to be careful about. It stands behind a line
feed only where the characters in front of it are no token: a literal that does
not end.
-/

namespace LedgerText

/-! ## Plain lines -/

namespace Lines

/-- The lines of a text end in line feeds, some of them with a carriage return in front, and there
is nothing else in the text that ends a line. -/
def Plain : List Char → Prop
  | [] => True
  | c :: rest =>
      (isTerminator c = true → c = '\n' ∨ c = '\r' ∧ rest.head? = some '\n') ∧ Plain rest

instance decidablePlain : (text : List Char) → Decidable (Plain text)
  | [] => inferInstanceAs (Decidable True)
  | c :: rest =>
      have : Decidable (Plain rest) := decidablePlain rest
      inferInstanceAs (Decidable
        ((isTerminator c = true → c = '\n' ∨ c = '\r' ∧ rest.head? = some '\n') ∧ Plain rest))

variable {c : Char} {front back rest : List Char}

/-- In a plain text, lines begin behind line feeds, unless nothing follows. -/
theorem breaksBefore_eq (h : Plain (c :: rest)) (hRest : c = '\n' → rest ≠ []) :
    breaksBefore c rest = decide (c = '\n') := by
  by_cases hFeed : c = '\n'
  · subst hFeed
    simp [breaksBefore, isTerminator, hRest rfl]
  · rw [decide_eq_false hFeed]
    by_cases hEnds : isTerminator c = true
    · obtain ⟨rfl, hNext⟩ := (h.1 hEnds).resolve_left hFeed
      simp [breaksBefore, hNext]
    · simp [breaksBefore, hEnds]

/-- The place behind the front of a plain text is the one that is shown there. -/
theorem locateFrom_advance (h : Plain (front ++ back))
    (hEnd : back = [] → front.getLast? ≠ some '\n') (here : Place) :
    locateFrom here front.length (front ++ back) = here.advance front := by
  induction front generalizing here with
  | nil =>
      rw [List.length_nil, locateFrom]
      rfl
  | cons c front ih =>
      have hBreaks : breaksBefore c (front ++ back) = decide (c = '\n') := by
        refine breaksBefore_eq h fun hFeed hNone => ?_
        obtain ⟨rfl, rfl⟩ := List.append_eq_nil_iff.1 hNone
        exact hEnd rfl (congrArg some hFeed)
      have hMore : back = [] → front.getLast? ≠ some '\n' := fun hNone hLast =>
        hEnd hNone (by rw [List.getLast?_cons, hLast]; rfl)
      rw [List.length_cons, List.cons_append, locateFrom, hBreaks, ih h.2 hMore, Place.advance_cons,
        Place.after]
      simp only [decide_eq_true_eq]

end Lines

namespace Place

variable {source : List Char} {p : Place}

/-- A place that readers are shown as it is: in front of a character, or at the end of a text that
does not end in a line feed. -/
def IsShown (source : List Char) (p : Place) : Prop :=
  ∃ front back, source = front ++ back ∧ p = origin.advance front ∧
    (back = [] → source.getLast? ≠ some '\n')

/-- As many characters in, a plain text is shown to be at the same place. -/
theorem locate_offset (hPlain : Lines.Plain source) (h : p.IsShown source) :
    Lines.locate (p.offset source) source = p := by
  obtain ⟨front, back, rfl, rfl, hEnd⟩ := h
  rw [offset_advance, Lines.locate, Lines.locateFrom_advance hPlain]
  rintro rfl
  rw [List.append_nil] at hEnd
  exact hEnd rfl

end Place

/-! ## Where tokens begin -/

namespace Token

open Lexeme

variable {source : String} {before : Bool} {place : Place} {gap text : List Char}
  {front back w : List Token} {token : Token}

theorem getLast?_ne_of_blanks (hBlanks : gap.all isBlank = true) : gap.getLast? ≠ some '\n' :=
  fun hLast => not_mem_of_blanks hBlanks (List.mem_of_getLast? hLast)

/-- A text that ends in a line feed, and still goes on with its last line, ends in an error. -/
theorem Lexed.error_of_newline (h : Lexed [] true place text w false)
    (hLine : text.getLast? = some '\n') : ∃ other ∈ w.getLast?, other.kind = .error := by
  rcases List.eq_nil_or_concat w with rfl | ⟨others, other, rfl⟩
  · cases h
  · rw [List.concat_eq_append] at h ⊢
    obtain ⟨earlier, later, within, rfl, -, hLast⟩ := lexed_append.1 h
    refine ⟨other, List.getLast?_concat, Classical.byContradiction fun hKind => ?_⟩
    cases hLast with
    | @cons _ _ _ _ gap body _ _ _ hPiece hSpan hMore =>
        cases hMore
        have hEnd : ∀ c ∈ (gap ++ body).getLast?, c = '\n' := by
          intro c hc
          rw [List.append_nil] at hLine
          rw [getLast?_append_of_mem hc] at hLine
          exact Option.some.inj hLine
        exact Bool.false_ne_true (hPiece.after_of_newline hKind hEnd)

/-- If the last line is still to be ended behind a token, the text does not end in a line feed. -/
theorem Lexed.getLast?_ne (h : Lexed gap true place text w false)
    (hGap : gap.all isBlank = true) (hError : ∀ other ∈ w.getLast?, other.kind ≠ .error) :
    (text ++ gap).getLast? ≠ some '\n' := by
  intro hLine
  by_cases hNone : gap = []
  · subst hNone
    rw [List.append_nil] at hLine
    obtain ⟨other, hOther, hKind⟩ := h.error_of_newline hLine
    exact hError other hOther hKind
  · rw [List.getLast?_append_of_ne_nil _ hNone] at hLine
    exact getLast?_ne_of_blanks hGap hLine

/-- A token begins at a place that is shown, unless it is for the end of a text that has others, or
for a line end that is missing behind an error. -/
theorem isShown_of_split (h : tokens source = front ++ token :: back)
    (hEnd : token.kind = .endOfInput → front = [])
    (hLine : token.kind = .lineEnd → ∀ other ∈ front.getLast?, other.kind ≠ .error) :
    token.span.start.IsShown source.toList := by
  obtain ⟨text, blanks, w, hText, hBlanks, hLexed, hTokens⟩ := exists_tokens source
  rcases List.eq_nil_or_concat back with rfl | ⟨others, last, rfl⟩
  · -- The token for the end is the only one, so all of the text is blank.
    obtain ⟨rfl, hLast⟩ := List.append_inj' (hTokens.symm.trans h) rfl
    obtain rfl := List.singleton_inj.1 hLast
    obtain rfl := hEnd rfl
    cases hLexed
    refine ⟨source.toList, [], (List.append_nil _).symm, rfl, fun _ => ?_⟩
    rw [hText]
    exact getLast?_ne_of_blanks hBlanks
  · rw [List.concat_eq_append, ← List.cons_append, ← List.append_assoc] at h
    obtain ⟨rfl, -⟩ := List.append_inj' (hTokens.symm.trans h) rfl
    obtain ⟨earlier, later, within, rfl, hFront, hBack⟩ := lexed_append.1 hLexed
    cases hBack with
    | @cons _ _ _ _ gap body more _ _ hPiece hSpan hMore =>
        refine ⟨earlier ++ gap, body ++ (more ++ blanks), by simp [hText], ?_, fun hNone => ?_⟩
        · rw [hSpan, Place.advance_append]
          rfl
        · -- Where no character follows, only a missing line end can be left.
          obtain ⟨rfl, hRest⟩ := List.append_eq_nil_iff.1 hNone
          obtain ⟨rfl, rfl⟩ := List.append_eq_nil_iff.1 hRest
          cases hPiece with
          | close hGap =>
              simp only [List.append_nil] at hText hFront
              rw [hText]
              exact hFront.getLast?_ne hGap (hLine rfl)

end Token

end LedgerText
