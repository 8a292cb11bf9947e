import LedgerText.Proofs.Lexing.Parts
import LedgerText.Proofs.RoundTrip.Delimiting

/-!
# String literals

Any text can be written as a string literal, and the literal stands for that
text and nothing else (`literal_standsAlone`). It is one token on one line,
whatever is behind it, and what is behind it is read as if another text had been
written in its place. So no text gets out of its quotes.

That the literal ends where it was ended is `Lexeme.scan_string`. What remains
is that its line breaks are written as escapes (`isLineChar_of_mem_escape`), and
that what tokens say does not depend on where they are (`unplaced_tokensFrom`).
-/

namespace LedgerText

open Lexeme

/-! ## On one line -/

/-- What is escaped has no line breaks. -/
theorem Quoted.isLineChar_of_mem_escape {text : List Char} {c : Char} (h : c ∈ escape text) :
    isLineChar c = true := by
  obtain ⟨d, -, hc⟩ := List.mem_flatMap.1 h
  unfold escapeChar at hc
  split at hc
  case h_6 _ _ hFeed _ hReturn =>
      rw [List.mem_singleton.1 hc]
      exact isLineChar_of_ne hFeed hReturn
  all_goals
    simp only [List.mem_cons, List.not_mem_nil, or_false] at hc
    rcases hc with rfl | rfl <;> decide

theorem Quoted.isLineChar_of_mem_literal {text : String} {c : Char}
    (h : c ∈ (literal text).toList) : isLineChar c = true := by
  rw [toList_literal, List.mem_cons, List.mem_append, List.mem_singleton] at h
  rcases h with rfl | hBody | rfl
  · rfl
  · exact isLineChar_of_mem_escape hBody
  · rfl

namespace Token

/-! ## Wherever it stands -/

/-- A token without its place. -/
abbrev unplaced (token : Token) : Token := moved (fun _ => .origin) token

section

variable {rest text : List Char} {before after : Bool} {place : Place} {w : List Token}

/-- The pieces of a text are the same wherever it stands. -/
theorem Lexed.exists_placed (h : Lexed rest before place text w after) (other : Place) :
    ∃ v, v.map unplaced = w.map unplaced ∧ Lexed rest before other text v after := by
  induction h generalizing other with
  | nil => exact ⟨[], rfl, .nil⟩
  | @cons _ _ _ _ gap body _ token _ hPiece hSpan hMore ih =>
      obtain ⟨v, hSame, hLexed⟩ := ih ((other.advance gap).advance body)
      refine ⟨_ :: v, ?_, .cons (hPiece.placed (spanAt other gap body)) rfl hLexed⟩
      rw [List.map_cons, List.map_cons, hSame]
      rfl

/-- What tokens say does not depend on where they are. -/
theorem unplaced_tokensFrom (before : Bool) (place other : Place) (text : List Char) :
    (tokensFrom before place text).map unplaced = (tokensFrom before other text).map unplaced := by
  obtain ⟨front, blanks, w, rfl, hBlanks, hLexed⟩ := exists_lexed before place text
  obtain ⟨v, hSame, hOther⟩ := hLexed.exists_placed other
  rw [hLexed.cut, hOther.cut, tokensFrom_blanks hBlanks, tokensFrom_blanks hBlanks]
  simp only [List.map_append, hSame]
  rfl

end

/-! ## One token -/

/-- The token that stands for a text where it is written as a string literal. -/
def quoted (text : String) (place : Place) : Token :=
  ⟨.string, .text text, ⟨place, place.line, place.column + (Quoted.literal text).toList.length⟩⟩

/-- Behind blanks and in front of any other text, a literal is one token. -/
theorem tokensFrom_literal {blanks : List Char} (hBlanks : blanks.all isBlank = true)
    (before : Bool) (place : Place) (text : String) (rest : List Char) :
    tokensFrom before place (blanks ++ (Quoted.literal text).toList ++ rest) =
      indent before .string blanks ⟨place, place.advance blanks⟩ ++
        quoted text (place.advance blanks) ::
          tokensFrom false (quoted text (place.advance blanks)).span.stop rest := by
  have hStop : (place.advance blanks).advance (Quoted.literal text).toList =
      (quoted text (place.advance blanks)).span.stop :=
    Place.advance_of_line (fun _ => Quoted.isLineChar_of_mem_literal) _
  rw [tokensFrom_lexeme hBlanks (Quoted.literal_ne_nil text) (scan_string text rest) (by decide)
    fun _ => Shape.noConfusion, ofLexeme_literal, hStop]
  rfl

/-- How the literal of a text is read behind the characters `front` and some blanks, and in front
of `rest`. -/
structure StandsAlone (text : String) (before : Bool) (front blanks rest : List Char) : Prop where
  /-- There are no line breaks in the literal. -/
  inline : ∀ c ∈ (Quoted.literal text).toList, c ≠ '\n' ∧ c ≠ '\r'
  /-- The literal is one token for the text, and the rest is read from its end on. -/
  token : tokensFrom before (Place.origin.advance front)
      (blanks ++ (Quoted.literal text).toList ++ rest) =
    indent before .string blanks
        ⟨Place.origin.advance front, Place.origin.advance (front ++ blanks)⟩ ++
      quoted text (Place.origin.advance (front ++ blanks)) ::
        tokensFrom false (quoted text (Place.origin.advance (front ++ blanks))).span.stop rest
  /-- So it is in a text whose tokens up to there are `w`. -/
  tokens : ∀ w, Cut true before .origin front (blanks ++ (Quoted.literal text).toList ++ rest) w →
    Token.tokens (String.ofList (front ++ (blanks ++ (Quoted.literal text).toList ++ rest))) =
      w ++ (indent before .string blanks
          ⟨Place.origin.advance front, Place.origin.advance (front ++ blanks)⟩ ++
        quoted text (Place.origin.advance (front ++ blanks)) ::
          tokensFrom false (quoted text (Place.origin.advance (front ++ blanks))).span.stop rest)
  /-- The token covers the literal from quote to quote. -/
  chars : (quoted text (Place.origin.advance (front ++ blanks))).span.charRange
      (front ++ (blanks ++ (Quoted.literal text).toList ++ rest)) =
    ⟨(front ++ blanks).length, (front ++ blanks).length + (Quoted.literal text).toList.length,
      Nat.le_add_right _ _⟩
  /-- The text is all that depends on it: the tokens around it say what they always do. -/
  around : (tokensFrom before (Place.origin.advance front)
      (blanks ++ (Quoted.literal text).toList ++ rest)).map unplaced =
    indent before .string blanks .origin ++
      ⟨.string, .text text, .origin⟩ :: (tokensFrom false .origin rest).map unplaced

/-- A text that is written as a string literal is read as one token, with nothing left out and
nothing of what stands around it. -/
theorem literal_standsAlone {blanks : List Char} (hBlanks : blanks.all isBlank = true)
    (text : String) (before : Bool) (front rest : List Char) :
    StandsAlone text before front blanks rest := by
  have hToken := tokensFrom_literal hBlanks before (Place.origin.advance front) text rest
  have hInline : ∀ c ∈ (Quoted.literal text).toList, isLineChar c = true := fun _ =>
    Quoted.isLineChar_of_mem_literal
  have hStop := Place.advance_of_line hInline (Place.origin.advance (front ++ blanks))
  rw [← Place.advance_append] at hToken
  refine ⟨fun c hc => ?_, hToken, fun w hCut => ?_, ?_, ?_⟩
  · have hLine := hInline c hc
    exact ⟨ne_of_class hLine (by decide), ne_of_class hLine (by decide)⟩
  · rw [Token.tokens, String.toList_ofList, hCut, hToken]
  · have hRange := Span.charRange_advance (front ++ blanks) (Quoted.literal text).toList rest
    rw [Place.advance_append _ (front ++ blanks), hStop] at hRange
    have hSource : front ++ (blanks ++ (Quoted.literal text).toList ++ rest) =
        front ++ blanks ++ (Quoted.literal text).toList ++ rest := by simp
    rw [hSource]
    exact hRange
  · rw [hToken, List.map_append, List.map_cons, unplaced_tokensFrom false _ .origin]
    congr 1
    unfold indent
    split <;> rfl

/-- A quote, a backslash in front of one, and a line break behind which a statement begins. -/
theorem literal_standsAlone_escapes : [' ', '\t'].all isBlank = true ∧
    StandsAlone "\\\"\n2024-01-01 open Assets:Cash\r\\" true ['\n'] [' ', '\t'] ['"', '\n'] :=
  ⟨by decide, literal_standsAlone (by decide) _ _ _ _⟩

end Token

end LedgerText
