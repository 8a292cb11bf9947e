import LedgerText.Proofs.Lexing.Lossless
import LedgerText.Proofs.Lexing.Parts

/-!
# Spans in order

The places of a text are those in front of its characters and the one at its
end. A span is a part of the text if it runs from one of them to another, and
not backwards (`Span.IsIn`).

Spans can be in order in two ways: each begins where those before it have ended,
or no earlier than they began. `Span.Arranged` is for both, by the mark of a span
that the next one must not begin in front of. The tokens of a text are in order
in the first way (`arranged_tokens`), and so are any of them that follow each
other.
-/

namespace LedgerText

namespace Place

/-- A place that a text has: in front of a character, or at the end. -/
def IsIn (source : List Char) (p : Place) : Prop :=
  ∃ front, front <+: source ∧ p = origin.advance front

theorem not_advance_le {text : List Char} (h : text ≠ []) (p : Place) : ¬ p.advance text ≤ p := by
  obtain ⟨c, rest, rfl⟩ := List.exists_cons_of_ne_nil h
  intro hLe
  exact p.not_after_le c (le_trans (le_advance _ rest) hLe)

end Place

namespace Span

/-- A part of a text: its ends are places of the text, and it does not run backwards. -/
structure IsIn (source : List Char) (s : Span) : Prop where
  start : s.start.IsIn source
  stop : s.stop.IsIn source
  start_le_stop : s.start ≤ s.stop

/-- A part of a text that begins between two places. -/
structure Between (source : List Char) (p q : Place) (s : Span) : Prop where
  isIn : s.IsIn source
  le_start : p ≤ s.start
  start_le : s.start ≤ q

/-- Parts of a text in order: none begins in front of the mark of one before it. -/
structure Arranged (mark : Span → Place) (source : List Char) (spans : List Span) : Prop where
  isIn : ∀ s ∈ spans, s.IsIn source
  pairwise : spans.Pairwise fun r s => mark r ≤ s.start

variable {mark : Span → Place} {source : List Char} {r s : Span} {spans others : List Span}

/-- From the start of one part to the end of another that does not begin in front of it. -/
theorem IsIn.upTo (hr : r.IsIn source) (hs : s.IsIn source) (hLe : r.start ≤ s.start) :
    (r.upTo s).IsIn source :=
  ⟨hr.start, hs.stop, Place.le_trans hLe hs.start_le_stop⟩

theorem arranged_nil (mark : Span → Place) (source : List Char) : Arranged mark source [] :=
  ⟨List.forall_mem_nil _, .nil⟩

theorem arranged_singleton (h : s.IsIn source) : Arranged mark source [s] :=
  ⟨List.forall_mem_singleton.2 h, List.pairwise_singleton _ _⟩

theorem arranged_append : Arranged mark source (spans ++ others) ↔
    Arranged mark source spans ∧ Arranged mark source others ∧
      ∀ r ∈ spans, ∀ s ∈ others, mark r ≤ s.start := by
  constructor
  · intro h
    obtain ⟨hFront, hBack⟩ := List.forall_mem_append.1 h.isIn
    obtain ⟨hFirst, hSecond, hBoth⟩ := List.pairwise_append.1 h.pairwise
    exact ⟨⟨hFront, hFirst⟩, ⟨hBack, hSecond⟩, hBoth⟩
  · rintro ⟨hFront, hBack, hBoth⟩
    exact ⟨List.forall_mem_append.2 ⟨hFront.isIn, hBack.isIn⟩,
      List.pairwise_append.2 ⟨hFront.pairwise, hBack.pairwise, hBoth⟩⟩

/-- Spans that do not overlap begin one behind the other. -/
theorem Arranged.starts (h : Arranged stop source spans) : Arranged start source spans where
  isIn := h.isIn
  pairwise := h.pairwise.imp_of_mem fun hr _ hLe =>
    Place.le_trans (h.isIn _ hr).start_le_stop hLe

/-- The first of some spans begins first. -/
theorem Arranged.start_le (h : Arranged stop source (s :: spans)) :
    ∀ r ∈ s :: spans, s.start ≤ r.start := by
  have hOthers := (List.pairwise_cons.1 h.starts.pairwise).1
  exact List.forall_mem_cons.2 ⟨s.start.le_refl, hOthers⟩

/-- The first of some spans that do not overlap ends first. -/
theorem Arranged.stop_le (h : Arranged stop source (s :: spans)) :
    ∀ r ∈ s :: spans, s.stop ≤ r.stop := by
  refine List.forall_mem_cons.2 ⟨s.stop.le_refl, fun r hr => ?_⟩
  have hLater : s.stop ≤ r.start := (List.pairwise_cons.1 h.pairwise).1 r hr
  exact Place.le_trans hLater (h.isIn r (List.mem_cons_of_mem s hr)).start_le_stop

end Span

/-! ## The tokens of a text -/

namespace Token

section

variable {before after : Bool} {place : Place} {text rest : List Char} {w : List Token}

/-- All tokens of a text begin and end between its ends. -/
theorem Lexed.bounds (h : Lexed rest before place text w after) :
    ∀ token ∈ w, place ≤ token.span.start ∧ token.span.stop ≤ place.advance text := by
  induction h with
  | nil => exact List.forall_mem_nil _
  | @cons before within after place gap body text token w hPiece hSpan hMore ih =>
      rw [Place.advance_append, Place.advance_append]
      refine List.forall_mem_cons.2 ⟨?_, fun other hOther => ?_⟩
      · rw [hSpan]
        exact ⟨place.le_advance gap, Place.le_advance _ text⟩
      · obtain ⟨hStart, hStop⟩ := ih other hOther
        have hFront : place ≤ (place.advance gap).advance body :=
          Place.le_trans (place.le_advance gap) (Place.le_advance _ body)
        exact ⟨Place.le_trans hFront hStart, hStop⟩

/-- The tokens of a part of a text lie one behind the other. -/
theorem Lexed.arranged (front : List Char)
    (h : Lexed rest before (Place.origin.advance front) text w after) (back : List Char) :
    Span.Arranged Span.stop (front ++ text ++ back) (w.map Token.span) := by
  generalize hPlace : Place.origin.advance front = place at h
  induction h generalizing front with
  | nil => exact Span.arranged_nil _ _
  | @cons before within after place gap body text token w hPiece hSpan hMore ih =>
      subst hPlace
      have hOthers := ih (front ++ gap ++ body) (by rw [Place.advance_append, Place.advance_append])
      have hText : front ++ gap ++ body ++ text ++ back =
          front ++ (gap ++ body ++ text) ++ back := by simp
      rw [hText] at hOthers
      rw [List.map_cons, ← List.singleton_append, Span.arranged_append]
      refine ⟨Span.arranged_singleton ⟨⟨front ++ gap, ?_, ?_⟩, ⟨front ++ gap ++ body, ?_, ?_⟩, ?_⟩,
        hOthers, ?_⟩
      · exact ⟨body ++ text ++ back, by simp⟩
      · rw [hSpan, Place.advance_append]
        rfl
      · exact ⟨text ++ back, by simp⟩
      · rw [hSpan, Place.advance_append, Place.advance_append]
        rfl
      · rw [hSpan]
        exact Place.le_advance _ body
      · refine List.forall_mem_singleton.2 (List.forall_mem_map.2 fun other hOther => ?_)
        rw [hSpan]
        exact (hMore.bounds other hOther).1

/-- Only the line end that the last line gets can be empty. -/
theorem Lexed.not_stop_le (h : Lexed rest before place text w after) :
    ∀ token ∈ w, token.kind ≠ .lineEnd → ¬ token.span.stop ≤ token.span.start := by
  induction h with
  | nil => exact List.forall_mem_nil _
  | @cons before within after place gap body text token w hPiece hSpan hMore ih =>
      refine List.forall_mem_cons.2 ⟨fun hKind => ?_, ih⟩
      rcases hPiece.body_ne_nil with hSome | ⟨hEnd, -⟩
      · rw [hSpan]
        exact Place.not_advance_le hSome _
      · exact absurd hEnd hKind

end

/-- The tokens of a text lie one behind the other, up to its end. -/
theorem arranged_tokens (source : String) :
    Span.Arranged Span.stop source.toList ((tokens source).map Token.span) := by
  obtain ⟨front, blanks, w, hText, -, hLexed, hTokens⟩ := exists_tokens source
  have hLast : (Place.origin.advance source.toList).IsIn source.toList :=
    ⟨source.toList, List.prefix_refl _, rfl⟩
  have hFront := hLexed.arranged [] blanks
  rw [List.nil_append, ← hText] at hFront
  rw [hTokens, List.map_append, Span.arranged_append]
  refine ⟨hFront, Span.arranged_singleton ⟨hLast, hLast, Place.le_refl _⟩, ?_⟩
  refine List.forall_mem_map.2 fun token hToken => List.forall_mem_singleton.2 ?_
  show token.span.stop ≤ Place.origin.advance source.toList
  rw [hText, Place.advance_append]
  exact Place.le_trans (hLexed.bounds token hToken).2 (Place.le_advance _ blanks)

/-- A token that stands for more than the end of a line, or of the text, has characters. -/
theorem not_stop_le_of_mem {source : String} {token : Token} (h : token ∈ tokens source)
    (hLine : token.kind ≠ .lineEnd) (hEnd : token.kind ≠ .endOfInput) :
    ¬ token.span.stop ≤ token.span.start := by
  obtain ⟨front, blanks, w, -, -, hLexed, hTokens⟩ := exists_tokens source
  rw [hTokens, List.mem_append, List.mem_singleton] at h
  rcases h with hMem | rfl
  · exact hLexed.not_stop_le token hMem hLine
  · exact absurd rfl hEnd

end Token

end LedgerText
