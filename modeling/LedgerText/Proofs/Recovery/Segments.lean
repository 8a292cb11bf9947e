import LedgerText.Proofs.Parse.Effects
import LedgerText.Proofs.Recovery.Framing

/-!
# Segments of a text

Recovery goes on at a token that begins both a statement and a line. Cut in front
of all these tokens, a text falls into segments (`segments`), of which each but
perhaps some tokens in front of the first one begins with the first token of a
statement.

No statement reads beyond the segment it is in, whether it succeeds or fails
(`resumed_of_advances`, `resumed_of_opening`). This is said in terms of recovery:
the spot where it would go on (`Spot.resumed`) is the same in front of the
statement and behind it. The spots of one segment, with this in the place of what
is known there, make an excerpt of the whole text, so that no production has to
be looked at again.
-/

namespace LedgerText.Parse

open Grammar Step

/-! ## Where recovery goes on -/

namespace Spot

/-- Whether the next token is the first of its line. -/
def atLineStart (p : Spot) : Bool :=
  match p.2 with
  | some token => token.kind = .lineEnd
  | none => true

/-- The tokens that recovery passes over from a spot on. -/
def passed (p : Spot) : List Token := discarded p.atLineStart p.1

/-- The spot where recovery goes on. -/
def resumed (p : Spot) : Spot := (p.1.drop p.passed.length, p.passed.getLast?.or p.2)

/-- Recovery goes on right here. -/
def Stops (p : Spot) : Prop :=
  nextKind p.1 = .endOfInput ∨ p.atLineStart = true ∧ (nextKind p.1).startsStatement = true

variable {p : Spot} {token : Token} {rest : List Token} {previous : Option Token}

theorem passed_of_stops (h : p.Stops) : p.passed = [] := by
  obtain ⟨input, previous⟩ := p
  cases input with
  | nil => rfl
  | cons token rest => exact if_pos h

theorem passed_cons (h : ¬ Stops (token :: rest, previous)) :
    passed (token :: rest, previous) = token :: passed (rest, some token) := if_neg h

theorem resumed_of_stops (h : p.Stops) : p.resumed = p := by
  rw [resumed, passed_of_stops h]
  rfl

/-- Where a token is passed over, recovery goes on where it would behind that token. -/
theorem resumed_cons (h : ¬ Stops (token :: rest, previous)) :
    resumed (token :: rest, previous) = resumed (rest, some token) := by
  rw [resumed, passed_cons h, resumed, List.getLast?_cons]
  cases (passed (rest, some token)).getLast? with
  | none => rfl
  | some last => rfl

theorem stops_resumed (p : Spot) : p.resumed.Stops := by
  obtain ⟨input, previous⟩ := p
  induction input generalizing previous with
  | nil => exact .inl rfl
  | cons token rest ih =>
      by_cases hStops : Stops (token :: rest, previous)
      · rw [resumed_of_stops hStops]
        exact hStops
      · rw [resumed_cons hStops]
        exact ih (some token)

theorem resumed_resumed (p : Spot) : p.resumed.resumed = p.resumed :=
  resumed_of_stops p.stops_resumed

theorem passed_append (p : Spot) : p.1 = p.passed ++ p.resumed.1 :=
  (discarded_append_drop p.atLineStart p.1).symm

end Spot

/-! ## The segments -/

/-- The tokens of a text from one that begins a statement and a line up to the next. -/
structure Segment where
  head : Token
  body : List Token
  deriving DecidableEq, Repr

def Segment.tokens (x : Segment) : List Token := x.head :: x.body

/-- Cuts tokens in front of each that begins a statement and a line. `lineStart` says whether the
first of the tokens begins a line; what is in front of the first cut is no segment. -/
def cut (lineStart : Bool) : List Token → List Token × List Segment
  | [] => ([], [])
  | token :: rest =>
      if lineStart ∧ token.kind.startsStatement then
        ([], ⟨token, (cut (token.kind = .lineEnd) rest).1⟩ ::
          (cut (token.kind = .lineEnd) rest).2)
      else
        (token :: (cut (token.kind = .lineEnd) rest).1, (cut (token.kind = .lineEnd) rest).2)

/-- The tokens in front of the first one that ends the text. -/
def beforeEnd (tokens : List Token) : List Token :=
  tokens.takeWhile fun token => token.kind ≠ .endOfInput

/-- What is in front of the first segment of a text. -/
def preamble (tokens : List Token) : List Token := (cut true (beforeEnd tokens)).1

/-- The segments of a text. -/
def segments (tokens : List Token) : List Segment := (cut true (beforeEnd tokens)).2

theorem beforeEnd_cons {token : Token} (h : token.kind ≠ .endOfInput) (rest : List Token) :
    beforeEnd (token :: rest) = token :: beforeEnd rest :=
  List.takeWhile_cons_of_pos (decide_eq_true h)

theorem beforeEnd_of_end {tokens : List Token} (h : nextKind tokens = .endOfInput) :
    beforeEnd tokens = [] := by
  cases tokens with
  | nil => rfl
  | cons token rest =>
      have hKind : token.kind = .endOfInput := h
      exact List.takeWhile_cons_of_neg (by simp [hKind])

namespace Spot

/-- The segments of what comes next. -/
def segments (p : Spot) : List Segment := (cut p.atLineStart (beforeEnd p.1)).2

variable {p : Spot} {token : Token} {rest : List Token} {previous : Option Token}

/-- What recovery passes over is what is left of the segment. -/
theorem cut_eq (p : Spot) : cut p.atLineStart (beforeEnd p.1) = (p.passed, p.resumed.segments) := by
  obtain ⟨input, previous⟩ := p
  induction input generalizing previous with
  | nil => rfl
  | cons token rest ih =>
      by_cases hStops : Stops (token :: rest, previous)
      · rw [resumed_of_stops hStops, passed_of_stops hStops]
        refine Prod.ext ?_ rfl
        by_cases hEnd : token.kind = .endOfInput
        · have hNone : beforeEnd (token :: rest) = [] := beforeEnd_of_end hEnd
          rw [hNone]
          rfl
        · have hHead : atLineStart (token :: rest, previous) = true ∧
              token.kind.startsStatement = true := hStops.resolve_left hEnd
          rw [beforeEnd_cons hEnd, cut, if_pos hHead]
      · have hEnd : token.kind ≠ .endOfInput := fun hKind => hStops (.inl hKind)
        have hHead : ¬ (atLineStart (token :: rest, previous) = true ∧
            token.kind.startsStatement = true) := fun hKind => hStops (.inr hKind)
        have hRest : cut (token.kind = .lineEnd) (beforeEnd rest) =
            (passed (rest, some token), (resumed (rest, some token)).segments) := ih (some token)
        rw [beforeEnd_cons hEnd, cut, if_neg hHead, hRest, passed_cons hStops, resumed_cons hStops]

theorem segments_of_end (h : nextKind p.1 = .endOfInput) : p.segments = [] := by
  rw [segments, beforeEnd_of_end h]
  rfl

/-- A segment ends where recovery would go on behind its first token. -/
theorem segments_of_head (hStops : Stops (token :: rest, previous))
    (hEnd : token.kind ≠ .endOfInput) : segments (token :: rest, previous) =
      ⟨token, passed (rest, some token)⟩ :: (resumed (rest, some token)).segments := by
  have hHead : atLineStart (token :: rest, previous) = true ∧
      token.kind.startsStatement = true := hStops.resolve_left hEnd
  have hRest : cut (token.kind = .lineEnd) (beforeEnd rest) =
      (passed (rest, some token), (resumed (rest, some token)).segments) :=
    cut_eq (rest, some token)
  rw [segments, beforeEnd_cons hEnd, cut, if_pos hHead, hRest]

end Spot

/-! ## Statements and segments -/

namespace Spot

/-- A spot inside a segment that ends at `goal`. It is not `goal` itself unless the text ends
there. -/
def IsInside (p goal : Spot) : Prop :=
  p.resumed = goal ∧ (p = goal → nextKind goal.1 = .endOfInput)

/-- The spot where a segment begins that ends at `goal`. -/
def Opens (p goal : Spot) : Prop :=
  p.Stops ∧ ∃ token rest, p.1 = token :: rest ∧ token.kind ≠ .endOfInput ∧
    resumed (rest, some token) = goal

variable {σ : Type} {goal : Spot} {s : State σ}

theorem spot_next {token : Token} {rest : List Token} (h : s.input = token :: rest) :
    s.next.spot = (rest, some token) := by
  rw [State.spot, State.next, State.lookahead, h]
  rfl

theorem exists_next (h : s.lookahead.kind ≠ .endOfInput) :
    ∃ rest, s.input = s.lookahead :: rest ∧ s.next.spot = (rest, some s.lookahead) := by
  have hSome : s.input ≠ [] := by
    intro hNil
    rw [s.lookahead_kind, hNil] at h
    exact h rfl
  obtain ⟨rest, hInput, -⟩ := exists_lookahead hSome
  exact ⟨rest, hInput, spot_next hInput⟩

/-- A token that is read in a segment does not lead out of it. -/
theorem resumed_next (h : s.spot.IsInside goal ∨ s.spot.Opens goal)
    (hEnd : s.lookahead.kind ≠ .endOfInput) : s.next.spot.resumed = goal := by
  obtain ⟨rest, hInput, hNext⟩ := exists_next hEnd
  have hSpot : s.spot = (s.lookahead :: rest, s.previous) := by rw [State.spot, hInput]
  rw [hNext]
  rcases h with ⟨hGoal, hLast⟩ | ⟨-, token, others, hOther, -, hGoal⟩
  · by_cases hStops : s.spot.Stops
    · have hHere := (resumed_of_stops hStops).symm.trans hGoal
      have hKind := hLast hHere
      rw [← hHere, hSpot] at hKind
      exact absurd hKind hEnd
    · rw [hSpot] at hGoal hStops
      rw [← resumed_cons hStops]
      exact hGoal
  · rw [hSpot] at hOther
    cases hOther
    exact hGoal

/-- Behind a token that does not end its line, a segment goes on or the text ends. -/
theorem isInside_next (hStops : goal.Stops) (h : s.spot.IsInside goal ∨ s.spot.Opens goal)
    (hKind : s.lookahead.kind.GoesOn) : s.next.spot.IsInside goal := by
  refine ⟨resumed_next h hKind.2, fun hHere => ?_⟩
  rcases hStops with hEnd | ⟨hLine, -⟩
  · exact hEnd
  · rw [← hHere] at hLine
    exact absurd (of_decide_eq_true hLine) hKind.1

/-- A posting does not begin where a statement can. -/
theorem isInside_of_postingAhead (hGoal : s.spot.resumed = goal) (h : postingAhead s = true) :
    s.spot.IsInside goal := by
  refine ⟨hGoal, fun hHere => ?_⟩
  have hStops := hGoal ▸ s.spot.stops_resumed
  rcases hStops with hEnd | ⟨-, hStart⟩
  · exact hEnd
  · rw [← hHere] at hStart
    rw [postingAhead_of_startsStatement hStart] at h
    cases h

end Spot

/-- Where recovery goes on and the text does not end, a segment begins. -/
theorem Spot.opens_next {σ : Type} {s : State σ} (hStops : s.spot.Stops)
    (hEnd : s.lookahead.kind ≠ .endOfInput) : s.spot.Opens s.next.spot.resumed := by
  obtain ⟨rest, hInput, hNext⟩ := exists_next hEnd
  exact ⟨hStops, s.lookahead, rest, hInput, hEnd, hNext ▸ rfl⟩

/-- A segment that ends at `goal`, as an excerpt of the text that loses nothing of it. `first` are
the spots where it begins, if it is read from there. -/
def segmentExcerpt (first : Spot → Prop) (goal : Spot) (hGoal : goal.Stops)
    (hFirst : ∀ p, first p → p.Opens goal) : Excerpt where
  around := besides [] []
  Ready p := p.IsInside goal ∨ first p
  Inline p := p.IsInside goal
  Behind p := p.resumed = goal
  Stopped p := p.resumed = goal ∨ first p
  ready_of_inline _ h := .inl h
  behind_of_inline _ h := h.1
  stopped_of_ready _ h := h.imp_left And.left
  stopped_of_behind _ h := .inl h
  lookahead_eq s _ := lookahead_besides s
  next_eq s _ := next_besides s
  inline_next _ h hKind := Spot.isInside_next hGoal (h.imp_right (hFirst _)) hKind
  behind_next _ h hEnd := Spot.resumed_next (h.imp_right (hFirst _)) hEnd
  lastSpan_eq s _ := lastSpan_besides s
  postingAhead_eq s _ := postingAhead_besides s
  inline_of_postingAhead _ h hAhead := Spot.isInside_of_postingAhead h hAhead
  resume_eq s trace _ := resume_besides s trace
  stopped_resume s trace h := by
    show s.spot.resumed.resumed = goal ∨ first s.spot.resumed
    rcases h with hHere | hOpen
    · left
      rw [Spot.resumed_resumed]
      exact hHere
    · right
      rw [Spot.resumed_of_stops (hFirst _ hOpen).1]
      exact hOpen

variable {σ : Type} {setup : Setup σ} {s t u : State σ}

/-- A statement in the middle of a segment does not read beyond it. -/
theorem resumed_of_advances (h : Advances setup s t) (hs : ¬ s.spot.Stops) :
    t.spot.resumed = s.spot.resumed := by
  have hStops := s.spot.stops_resumed
  have hFits : Fits (segmentExcerpt (fun _ => False) s.spot.resumed hStops fun _ h => h.elim) _
      (statement setup) _ := fits_statement
  have hInside : s.spot.IsInside s.spot.resumed := ⟨rfl, fun hHere => absurd (hHere ▸ hStops) hs⟩
  obtain ⟨result, t', hPart, -, hLeaves⟩ := hFits s (.inl hInside)
  rw [h.2] at hPart
  cases hPart
  exact hLeaves.resolve_right id

/-- A statement that begins a segment does not read beyond it, wherever it ends. -/
theorem resumed_of_declaration {result : Except Halt Unit} (hs : s.spot.Stops)
    (hMore : moreAhead s = true) (h : declaration setup s = (result, t))
    (hEnds : ¬ EndsParse result) : t.spot.resumed = s.next.spot.resumed := by
  have hEnd := moreAhead_ne s hMore
  have hFits : Fits (segmentExcerpt (· = s.spot) s.next.spot.resumed s.next.spot.stops_resumed
      fun p hHere => hHere ▸ Spot.opens_next hs hEnd) _ (declaration setup) _ := fits_declaration
  obtain ⟨result', t', hPart, -, hLeaves⟩ := hFits s (.inr rfl)
  rw [h] at hPart
  cases hPart
  cases result with
  | ok v => exact hLeaves
  | error halt =>
      refine hLeaves.resolve_right fun hHere => ?_
      have hInput : t.input = s.input := congrArg Prod.fst hHere
      have hStart : s.lookahead.kind.startsStatement = true := by
        rw [s.lookahead_kind] at hEnd ⊢
        exact (hs.resolve_left hEnd).2
      -- A statement that fails has read its first token, as that token may begin one.
      rcases declaration_cases setup s hEnd with (hFatal | hLess) | ⟨-, hOther⟩
      · exact hEnds (by rw [h] at hFatal; exact hFatal)
      · rw [h, hInput] at hLess
        exact Nat.lt_irrefl _ hLess
      · rw [hStart] at hOther
        cases hOther

/-- Behind the statement that begins a segment, the parse goes on in that segment or where it
ends. If the statement fails, it is the latter. -/
theorem resumed_of_opening (h : Advances setup s t) (hs : s.spot.Stops) :
    t.spot.resumed = s.next.spot.resumed := by
  rcases statement_eq_ok.1 h.2 with hOk | ⟨error, u, hError, -, rfl⟩
  · exact resumed_of_declaration hs h.1 hOk fun ⟨_, hFatal⟩ => nomatch hFatal
  · have hGoal := resumed_of_declaration hs h.1 hError fun ⟨_, hFatal⟩ => nomatch hFatal
    exact u.spot.resumed_resumed.trans hGoal

end LedgerText.Parse
