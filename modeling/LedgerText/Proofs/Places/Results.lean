import LedgerText.Proofs.Places.Halting
import LedgerText.Proofs.Places.Spans
import LedgerText.Proofs.Recovery.Expecting
import LedgerText.Proofs.Recovery.Settling
import LedgerText.Proofs.Recovery.Tracing
import LedgerText.Proofs.Tags.Scoping

/-!
# Results in source order

Directives and errors come out in the order of the text (`InOrder`). An error can
be about the next token, about one that was read before, or about a whole
statement on a tag, and notes follow on tokens that are passed over. But none of
them reaches out of the tokens between the beginning of its statement and the
token where the parse goes on. So what a statement brings lies between these two
places (`Advances.exists_stretch`), and what one statement brings goes behind
what those before it have brought (`Stretch.append`).
-/

namespace LedgerText

namespace Parse

open Grammar Step

/-! ## Stretches of a text -/

/-- What is read and reported between two places of a text, in order. Directives do not overlap.
Errors may, as long as none begins in front of one before it. -/
structure Stretch (source : List Char) (p q : Place) (read : List (Spanned Directive))
    (reported : List ParseError) : Prop where
  le : p ≤ q
  directives : Span.Arranged Span.stop source (read.map Spanned.span)
  nonempty : ∀ x ∈ read, ¬ x.span.stop ≤ x.span.start
  read_within : ∀ x ∈ read, p ≤ x.span.start ∧ x.span.stop ≤ q
  errors : Span.Arranged Span.start source (reported.map ParseError.span)
  reported_within : ∀ e ∈ reported, p ≤ e.span.start ∧ e.span.start ≤ q

section

variable {source : List Char} {p q r : Place} {read more : List (Spanned Directive)}
  {reported others : List ParseError}

theorem stretch_nil (h : p ≤ q) : Stretch source p q [] [] where
  le := h
  directives := Span.arranged_nil _ _
  nonempty := List.forall_mem_nil _
  read_within := List.forall_mem_nil _
  errors := Span.arranged_nil _ _
  reported_within := List.forall_mem_nil _

theorem stretch_directive {x : Spanned Directive} (h : x.span.IsIn source)
    (hSome : ¬ x.span.stop ≤ x.span.start) (hp : p ≤ x.span.start) (hq : x.span.stop ≤ q) :
    Stretch source p q [x] [] where
  le := Place.le_trans (Place.le_trans hp h.start_le_stop) hq
  directives := Span.arranged_singleton h
  nonempty := List.forall_mem_singleton.2 hSome
  read_within := List.forall_mem_singleton.2 ⟨hp, hq⟩
  errors := Span.arranged_nil _ _
  reported_within := List.forall_mem_nil _

theorem stretch_errors (hLe : p ≤ q)
    (h : Span.Arranged Span.start source (reported.map ParseError.span))
    (hWithin : ∀ e ∈ reported, p ≤ e.span.start ∧ e.span.start ≤ q) :
    Stretch source p q [] reported where
  le := hLe
  directives := Span.arranged_nil _ _
  nonempty := List.forall_mem_nil _
  read_within := List.forall_mem_nil _
  errors := h
  reported_within := hWithin

theorem stretch_error {e : ParseError} (h : e.span.Between source p q) :
    Stretch source p q [] [e] :=
  stretch_errors (Place.le_trans h.le_start h.start_le) (Span.arranged_singleton h.isIn)
    (List.forall_mem_singleton.2 ⟨h.le_start, h.start_le⟩)

/-- Stretches that follow each other. -/
theorem Stretch.append (h : Stretch source p q read reported)
    (k : Stretch source q r more others) :
    Stretch source p r (read ++ more) (reported ++ others) where
  le := Place.le_trans h.le k.le
  directives := by
    rw [List.map_append, Span.arranged_append]
    refine ⟨h.directives, k.directives, ?_⟩
    refine List.forall_mem_map.2 fun x hx => List.forall_mem_map.2 fun y hy => ?_
    exact Place.le_trans (h.read_within x hx).2 (k.read_within y hy).1
  nonempty := List.forall_mem_append.2 ⟨h.nonempty, k.nonempty⟩
  read_within := by
    refine List.forall_mem_append.2 ⟨fun x hx => ?_, fun x hx => ?_⟩
    · obtain ⟨hStart, hStop⟩ := h.read_within x hx
      exact ⟨hStart, Place.le_trans hStop k.le⟩
    · obtain ⟨hStart, hStop⟩ := k.read_within x hx
      exact ⟨Place.le_trans h.le hStart, hStop⟩
  errors := by
    rw [List.map_append, Span.arranged_append]
    refine ⟨h.errors, k.errors, ?_⟩
    refine List.forall_mem_map.2 fun d hd => List.forall_mem_map.2 fun e he => ?_
    exact Place.le_trans (h.reported_within d hd).2 (k.reported_within e he).1
  reported_within := by
    refine List.forall_mem_append.2 ⟨fun e he => ?_, fun e he => ?_⟩
    · obtain ⟨hStart, hStop⟩ := h.reported_within e he
      exact ⟨hStart, Place.le_trans hStop k.le⟩
    · obtain ⟨hStart, hStop⟩ := k.reported_within e he
      exact ⟨Place.le_trans h.le hStart, hStop⟩

end

/-! ## Tokens between two states -/

/-- Where the next token begins. -/
def State.place {σ : Type} (s : State σ) : Place := s.lookahead.span.start

section

variable {source : List Char} {tokens w : List Token} {s t : State Unit}

/-- Two states of a parse have the tokens between them that were read on the way. -/
theorem exists_between (hs : s.spot.IsWithin tokens) (ht : t.spot.IsWithin tokens)
    (hForward : t.input.length ≤ s.input.length) :
    ∃ w, s.input = w ++ t.input ∧ t.previous = w.getLast?.or s.previous := by
  obtain ⟨-, front, hFront, hPrevious⟩ := hs
  obtain ⟨-, back, hBack, hLast⟩ := ht
  change tokens = front ++ s.input at hFront
  change tokens = back ++ t.input at hBack
  change s.previous = front.getLast? at hPrevious
  change t.previous = back.getLast? at hLast
  obtain ⟨w, hInput⟩ := List.suffix_of_suffix_length_le ⟨back, hBack.symm⟩ ⟨front, hFront.symm⟩
    hForward
  rw [hFront, ← hInput, ← List.append_assoc] at hBack
  refine ⟨w, hInput.symm, ?_⟩
  rw [hLast, ← List.append_cancel_right hBack, List.getLast?_append, hPrevious]

/-- The tokens that are left are in order. -/
theorem arranged_input (hTokens : Span.Arranged Span.stop source (tokens.map Token.span))
    (hs : s.spot.IsWithin tokens) :
    Span.Arranged Span.stop source (s.input.map Token.span) := by
  obtain ⟨-, front, hFront, -⟩ := hs
  have hSplit : tokens = front ++ s.input := hFront
  rw [hSplit, List.map_append, Span.arranged_append] at hTokens
  exact hTokens.2.1

/-- The next token begins and ends first. -/
theorem lookahead_le (hInput : Span.Arranged Span.stop source (s.input.map Token.span)) :
    ∀ token ∈ s.input,
      s.place ≤ token.span.start ∧ s.lookahead.span.stop ≤ token.span.stop := by
  intro token hToken
  obtain ⟨rest, hNext, -⟩ := exists_lookahead (List.ne_nil_of_mem hToken)
  rw [hNext, List.map_cons] at hInput
  have hSpan : token.span ∈ s.lookahead.span :: rest.map Token.span := by
    rw [← List.map_cons, ← hNext]
    exact List.mem_map_of_mem hToken
  exact ⟨hInput.start_le _ hSpan, hInput.stop_le _ hSpan⟩

theorem lookahead_mem (h : s.input ≠ []) : s.lookahead ∈ s.input := by
  obtain ⟨rest, hNext, -⟩ := exists_lookahead h
  rw [hNext]
  exact List.mem_cons_self

/-- Tokens that were read end in front of the next one. -/
theorem stop_le_place (hInput : Span.Arranged Span.stop source (s.input.map Token.span))
    (hSplit : s.input = w ++ t.input) (hSome : t.input ≠ []) :
    ∀ token ∈ w, token.span.stop ≤ t.place := by
  intro token hToken
  rw [hSplit, List.map_append, Span.arranged_append] at hInput
  exact hInput.2.2 _ (List.mem_map_of_mem hToken) t.lookahead.span
    (List.mem_map_of_mem (lookahead_mem hSome))

variable (hTokens : Span.Arranged Span.stop source (tokens.map Token.span))
  (hs : s.spot.IsWithin tokens) (ht : t.spot.IsWithin tokens)

include hTokens hs

theorem lookahead_isIn : s.lookahead.span.IsIn source :=
  (arranged_input hTokens hs).isIn _ (List.mem_map_of_mem (lookahead_mem hs.1))

include ht

/-- A parse moves forward in its text. -/
theorem place_le_place (hForward : t.input.length ≤ s.input.length) : s.place ≤ t.place := by
  obtain ⟨w, hSplit, -⟩ := exists_between hs ht hForward
  refine (lookahead_le (arranged_input hTokens hs) t.lookahead ?_).1
  rw [hSplit]
  exact List.mem_append_right w (lookahead_mem ht.1)

/-- If tokens have been read, the last of them is a part of the text between the two states. -/
theorem lastSpan_between (hRead : t.input.length < s.input.length) :
    t.lastSpan.IsIn source ∧ s.place ≤ t.lastSpan.start ∧
      s.lookahead.span.stop ≤ t.lastSpan.stop ∧ t.lastSpan.stop ≤ t.place := by
  have hInput := arranged_input hTokens hs
  obtain ⟨w, hSplit, hPrevious⟩ := exists_between hs ht (Nat.le_of_lt hRead)
  have hSome : w ≠ [] := by
    rintro rfl
    rw [hSplit] at hRead
    exact Nat.lt_irrefl _ hRead
  have hLast : t.lastSpan = (w.getLast hSome).span := by
    rw [State.lastSpan, hPrevious, List.getLast?_eq_some_getLast hSome, Option.some_or]
  have hMem : w.getLast hSome ∈ w := List.getLast_mem hSome
  have hThere : w.getLast hSome ∈ s.input := by
    rw [hSplit]
    exact List.mem_append_left t.input hMem
  obtain ⟨hStart, hStop⟩ := lookahead_le hInput _ hThere
  rw [hLast]
  exact ⟨hInput.isIn _ (List.mem_map_of_mem hThere), hStart, hStop,
    stop_le_place hInput hSplit ht.1 _ hMem⟩

end

/-! ## One statement -/

section

variable {source : String} {options : Options} {s t u : State Unit}

/-- Tokens that were read do not come back when a statement fails. -/
theorem input_le_of_error {halt : Halt}
    (hError : declaration (.standard options) s = (.error halt, u)) :
    u.input.length ≤ s.input.length := by
  have hStep := forward_declaration options s
  rw [hError] at hStep
  exact hStep

/-- The error that a statement halts with is about the next token, or about the one read last if
the statement has read one. -/
theorem span_of_error (hMore : moreAhead s = true) {halt : Halt}
    (hError : declaration (.standard options) s = (.error halt, u)) :
    halt.error.span = u.lookahead.span ∨
      u.input.length < s.input.length ∧ halt.error.span = u.lastSpan := by
  have hWhere := haltsAt_declaration s halt u hError
  cases halt with
  | fatal error => exact .inl hWhere
  | statement error =>
      rcases declaration_cases (.standard options) s (moreAhead_ne s hMore) with
        (⟨other, hFatal⟩ | hRead) | ⟨hRefused, -⟩
      · rw [hError] at hFatal
        cases hFatal
      · rw [hError] at hRead
        exact hWhere.imp_right fun hSpan => ⟨hRead, hSpan⟩
      · -- Nothing was read, and the error is about the next token.
        rw [hError] at hRefused
        cases hRefused
        exact .inl rfl

/-- The error that a statement halts with is about a token between the beginning of the statement
and the next token. -/
theorem Steady.error_between (h : Steady options (Token.tokens source) s)
    (hMore : moreAhead s = true) {halt : Halt}
    (hError : declaration (.standard options) s = (.error halt, u)) :
    halt.error.span.Between source.toList s.place u.place := by
  have hTokens := Token.arranged_tokens source
  obtain ⟨hWithin, -, -⟩ := h.of_error (tidy_tokens source) hMore hError
  rcases span_of_error hMore hError with hSpan | ⟨hRead, hSpan⟩
  · rw [hSpan]
    exact ⟨lookahead_isIn hTokens hWithin,
      place_le_place hTokens h.within hWithin (input_le_of_error hError), Place.le_refl _⟩
  · obtain ⟨hIn, hStart, -, hStop⟩ := lastSpan_between hTokens h.within hWithin hRead
    rw [hSpan]
    exact ⟨hIn, hStart, Place.le_trans hIn.start_le_stop hStop⟩

/-- Notes are on tokens between the one where the statement halted and the one where the parse goes
on. -/
theorem stretch_notes (hWithin : u.spot.IsWithin (Token.tokens source)) (error : ParseError) :
    Stretch source.toList u.place ((u.report error).resume options.traceRecovery).place []
      (notes (.standard options) u) := by
  have hTokens := Token.arranged_tokens source
  have hInput := arranged_input hTokens hWithin
  have hResumed : ((u.report error).resume options.traceRecovery).spot.IsWithin
      (Token.tokens source) :=
    isWithin_resume (tidy_tokens source) options.traceRecovery (s := u.report error) hWithin
  generalize hState : (u.report error).resume options.traceRecovery = t at hResumed ⊢
  have hSplit : u.input = discarded u.atLineStart u.input ++ t.input := by
    rw [← hState]
    exact (discarded_append_drop u.atLineStart u.input).symm
  have hLe : u.place ≤ t.place := by
    apply place_le_place hTokens hWithin hResumed
    rw [← hState]
    exact resume_input_le _ (u.report error)
  unfold notes
  split
  · apply stretch_errors hLe
    · rw [hSplit, List.map_append, Span.arranged_append] at hInput
      rw [List.map_map]
      exact hInput.1.starts
    · refine List.forall_mem_map.2 fun token hToken => ?_
      have hThere : token ∈ u.input := by
        rw [hSplit]
        exact List.mem_append_left t.input hToken
      refine ⟨(lookahead_le hInput token hThere).1, ?_⟩
      exact Place.le_trans (hInput.isIn _ (List.mem_map_of_mem hThere)).start_le_stop
        (stop_le_place hInput hSplit hResumed.1 token hToken)
  · exact stretch_nil hLe

/-- What a statement on a tag reports is about its word and the tag. -/
theorem Advances.unbalanced_between {tag : String} {span : Span}
    (hWithin : s.spot.IsWithin (Token.tokens source)) (h : Advances (.standard options) s t)
    (hMore : t.errors = s.errors ++ [⟨.unbalancedPoptag tag, span⟩]) :
    span.Between source.toList s.place s.place := by
  have hInput := arranged_input (Token.arranged_tokens source) hWithin
  obtain ⟨hAhead, -, hSpan⟩ := h.unbalanced hMore
  obtain ⟨name, hTag, -⟩ := ahead?_eq_some.1 hAhead
  obtain ⟨word, token, rest, hTwo⟩ := exists_two_of_tag hTag
  have hThere : s.next.lookahead ∈ s.input := by
    rw [(lookahead_of_two hTwo).2, hTwo]
    exact List.mem_cons_of_mem word List.mem_cons_self
  rw [hSpan]
  refine ⟨?_, Place.le_refl _, Place.le_refl _⟩
  exact (lookahead_isIn (Token.arranged_tokens source) hWithin).upTo
    (hInput.isIn _ (List.mem_map_of_mem hThere)) (lookahead_le hInput _ hThere).1

/-- A directive is a part of the text between the first token of its statement and the token where
the parse goes on. -/
theorem Advances.stretch_added {x : Spanned Directive}
    (hSteady : Steady options (Token.tokens source) s) (h : Advances (.standard options) s t)
    (hOk : declaration (.standard options) s = (.ok (), t))
    (hKind : s.lookahead.kind = .date ∨ s.lookahead.kind = .keyword .option)
    (hAdded : t.directives = s.directives ++ [x]) :
    Stretch source.toList s.place t.place [x] [] := by
  have hTokens := Token.arranged_tokens source
  have hWithin := (hSteady.advance (tidy_tokens source) h).within
  have hFirst := lookahead_isIn hTokens hSteady.within
  obtain ⟨hLast, hStart, hStop, hEnd⟩ :=
    lastSpan_between hTokens hSteady.within hWithin h.input_lt
  have hSome : ¬ s.lookahead.span.stop ≤ s.place := by
    obtain ⟨hInput, front, hFront, -⟩ := hSteady.within
    have hMem : s.lookahead ∈ Token.tokens source := by
      rw [hFront]
      exact List.mem_append_right front (lookahead_mem hInput)
    rcases hKind with hDate | hWord
    · exact Token.not_stop_le_of_mem hMem (by simp [hDate]) (by simp [hDate])
    · exact Token.not_stop_le_of_mem hMem (by simp [hWord]) (by simp [hWord])
  have hSpan := span_of_added hOk hKind hAdded
  apply stretch_directive
  · rw [hSpan]
    exact hFirst.upTo hLast hStart
  · rw [hSpan]
    exact fun hLe => hSome (Place.le_trans hStop hLe)
  · rw [hSpan]
    exact Place.le_refl _
  · rw [hSpan]
    exact hEnd

/-- What a statement reports is about the text between the place where it begins and the one where
the parse goes on. -/
theorem Advances.exists_reported (hSteady : Steady options (Token.tokens source) s)
    (h : Advances (.standard options) s t) : ∃ reported, t.errors = s.errors ++ reported ∧
      Stretch source.toList s.place t.place [] reported := by
  have hWithin := (hSteady.advance (tidy_tokens source) h).within
  have hLe : s.place ≤ t.place :=
    place_le_place (Token.arranged_tokens source) hSteady.within hWithin (Nat.le_of_lt h.input_lt)
  rcases h.errors_cases with ⟨-, hSame | ⟨tag, span, hMore⟩⟩ | ⟨error, u, hError, -, hMore⟩
  · exact ⟨[], hSame.trans (List.append_nil _).symm, stretch_nil hLe⟩
  · have hWhere : span.Between source.toList s.place s.place :=
      h.unbalanced_between hSteady.within hMore
    exact ⟨_, hMore, (stretch_error hWhere).append (stretch_nil hLe)⟩
  · obtain ⟨hFailed, -, -⟩ := hSteady.of_error (tidy_tokens source) h.1 hError
    have hFirst : error.span.Between source.toList s.place u.place :=
      hSteady.error_between h.1 hError
    refine ⟨_, hMore, ?_⟩
    rw [h.eq_resume hError]
    exact (stretch_error hFirst).append (stretch_notes hFailed error)

/-- A statement brings results between the place where it begins and the one where the parse goes
on. -/
theorem Advances.exists_stretch (hSteady : Steady options (Token.tokens source) s)
    (h : Advances (.standard options) s t) : ∃ read reported,
      t.directives = s.directives ++ read ∧ t.errors = s.errors ++ reported ∧
        Stretch source.toList s.place t.place read reported := by
  rcases h.adds_cases with hSame | ⟨x, hOk, hKind, hAdded, hNone⟩
  · obtain ⟨reported, hMore, hStretch⟩ := h.exists_reported hSteady
    exact ⟨[], reported, hSame.trans (List.append_nil _).symm, hMore, hStretch⟩
  · exact ⟨[x], [], hAdded, hNone.trans (List.append_nil _).symm,
      h.stretch_added hSteady hOk hKind hAdded⟩

/-! ## A whole parse -/

/-- What a parse has brought when it reaches a state lies in front of the next token. -/
theorem stretch_of_reaches
    (h : Reaches (.standard options) (.begin () .empty (Token.tokens source)) t) :
    Stretch source.toList (State.begin () .empty (Token.tokens source)).place t.place t.directives
      t.errors := by
  induction h with
  | refl => exact stretch_nil (Place.le_refl _)
  | tail hFront hStep ih =>
      have hBegin : Steady options (Token.tokens source) (.begin () .empty _) :=
        steady_begin (tidy_tokens source) .empty
      have hSteady := steady_of_reaches (tidy_tokens source) hBegin hFront
      obtain ⟨read, reported, hRead, hReported, hStretch⟩ := hStep.exists_stretch hSteady
      rw [hRead, hReported]
      exact ih.append hStretch

/-- What is reported of a statement that ends the parse goes behind what was reported before. -/
theorem Steady.exists_stretch_of_halt {halt : Halt}
    (hSteady : Steady options (Token.tokens source) s) (hMore : moreAhead s = true)
    (h : statement (.standard options) s = (.error halt, u)) : ∃ q reported,
      u.directives = s.directives ∧ u.errors ++ [halt.error] = s.errors ++ reported ∧
        Stretch source.toList s.place q [] reported := by
  rcases statement_eq_error.1 h with ⟨error, hError, rfl⟩ | ⟨error, v, hError, -, rfl, rfl⟩
  · have hState := (unmoved_of_error hError).1
    have hWhere : error.span.Between source.toList s.place u.place :=
      hSteady.error_between hMore hError
    exact ⟨_, [error], hState.directives_eq, congrArg (· ++ [error]) hState.errors_eq,
      stretch_error hWhere⟩
  · -- That the parse stops is reported in the same place as the error.
    have hState := (unmoved_of_error hError).1
    have hWhere : error.span.Between source.toList s.place v.place :=
      hSteady.error_between hMore hError
    have hCause : error.span.Between source.toList s.place error.span.start :=
      ⟨hWhere.isIn, hWhere.le_start, Place.le_refl _⟩
    have hEnd : error.span.Between source.toList error.span.start v.place :=
      ⟨hWhere.isIn, Place.le_refl _, hWhere.start_le⟩
    refine ⟨_, [error] ++ [⟨.recoveryExhausted, error.span⟩], hState.directives_eq, ?_,
      (stretch_error hCause).append (stretch_error hEnd)⟩
    show (v.errors ++ [error]) ++ [_] = _
    rw [hState.errors_eq, List.append_assoc]
    rfl

/-- The results of a parse are in the order of the text. -/
structure InOrder (source : List Char) (s : State Unit) : Prop where
  /-- Directives are parts of the text, each behind the end of those before it. -/
  directives : Span.Arranged Span.stop source (s.directives.map Spanned.span)
  nonempty : ∀ x ∈ s.directives, x.span.isEmpty = false
  /-- Errors and notes are about parts of the text, and none begins in front of one before it. -/
  errors : Span.Arranged Span.start source (s.errors.map ParseError.span)
  /-- All of them have been counted but the notes. -/
  counted : ParseError.tally s.errors = s.errors.countP fun e => !e.problem.isDiscarded
  count_eq : ParseError.count s.errors = s.errors.countP fun e => !e.problem.isDiscarded

theorem Stretch.inOrder {p q : Place} {read : List (Spanned Directive)}
    {reported : List ParseError} (h : Stretch source.toList p q read reported)
    (hRead : s.directives = read) (hReported : s.errors = reported) :
    InOrder source.toList s where
  directives := hRead ▸ h.directives
  nonempty := by
    intro x hx
    apply decide_eq_false
    intro hSame
    apply h.nonempty x (hRead ▸ hx)
    rw [hSame]
    exact Place.le_refl _
  errors := hReported ▸ h.errors
  counted := ParseError.tally_eq_countP s.errors
  count_eq := by rw [← ParseError.tally_eq, ParseError.tally_eq_countP]

/-- The results of every text are in its order, however it is parsed. -/
theorem text_inOrder (source : String) (options : Options) :
    InOrder source.toList (text source options) := by
  have hBegin : Steady options (Token.tokens source) (.begin () .empty (Token.tokens source)) :=
    steady_begin (tidy_tokens source) .empty
  show InOrder source.toList (run (.standard options) () .empty (Token.tokens source))
  rcases run_cases (.standard options) () .empty (Token.tokens source) with ⟨-, hRun⟩ |
    ⟨t, hReaches, -, hRun⟩ | ⟨t, halt, u, hReaches, hMore, hStep, hRun⟩
  · rw [hRun]
    have hFirst := lookahead_isIn (Token.arranged_tokens source) hBegin.within
    exact (stretch_error ⟨hFirst, Place.le_refl _, Place.le_refl _⟩).inOrder rfl rfl
  · rw [hRun]
    exact (stretch_of_reaches hReaches).inOrder rfl rfl
  · have hSteady := steady_of_reaches (tidy_tokens source) hBegin hReaches
    obtain ⟨q, reported, hRead, hReported, hStretch⟩ :=
      hSteady.exists_stretch_of_halt hMore hStep
    have hWhole := (stretch_of_reaches hReaches).append hStretch
    rw [List.append_nil] at hWhole
    rw [hRun]
    exact hWhole.inOrder hRead hReported

end

end Parse

end LedgerText
