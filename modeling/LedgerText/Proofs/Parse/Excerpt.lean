import LedgerText.Parse.Run
import LedgerText.Proofs.Grammar.Reading

/-!
# Parsing part of a text

A parse of some part of a text and a parse of the whole of it, while the latter
is at that part, do the same: `State.inside` takes a state of the first to a
state of the second, and the steps of a statement do not notice the difference.
The whole has more tokens behind the part, a token in front of it, and other
directives and errors so far.

Steps look at what comes next and at the token read last. Whether these are the
same in part and whole depends on where the part begins and ends, so four
conditions on a spot in the text say how much is known there: at its `Ready`
spots the next token is, at its `Inline` spots the last one as well, at its
`Behind` spots the last one, and whether a posting follows; and nothing more
than that recovery finds the same place to go on at its `Stopped` spots. What
makes up an `Excerpt` are four such conditions and the laws that relate them to
reading. `Fits` is the judgement on a step, with one rule for every combinator.
-/

namespace LedgerText

/-- Behind a token of this kind, the line goes on or ends. -/
abbrev TokenKind.GoesOn (kind : TokenKind) : Prop := kind ≠ .lineEnd ∧ kind ≠ .endOfInput

namespace Parse

open Grammar Step

variable {σ α β : Type}

/-! ## Part and whole -/

/-- What is around a part of a text when it is parsed in the whole. -/
structure Surroundings where
  /-- The token in front of the part. -/
  before : Option Token
  /-- The tokens behind it. -/
  after : List Token
  /-- The directives from what is in front of it. -/
  directives : List (Spanned Directive)
  /-- The errors in what is in front of it. -/
  errors : List ParseError

/-- The state of a parse of the whole, from that of a parse of the part. -/
def State.inside (w : Surroundings) (s : State σ) : State σ :=
  { s with
    input := s.input ++ w.after
    previous := s.previous.or w.before
    directives := w.directives ++ s.directives
    errors := w.errors ++ s.errors
    phase := .running }

/-- A spot in a text: the tokens behind it, and the one before. -/
abbrev Spot : Type := List Token × Option Token

/-- Where a parse is in its text. -/
abbrev State.spot (s : State σ) : Spot := (s.input, s.previous)

/-- A part of a text that is parsed alike alone and in the whole. -/
structure Excerpt where
  around : Surroundings
  Ready : Spot → Prop
  Inline : Spot → Prop
  Behind : Spot → Prop
  Stopped : Spot → Prop
  ready_of_inline : ∀ p, Inline p → Ready p
  behind_of_inline : ∀ p, Inline p → Behind p
  stopped_of_ready : ∀ p, Ready p → Stopped p
  stopped_of_behind : ∀ p, Behind p → Stopped p
  lookahead_eq : ∀ {σ : Type} (s : State σ), Ready s.spot →
    (s.inside around).lookahead = s.lookahead
  next_eq : ∀ {σ : Type} (s : State σ), Ready s.spot →
    (s.inside around).next = s.next.inside around
  inline_next : ∀ {σ : Type} (s : State σ), Ready s.spot → s.lookahead.kind.GoesOn →
    Inline s.next.spot
  behind_next : ∀ {σ : Type} (s : State σ), Ready s.spot → s.lookahead.kind ≠ .endOfInput →
    Behind s.next.spot
  lastSpan_eq : ∀ {σ : Type} (s : State σ), Behind s.spot →
    (s.inside around).lastSpan = s.lastSpan
  postingAhead_eq : ∀ {σ : Type} (s : State σ), Behind s.spot →
    postingAhead (s.inside around) = postingAhead s
  inline_of_postingAhead : ∀ {σ : Type} (s : State σ), Behind s.spot → postingAhead s = true →
    Inline s.spot
  resume_eq : ∀ {σ : Type} (s : State σ) (trace : Bool), Stopped s.spot →
    (s.inside around).resume trace = (s.resume trace).inside around
  stopped_resume : ∀ {σ : Type} (s : State σ) (trace : Bool), Stopped s.spot →
    Stopped (s.resume trace).spot

/-! ## The judgement -/

/-- How a step has to leave the spot it ends at. -/
def Excerpt.Leaves (x : Excerpt) (Q : Spot → Prop) (result : Except Halt α) (p : Spot) : Prop :=
  match result with
  | .ok _ => Q p
  | .error _ => x.Stopped p

/-- From spots with `P`, a step does the same in part and whole. It ends at a spot with `Q` if it
succeeds. -/
def Fits (x : Excerpt) (P : Spot → Prop) (m : Step σ α) (Q : Spot → Prop) : Prop :=
  ∀ s : State σ, P s.spot → ∃ result t, m s = (result, t) ∧
    m (s.inside x.around) = (result, t.inside x.around) ∧ x.Leaves Q result t.spot

variable {x : Excerpt} {P Q R : Spot → Prop}

theorem Fits.weaken {P' Q' : Spot → Prop} {m : Step σ α} (h : Fits x P m Q)
    (hP : ∀ p, P' p → P p) (hQ : ∀ p, Q p → Q' p) : Fits x P' m Q' := by
  intro s hs
  obtain ⟨result, t, hPart, hWhole, hLeaves⟩ := h s (hP _ hs)
  refine ⟨result, t, hPart, hWhole, ?_⟩
  cases result with
  | ok a => exact hQ _ hLeaves
  | error halt => exact hLeaves

/-- The spots with a condition where a token of a kind comes next. -/
def At (P : Spot → Prop) (kind : TokenKind) (p : Spot) : Prop := P p ∧ nextKind p.1 = kind

/-! ## Combinators -/

theorem fits_pure (a : α) : Fits x P (pure a : Step σ α) P :=
  fun s hs => ⟨.ok a, s, rfl, rfl, hs⟩

theorem fits_bind {m : Step σ α} {f : α → Step σ β} (hm : Fits x P m Q)
    (hf : ∀ a, Fits x Q (f a) R) : Fits x P (m >>= f) R := by
  intro s hs
  obtain ⟨result, t, hPart, hWhole, hLeaves⟩ := hm s hs
  cases result with
  | ok a =>
      obtain ⟨last, u, hPart', hWhole', hLeaves'⟩ := hf a t hLeaves
      rw [bind_of_ok hPart, bind_of_ok hWhole]
      exact ⟨last, u, hPart', hWhole', hLeaves'⟩
  | error halt =>
      exact ⟨.error halt, t, bind_of_error hPart f, bind_of_error hWhole f, hLeaves⟩

theorem fits_peek_bind {f : TokenKind → Step σ α} (hP : ∀ p, P p → x.Ready p)
    (hf : ∀ kind, Fits x (At P kind) (f kind) Q) : Fits x P (peek >>= f) Q := by
  intro s hs
  have hNext := x.lookahead_eq s (hP _ hs)
  rw [peek_bind, peek_bind, hNext]
  exact hf s.lookahead.kind s ⟨hs, s.lookahead_kind.symm⟩

theorem fits_here_bind {f : Span → Step σ α} (hP : ∀ p, P p → x.Ready p)
    (hf : ∀ span, Fits x P (f span) Q) : Fits x P (here >>= f) Q := by
  intro s hs
  rw [here_bind, here_bind, x.lookahead_eq s (hP _ hs)]
  exact hf s.lookahead.span s hs

theorem fits_spanFrom_bind {f : Span → Step σ α} {start : Span} (hP : ∀ p, P p → x.Behind p)
    (hf : ∀ span, Fits x P (f span) Q) : Fits x P (spanFrom start >>= f) Q := by
  intro s hs
  rw [spanFrom_bind, spanFrom_bind, x.lastSpan_eq s (hP _ hs)]
  exact hf (start.upTo s.lastSpan) s hs

theorem fits_fail (error : ParseError) (hP : ∀ p, P p → x.Stopped p) :
    Fits x P (fail error : Step σ α) Q :=
  fun s hs => ⟨_, s, rfl, rfl, hP _ hs⟩

theorem fits_unexpected (expected : List TokenKind) (hP : ∀ p, P p → x.Ready p) :
    Fits x P (unexpected expected : Step σ α) Q := by
  intro s hs
  refine ⟨_, s, rfl, ?_, x.stopped_of_ready _ (hP _ hs)⟩
  unfold unexpected
  rw [x.lookahead_eq s (hP _ hs)]
  rfl

theorem fits_missing (token : Token) (hP : ∀ p, P p → x.Stopped p) :
    Fits x P (missing token : Step σ α) Q :=
  fits_fail _ hP

/-- A token that is not the end of a line is read inside the line. -/
theorem fits_advance (hP : ∀ p, P p → x.Ready p ∧ (nextKind p.1).GoesOn) :
    Fits x P (advance : Step σ Token) x.Inline := by
  intro s hs
  obtain ⟨hReady, hKind⟩ := hP _ hs
  refine ⟨.ok s.lookahead, s.next, rfl, ?_, x.inline_next s hReady ?_⟩
  · unfold advance
    rw [x.lookahead_eq s hReady, x.next_eq s hReady]
  · rw [s.lookahead_kind]
    exact hKind

theorem fits_skip (hP : ∀ p, P p → x.Ready p ∧ (nextKind p.1).GoesOn) :
    Fits x P (skip : Step σ Unit) x.Inline := by
  intro s hs
  obtain ⟨hReady, hKind⟩ := hP _ hs
  refine ⟨.ok (), s.next, rfl, ?_, x.inline_next s hReady ?_⟩
  · unfold skip
    rw [x.next_eq s hReady]
  · rw [s.lookahead_kind]
    exact hKind

/-- Behind any token the last one is known. -/
theorem fits_skip_any {kind : TokenKind} (hEnd : kind ≠ .endOfInput) (hP : ∀ p, P p → x.Ready p) :
    Fits x (At P kind) (skip : Step σ Unit) x.Behind := by
  intro s hs
  refine ⟨.ok (), s.next, rfl, ?_, x.behind_next s (hP _ hs.1) ?_⟩
  · unfold skip
    rw [x.next_eq s (hP _ hs.1)]
  · rw [s.lookahead_kind, hs.2]
    exact hEnd

/-- A step that depends on the kind of the next token fits if it does in either case. -/
theorem fits_ite_kind {kind : TokenKind} {m n : Step σ α} (hP : ∀ p, P p → x.Ready p)
    (hm : Fits x (At P kind) m Q) (hn : Fits x P n Q) :
    Fits x P (fun s => if s.lookahead.kind = kind then m s else n s) Q := by
  intro s hs
  have hNext := x.lookahead_eq s (hP _ hs)
  by_cases hKind : s.lookahead.kind = kind
  · simp only [hNext, if_pos hKind]
    exact hm s ⟨hs, s.lookahead_kind.symm.trans hKind⟩
  · simp only [hNext, if_neg hKind]
    exact hn s hs

theorem fits_skipIf_lineEnd : Fits x x.Inline (skipIf .lineEnd : Step σ Unit) x.Behind := by
  refine fits_ite_kind x.ready_of_inline ?_ ?_
  · exact fits_skip_any (by decide) x.ready_of_inline
  · exact (fits_pure ()).weaken (fun _ h => h) x.behind_of_inline

theorem fits_take {kind : TokenKind} (hKind : kind.GoesOn) (expected : List TokenKind)
    (hP : ∀ p, P p → x.Ready p) : Fits x P (take kind expected : Step σ Token) x.Inline := by
  refine fits_ite_kind hP ?_ ?_
  · refine fits_advance fun p hp => ⟨hP p hp.1, ?_⟩
    rw [hp.2]
    exact hKind
  · exact fits_unexpected expected hP

theorem fits_textOf (token : Token) (hP : ∀ p, P p → x.Stopped p) :
    Fits x P (textOf token : Step σ String) P := by
  unfold textOf
  split
  · exact fits_pure _
  · exact fits_missing token hP

/-- Where what comes next is known, recovery goes on alike. -/
theorem Excerpt.stopped_of_inline (x : Excerpt) (p : Spot) (h : x.Inline p) : x.Stopped p :=
  x.stopped_of_ready p (x.ready_of_inline p h)

theorem fits_takeText {kind : TokenKind} (hKind : kind.GoesOn) (expected : List TokenKind) :
    Fits x x.Inline (takeText kind expected : Step σ String) x.Inline :=
  fits_bind (fits_take hKind expected x.ready_of_inline) fun token =>
    fits_textOf token x.stopped_of_inline

theorem fits_whenNext {kind : TokenKind} {m : Step σ α}
    (hm : Fits x (At x.Inline kind) m x.Inline) :
    Fits x x.Inline (whenNext kind m) x.Inline := by
  refine fits_ite_kind x.ready_of_inline ?_ ?_
  · exact fits_bind hm fun a => fits_pure (some a)
  · exact fits_pure none

theorem fits_review (span : Span) (verdict : Verdict σ α) (hP : ∀ p, P p → x.Stopped p) :
    Fits x P (review span verdict) P := by
  intro s hs
  unfold review
  have hBuilder : (s.inside x.around).builder = s.builder := rfl
  rw [hBuilder]
  rcases verdict s.builder with ⟨answer, builder⟩
  cases answer with
  | ok a => exact ⟨.ok a, { s with builder }, rfl, rfl, hs⟩
  | error refusal => exact ⟨.error _, { s with builder }, rfl, rfl, hP _ hs⟩

theorem fits_reviewFrom (start : Span) (verdict : Verdict σ α) (hP : ∀ p, P p → x.Behind p) :
    Fits x P (reviewFrom start verdict) P :=
  fits_spanFrom_bind hP fun span =>
    fits_review span verdict fun p hp => x.stopped_of_behind p (hP p hp)

/-- The limit on nesting depends on nothing that part and whole differ in. -/
theorem fits_nested {setup : Setup σ} {m : Step σ α} (hP : ∀ p, P p → x.Ready p)
    (hm : Fits x P m Q) : Fits x P (nested setup m) Q := by
  intro s hs
  by_cases hDepth : s.depth < setup.options.maxDepth
  · have hWholeDepth : (s.inside x.around).depth < setup.options.maxDepth := hDepth
    obtain ⟨result, t, hPart, hWhole, hLeaves⟩ := hm { s with depth := s.depth + 1 } hs
    cases result with
    | ok a =>
        exact ⟨.ok a, { t with depth := t.depth - 1 }, nested_of_ok hDepth hPart,
          nested_of_ok hWholeDepth hWhole, hLeaves⟩
    | error halt =>
        exact ⟨.error halt, t, nested_of_error hDepth hPart, nested_of_error hWholeDepth hWhole,
          hLeaves⟩
  · have hWholeDepth : ¬ (s.inside x.around).depth < setup.options.maxDepth := hDepth
    refine ⟨_, s, nested_of_no_room hDepth m, ?_, x.stopped_of_ready _ (hP _ hs)⟩
    rw [nested_of_no_room hWholeDepth, x.lookahead_eq s (hP _ hs)]

/-- A repetition goes on in part and whole alike. The induction is on the tokens that are left. -/
theorem fits_repeatWhile {ahead : State σ → Bool} {m : Step σ α}
    {hAhead : ∀ s, ahead s → s.lookahead.kind ≠ .endOfInput} {hm : Consumes m}
    (hSame : ∀ s : State σ, P s.spot → ahead (s.inside x.around) = ahead s)
    (hReady : ∀ s : State σ, P s.spot → ahead s = true → Q s.spot)
    (hStep : Fits x Q m P) : Fits x P (repeatWhile ahead m hAhead hm) P := by
  intro s
  generalize hLength : s.input.length = length
  induction length using Nat.strongRecOn generalizing s with
  | _ length ih =>
      subst hLength
      intro hs
      have hBoth := hSame s hs
      by_cases hGoes : ahead s = true
      · rw [repeatWhile_of_true hGoes, repeatWhile_of_true (hBoth.trans hGoes)]
        obtain ⟨result, t, hPart, hWhole, hLeaves⟩ := hStep s (hReady s hs hGoes)
        cases result with
        | error halt =>
            exact ⟨_, t, bind_of_error hPart _, bind_of_error hWhole _, hLeaves⟩
        | ok a =>
            have hLess := hm s a t (hAhead s hGoes) hPart
            obtain ⟨last, u, hPart', hWhole', hLeaves'⟩ := ih _ hLess t rfl hLeaves
            rw [bind_of_ok hPart, bind_of_ok hWhole]
            cases last with
            | ok others =>
                rw [bind_of_ok hPart', bind_of_ok hWhole']
                exact ⟨.ok (a :: others), u, rfl, rfl, hLeaves'⟩
            | error halt =>
                exact ⟨_, u, bind_of_error hPart' _, bind_of_error hWhole' _, hLeaves'⟩
      · have hStops : ahead s = false := by simpa using hGoes
        rw [repeatWhile_of_false hStops, repeatWhile_of_false (hBoth.trans hStops)]
        exact ⟨.ok [], s, rfl, rfl, hs⟩

/-! ## Productions of a posting -/

/-- Inside a line, a token of a kind that does not end the line comes next. -/
theorem Excerpt.ready_of_at {kind : TokenKind} (hKind : kind.GoesOn) (p : Spot)
    (h : At x.Inline kind p) : x.Ready p ∧ (nextKind p.1).GoesOn := by
  refine ⟨x.ready_of_inline p h.1, ?_⟩
  rw [h.2]
  exact hKind

theorem Excerpt.inline_of_at {kind : TokenKind} (p : Spot) (h : At x.Inline kind p) :
    x.Inline p := h.1

theorem fits_lineEnd (also : List TokenKind) :
    Fits x x.Ready (lineEnd also : Step σ Unit) x.Behind := by
  refine fits_peek_bind (fun _ h => h) fun kind => ?_
  split
  · exact fits_skip_any (by decide) fun _ h => h
  · exact fits_bind (fits_skip fun p h => ⟨h.1, by rw [h.2]; decide⟩) fun _ => fits_skipIf_lineEnd
  · exact fits_bind (fits_skip fun p h => ⟨h.1, by rw [h.2]; decide⟩) fun _ => fits_skipIf_lineEnd
  · exact fits_unexpected _ fun _ h => h.1

theorem fits_lineEnd_inline (also : List TokenKind) :
    Fits x x.Inline (lineEnd also : Step σ Unit) x.Behind :=
  (fits_lineEnd also).weaken x.ready_of_inline fun _ h => h

theorem fits_number : Fits x x.Inline (number : Step σ Decimal) x.Inline := by
  refine fits_bind (fits_take (by decide) _ x.ready_of_inline) fun token => ?_
  split
  · exact fits_pure _
  · exact fits_missing token x.stopped_of_inline

theorem fits_flag {kind : TokenKind} (hKind : kind.GoesOn) :
    Fits x (At x.Inline kind) (flag : Step σ Char) x.Inline := by
  refine fits_bind (fits_advance (x.ready_of_at hKind)) fun token => ?_
  split
  · exact fits_pure _
  · exact fits_pure _
  · exact fits_missing token x.stopped_of_inline

variable {setup : Setup σ}

theorem fits_day (token : Token) : Fits x x.Inline (day setup token) x.Inline :=
  fits_bind (fits_textOf token x.stopped_of_inline) fun _ => fits_review _ _ x.stopped_of_inline

theorem fits_amount : Fits x x.Inline (amount setup) x.Inline :=
  fits_nested x.ready_of_inline <| fits_here_bind x.ready_of_inline fun _ =>
    fits_bind fits_number fun _ => fits_bind (fits_takeText (by decide) _) fun _ =>
      fits_reviewFrom _ _ x.behind_of_inline

theorem fits_lotDate : Fits x x.Inline (lotDate setup) x.Inline := by
  refine fits_peek_bind x.ready_of_inline fun kind => ?_
  split
  · exact fits_bind (fits_skip (x.ready_of_at (by decide))) fun _ =>
      fits_bind (fits_take (by decide) _ x.ready_of_inline) fun token =>
        fits_bind (fits_day token) fun _ => fits_pure _
  · exact (fits_pure _).weaken x.inline_of_at fun _ h => h
  · exact fits_unexpected _ fun p h => x.ready_of_inline p h.1

theorem fits_lotCost : Fits x (At x.Inline (.mark .leftBrace)) (lotCost setup) x.Inline := by
  have hReady (p : Spot) (h : At x.Inline (.mark .leftBrace) p) : x.Ready p :=
    x.ready_of_inline p h.1
  exact fits_nested hReady <| fits_here_bind hReady fun _ =>
    fits_bind (fits_skip (x.ready_of_at (by decide))) fun _ =>
      fits_bind fits_amount fun _ => fits_bind fits_lotDate fun _ =>
        fits_bind (fits_take (by decide) _ x.ready_of_inline) fun _ =>
          fits_reviewFrom _ _ x.behind_of_inline

theorem fits_position : Fits x x.Inline (position setup) x.Inline :=
  fits_nested x.ready_of_inline <| fits_here_bind x.ready_of_inline fun _ =>
    fits_bind fits_amount fun _ => fits_bind (fits_whenNext fits_lotCost) fun _ =>
      fits_reviewFrom _ _ x.behind_of_inline

theorem fits_priceTag {kind : TokenKind} (hKind : kind.GoesOn) (position : Position)
    (total : Bool) : Fits x (At x.Inline kind) (priceTag setup position total) x.Behind :=
  fits_bind (fits_skip (x.ready_of_at hKind)) fun _ => fits_bind fits_amount fun _ =>
    fits_bind (fits_lineEnd_inline _) fun _ => fits_pure _

theorem fits_movement : Fits x x.Inline (movement setup) x.Behind := by
  refine fits_peek_bind x.ready_of_inline fun kind => ?_
  split
  · refine fits_bind (fits_position.weaken x.inline_of_at fun _ h => h) fun position =>
      fits_peek_bind x.ready_of_inline fun next => ?_
    split
    · exact fits_priceTag (by decide) position false
    · exact fits_priceTag (by decide) position true
    · exact fits_bind ((fits_lineEnd_inline _).weaken x.inline_of_at fun _ h => h) fun _ =>
        fits_pure _
  · exact fits_bind ((fits_lineEnd_inline _).weaken x.inline_of_at fun _ h => h) fun _ =>
      fits_pure _

theorem fits_posting : Fits x (At x.Inline .indent) (posting setup) x.Behind := by
  have hReady (p : Spot) (h : At x.Inline .indent p) : x.Ready p := x.ready_of_inline p h.1
  exact fits_nested hReady <| fits_here_bind hReady fun _ =>
    fits_bind (fits_skip (x.ready_of_at (by decide))) fun _ =>
      fits_bind (fits_whenNext (fits_flag (by decide))) fun _ =>
        fits_bind (fits_takeText (by decide) _) fun _ => fits_bind fits_movement fun _ =>
          fits_reviewFrom _ _ fun _ h => h

/-! ## Productions of a transaction -/

/-- Where the next token is known, so is its kind. -/
theorem Excerpt.comesNext_eq (x : Excerpt) (kind : TokenKind) (s : State σ)
    (h : x.Inline s.spot) : comesNext kind (s.inside x.around) = comesNext kind s := by
  unfold comesNext
  rw [x.lookahead_eq s (x.ready_of_inline _ h)]

theorem fits_texts {kind : TokenKind} (hKind : kind.GoesOn) :
    Fits x x.Inline (texts kind hKind.2 : Step σ (List String)) x.Inline :=
  fits_repeatWhile (x.comesNext_eq kind) (fun _ h _ => h) (fits_takeText hKind _)

theorem fits_postingLine : Fits x x.Inline (postingLine setup) x.Behind := by
  refine fits_peek_bind x.ready_of_inline fun kind => ?_
  split
  · exact fits_bind fits_posting fun _ => fits_pure _
  · exact fits_bind ((fits_lineEnd_inline _).weaken x.inline_of_at fun _ h => h) fun _ =>
      fits_pure _

theorem fits_postingLines : Fits x x.Behind (postingLines setup) x.Behind :=
  fits_bind (fits_repeatWhile x.postingAhead_eq x.inline_of_postingAhead fits_postingLine)
    fun _ => fits_pure _

theorem fits_title : Fits x x.Inline (title : Step σ Title) x.Inline := by
  refine fits_bind (fits_takeText (by decide) _) fun first =>
    fits_peek_bind x.ready_of_inline fun kind => ?_
  split
  · exact fits_bind (fits_skip (x.ready_of_at (by decide))) fun _ =>
      fits_bind (fits_takeText (by decide) _) fun _ => fits_pure _
  · exact fits_bind ((fits_takeText (by decide) _).weaken x.inline_of_at fun _ h => h) fun _ =>
      fits_pure _
  · exact (fits_pure _).weaken x.inline_of_at fun _ h => h

/-- The active tags are the same in part and whole. -/
theorem fits_conclude (heading : Heading) (content : Content) :
    Fits x x.Behind (conclude setup heading content) x.Behind := fun s hs =>
  fits_reviewFrom heading.start (setup.builder.directive s.tags ⟨content, heading.location⟩)
    (fun _ h => h) s hs

theorem fits_transaction {kind : TokenKind} (hKind : kind.GoesOn) (heading : Heading)
    (date : Date) : Fits x (At x.Inline kind) (transaction setup heading date) x.Behind :=
  fits_nested (fun p h => x.ready_of_inline p h.1) <| fits_bind (fits_flag hKind) fun _ =>
    fits_bind fits_title fun _ => fits_bind (fits_texts (by decide)) fun _ =>
      fits_bind (fits_texts (by decide)) fun _ =>
        fits_bind (fits_lineEnd_inline _) fun _ => fits_bind fits_postingLines fun _ =>
          fits_conclude _ _

/-! ## Other statements -/

theorem fits_listedCurrency : Fits x x.Inline (listedCurrency : Step σ String) x.Inline := by
  refine fits_bind (fits_takeText (by decide) _) fun currency =>
    fits_peek_bind x.ready_of_inline fun kind => ?_
  split
  · refine fits_bind (fits_skip (x.ready_of_at (by decide))) fun _ =>
      fits_peek_bind x.ready_of_inline fun next => ?_
    split
    · exact (fits_pure _).weaken x.inline_of_at fun _ h => h
    · exact fits_unexpected _ fun p h => x.ready_of_inline p h.1
  · exact (fits_pure _).weaken x.inline_of_at fun _ h => h

theorem fits_currencies : Fits x x.Inline (currencies : Step σ (List String)) x.Inline :=
  fits_repeatWhile (x.comesNext_eq .currency) (fun _ h _ => h) fits_listedCurrency

/-- The end of a statement of one line, whatever it says. -/
theorem fits_finish (heading : Heading) (content : Content) (also : List TokenKind) :
    Fits x x.Inline (lineEnd also >>= fun _ => conclude setup heading content) x.Behind :=
  fits_bind (fits_lineEnd_inline also) fun _ => fits_conclude heading content

/-- A statement of one line begins with a word, and is made of texts and amounts. -/
theorem fits_word {kind : TokenKind} (hKind : kind.GoesOn) {m : Step σ α}
    (hm : Fits x x.Inline m x.Behind) :
    Fits x (At x.Inline kind) (skip >>= fun _ => m) x.Behind :=
  fits_bind (fits_skip (x.ready_of_at hKind)) fun _ => hm

theorem fits_text {kind : TokenKind} (hKind : kind.GoesOn) {expected : List TokenKind}
    {f : String → Step σ α} (hf : ∀ text, Fits x x.Inline (f text) x.Behind) :
    Fits x x.Inline (takeText kind expected >>= f) x.Behind :=
  fits_bind (fits_takeText hKind expected) hf

theorem fits_dated (heading : Heading) (date : Date) :
    Fits x x.Inline (dated setup heading date) x.Behind := by
  refine fits_peek_bind x.ready_of_inline fun kind => ?_
  split
  · exact fits_transaction (by decide) heading date
  · exact fits_transaction (by decide) heading date
  · exact fits_word (by decide) <| fits_text (by decide) fun _ =>
      fits_bind fits_currencies fun _ => fits_finish _ _ _
  · exact fits_word (by decide) <| fits_text (by decide) fun _ => fits_finish _ _ _
  · exact fits_word (by decide) <| fits_text (by decide) fun _ => fits_text (by decide) fun _ =>
      fits_finish _ _ _
  · exact fits_word (by decide) <| fits_text (by decide) fun _ =>
      fits_bind fits_amount fun _ => fits_finish _ _ _
  · exact fits_word (by decide) <| fits_text (by decide) fun _ =>
      fits_bind fits_amount fun _ => fits_finish _ _ _
  · exact fits_word (by decide) <| fits_text (by decide) fun _ => fits_text (by decide) fun _ =>
      fits_finish _ _ _
  · exact fits_word (by decide) <| fits_text (by decide) fun _ => fits_text (by decide) fun _ =>
      fits_finish _ _ _
  · exact fits_word (by decide) <| fits_text (by decide) fun _ => fits_text (by decide) fun _ =>
      fits_finish _ _ _
  · exact fits_unexpected _ fun p h => x.ready_of_inline p h.1

/-- Where a statement begins, a token of a kind that does not end the line comes next. -/
theorem Excerpt.ready_of_head {kind : TokenKind} (hKind : kind.GoesOn) (p : Spot)
    (h : At x.Ready kind p) : x.Ready p ∧ (nextKind p.1).GoesOn := by
  refine ⟨h.1, ?_⟩
  rw [h.2]
  exact hKind

theorem fits_entry : Fits x (At x.Ready .date) (entry setup) x.Behind :=
  fits_nested (fun _ h => h.1) <| fits_bind (fits_advance (x.ready_of_head (by decide)))
    fun token => fits_bind (fits_day token) fun date => fits_bind (fits_dated _ date) fun _ =>
      fits_spanFrom_bind (fun _ h => h) fun _ => fits_pure _

theorem fits_option : Fits x (At x.Ready (.keyword .option)) (option setup) x.Behind :=
  fits_nested (fun _ h => h.1) <| fits_bind (fits_advance (x.ready_of_head (by decide)))
    fun _ => fits_text (by decide) fun _ => fits_text (by decide) fun _ =>
      fits_bind (fits_lineEnd_inline _) fun _ => fits_bind (fits_conclude _ _) fun _ =>
        fits_spanFrom_bind (fun _ h => h) fun _ => fits_pure _

/-! ## Declarations -/

/-- New directives go behind those that were there. -/
theorem fits_accept (directive : Spanned Directive) :
    Fits x P (accept directive : Step σ Unit) P := by
  intro s hs
  refine ⟨.ok (), { s with directives := s.directives ++ [directive] }, rfl, ?_, hs⟩
  unfold accept State.inside
  simp only [List.append_assoc]

theorem fits_report (error : ParseError) : Fits x P (report error : Step σ Unit) P := by
  intro s hs
  refine ⟨.ok (), s.report error, rfl, ?_, hs⟩
  unfold report State.report State.inside
  simp only [List.append_assoc]

theorem fits_pushtag :
    Fits x (At x.Ready (.keyword .pushtag)) (pushtag : Step σ Unit) x.Behind := by
  refine fits_bind (fits_skip (x.ready_of_head (by decide))) fun _ => ?_
  refine (fits_bind (fits_takeText (by decide) _) fun tag => ?_).weaken (fun _ h => h)
    x.behind_of_inline
  exact fun s hs => ⟨.ok (), { s with tags := s.tags.push tag }, rfl, rfl, hs⟩

theorem fits_poptag : Fits x (At x.Ready (.keyword .poptag)) (poptag : Step σ Unit) x.Behind := by
  refine fits_here_bind (fun _ h => h.1) fun start => ?_
  refine fits_bind (fits_skip (x.ready_of_head (by decide))) fun _ => ?_
  refine (fits_bind (fits_takeText (by decide) _) fun tag => ?_).weaken (fun _ h => h)
    x.behind_of_inline
  refine fits_spanFrom_bind x.behind_of_inline fun span => ?_
  intro s hs
  by_cases hActive : s.tags.contains tag = true
  · refine ⟨.ok (), { s with tags := s.tags.pop tag }, if_pos hActive, ?_, hs⟩
    exact if_pos hActive
  · obtain ⟨result, t, hPart, hWhole, hRest⟩ :=
      fits_report (x := x) ⟨.unbalancedPoptag tag, span⟩ s hs
    exact ⟨result, t, (if_neg hActive).trans hPart, (if_neg hActive).trans hWhole, hRest⟩

theorem fits_declaration : Fits x x.Ready (declaration setup) x.Behind := by
  have hLineEnd (kind : TokenKind) :
      Fits x (At x.Ready kind) (lineEnd [] : Step σ Unit) x.Behind :=
    (fits_lineEnd []).weaken (fun _ h => h.1) fun _ h => h
  refine fits_peek_bind (fun _ h => h) fun kind => ?_
  split
  · exact fits_bind fits_entry fun _ => fits_accept _
  · exact fits_bind fits_option fun _ => fits_accept _
  · exact fits_pushtag
  · exact fits_poptag
  · exact hLineEnd _
  · exact hLineEnd _
  · exact hLineEnd _
  · exact fits_skip_any (by decide) fun _ h => h
  · exact fits_unexpected _ fun _ h => h.1

/-- A statement and the recovery from its error are the same in part and whole. -/
theorem fits_statement : Fits x x.Ready (statement setup) x.Stopped := by
  intro s hs
  have hFits : Fits x x.Ready (declaration setup) x.Behind := fits_declaration
  obtain ⟨result, t, hPart, hWhole, hLeaves⟩ := hFits s hs
  unfold statement
  rw [hPart, hWhole]
  cases result with
  | ok v => exact ⟨.ok v, t, rfl, rfl, x.stopped_of_behind _ hLeaves⟩
  | error halt =>
      cases halt with
      | fatal error => exact ⟨.error (.fatal error), t, rfl, rfl, hLeaves⟩
      | statement error =>
          have hReport : (t.inside x.around).report error = (t.report error).inside x.around := by
            unfold State.report State.inside
            simp only [List.append_assoc]
          show ∃ result u, recover setup error t = (result, u) ∧
            recover setup error (t.inside x.around) = (result, u.inside x.around) ∧ _
          unfold recover
          rw [hReport]
          cases setup.options.recovery with
          | abort =>
              exact ⟨.error (.fatal ⟨.recoveryExhausted, error.span⟩), t.report error, rfl, rfl,
                hLeaves⟩
          | resynchronize =>
              refine ⟨.ok (), (t.report error).resume setup.options.traceRecovery, rfl, ?_,
                x.stopped_resume (t.report error) _ hLeaves⟩
              rw [← x.resume_eq (t.report error) _ hLeaves]

end Parse

end LedgerText
