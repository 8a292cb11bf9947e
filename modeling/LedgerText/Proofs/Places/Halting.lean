import LedgerText.Proofs.Grammar.Reading

/-!
# Where statements halt

With the standard builder, an error in a statement is about one of two tokens:
the next one, which is in the wrong place, or the one read last, which does not
have the value that is needed. That the limit on nesting is exceeded is found out
in front of the next token. So all that an error tells about places can be told
from the state that is left behind (`Halt.IsAt`).
-/

namespace LedgerText.Parse

open Grammar Step

variable {α β : Type} {options : Options} {s t : State Unit}

/-- The error is about the next token in a state, or about the one read last if it is in a
statement. -/
def Halt.IsAt (t : State Unit) : Halt → Prop
  | .fatal error => error.span = t.lookahead.span
  | .statement error => error.span = t.lookahead.span ∨ error.span = t.lastSpan

/-- If a step halts, the error is about one of the tokens around the place where it does. -/
def HaltsAt (s : State Unit) (m : Step Unit α) : Prop :=
  ∀ halt t, m s = (.error halt, t) → halt.IsAt t

/-! ## Combinators -/

theorem haltsAt_of_ok {m : Step Unit α} (h : ∃ a, (m s).1 = .ok a) : HaltsAt s m := by
  intro halt t hHalt
  obtain ⟨a, hOk⟩ := h
  rw [hHalt] at hOk
  cases hOk

theorem haltsAt_pure (a : α) : HaltsAt s (pure a) := haltsAt_of_ok ⟨a, rfl⟩

theorem HaltsAt.bind {m : Step Unit α} {f : α → Step Unit β} (hm : HaltsAt s m)
    (hf : ∀ a t, m s = (.ok a, t) → HaltsAt t (f a)) : HaltsAt s (m >>= f) := by
  intro halt u hHalt
  rcases hStep : m s with ⟨result, t⟩
  cases result with
  | ok a =>
      rw [bind_of_ok hStep] at hHalt
      exact hf a t hStep halt u hHalt
  | error stopped =>
      rw [bind_of_error hStep] at hHalt
      cases hHalt
      exact hm halt u hStep

/-- What a step goes on with halts in the right place wherever it begins. -/
theorem haltsAt_bind {m : Step Unit α} {f : α → Step Unit β} (hm : HaltsAt s m)
    (hf : ∀ a t, HaltsAt t (f a)) : HaltsAt s (m >>= f) :=
  hm.bind fun a t _ => hf a t

theorem haltsAt_peek_bind {f : TokenKind → Step Unit α} (h : ∀ kind, HaltsAt s (f kind)) :
    HaltsAt s (peek >>= f) := h s.lookahead.kind

theorem haltsAt_here_bind {f : Span → Step Unit α} (h : ∀ span, HaltsAt s (f span)) :
    HaltsAt s (here >>= f) := h s.lookahead.span

theorem haltsAt_advance_bind {f : Token → Step Unit α} (h : HaltsAt s.next (f s.lookahead)) :
    HaltsAt s (advance >>= f) := h

theorem haltsAt_skip_bind {f : Unit → Step Unit α} (h : HaltsAt s.next (f ())) :
    HaltsAt s (skip >>= f) := h

theorem haltsAt_unexpected (expected : List TokenKind) :
    HaltsAt s (unexpected expected : Step Unit α) := by
  intro halt t hHalt
  cases hHalt
  exact .inl rfl

/-- A token that has no value, or one of the wrong sort, has just been read. -/
theorem haltsAt_missing {token : Token} (h : token.span = s.lastSpan) :
    HaltsAt s (missing token : Step Unit α) := by
  intro halt t hHalt
  cases hHalt
  exact .inr h

theorem haltsAt_ite_kind {kind : TokenKind} {m n : Step Unit α} (hm : HaltsAt s m)
    (hn : HaltsAt s n) :
    HaltsAt s (fun s => if s.lookahead.kind = kind then m s else n s) := by
  intro halt t hHalt
  by_cases hKind : s.lookahead.kind = kind
  · exact hm halt t ((if_pos hKind).symm.trans hHalt)
  · exact hn halt t ((if_neg hKind).symm.trans hHalt)

theorem haltsAt_skipIf (kind : TokenKind) : HaltsAt s (skipIf kind) :=
  haltsAt_ite_kind (haltsAt_of_ok ⟨(), rfl⟩) (haltsAt_of_ok ⟨(), rfl⟩)

theorem haltsAt_take (kind : TokenKind) (expected : List TokenKind) :
    HaltsAt s (take kind expected) :=
  haltsAt_ite_kind (haltsAt_of_ok ⟨_, rfl⟩) (haltsAt_unexpected expected)

theorem span_of_take {kind : TokenKind} {expected : List TokenKind} {token : Token}
    (h : take kind expected s = (.ok token, t)) : token.span = t.lastSpan := by
  unfold take at h
  split at h
  · cases h
    rfl
  · exact absurd h unexpected_ne_ok

/-- A token of a kind, and what is made of it. -/
theorem haltsAt_take_bind {kind : TokenKind} {expected : List TokenKind} {f : Token → Step Unit α}
    (hf : ∀ (token : Token) (t : State Unit), token.span = t.lastSpan → HaltsAt t (f token)) :
    HaltsAt s (take kind expected >>= f) :=
  (haltsAt_take kind expected).bind fun token t hStep => hf token t (span_of_take hStep)

theorem haltsAt_textOf {token : Token} (h : token.span = s.lastSpan) :
    HaltsAt s (textOf token) := by
  unfold textOf
  split
  · exact haltsAt_pure _
  · exact haltsAt_missing h

theorem haltsAt_takeText (kind : TokenKind) (expected : List TokenKind) :
    HaltsAt s (takeText kind expected) :=
  haltsAt_take_bind fun _ _ h => haltsAt_textOf h

theorem haltsAt_whenNext {kind : TokenKind} {m : Step Unit α} (h : HaltsAt s m) :
    HaltsAt s (whenNext kind m) :=
  haltsAt_ite_kind (haltsAt_bind h fun a _ => haltsAt_pure (some a)) (haltsAt_pure none)

/-- A value that the builder accepts. -/
theorem haltsAt_reviewFrom {start : Span} {verdict : Verdict Unit α} {a : α}
    (hAccept : verdict () = (.ok a, ())) : HaltsAt s (reviewFrom start verdict) := by
  refine haltsAt_of_ok ⟨a, ?_⟩
  show (review _ verdict s).1 = _
  rw [review, hAccept]

theorem haltsAt_nested {m : Step Unit α} (h : ∀ t, HaltsAt t m) :
    HaltsAt s (nested (.standard options) m) := by
  intro halt t hHalt
  by_cases hDepth : s.depth < options.maxDepth
  · rw [nested_of_room hDepth] at hHalt
    exact haltsAt_bind (h _) (fun a _ => haltsAt_of_ok ⟨a, rfl⟩) halt t hHalt
  · rw [nested_of_no_room hDepth] at hHalt
    cases hHalt
    exact rfl

/-- The induction is on the tokens that are left. -/
theorem haltsAt_repeatWhile {ahead : State Unit → Bool} {m : Step Unit α}
    {hAhead : ∀ s, ahead s → s.lookahead.kind ≠ .endOfInput} {hm : Consumes m}
    (h : ∀ t, HaltsAt t m) : HaltsAt s (repeatWhile ahead m hAhead hm) := by
  generalize hLength : s.input.length = length
  induction length using Nat.strongRecOn generalizing s with
  | _ length ih =>
      subst hLength
      intro halt t hHalt
      by_cases hs : ahead s = true
      · rw [repeatWhile_of_true hs] at hHalt
        refine (h s).bind (fun a u hStep => ?_) halt t hHalt
        exact haltsAt_bind (ih _ (hm s a u (hAhead s hs) hStep) rfl) fun _ _ =>
          haltsAt_pure _
      · rw [repeatWhile_of_false (by simpa using hs)] at hHalt
        cases hHalt

/-! ## Productions of a posting -/

theorem haltsAt_lineEnd (also : List TokenKind) (s : State Unit) : HaltsAt s (lineEnd also) := by
  refine haltsAt_peek_bind fun kind => ?_
  split
  · exact haltsAt_of_ok ⟨(), rfl⟩
  · exact haltsAt_skip_bind (haltsAt_skipIf _)
  · exact haltsAt_skip_bind (haltsAt_skipIf _)
  · exact haltsAt_unexpected _

theorem haltsAt_number (s : State Unit) : HaltsAt s number := by
  refine haltsAt_take_bind fun token t hToken => ?_
  split
  · exact haltsAt_pure _
  · exact haltsAt_missing hToken

theorem haltsAt_flag (s : State Unit) : HaltsAt s flag := by
  refine haltsAt_advance_bind ?_
  split
  · exact haltsAt_pure _
  · exact haltsAt_pure _
  · exact haltsAt_missing rfl

/-- The one value that the builder refuses is the day of a date that was just read. -/
theorem haltsAt_day {token : Token} (h : token.span = s.lastSpan) :
    HaltsAt s (day (.standard options) token) := by
  unfold day textOf
  split
  · intro halt t hHalt
    change review token.span ((Setup.standard options).builder.date _) s = _ at hHalt
    unfold review at hHalt
    split at hHalt
    · cases hHalt
    · cases hHalt
      exact .inr h
  · exact haltsAt_missing h

theorem haltsAt_amount (s : State Unit) : HaltsAt s (amount (.standard options)) :=
  haltsAt_nested fun t => haltsAt_here_bind fun _ =>
    haltsAt_bind (haltsAt_number t) fun _ _ =>
      haltsAt_bind (haltsAt_takeText _ _) fun _ _ => haltsAt_reviewFrom rfl

theorem haltsAt_lotDate (s : State Unit) : HaltsAt s (lotDate (.standard options)) := by
  refine haltsAt_peek_bind fun kind => ?_
  split
  · exact haltsAt_skip_bind <| haltsAt_take_bind fun token t hToken =>
      haltsAt_bind (haltsAt_day hToken) fun _ _ => haltsAt_pure _
  · exact haltsAt_pure _
  · exact haltsAt_unexpected _

theorem haltsAt_lotCost (s : State Unit) : HaltsAt s (lotCost (.standard options)) :=
  haltsAt_nested fun _ => haltsAt_here_bind fun _ => haltsAt_skip_bind <|
    haltsAt_bind (haltsAt_amount _) fun _ u =>
      haltsAt_bind (haltsAt_lotDate u) fun _ _ =>
        haltsAt_take_bind fun _ _ _ => haltsAt_reviewFrom rfl

theorem haltsAt_position (s : State Unit) : HaltsAt s (position (.standard options)) :=
  haltsAt_nested fun t => haltsAt_here_bind fun _ =>
    haltsAt_bind (haltsAt_amount t) fun _ u =>
      haltsAt_bind (haltsAt_whenNext (haltsAt_lotCost u)) fun _ _ =>
        haltsAt_reviewFrom rfl

theorem haltsAt_priceTag (position : Position) (total : Bool) (s : State Unit) :
    HaltsAt s (priceTag (.standard options) position total) :=
  haltsAt_skip_bind <| haltsAt_bind (haltsAt_amount _) fun _ t =>
    haltsAt_bind (haltsAt_lineEnd _ t) fun _ _ => haltsAt_pure _

theorem haltsAt_movement (s : State Unit) : HaltsAt s (movement (.standard options)) := by
  have hClose (also : List TokenKind) (moved : Movement) (t : State Unit) :
      HaltsAt t (lineEnd also >>= fun _ => pure moved) :=
    haltsAt_bind (haltsAt_lineEnd also t) fun _ _ => haltsAt_pure _
  refine haltsAt_peek_bind fun kind => ?_
  split
  · refine haltsAt_bind (haltsAt_position s) fun position t =>
      haltsAt_peek_bind fun next => ?_
    split
    · exact haltsAt_priceTag position false t
    · exact haltsAt_priceTag position true t
    · exact hClose _ _ t
  · exact hClose _ _ s

theorem haltsAt_posting (s : State Unit) : HaltsAt s (posting (.standard options)) :=
  haltsAt_nested fun _ => haltsAt_here_bind fun _ => haltsAt_skip_bind <|
    haltsAt_bind (haltsAt_whenNext (haltsAt_flag _)) fun _ _ =>
      haltsAt_bind (haltsAt_takeText _ _) fun _ u =>
        haltsAt_bind (haltsAt_movement u) fun _ _ => haltsAt_reviewFrom rfl

/-! ## Productions of a transaction -/

theorem haltsAt_texts (kind : TokenKind) (h : kind ≠ .endOfInput) (s : State Unit) :
    HaltsAt s (texts kind h) :=
  haltsAt_repeatWhile fun _ => haltsAt_takeText _ _

theorem haltsAt_postingLine (s : State Unit) : HaltsAt s (postingLine (.standard options)) := by
  refine haltsAt_peek_bind fun kind => ?_
  split
  · exact haltsAt_bind (haltsAt_posting s) fun _ _ => haltsAt_pure _
  · exact haltsAt_bind (haltsAt_lineEnd _ s) fun _ _ => haltsAt_pure _

theorem haltsAt_postingLines (s : State Unit) : HaltsAt s (postingLines (.standard options)) :=
  haltsAt_bind (haltsAt_repeatWhile haltsAt_postingLine) fun _ _ => haltsAt_pure _

theorem haltsAt_title (s : State Unit) : HaltsAt s title := by
  refine haltsAt_bind (haltsAt_takeText _ _) fun first t =>
    haltsAt_peek_bind fun kind => ?_
  split
  · exact haltsAt_skip_bind <| haltsAt_bind (haltsAt_takeText _ _) fun _ _ =>
      haltsAt_pure _
  · exact haltsAt_bind (haltsAt_takeText _ _) fun _ _ => haltsAt_pure _
  · exact haltsAt_pure _

theorem haltsAt_conclude (heading : Heading) (content : Content) (s : State Unit) :
    HaltsAt s (conclude (.standard options) heading content) := by
  have hReview : HaltsAt s (reviewFrom heading.start
      ((Setup.standard options).builder.directive s.tags ⟨content, heading.location⟩)) :=
    haltsAt_reviewFrom rfl
  exact hReview

theorem haltsAt_transaction (heading : Heading) (date : Date) (s : State Unit) :
    HaltsAt s (transaction (.standard options) heading date) :=
  haltsAt_nested fun t => haltsAt_bind (haltsAt_flag t) fun _ u =>
    haltsAt_bind (haltsAt_title u) fun _ u =>
      haltsAt_bind (haltsAt_texts _ _ u) fun _ u =>
        haltsAt_bind (haltsAt_texts _ _ u) fun _ u =>
          haltsAt_bind (haltsAt_lineEnd _ u) fun _ u =>
            haltsAt_bind (haltsAt_postingLines u) fun _ u => haltsAt_conclude _ _ u

/-! ## Other statements -/

theorem haltsAt_listedCurrency (s : State Unit) : HaltsAt s listedCurrency := by
  refine haltsAt_bind (haltsAt_takeText _ _) fun currency t =>
    haltsAt_peek_bind fun kind => ?_
  split
  · refine haltsAt_skip_bind <| haltsAt_peek_bind fun next => ?_
    split
    · exact haltsAt_pure _
    · exact haltsAt_unexpected _
  · exact haltsAt_pure _

/-- The end of a statement of one line, whatever it says. -/
theorem haltsAt_finish (heading : Heading) (content : Content) (also : List TokenKind)
    (s : State Unit) :
    HaltsAt s (lineEnd also >>= fun _ => conclude (.standard options) heading content) :=
  haltsAt_bind (haltsAt_lineEnd also s) fun _ t => haltsAt_conclude heading content t

theorem haltsAt_dated (heading : Heading) (date : Date) (s : State Unit) :
    HaltsAt s (dated (.standard options) heading date) := by
  have hText {kind : TokenKind} {expected : List TokenKind} {f : String → Step Unit Directive}
      {t : State Unit} (hf : ∀ text u, HaltsAt u (f text)) :
      HaltsAt t (takeText kind expected >>= f) :=
    haltsAt_bind (haltsAt_takeText kind expected) hf
  refine haltsAt_peek_bind fun kind => ?_
  split
  · exact haltsAt_transaction heading date s
  · exact haltsAt_transaction heading date s
  · exact haltsAt_skip_bind <| hText fun _ _ =>
      haltsAt_bind (haltsAt_repeatWhile haltsAt_listedCurrency) fun _ u =>
        haltsAt_finish _ _ _ u
  · exact haltsAt_skip_bind <| hText fun _ u => haltsAt_finish _ _ _ u
  · exact haltsAt_skip_bind <| hText fun _ _ => hText fun _ u => haltsAt_finish _ _ _ u
  · exact haltsAt_skip_bind <| hText fun _ u =>
      haltsAt_bind (haltsAt_amount u) fun _ u => haltsAt_finish _ _ _ u
  · exact haltsAt_skip_bind <| hText fun _ u =>
      haltsAt_bind (haltsAt_amount u) fun _ u => haltsAt_finish _ _ _ u
  · exact haltsAt_skip_bind <| hText fun _ _ => hText fun _ u => haltsAt_finish _ _ _ u
  · exact haltsAt_skip_bind <| hText fun _ _ => hText fun _ u => haltsAt_finish _ _ _ u
  · exact haltsAt_skip_bind <| hText fun _ _ => hText fun _ u => haltsAt_finish _ _ _ u
  · exact haltsAt_unexpected _

theorem haltsAt_entry (s : State Unit) : HaltsAt s (entry (.standard options)) :=
  haltsAt_nested fun _ => haltsAt_advance_bind <|
    haltsAt_bind (haltsAt_day rfl) fun date t =>
      haltsAt_bind (haltsAt_dated _ date t) fun _ _ => haltsAt_of_ok ⟨_, rfl⟩

theorem haltsAt_option (s : State Unit) : HaltsAt s (option (.standard options)) :=
  haltsAt_nested fun _ => haltsAt_advance_bind <|
    haltsAt_bind (haltsAt_takeText _ _) fun _ _ =>
      haltsAt_bind (haltsAt_takeText _ _) fun _ t =>
        haltsAt_bind (haltsAt_lineEnd _ t) fun _ t =>
          haltsAt_bind (haltsAt_conclude _ _ t) fun _ _ => haltsAt_of_ok ⟨_, rfl⟩

theorem haltsAt_declaration (s : State Unit) : HaltsAt s (declaration (.standard options)) := by
  have hTag {f : String → Step Unit Unit} (hf : ∀ tag u, ∃ v, (f tag u).1 = .ok v) :
      HaltsAt s.next (takeText .tag [.tag] >>= f) :=
    haltsAt_bind (haltsAt_takeText _ _) fun tag u => haltsAt_of_ok (hf tag u)
  refine haltsAt_peek_bind fun kind => ?_
  split
  · exact haltsAt_bind (haltsAt_entry s) fun _ _ => haltsAt_of_ok ⟨(), rfl⟩
  · exact haltsAt_bind (haltsAt_option s) fun _ _ => haltsAt_of_ok ⟨(), rfl⟩
  · exact hTag fun _ _ => ⟨(), rfl⟩
  · refine hTag fun tag u => ⟨(), ?_⟩
    show (if u.tags.contains tag then _ else _ : Except Halt Unit × State Unit).1 = _
    split <;> rfl
  · exact haltsAt_lineEnd _ s
  · exact haltsAt_lineEnd _ s
  · exact haltsAt_lineEnd _ s
  · exact haltsAt_of_ok ⟨(), rfl⟩
  · exact haltsAt_unexpected _

end LedgerText.Parse
