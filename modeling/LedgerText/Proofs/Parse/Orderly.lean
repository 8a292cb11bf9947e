import LedgerText.Proofs.Lexing.Classes
import LedgerText.Proofs.Parse.Excerpt

/-!
# Parsing the tokens of a text

The tokens of a text are `Tidy`: each carries what its kind calls for, every
line is closed, and the text ends behind its last line. Statements rely on that.
They look for one more token only inside a line, so none of them runs into the
end of the text, and all that a builder can refuse is a day that does not exist.

`Orderly` is the judgement on a step: where it may begin, where it ends if it
succeeds, and that it halts for no other reasons (`Halt.IsOrdinary`).
-/

namespace LedgerText

/-- Tokens that carry what their kinds call for, in lines that are closed, up to the end. -/
structure Tidy (tokens : List Token) : Prop where
  lexical : ∀ token ∈ tokens, token.IsLexical
  closed : ∃ lines last, tokens = lines ++ [last] ∧ last.kind = .endOfInput ∧
    (∀ token ∈ lines, token.kind ≠ .endOfInput) ∧
      ∀ token, lines.getLast? = some token → token.kind = .lineEnd

/-- The tokens of every text are tidy. -/
theorem tidy_tokens (source : String) : Tidy (Token.tokens source) := by
  obtain ⟨front, blanks, lines, -, -, hLexed, hTokens⟩ := Token.exists_tokens source
  refine ⟨fun token => Token.isLexical_of_mem_tokens, lines, _, hTokens, rfl,
    hLexed.kind_ne_endOfInput, fun token hLast => ?_⟩
  have hClosed := hLexed.after_eq
  rw [hLast, Option.elim_some] at hClosed
  simpa using hClosed.symm

/-- The token for the end of the text is the last one, behind the end of a line. -/
theorem Tidy.end_of_mem {tokens front rest : List Token} {token : Token} (h : Tidy tokens)
    (hTokens : tokens = front ++ token :: rest) (hKind : token.kind = .endOfInput) :
    rest = [] ∧ ∀ last, front.getLast? = some last → last.kind = .lineEnd := by
  obtain ⟨lines, last, hClosed, -, hLines, hLast⟩ := h.closed
  rcases List.eq_nil_or_concat rest with rfl | ⟨others, other, rfl⟩
  · obtain ⟨rfl, -⟩ := List.append_inj' (hTokens.symm.trans hClosed) rfl
    exact ⟨rfl, hLast⟩
  · have hSame : (front ++ token :: others) ++ [other] = lines ++ [last] := by
      rw [← hClosed, hTokens]
      simp
    obtain ⟨rfl, -⟩ := List.append_inj' hSame rfl
    exact absurd hKind (hLines token (by simp))

/-- It does not matter for tokens to be tidy where the text ends. -/
theorem Tidy.endAt {w : List Token} {last : Token} (h : Tidy (w ++ [last])) (span : Span) :
    Tidy (w ++ [.endOfInput span]) := by
  obtain ⟨lines, other, hClosed, -, hKinds, hLast⟩ := h.closed
  obtain ⟨rfl, -⟩ := List.append_inj' hClosed rfl
  refine ⟨List.forall_mem_append.2 ⟨?_, List.forall_mem_singleton.2 trivial⟩, _, _, rfl, rfl,
    hKinds, hLast⟩
  exact fun token hToken => h.lexical token (List.mem_append_left _ hToken)

namespace Parse

open Grammar Step

/-- A halt that a statement of a text can lead to: it is nested too deep, a token is in the wrong
place, or a day does not exist. -/
def Halt.IsOrdinary (halt : Halt) : Prop :=
  match halt with
  | .fatal error => ∃ limit, error.problem = .stackExhausted limit
  | .statement error =>
      (∃ found expected, error.problem = .unexpected found expected ∧ found ≠ .endOfInput) ∨
        ∃ text, error.problem = .invalidValue (.invalidDate text)

/-! ## Spots in a text -/

/-- A spot in front of one of the tokens. -/
def Spot.IsWithin (tokens : List Token) (p : Spot) : Prop :=
  p.1 ≠ [] ∧ ∃ front, tokens = front ++ p.1 ∧ p.2 = front.getLast?

/-- A spot inside a line, where the line goes on or ends. -/
def Spot.IsInline (tokens : List Token) (p : Spot) : Prop :=
  p.IsWithin tokens ∧ ∃ token, p.2 = some token ∧ token.kind ≠ .lineEnd

section

variable {tokens : List Token} {p : Spot}

/-- Inside a line the text does not end. -/
theorem Spot.IsInline.ne_endOfInput (hTidy : Tidy tokens) (h : p.IsInline tokens) :
    nextKind p.1 ≠ .endOfInput := by
  obtain ⟨input, previous⟩ := p
  obtain ⟨⟨hSome, front, hTokens, hFront⟩, last, hLast, hKind⟩ := h
  obtain ⟨token, rest, rfl⟩ := List.exists_cons_of_ne_nil hSome
  intro hEnd
  exact hKind ((hTidy.end_of_mem hTokens hEnd).2 last (hFront.symm.trans hLast))

/-- Behind any other token the text goes on. -/
theorem isWithin_next (hTidy : Tidy tokens) {s : State Unit} (h : s.spot.IsWithin tokens)
    (hMore : nextKind s.input ≠ .endOfInput) : s.next.spot.IsWithin tokens := by
  obtain ⟨hSome, front, hTokens, hFront⟩ := h
  obtain ⟨token, rest, hInput⟩ := List.exists_cons_of_ne_nil hSome
  change s.input = _ at hInput
  have hNext : s.next.spot = (rest, some token) := by
    simp [State.spot, State.next, State.lookahead, hInput]
  rw [hNext]
  change tokens = front ++ s.input at hTokens
  rw [hInput] at hTokens hMore
  refine ⟨?_, front ++ [token], by rw [hTokens]; simp, by simp⟩
  rintro rfl
  obtain ⟨lines, last, hClosed, hKind, -, -⟩ := hTidy.closed
  obtain ⟨-, hLast⟩ := List.append_inj' (hTokens.symm.trans hClosed) rfl
  cases hLast
  exact hMore hKind

theorem isInline_next (hTidy : Tidy tokens) {s : State Unit} (h : s.spot.IsWithin tokens)
    (hMore : nextKind s.input ≠ .endOfInput) (hLine : nextKind s.input ≠ .lineEnd) :
    s.next.spot.IsInline tokens := by
  refine ⟨isWithin_next hTidy h hMore, s.lookahead, rfl, ?_⟩
  rw [s.lookahead_kind]
  exact hLine

/-- What comes next is a token of the text. -/
theorem lookahead_isLexical (hTidy : Tidy tokens) {s : State Unit} (h : s.spot.IsWithin tokens) :
    s.lookahead.IsLexical := by
  obtain ⟨hSome, front, hTokens, -⟩ := h
  obtain ⟨token, rest, hInput⟩ := List.exists_cons_of_ne_nil hSome
  change s.input = _ at hInput
  change tokens = front ++ s.input at hTokens
  have hNext : s.lookahead = token := by
    simp [State.lookahead, hInput]
  rw [hNext]
  exact hTidy.lexical token (by rw [hTokens, hInput]; simp)

end

/-! ## The judgement -/

/-- From spots with `P`, a step that succeeds ends at a spot with `Q`, and one that fails halts for
an ordinary reason, still within the text. -/
def Orderly {α : Type} (tokens : List Token) (P : Spot → Prop) (m : Step Unit α)
    (Q : α → Spot → Prop) : Prop :=
  ∀ s : State Unit, P s.spot → match m s with
    | (.ok a, t) => Q a t.spot
    | (.error halt, t) => t.spot.IsWithin tokens ∧ halt.IsOrdinary

/-- A step that only matters for where it ends. -/
abbrev OrderlyTo {α : Type} (tokens : List Token) (P : Spot → Prop) (m : Step Unit α)
    (Q : Spot → Prop) : Prop :=
  Orderly tokens P m fun _ => Q

section

variable {α β : Type} {tokens : List Token} {P S : Spot → Prop} {Q : α → Spot → Prop}
  {R : β → Spot → Prop}

/-! ## Combinators -/

theorem orderly_pure {a : α} (h : ∀ p, P p → Q a p) : Orderly tokens P (pure a) Q :=
  fun s hs => h s.spot hs

theorem orderly_bind {m : Step Unit α} {f : α → Step Unit β} (hm : Orderly tokens P m Q)
    (hf : ∀ a, Orderly tokens (Q a) (f a) R) : Orderly tokens P (m >>= f) R := by
  intro s hs
  have hFirst := hm s hs
  rcases hStep : m s with ⟨result, t⟩
  rw [hStep] at hFirst
  cases result with
  | ok a =>
      rw [bind_of_ok hStep]
      exact hf a t hFirst
  | error halt =>
      rw [bind_of_error hStep]
      exact hFirst

theorem orderly_peek_bind {f : TokenKind → Step Unit α}
    (hf : ∀ kind, Orderly tokens (At P kind) (f kind) Q) : Orderly tokens P (peek >>= f) Q :=
  fun s hs => hf s.lookahead.kind s ⟨hs, s.lookahead_kind.symm⟩

theorem orderly_here_bind {f : Span → Step Unit α} (hf : ∀ span, Orderly tokens P (f span) Q) :
    Orderly tokens P (here >>= f) Q := fun s hs => hf s.lookahead.span s hs

theorem orderly_spanFrom_bind {f : Span → Step Unit α} {start : Span}
    (hf : ∀ span, Orderly tokens P (f span) Q) : Orderly tokens P (spanFrom start >>= f) Q :=
  fun s hs => hf (start.upTo s.lastSpan) s hs

theorem Orderly.weaken {P' : Spot → Prop} {Q' : α → Spot → Prop} {m : Step Unit α}
    (h : Orderly tokens P m Q) (hP : ∀ p, P' p → P p) (hQ : ∀ a p, Q a p → Q' a p) :
    Orderly tokens P' m Q' := by
  intro s hs
  have hStep := h s (hP _ hs)
  rcases hResult : m s with ⟨result, t⟩
  rw [hResult] at hStep
  cases result with
  | ok a => exact hQ a _ hStep
  | error halt => exact hStep

/-- A token that is in the wrong place, which the end of the text is not. -/
theorem orderly_unexpected (expected : List TokenKind)
    (hP : ∀ p, P p → p.IsWithin tokens ∧ nextKind p.1 ≠ .endOfInput) :
    Orderly tokens P (unexpected expected) Q := by
  intro s hs
  obtain ⟨hWithin, hMore⟩ := hP _ hs
  refine ⟨hWithin, .inl ⟨_, _, rfl, ?_⟩⟩
  rw [s.lookahead_kind]
  exact hMore

theorem orderly_nested {setup : Setup Unit} {m : Step Unit α}
    (hP : ∀ p, P p → p.IsWithin tokens) (hm : Orderly tokens P m Q) :
    Orderly tokens P (nested setup m) Q := by
  intro s hs
  by_cases hDepth : s.depth < setup.options.maxDepth
  · have hInner := hm { s with depth := s.depth + 1 } hs
    rcases hStep : m { s with depth := s.depth + 1 } with ⟨result, t⟩
    rw [hStep] at hInner
    cases result with
    | ok a =>
        rw [nested_of_ok hDepth hStep]
        exact hInner
    | error halt =>
        rw [nested_of_error hDepth hStep]
        exact hInner
  · rw [nested_of_no_room hDepth]
    exact ⟨hP _ hs, _, rfl⟩

/-- A builder that accepts a value as it is. -/
theorem orderly_review {span : Span} {verdict : Verdict Unit α} {a : α}
    (hAccept : verdict () = (.ok a, ())) (hP : ∀ p, P p → Q a p) :
    Orderly tokens P (review span verdict) Q := by
  intro s hs
  unfold review
  rw [hAccept]
  exact hP _ hs

theorem orderly_reviewFrom {start : Span} {verdict : Verdict Unit α} {a : α}
    (hAccept : verdict () = (.ok a, ())) :
    OrderlyTo tokens P (reviewFrom start verdict) P :=
  orderly_spanFrom_bind fun _ => orderly_review hAccept fun _ hp => hp

/-- A step that depends on the kind of the next token. -/
theorem orderly_ite_kind {kind : TokenKind} {m n : Step Unit α}
    (hm : Orderly tokens (At P kind) m Q) (hn : Orderly tokens P n Q) :
    Orderly tokens P (fun s => if s.lookahead.kind = kind then m s else n s) Q := by
  intro s hs
  by_cases hKind : s.lookahead.kind = kind
  · simp only [if_pos hKind]
    exact hm s ⟨hs, s.lookahead_kind.symm.trans hKind⟩
  · simp only [if_neg hKind]
    exact hn s hs

/-- A repetition goes on from where it began. The induction is on the tokens that are left. -/
theorem orderly_repeatWhile {ahead : State Unit → Bool} {m : Step Unit α}
    {hAhead : ∀ s, ahead s → s.lookahead.kind ≠ .endOfInput} {hm : Consumes m}
    (hReady : ∀ s : State Unit, P s.spot → ahead s = true → S s.spot)
    (hStep : OrderlyTo tokens S m P) :
    OrderlyTo tokens P (repeatWhile ahead m hAhead hm) P := by
  intro s
  generalize hLength : s.input.length = length
  induction length using Nat.strongRecOn generalizing s with
  | _ length ih =>
      subst hLength
      intro hs
      by_cases hGoes : ahead s = true
      · rw [repeatWhile_of_true hGoes]
        have hFirst := hStep s (hReady s hs hGoes)
        rcases hResult : m s with ⟨result, t⟩
        rw [hResult] at hFirst
        cases result with
        | error halt =>
            rw [bind_of_error hResult]
            exact hFirst
        | ok a =>
            rw [bind_of_ok hResult]
            have hMore := ih _ (hm s a t (hAhead s hGoes) hResult) t rfl hFirst
            rcases hOthers : repeatWhile ahead m hAhead hm t with ⟨others, u⟩
            rw [hOthers] at hMore
            cases others with
            | ok values =>
                rw [bind_of_ok hOthers]
                exact hMore
            | error halt =>
                rw [bind_of_error hOthers]
                exact hMore
      · have hStops : ahead s = false := by simpa using hGoes
        rw [repeatWhile_of_false hStops]
        exact hs

end

/-! ## Reading tokens -/

section

variable {α : Type} {tokens : List Token} {P : Spot → Prop}

/-- A token that was read as one of a kind. -/
def Taken (tokens : List Token) (kind : TokenKind) (token : Token) (p : Spot) : Prop :=
  token.kind = kind ∧ token.IsLexical ∧ p.IsInline tokens

theorem orderly_advance (hTidy : Tidy tokens) {kind : TokenKind} (hEnd : kind ≠ .endOfInput)
    (hLine : kind ≠ .lineEnd) (hP : ∀ p, P p → p.IsWithin tokens ∧ nextKind p.1 = kind) :
    Orderly tokens P advance (Taken tokens kind) := by
  intro s hs
  obtain ⟨hWithin, hKind⟩ := hP _ hs
  refine ⟨s.lookahead_kind.trans hKind, lookahead_isLexical hTidy hWithin,
    isInline_next hTidy hWithin ?_ ?_⟩
  · exact hKind ▸ hEnd
  · exact hKind ▸ hLine

/-- A token that does not end its line. -/
theorem orderly_skip (hTidy : Tidy tokens) (hP : ∀ p, P p → p.IsWithin tokens ∧
    nextKind p.1 ≠ .endOfInput ∧ nextKind p.1 ≠ .lineEnd) :
    OrderlyTo tokens P skip (Spot.IsInline tokens) :=
  fun _ hs => isInline_next hTidy (hP _ hs).1 (hP _ hs).2.1 (hP _ hs).2.2

theorem orderly_skip_any (hTidy : Tidy tokens) (hP : ∀ p, P p → p.IsWithin tokens ∧
    nextKind p.1 ≠ .endOfInput) : OrderlyTo tokens P skip (Spot.IsWithin tokens) :=
  fun _ hs => isWithin_next hTidy (hP _ hs).1 (hP _ hs).2

/-- A token inside a line, of a kind that may stand there. -/
theorem inline_at {kind : TokenKind} (hTidy : Tidy tokens) (hLine : kind ≠ .lineEnd) (p : Spot)
    (h : At (Spot.IsInline tokens) kind p) :
    p.IsWithin tokens ∧ nextKind p.1 ≠ .endOfInput ∧ nextKind p.1 ≠ .lineEnd :=
  ⟨h.1.1, h.1.ne_endOfInput hTidy, h.2 ▸ hLine⟩

theorem inline_goesOn (hTidy : Tidy tokens) (p : Spot) (h : p.IsInline tokens) :
    p.IsWithin tokens ∧ nextKind p.1 ≠ .endOfInput :=
  ⟨h.1, h.ne_endOfInput hTidy⟩

theorem orderly_take (hTidy : Tidy tokens) {kind : TokenKind} (hEnd : kind ≠ .endOfInput)
    (hLine : kind ≠ .lineEnd) (expected : List TokenKind) :
    Orderly tokens (Spot.IsInline tokens) (take kind expected) (Taken tokens kind) := by
  refine orderly_ite_kind ?_ ?_
  · exact orderly_advance hTidy hEnd hLine fun p hp => ⟨hp.1.1, hp.2⟩
  · exact orderly_unexpected expected (inline_goesOn hTidy)

theorem orderly_takeText (hTidy : Tidy tokens) {kind : TokenKind} (hText : kind.carriesText = true)
    (expected : List TokenKind) :
    OrderlyTo tokens (Spot.IsInline tokens) (takeText kind expected) (Spot.IsInline tokens) := by
  have hEnd : kind ≠ .endOfInput := by
    rintro rfl
    cases hText
  have hLine : kind ≠ .lineEnd := by
    rintro rfl
    cases hText
  refine orderly_bind (orderly_take hTidy hEnd hLine expected) fun token => ?_
  intro s hs
  obtain ⟨hKind, hLexical, hInline⟩ := hs
  obtain ⟨text, hValue⟩ := hLexical.exists_text (hKind ▸ hText)
  simp only [textOf, hValue, TokenValue.text?]
  exact hInline

theorem orderly_whenNext {kind : TokenKind} {m : Step Unit α}
    (hm : OrderlyTo tokens (At (Spot.IsInline tokens) kind) m (Spot.IsInline tokens)) :
    OrderlyTo tokens (Spot.IsInline tokens) (whenNext kind m) (Spot.IsInline tokens) :=
  orderly_ite_kind (orderly_bind hm fun _ => orderly_pure fun _ hp => hp)
    (orderly_pure fun _ hp => hp)

/-! ## Productions of a posting -/

section

variable {options : Options}

/-- A line end is read inside a line, or where one of the tokens that it can begin with comes
next. -/
theorem orderly_lineEnd (hTidy : Tidy tokens) (also : List TokenKind)
    (hP : ∀ p, P p → p.IsWithin tokens ∧ nextKind p.1 ≠ .endOfInput) :
    OrderlyTo tokens P (lineEnd also) (Spot.IsWithin tokens) := by
  have hClose : OrderlyTo tokens (Spot.IsInline tokens) (skipIf .lineEnd) (Spot.IsWithin tokens) :=
    orderly_ite_kind
      (orderly_skip_any hTidy fun p hp => ⟨hp.1.1, by rw [hp.2]; exact TokenKind.noConfusion⟩)
      (orderly_pure fun _ hp => hp.1)
  have hOpen {kind : TokenKind} (hEnd : kind ≠ .endOfInput) (hLine : kind ≠ .lineEnd) :
      OrderlyTo tokens (At P kind) (skip >>= fun _ => skipIf .lineEnd) (Spot.IsWithin tokens) :=
    orderly_bind (orderly_skip hTidy fun p hp =>
      ⟨(hP p hp.1).1, hp.2 ▸ hEnd, hp.2 ▸ hLine⟩) fun _ => hClose
  refine orderly_peek_bind fun kind => ?_
  split
  · exact orderly_skip_any hTidy fun p hp => hP p hp.1
  · exact hOpen (by decide) (by decide)
  · exact hOpen (by decide) (by decide)
  · exact orderly_unexpected _ fun p hp => hP p hp.1

theorem orderly_number (hTidy : Tidy tokens) :
    OrderlyTo tokens (Spot.IsInline tokens) number (Spot.IsInline tokens) := by
  refine orderly_bind (orderly_take hTidy (by decide) (by decide) _) fun token => ?_
  intro s hs
  obtain ⟨hKind, hLexical, hInline⟩ := hs
  rw [Token.IsLexical, hKind] at hLexical
  obtain ⟨number, hValue⟩ := hLexical
  simp only [hValue]
  exact hInline

theorem orderly_flag (hTidy : Tidy tokens)
    (hP : ∀ p, P p → p.IsWithin tokens ∧ (nextKind p.1 = .keyword .txn ∨ nextKind p.1 = .flag)) :
    OrderlyTo tokens P flag (Spot.IsInline tokens) := by
  intro s hs
  obtain ⟨hWithin, hKind⟩ := hP _ hs
  rw [flag, advance_bind]
  have hLexical := lookahead_isLexical hTidy hWithin
  have hNext : s.next.spot.IsInline tokens := by
    refine isInline_next hTidy hWithin ?_ ?_
    · rcases hKind with hKind | hKind <;> exact hKind ▸ TokenKind.noConfusion
    · rcases hKind with hKind | hKind <;> exact hKind ▸ TokenKind.noConfusion
  rcases hKind with hKind | hKind
  · have hToken : s.lookahead.kind = .keyword .txn := s.lookahead_kind.trans hKind
    simp only [hToken]
    exact hNext
  · have hToken : s.lookahead.kind = .flag := s.lookahead_kind.trans hKind
    rw [Token.IsLexical, hToken] at hLexical
    obtain ⟨c, hValue, -⟩ := hLexical
    simp only [hToken, hValue]
    exact hNext

/-- The one value that is refused is the day of a date that names none. -/
theorem orderly_day (token : Token) :
    OrderlyTo tokens (Taken tokens .date token) (day (.standard options) token)
      (Spot.IsInline tokens) := by
  intro s hs
  obtain ⟨hKind, hLexical, hInline⟩ := hs
  obtain ⟨text, hValue⟩ := hLexical.exists_text (by rw [hKind]; rfl)
  have hText : textOf token s = (.ok text, s) := by
    simp only [textOf, hValue, TokenValue.text?]
    rfl
  rw [day, bind_of_ok hText, review]
  have hBuilder : (Setup.standard options).builder.date text s.builder =
      (Date.parse text, s.builder) := rfl
  rw [hBuilder, Date.parse]
  cases Date.ofText? text with
  | some date => exact hInline
  | none => exact ⟨hInline.1, .inr ⟨text, rfl⟩⟩

theorem orderly_amount (hTidy : Tidy tokens) :
    OrderlyTo tokens (Spot.IsInline tokens) (amount (.standard options)) (Spot.IsInline tokens) :=
  orderly_nested (fun _ hp => hp.1) <| orderly_here_bind fun _ =>
    orderly_bind (orderly_number hTidy) fun _ => orderly_bind (orderly_takeText hTidy rfl _)
      fun _ => orderly_reviewFrom rfl

theorem orderly_lotDate (hTidy : Tidy tokens) :
    OrderlyTo tokens (Spot.IsInline tokens) (lotDate (.standard options))
      (Spot.IsInline tokens) := by
  refine orderly_peek_bind fun kind => ?_
  split
  · exact orderly_bind (orderly_skip hTidy (inline_at hTidy (by decide))) fun _ =>
      orderly_bind (orderly_take hTidy (by decide) (by decide) _) fun token =>
        orderly_bind (orderly_day token) fun _ => orderly_pure fun _ hp => hp
  · exact orderly_pure fun _ hp => hp.1
  · exact orderly_unexpected _ fun p hp => inline_goesOn hTidy p hp.1

theorem orderly_lotCost (hTidy : Tidy tokens) :
    OrderlyTo tokens (At (Spot.IsInline tokens) (.mark .leftBrace)) (lotCost (.standard options))
      (Spot.IsInline tokens) :=
  orderly_nested (fun _ hp => hp.1.1) <| orderly_here_bind fun _ =>
    orderly_bind (orderly_skip hTidy (inline_at hTidy (by decide))) fun _ =>
      orderly_bind (orderly_amount hTidy) fun _ => orderly_bind (orderly_lotDate hTidy) fun _ =>
        orderly_bind (orderly_take hTidy (by decide) (by decide) _) fun _ =>
          (orderly_reviewFrom rfl).weaken (fun _ hp => hp) fun _ _ hp => hp.2.2

theorem orderly_position (hTidy : Tidy tokens) :
    OrderlyTo tokens (Spot.IsInline tokens) (position (.standard options))
      (Spot.IsInline tokens) :=
  orderly_nested (fun _ hp => hp.1) <| orderly_here_bind fun _ =>
    orderly_bind (orderly_amount hTidy) fun _ =>
      orderly_bind (orderly_whenNext (orderly_lotCost hTidy)) fun _ => orderly_reviewFrom rfl

theorem orderly_priceTag (hTidy : Tidy tokens) {kind : TokenKind} (hLine : kind ≠ .lineEnd)
    (position : Position) (total : Bool) :
    OrderlyTo tokens (At (Spot.IsInline tokens) kind)
      (priceTag (.standard options) position total) (Spot.IsWithin tokens) :=
  orderly_bind (orderly_skip hTidy (inline_at hTidy hLine)) fun _ =>
    orderly_bind (orderly_amount hTidy) fun _ =>
      orderly_bind (orderly_lineEnd hTidy _ (inline_goesOn hTidy)) fun _ =>
        orderly_pure fun _ hp => hp

theorem orderly_movement (hTidy : Tidy tokens) :
    OrderlyTo tokens (Spot.IsInline tokens) (movement (.standard options))
      (Spot.IsWithin tokens) := by
  have hClose (also : List TokenKind) (moved : Movement) {kind : TokenKind} :
      OrderlyTo tokens (At (Spot.IsInline tokens) kind) (lineEnd also >>= fun _ => pure moved)
        (Spot.IsWithin tokens) :=
    orderly_bind (orderly_lineEnd hTidy also fun p hp => inline_goesOn hTidy p hp.1) fun _ =>
      orderly_pure fun _ hp => hp
  refine orderly_peek_bind fun kind => ?_
  split
  · refine orderly_bind ((orderly_position hTidy).weaken (fun _ hp => hp.1) fun _ _ hp => hp)
      fun position => orderly_peek_bind fun next => ?_
    split
    · exact orderly_priceTag hTidy (by decide) position false
    · exact orderly_priceTag hTidy (by decide) position true
    · exact hClose _ _
  · exact hClose _ _

theorem orderly_posting (hTidy : Tidy tokens) :
    OrderlyTo tokens (fun p => p.IsWithin tokens ∧ nextKind p.1 = .indent)
      (posting (.standard options)) (Spot.IsWithin tokens) := by
  have hFlag : OrderlyTo tokens (Spot.IsInline tokens) (whenNext .flag flag)
      (Spot.IsInline tokens) :=
    orderly_whenNext (orderly_flag hTidy fun p hp => ⟨hp.1.1, .inr hp.2⟩)
  refine orderly_nested (fun _ hp => hp.1) <| orderly_here_bind fun _ =>
    orderly_bind (orderly_skip hTidy fun p hp => ⟨hp.1, ?_, ?_⟩) fun _ =>
      orderly_bind hFlag fun _ => orderly_bind (orderly_takeText hTidy rfl _) fun _ =>
        orderly_bind (orderly_movement hTidy) fun _ => orderly_reviewFrom rfl
  · exact hp.2 ▸ TokenKind.noConfusion
  · exact hp.2 ▸ TokenKind.noConfusion

/-! ## Productions of a transaction -/

theorem orderly_postingLine (hTidy : Tidy tokens) :
    OrderlyTo tokens (fun p => p.IsWithin tokens ∧ nextKind p.1 ≠ .endOfInput)
      (postingLine (.standard options)) (Spot.IsWithin tokens) := by
  refine orderly_peek_bind fun kind => ?_
  split
  · exact orderly_bind ((orderly_posting hTidy).weaken (fun _ hp => ⟨hp.1.1, hp.2⟩)
      fun _ _ hp => hp) fun _ => orderly_pure fun _ hp => hp
  · exact orderly_bind (orderly_lineEnd hTidy _ fun p hp => hp.1) fun _ =>
      orderly_pure fun _ hp => hp

theorem orderly_postingLines (hTidy : Tidy tokens) :
    OrderlyTo tokens (Spot.IsWithin tokens) (postingLines (.standard options))
      (Spot.IsWithin tokens) := by
  refine orderly_bind (orderly_repeatWhile ?_ (orderly_postingLine hTidy)) fun _ =>
    orderly_pure fun _ hp => hp
  intro s hs hGoes
  refine ⟨hs, ?_⟩
  rw [← s.lookahead_kind]
  exact postingAhead_ne s hGoes

theorem orderly_texts (hTidy : Tidy tokens) {kind : TokenKind} (hText : kind.carriesText = true)
    (hEnd : kind ≠ .endOfInput) :
    OrderlyTo tokens (Spot.IsInline tokens) (texts kind hEnd) (Spot.IsInline tokens) :=
  orderly_repeatWhile (fun _ hs _ => hs) (orderly_takeText hTidy hText _)

theorem orderly_title (hTidy : Tidy tokens) :
    OrderlyTo tokens (Spot.IsInline tokens) title (Spot.IsInline tokens) := by
  refine orderly_bind (orderly_takeText hTidy rfl _) fun first => orderly_peek_bind fun kind => ?_
  split
  · exact orderly_bind (orderly_skip hTidy (inline_at hTidy (by decide))) fun _ =>
      orderly_bind (orderly_takeText hTidy rfl _) fun _ => orderly_pure fun _ hp => hp
  · exact orderly_bind ((orderly_takeText hTidy rfl _).weaken (fun _ hp => hp.1) fun _ _ hp => hp)
      fun _ => orderly_pure fun _ hp => hp
  · exact orderly_pure fun _ hp => hp.1

/-- A finished statement is accepted wherever it ends. -/
theorem orderly_conclude (heading : Heading) (content : Content) :
    OrderlyTo tokens P (conclude (.standard options) heading content) P := by
  intro s hs
  have hReview : OrderlyTo tokens P (reviewFrom heading.start
      ((Setup.standard options).builder.directive s.tags ⟨content, heading.location⟩)) P :=
    orderly_reviewFrom rfl
  exact hReview s hs

theorem orderly_transaction (hTidy : Tidy tokens) (heading : Heading) (date : Date) :
    OrderlyTo tokens
      (fun p => p.IsWithin tokens ∧ (nextKind p.1 = .keyword .txn ∨ nextKind p.1 = .flag))
      (transaction (.standard options) heading date) (Spot.IsWithin tokens) :=
  orderly_nested (fun _ hp => hp.1) <| orderly_bind (orderly_flag hTidy fun _ hp => hp) fun _ =>
    orderly_bind (orderly_title hTidy) fun _ =>
      orderly_bind (orderly_texts hTidy rfl _) fun _ =>
        orderly_bind (orderly_texts hTidy rfl _) fun _ =>
          orderly_bind (orderly_lineEnd hTidy _ (inline_goesOn hTidy)) fun _ =>
            orderly_bind (orderly_postingLines hTidy) fun _ => orderly_conclude _ _

/-! ## Other statements -/

theorem orderly_listedCurrency (hTidy : Tidy tokens) :
    OrderlyTo tokens (Spot.IsInline tokens) listedCurrency (Spot.IsInline tokens) := by
  refine orderly_bind (orderly_takeText hTidy rfl _) fun currency =>
    orderly_peek_bind fun kind => ?_
  split
  · refine orderly_bind (orderly_skip hTidy (inline_at hTidy (by decide))) fun _ =>
      orderly_peek_bind fun next => ?_
    split
    · exact orderly_pure fun _ hp => hp.1
    · exact orderly_unexpected _ fun p hp => inline_goesOn hTidy p hp.1
  · exact orderly_pure fun _ hp => hp.1

theorem orderly_currencies (hTidy : Tidy tokens) :
    OrderlyTo tokens (Spot.IsInline tokens) currencies (Spot.IsInline tokens) :=
  orderly_repeatWhile (fun _ hs _ => hs) (orderly_listedCurrency hTidy)

/-- The end of a statement of one line. -/
theorem orderly_finish (hTidy : Tidy tokens) (heading : Heading) (content : Content)
    (also : List TokenKind) :
    OrderlyTo tokens (Spot.IsInline tokens)
      (lineEnd also >>= fun _ => conclude (.standard options) heading content)
      (Spot.IsWithin tokens) :=
  orderly_bind (orderly_lineEnd hTidy also (inline_goesOn hTidy)) fun _ => orderly_conclude _ _

theorem orderly_dated (hTidy : Tidy tokens) (heading : Heading) (date : Date) :
    OrderlyTo tokens (Spot.IsInline tokens) (dated (.standard options) heading date)
      (Spot.IsWithin tokens) := by
  have hWord {keyword : Keyword} {α : Type} {f : Unit → Step Unit α}
      {Q : α → Spot → Prop} (hf : ∀ u, Orderly tokens (Spot.IsInline tokens) (f u) Q) :
      Orderly tokens (At (Spot.IsInline tokens) (.keyword keyword)) (skip >>= f) Q :=
    orderly_bind (orderly_skip hTidy (inline_at hTidy TokenKind.noConfusion)) hf
  have hTransaction {kind : TokenKind} (hKind : kind = .keyword .txn ∨ kind = .flag) :
      OrderlyTo tokens (At (Spot.IsInline tokens) kind)
        (transaction (.standard options) heading date) (Spot.IsWithin tokens) :=
    (orderly_transaction hTidy heading date).weaken
      (fun p hp => ⟨hp.1.1, by rw [hp.2]; exact hKind⟩) fun _ _ hp => hp
  refine orderly_peek_bind fun kind => ?_
  split
  · exact hTransaction (.inl rfl)
  · exact hTransaction (.inr rfl)
  · exact hWord fun _ => orderly_bind (orderly_takeText hTidy rfl _) fun _ =>
      orderly_bind (orderly_currencies hTidy) fun _ => orderly_finish hTidy _ _ _
  · exact hWord fun _ => orderly_bind (orderly_takeText hTidy rfl _) fun _ =>
      orderly_finish hTidy _ _ _
  · exact hWord fun _ => orderly_bind (orderly_takeText hTidy rfl _) fun _ =>
      orderly_bind (orderly_takeText hTidy rfl _) fun _ => orderly_finish hTidy _ _ _
  · exact hWord fun _ => orderly_bind (orderly_takeText hTidy rfl _) fun _ =>
      orderly_bind (orderly_amount hTidy) fun _ => orderly_finish hTidy _ _ _
  · exact hWord fun _ => orderly_bind (orderly_takeText hTidy rfl _) fun _ =>
      orderly_bind (orderly_amount hTidy) fun _ => orderly_finish hTidy _ _ _
  · exact hWord fun _ => orderly_bind (orderly_takeText hTidy rfl _) fun _ =>
      orderly_bind (orderly_takeText hTidy rfl _) fun _ => orderly_finish hTidy _ _ _
  · exact hWord fun _ => orderly_bind (orderly_takeText hTidy rfl _) fun _ =>
      orderly_bind (orderly_takeText hTidy rfl _) fun _ => orderly_finish hTidy _ _ _
  · exact hWord fun _ => orderly_bind (orderly_takeText hTidy rfl _) fun _ =>
      orderly_bind (orderly_takeText hTidy rfl _) fun _ => orderly_finish hTidy _ _ _
  · exact orderly_unexpected _ fun p hp => inline_goesOn hTidy p hp.1

theorem orderly_entry (hTidy : Tidy tokens) :
    OrderlyTo tokens (fun p => p.IsWithin tokens ∧ nextKind p.1 = .date)
      (entry (.standard options)) (Spot.IsWithin tokens) :=
  orderly_nested (fun _ hp => hp.1) <|
    orderly_bind (orderly_advance hTidy (by decide) (by decide) fun _ hp => hp) fun token =>
      orderly_bind (orderly_day token) fun date => orderly_bind (orderly_dated hTidy _ date)
        fun _ => orderly_spanFrom_bind fun _ => orderly_pure fun _ hp => hp

theorem orderly_option (hTidy : Tidy tokens) :
    OrderlyTo tokens (fun p => p.IsWithin tokens ∧ nextKind p.1 = .keyword .option)
      (option (.standard options)) (Spot.IsWithin tokens) := by
  refine orderly_nested (fun _ hp => hp.1) <|
    orderly_bind (orderly_advance hTidy (by decide) (by decide) fun _ hp => hp) fun token => ?_
  refine (?_ : OrderlyTo tokens (Spot.IsInline tokens) _ (Spot.IsWithin tokens)).weaken
    (fun _ hp => hp.2.2) fun _ _ hp => hp
  exact orderly_bind (orderly_takeText hTidy rfl _) fun _ =>
    orderly_bind (orderly_takeText hTidy rfl _) fun _ =>
      orderly_bind (orderly_lineEnd hTidy _ (inline_goesOn hTidy)) fun _ =>
        orderly_bind (orderly_conclude _ _) fun _ =>
          orderly_spanFrom_bind fun _ => orderly_pure fun _ hp => hp

/-- What a statement does with a tag is done anywhere. -/
theorem orderly_tag (hTidy : Tidy tokens) {f : String → Step Unit Unit}
    (hf : ∀ tag, OrderlyTo tokens (Spot.IsInline tokens) (f tag) (Spot.IsWithin tokens))
    (hP : ∀ p, P p → p.IsWithin tokens ∧ nextKind p.1 ≠ .endOfInput ∧ nextKind p.1 ≠ .lineEnd) :
    OrderlyTo tokens P (skip >>= fun _ => takeText .tag [.tag] >>= f) (Spot.IsWithin tokens) :=
  orderly_bind (orderly_skip hTidy hP) fun _ => orderly_bind (orderly_takeText hTidy rfl _) hf

/-- Every declaration of a text is orderly, where there is one. -/
theorem orderly_declaration (hTidy : Tidy tokens) :
    OrderlyTo tokens (fun p => p.IsWithin tokens ∧ nextKind p.1 ≠ .endOfInput)
      (declaration (.standard options)) (Spot.IsWithin tokens) := by
  have hAccept (x : Spanned Directive) :
      OrderlyTo tokens (Spot.IsWithin tokens) (accept x) (Spot.IsWithin tokens) := fun _ hs => hs
  have hNext {kind : TokenKind} (hLine : kind ≠ .lineEnd) (p : Spot)
      (hp : At (fun p => p.IsWithin tokens ∧ nextKind p.1 ≠ .endOfInput) kind p) :
      p.IsWithin tokens ∧ nextKind p.1 ≠ .endOfInput ∧ nextKind p.1 ≠ .lineEnd :=
    ⟨hp.1.1, hp.1.2, hp.2 ▸ hLine⟩
  refine orderly_peek_bind fun kind => ?_
  split
  · exact orderly_bind ((orderly_entry hTidy).weaken (fun _ hp => ⟨hp.1.1, hp.2⟩)
      fun _ _ hp => hp) hAccept
  · exact orderly_bind ((orderly_option hTidy).weaken (fun _ hp => ⟨hp.1.1, hp.2⟩)
      fun _ _ hp => hp) hAccept
  · exact orderly_tag hTidy (fun _ _ hs => hs.1) (hNext (by decide))
  · refine orderly_here_bind fun start => orderly_tag hTidy (fun tag => ?_) (hNext (by decide))
    refine orderly_spanFrom_bind fun span s hs => ?_
    by_cases hActive : s.tags.contains tag = true
    · simp only [if_pos hActive]
      exact hs.1
    · simp only [if_neg hActive]
      exact hs.1
  · exact orderly_lineEnd hTidy _ fun p hp => hp.1
  · exact orderly_lineEnd hTidy _ fun p hp => hp.1
  · exact orderly_lineEnd hTidy _ fun p hp => hp.1
  · exact orderly_skip_any hTidy fun p hp => hp.1
  · exact orderly_unexpected _ fun p hp => hp.1

end

end

end Parse

end LedgerText
