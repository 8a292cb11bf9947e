import LedgerText.Proofs.Building.Turns

/-!
# Recording builders

A parse asks a builder and takes its answers, but does not look at its state. So
if two builders answer alike in states that correspond, the parses with them do
the same, up to the states (`run_mapBuilder`).

In particular a builder can be made to record all calls that it receives
(`Builder.recorded`), and no parse will notice.
-/

namespace LedgerText

open Visit

variable {σ τ α β : Type}

/-- The builders answer alike in corresponding states, and go on to corresponding states. -/
def Builder.MapsTo (f : σ → τ) (builder : Builder σ) (other : Builder τ) : Prop :=
  ∀ {α : Type} (request : Request α) (state : σ), request.verdict other (f state) =
    ((request.verdict builder state).1, f (request.verdict builder state).2)

namespace Parse

open Grammar Step

/-- The state with another state of a builder. -/
def State.mapBuilder (f : σ → τ) (s : State σ) : State τ :=
  ⟨s.input, s.previous, s.depth, f s.builder, s.tags, s.directives, s.errors, s.phase⟩

/-- A step does in corresponding states what another step does. -/
def Mirrors (f : σ → τ) (m : Step σ α) (n : Step τ α) : Prop :=
  ∀ s, n (s.mapBuilder f) = ((m s).1, (m s).2.mapBuilder f)

variable {f : σ → τ} {builder : Builder σ} {other : Builder τ} {options : Options}

/-! ## Combinators -/

theorem mirrors_pure (a : α) : Mirrors f (pure a) (pure a) := fun _ => rfl

theorem mirrors_bind {m : Step σ α} {n : Step τ α} {k : α → Step σ β} {l : α → Step τ β}
    (h : Mirrors f m n) (hMore : ∀ a, Mirrors f (k a) (l a)) :
    Mirrors f (m >>= k) (n >>= l) := by
  intro s
  have hStep := h s
  rcases hFirst : m s with ⟨result, t⟩
  rw [hFirst] at hStep
  cases result with
  | ok a => rw [bind_of_ok hStep, bind_of_ok hFirst, hMore a t]
  | error halt => rw [bind_of_error hStep, bind_of_error hFirst]

theorem mirrors_peek : Mirrors f peek peek := fun _ => rfl

theorem mirrors_here : Mirrors f here here := fun _ => rfl

theorem mirrors_spanFrom (start : Span) : Mirrors f (spanFrom start) (spanFrom start) :=
  fun _ => rfl

theorem mirrors_unexpected (expected : List TokenKind) :
    Mirrors f (unexpected expected : Step σ α) (unexpected expected) := fun _ => rfl

theorem mirrors_missing (token : Token) :
    Mirrors f (missing token : Step σ α) (missing token) := fun _ => rfl

theorem mirrors_advance : Mirrors f advance advance := fun _ => rfl

theorem mirrors_skip : Mirrors f skip skip := fun _ => rfl

/-- Both decide in the same way. -/
theorem mapBuilder_ite {p q : Prop} [Decidable p] [Decidable q] (h : q ↔ p)
    {x y : Except Halt α × State σ} {v w : Except Halt α × State τ}
    (hx : v = (x.1, x.2.mapBuilder f)) (hy : w = (y.1, y.2.mapBuilder f)) :
    (if q then v else w) =
      ((if p then x else y).1, (if p then x else y).2.mapBuilder f) := by
  by_cases hp : p
  · rw [if_pos (h.2 hp), if_pos hp, hx]
  · rw [if_neg fun hq => hp (h.1 hq), if_neg hp, hy]

theorem mirrors_skipIf (kind : TokenKind) : Mirrors f (skipIf kind) (skipIf kind) := fun s =>
  mapBuilder_ite .rfl (mirrors_skip s) (mirrors_pure () s)

theorem mirrors_take (kind : TokenKind) (expected : List TokenKind) :
    Mirrors f (take kind expected) (take kind expected) := fun s =>
  mapBuilder_ite .rfl (mirrors_advance s) (mirrors_unexpected expected s)

theorem mirrors_textOf (token : Token) : Mirrors f (textOf token) (textOf token) := by
  unfold textOf
  cases token.value.text? with
  | none => exact mirrors_missing token
  | some text => exact mirrors_pure text

theorem mirrors_takeText (kind : TokenKind) (expected : List TokenKind) :
    Mirrors f (takeText kind expected) (takeText kind expected) :=
  mirrors_bind (mirrors_take kind expected) mirrors_textOf

/-- A word and a text, and what comes behind them. -/
theorem mirrors_word (kind : TokenKind) {k : String → Step σ α} {l : String → Step τ α}
    (hMore : ∀ text, Mirrors f (k text) (l text)) :
    Mirrors f (skip >>= fun _ => takeText kind [kind] >>= k)
      (skip >>= fun _ => takeText kind [kind] >>= l) :=
  mirrors_bind mirrors_skip fun _ => mirrors_bind (mirrors_takeText kind [kind]) hMore

theorem mirrors_whenNext (kind : TokenKind) {m : Step σ α} {n : Step τ α} (h : Mirrors f m n) :
    Mirrors f (whenNext kind m) (whenNext kind n) :=
  fun s => mapBuilder_ite .rfl (mirrors_bind h (fun a => mirrors_pure (some a)) s)
    (mirrors_pure none s)

theorem mirrors_nested {m : Step σ α} {n : Step τ α} (h : Mirrors f m n) :
    Mirrors f (nested ⟨builder, options⟩ m) (nested ⟨other, options⟩ n) := by
  have hEnter : Mirrors f (enter ⟨builder, options⟩) (enter ⟨other, options⟩) := fun s =>
    mapBuilder_ite .rfl rfl rfl
  exact mirrors_bind hEnter fun _ => mirrors_bind h fun a => mirrors_bind (fun _ => rfl) fun _ =>
    mirrors_pure a

/-- Both repetitions go on equally long. The induction is on the tokens that are left. -/
theorem mirrors_repeatWhile {ahead : State σ → Bool} {aheadToo : State τ → Bool} {m : Step σ α}
    {n : Step τ α} {hAhead : ∀ s, ahead s → s.lookahead.kind ≠ .endOfInput}
    {hAheadToo : ∀ s, aheadToo s → s.lookahead.kind ≠ .endOfInput} {hm : Consumes m}
    {hn : Consumes n} (h : Mirrors f m n) (hSame : ∀ s, aheadToo (s.mapBuilder f) = ahead s) :
    Mirrors f (repeatWhile ahead m hAhead hm) (repeatWhile aheadToo n hAheadToo hn) := by
  intro s
  generalize hLength : s.input.length = length
  induction length using Nat.strongRecOn generalizing s with
  | _ length ih =>
      subst hLength
      by_cases hs : ahead s = true
      · rw [repeatWhile_of_true hs, repeatWhile_of_true ((hSame s).trans hs)]
        have hStep := h s
        rcases hFirst : m s with ⟨result, t⟩
        rw [hFirst] at hStep
        cases result with
        | ok a =>
            have hRest := ih _ (hm s a t (hAhead s hs) hFirst) t rfl
            rw [bind_of_ok hStep, bind_of_ok hFirst]
            rcases hOthers : repeatWhile ahead m hAhead hm t with ⟨others, u⟩
            rw [hOthers] at hRest
            cases others with
            | ok values =>
                rw [bind_of_ok hRest, bind_of_ok hOthers]
                rfl
            | error halt => rw [bind_of_error hRest, bind_of_error hOthers]
        | error halt => rw [bind_of_error hStep, bind_of_error hFirst]
      · have hStop : ahead s = false := by simpa using hs
        rw [repeatWhile_of_false hStop, repeatWhile_of_false ((hSame s).trans hStop)]

/-! ## Productions -/

theorem mirrors_lineEnd (also : List TokenKind) : Mirrors f (lineEnd also) (lineEnd also) := by
  refine mirrors_bind mirrors_peek fun kind => ?_
  split
  · exact mirrors_skip
  · exact mirrors_bind mirrors_skip fun _ => mirrors_skipIf _
  · exact mirrors_bind mirrors_skip fun _ => mirrors_skipIf _
  · exact mirrors_unexpected _

theorem mirrors_number : Mirrors f number number := by
  refine mirrors_bind (mirrors_take _ _) fun token => ?_
  split
  · exact mirrors_pure _
  · exact mirrors_missing token

theorem mirrors_flag : Mirrors f flag flag := by
  refine mirrors_bind mirrors_advance fun token => ?_
  split
  · exact mirrors_pure _
  · exact mirrors_pure _
  · exact mirrors_missing token

theorem mirrors_title : Mirrors f title title := by
  refine mirrors_bind (mirrors_takeText _ _) fun first => mirrors_bind mirrors_peek fun kind => ?_
  split
  · exact mirrors_bind mirrors_skip fun _ => mirrors_bind (mirrors_takeText _ _) fun _ =>
      mirrors_pure _
  · exact mirrors_bind (mirrors_takeText _ _) fun _ => mirrors_pure _
  · exact mirrors_pure _

theorem mirrors_texts (kind : TokenKind) (h : kind ≠ .endOfInput) :
    Mirrors f (texts kind h) (texts kind h) :=
  mirrors_repeatWhile (mirrors_takeText _ _) fun _ => rfl

theorem mirrors_listedCurrency : Mirrors f listedCurrency listedCurrency := by
  refine mirrors_bind (mirrors_takeText _ _) fun currency =>
    mirrors_bind mirrors_peek fun kind => ?_
  split
  · refine mirrors_bind mirrors_skip fun _ => mirrors_bind mirrors_peek fun next => ?_
    split
    · exact mirrors_pure _
    · exact mirrors_unexpected _
  · exact mirrors_pure _

theorem mirrors_currencies : Mirrors f currencies currencies :=
  mirrors_repeatWhile mirrors_listedCurrency fun _ => rfl

section

variable (h : builder.MapsTo f other)
include h

theorem mirrors_review (span : Span) (request : Request α) :
    Mirrors f (review span (request.verdict builder)) (review span (request.verdict other)) := by
  intro s
  have hAnswer := h request s.builder
  unfold review
  rw [show (s.mapBuilder f).builder = f s.builder from rfl, hAnswer]
  rcases request.verdict builder s.builder with ⟨_ | _, after⟩ <;> rfl

theorem mirrors_reviewFrom (start : Span) (request : Request α) :
    Mirrors f (reviewFrom start (request.verdict builder))
      (reviewFrom start (request.verdict other)) :=
  mirrors_bind (mirrors_spanFrom start) fun span => mirrors_review h span request

theorem mirrors_day (token : Token) :
    Mirrors f (day ⟨builder, options⟩ token) (day ⟨other, options⟩ token) :=
  mirrors_bind (mirrors_textOf token) fun text => mirrors_review h token.span (.date text)

theorem mirrors_amount : Mirrors f (amount ⟨builder, options⟩) (amount ⟨other, options⟩) :=
  mirrors_nested <| mirrors_bind mirrors_here fun start => mirrors_bind mirrors_number fun number =>
    mirrors_bind (mirrors_takeText _ _) fun currency =>
      mirrors_reviewFrom h start (.amount ⟨number, currency⟩)

theorem mirrors_lotDate : Mirrors f (lotDate ⟨builder, options⟩) (lotDate ⟨other, options⟩) := by
  refine mirrors_bind mirrors_peek fun kind => ?_
  split
  · exact mirrors_bind mirrors_skip fun _ => mirrors_bind (mirrors_take _ _) fun token =>
      mirrors_bind (mirrors_day h token) fun _ => mirrors_pure _
  · exact mirrors_pure none
  · exact mirrors_unexpected _

theorem mirrors_lotCost : Mirrors f (lotCost ⟨builder, options⟩) (lotCost ⟨other, options⟩) :=
  mirrors_nested <| mirrors_bind mirrors_here fun start => mirrors_bind mirrors_skip fun _ =>
    mirrors_bind (mirrors_amount h) fun cost => mirrors_bind (mirrors_lotDate h) fun date =>
      mirrors_bind (mirrors_take _ _) fun _ => mirrors_reviewFrom h start (.lotCost ⟨cost, date⟩)

theorem mirrors_position : Mirrors f (position ⟨builder, options⟩) (position ⟨other, options⟩) :=
  mirrors_nested <| mirrors_bind mirrors_here fun start => mirrors_bind (mirrors_amount h)
    fun units => mirrors_bind (mirrors_whenNext _ (mirrors_lotCost h)) fun cost =>
      mirrors_reviewFrom h start (.position ⟨units, cost⟩)

theorem mirrors_priceTag (position : Position) (total : Bool) :
    Mirrors f (priceTag ⟨builder, options⟩ position total)
      (priceTag ⟨other, options⟩ position total) :=
  mirrors_bind mirrors_skip fun _ => mirrors_bind (mirrors_amount h) fun _ =>
    mirrors_bind (mirrors_lineEnd _) fun _ => mirrors_pure _

theorem mirrors_movement : Mirrors f (movement ⟨builder, options⟩) (movement ⟨other, options⟩) := by
  refine mirrors_bind mirrors_peek fun kind => ?_
  split
  · refine mirrors_bind (mirrors_position h) fun position =>
      mirrors_bind mirrors_peek fun next => ?_
    split
    · exact mirrors_priceTag h position false
    · exact mirrors_priceTag h position true
    · exact mirrors_bind (mirrors_lineEnd _) fun _ => mirrors_pure _
  · exact mirrors_bind (mirrors_lineEnd _) fun _ => mirrors_pure _

theorem mirrors_posting : Mirrors f (posting ⟨builder, options⟩) (posting ⟨other, options⟩) :=
  mirrors_nested <| mirrors_bind mirrors_here fun start => mirrors_bind mirrors_skip fun _ =>
    mirrors_bind (mirrors_whenNext _ mirrors_flag) fun flag =>
      mirrors_bind (mirrors_takeText _ _) fun account => mirrors_bind (mirrors_movement h)
        fun moved => mirrors_reviewFrom h start (.posting
          ⟨flag, account, moved.position, moved.price, moved.priceIsTotal⟩)

theorem mirrors_postingLine :
    Mirrors f (postingLine ⟨builder, options⟩) (postingLine ⟨other, options⟩) := by
  refine mirrors_bind mirrors_peek fun kind => ?_
  split
  · exact mirrors_bind (mirrors_posting h) fun _ => mirrors_pure _
  · exact mirrors_bind (mirrors_lineEnd _) fun _ => mirrors_pure _

theorem mirrors_postingLines :
    Mirrors f (postingLines ⟨builder, options⟩) (postingLines ⟨other, options⟩) :=
  mirrors_bind (mirrors_repeatWhile (mirrors_postingLine h) fun _ => rfl) fun _ => mirrors_pure _

theorem mirrors_conclude (heading : Heading) (content : Content) :
    Mirrors f (conclude ⟨builder, options⟩ heading content)
      (conclude ⟨other, options⟩ heading content) := fun s =>
  mirrors_reviewFrom h heading.start (.directive s.tags ⟨content, heading.location⟩) s

theorem mirrors_finish (heading : Heading) (content : Content) (also : List TokenKind) :
    Mirrors f (lineEnd also >>= fun _ => conclude ⟨builder, options⟩ heading content)
      (lineEnd also >>= fun _ => conclude ⟨other, options⟩ heading content) :=
  mirrors_bind (mirrors_lineEnd also) fun _ => mirrors_conclude h heading content

theorem mirrors_transaction (heading : Heading) (date : Date) :
    Mirrors f (transaction ⟨builder, options⟩ heading date)
      (transaction ⟨other, options⟩ heading date) :=
  mirrors_nested <| mirrors_bind mirrors_flag fun _ => mirrors_bind mirrors_title fun _ =>
    mirrors_bind (mirrors_texts _ _) fun _ => mirrors_bind (mirrors_texts _ _) fun _ =>
      mirrors_bind (mirrors_lineEnd _) fun _ => mirrors_bind (mirrors_postingLines h) fun _ =>
        mirrors_conclude h heading _

theorem mirrors_dated (heading : Heading) (date : Date) :
    Mirrors f (dated ⟨builder, options⟩ heading date) (dated ⟨other, options⟩ heading date) := by
  refine mirrors_bind mirrors_peek fun kind => ?_
  split
  · exact mirrors_transaction h heading date
  · exact mirrors_transaction h heading date
  · exact mirrors_word .account fun _ => mirrors_bind mirrors_currencies fun _ =>
      mirrors_finish h _ _ _
  · exact mirrors_word .account fun _ => mirrors_finish h _ _ _
  · exact mirrors_word .account fun _ => mirrors_bind (mirrors_takeText _ _) fun _ =>
      mirrors_finish h _ _ _
  · exact mirrors_word .account fun _ => mirrors_bind (mirrors_amount h) fun _ =>
      mirrors_finish h _ _ _
  · exact mirrors_word .currency fun _ => mirrors_bind (mirrors_amount h) fun _ =>
      mirrors_finish h _ _ _
  · exact mirrors_word .string fun _ => mirrors_bind (mirrors_takeText _ _) fun _ =>
      mirrors_finish h _ _ _
  · exact mirrors_word .account fun _ => mirrors_bind (mirrors_takeText _ _) fun _ =>
      mirrors_finish h _ _ _
  · exact mirrors_word .account fun _ => mirrors_bind (mirrors_takeText _ _) fun _ =>
      mirrors_finish h _ _ _
  · exact mirrors_unexpected _

theorem mirrors_entry : Mirrors f (entry ⟨builder, options⟩) (entry ⟨other, options⟩) :=
  mirrors_nested <| mirrors_bind mirrors_advance fun token => mirrors_bind (mirrors_day h token)
    fun date => mirrors_bind (mirrors_dated h _ date) fun _ =>
      mirrors_bind (mirrors_spanFrom _) fun _ => mirrors_pure _

theorem mirrors_option : Mirrors f (option ⟨builder, options⟩) (option ⟨other, options⟩) :=
  mirrors_nested <| mirrors_bind mirrors_advance fun _ =>
    mirrors_bind (mirrors_takeText _ _) fun _ => mirrors_bind (mirrors_takeText _ _) fun _ =>
      mirrors_bind (mirrors_lineEnd _) fun _ => mirrors_bind (mirrors_conclude h _ _) fun _ =>
        mirrors_bind (mirrors_spanFrom _) fun _ => mirrors_pure _

theorem mirrors_declaration :
    Mirrors f (declaration ⟨builder, options⟩) (declaration ⟨other, options⟩) := by
  have hAccept (x : Spanned Directive) : Mirrors f (accept x) (accept x) := fun _ => rfl
  refine mirrors_bind mirrors_peek fun kind => ?_
  split
  · exact mirrors_bind (mirrors_entry h) hAccept
  · exact mirrors_bind (mirrors_option h) hAccept
  · exact mirrors_word .tag fun _ _ => rfl
  · refine mirrors_bind mirrors_here fun start => mirrors_word .tag fun tag =>
      mirrors_bind (mirrors_spanFrom start) fun span s => ?_
    exact mapBuilder_ite .rfl rfl rfl
  · exact mirrors_lineEnd []
  · exact mirrors_lineEnd []
  · exact mirrors_lineEnd []
  · exact mirrors_skip
  · exact mirrors_unexpected _

theorem mirrors_statement :
    Mirrors f (statement ⟨builder, options⟩) (statement ⟨other, options⟩) := by
  intro s
  have hStep : declaration ⟨other, options⟩ (s.mapBuilder f) = _ := mirrors_declaration h s
  unfold statement
  rw [hStep]
  rcases declaration ⟨builder, options⟩ s with ⟨result, t⟩
  rcases result with (error | error) | v
  · show recover ⟨other, options⟩ error (t.mapBuilder f) = _
    unfold recover
    cases options.recovery <;> rfl
  · rfl
  · rfl

/-- Parses with builders that answer alike do the same, up to the states of the builders. -/
theorem run_mapBuilder (state : σ) (tags : TagContext) (input : List Token) :
    run ⟨other, options⟩ (f state) tags input =
      (run ⟨builder, options⟩ state tags input).mapBuilder f := by
  have hFile : Mirrors f (file ⟨builder, options⟩) (file ⟨other, options⟩) :=
    mirrors_nested <| mirrors_bind (mirrors_repeatWhile (mirrors_statement h) fun _ => rfl)
      fun _ => mirrors_pure ()
  have hStep := hFile (.start state tags input)
  have hStart : (State.start state tags input).mapBuilder f = .start (f state) tags input := rfl
  rw [hStart] at hStep
  unfold run
  rw [hStep]
  rcases file ⟨builder, options⟩ (.start state tags input) with ⟨_ | _, t⟩ <;> rfl

end

end Parse

/-! ## Recording -/

/-- How a builder answers a request while it records it. -/
def Request.recorded (builder : Builder σ) (request : Request α) : Verdict (σ × List Call) α :=
  fun state =>
    let answer := request.verdict builder state.1
    (answer.1, answer.2, state.2 ++ [request.call answer.1])

/-- The builder that records all calls, with their answers, and else does the same. -/
def Builder.recorded (builder : Builder σ) : Builder (σ × List Call) where
  date text := (Request.date text).recorded builder
  amount given := (Request.amount given).recorded builder
  lotCost given := (Request.lotCost given).recorded builder
  position given := (Request.position given).recorded builder
  posting given := (Request.posting given).recorded builder
  directive active given := (Request.directive active given).recorded builder

theorem Request.verdict_recorded (builder : Builder σ) (request : Request α) :
    request.verdict builder.recorded = request.recorded builder := by
  cases request <;> rfl

/-- Recording does not change what a builder does. -/
theorem Builder.recorded_mapsTo (builder : Builder σ) :
    builder.recorded.MapsTo Prod.fst builder := by
  intro α request state
  rw [Request.verdict_recorded]
  rfl

/-- The builder's own answer, and what was recorded. -/
theorem Request.of_recorded {builder : Builder σ} {request : Request α}
    {state after : σ × List Call} {answer : Except Refusal α}
    (h : request.verdict builder.recorded state = (answer, after)) :
    request.verdict builder state.1 = (answer, after.1) ∧
      after.2 = state.2 ++ [request.call answer] := by
  rw [Request.verdict_recorded] at h
  cases h
  exact ⟨rfl, rfl⟩

/-- What is recorded in the course of a visit are its calls. -/
theorem Visit.Runs.of_recorded {builder : Builder σ} {v : Visit α} {state after : σ × List Call}
    {tokens : List Token} {calls : List Call} {upshot : Upshot α}
    (h : v.Runs builder.recorded state tokens calls upshot after) :
    v.Runs builder state.1 tokens calls upshot after.1 ∧ after.2 = state.2 ++ calls := by
  induction h with
  | done a state => exact ⟨.done a state.1, (List.append_nil _).symm⟩
  | stuck state => exact ⟨.stuck state.1, (List.append_nil _).symm⟩
  | cut token next state => exact ⟨.cut token next state.1, (List.append_nil _).symm⟩
  | read rest ih => exact ⟨.read ih.1, ih.2⟩
  | @refused β request next state after refusal answer =>
      obtain ⟨hAnswer, hLog⟩ := Request.of_recorded answer
      exact ⟨.refused hAnswer, hLog⟩
  | @asked β request next state between after b tokens calls upshot answer rest ih =>
      obtain ⟨hAnswer, hLog⟩ := Request.of_recorded answer
      refine ⟨.asked hAnswer ih.1, ?_⟩
      rw [ih.2, hLog, List.append_assoc]
      rfl

end LedgerText
