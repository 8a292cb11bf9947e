import LedgerText.Parse.Statement

/-!
# What productions leave alone

While a statement is being read, nothing happens outside of it: whatever its
productions do, and wherever they stop, the directives, the active tags and the
errors so far stay as they are. Only what is done with the finished statement
shows.

`Quiet` says this of a step, together with how it may halt. A quiet step never
ends the parse, as long as the nesting limit leaves enough room for the
productions that it consists of; and if it refuses a token, that is the next one
in the state that it leaves behind. The productions that it begins are finished
if it succeeds (`Level`); if it halts, some of them may stay begun.
-/

namespace LedgerText

/-- Whether a problem makes a statement malformed. -/
def Problem.isMalformation : Problem → Bool
  | .unexpected .. => true
  | .invalidValue _ => true
  | .missingValue _ => true
  | _ => false

/-- A malformed statement alone does not end the parse. -/
theorem not_fatal_of_malformation {problem : Problem} (h : problem.isMalformation = true) :
    problem.isFatal = false := by
  cases problem with
  | recoveryExhausted => cases h
  | stackExhausted limit => cases h
  | _ => rfl

/-- A malformed statement is an error and not a note. -/
theorem isError_of_malformation {problem : Problem} (h : problem.isMalformation = true) :
    problem.isError = true := by
  cases problem with
  | discardedToken kind => cases h
  | _ => rfl

namespace Parse

variable {σ α β : Type}

/-- Nothing but the place in the text, the depth and the builder's state differs between two
states. -/
def State.Unmoved (s t : State σ) : Prop :=
  t = { s with
    input := t.input, previous := t.previous, depth := t.depth, builder := t.builder }

namespace State.Unmoved

theorem refl (s : State σ) : s.Unmoved s := rfl

theorem trans {s t u : State σ} (h : s.Unmoved t) (k : t.Unmoved u) : s.Unmoved u := by
  rw [Unmoved] at h k ⊢
  rw [k, h]

theorem next (s : State σ) : s.Unmoved s.next := rfl

theorem tags_eq {s t : State σ} (h : s.Unmoved t) : t.tags = s.tags := by rw [h]

theorem directives_eq {s t : State σ} (h : s.Unmoved t) : t.directives = s.directives := by rw [h]

theorem errors_eq {s t : State σ} (h : s.Unmoved t) : t.errors = s.errors := by rw [h]

theorem deeper (s : State σ) (depth : Nat) : s.Unmoved { s with depth := depth } := rfl

end State.Unmoved

/-- A step that yields a value has finished the productions that it has begun, and one that halts
has finished no others. -/
def State.Levels (s : State σ) : Except Halt α × State σ → Prop
  | (.ok _, t) => t.depth = s.depth
  | (.error _, t) => s.depth ≤ t.depth

/-- The step finishes the productions that it begins if it yields a value, and never any others. -/
def Level (m : Step σ α) : Prop := ∀ s : State σ, s.Levels (m s)

/-- The step halts with nothing but an error in the statement. -/
def Malformed (halt : Halt) : Prop :=
  ∃ error, halt = .statement error ∧ error.problem.isMalformation = true

/-- What ends the parse is the nesting limit, and a token that is in the wrong place comes next in
the state left behind. -/
def Halt.Located (t : State σ) : Halt → Prop
  | .fatal error => ∃ limit, error.problem = .stackExhausted limit
  | .statement error => ∀ found expected, error.problem = .unexpected found expected →
      error = ⟨.unexpected t.lookahead.kind expected, t.lookahead.span⟩

/-- A step that leaves everything outside of the statement alone. Where the nesting limit leaves
room for `room` more productions, it does not end the parse. -/
structure Quiet (setup : Setup σ) (room : Nat) (m : Step σ α) : Prop where
  unmoved : ∀ s : State σ, s.Unmoved (m s).2
  level : Level m
  located : ∀ (s : State σ) (halt : Halt), (m s).1 = .error halt → halt.Located (m s).2
  malformed : ∀ (s : State σ) (halt : Halt), s.depth + room ≤ setup.options.maxDepth →
    (m s).1 = .error halt → Malformed halt

open Step

variable {setup : Setup σ} {room : Nat}

/-! ## Combinators -/

theorem State.Levels.of_eq {s t : State σ} {result : Except Halt α} (h : t.depth = s.depth) :
    s.Levels (result, t) := by
  cases result with
  | ok a => exact h
  | error halt => exact Nat.le_of_eq h.symm

/-- A step that goes on behind another one at the same depth. -/
theorem State.Levels.of_depth {s t : State σ} {result : Except Halt α × State σ}
    (h : t.Levels result) (hDepth : t.depth = s.depth) : s.Levels result := by
  rcases result with ⟨result, u⟩
  cases result with
  | ok a => exact Eq.trans h hDepth
  | error halt => exact Nat.le_trans (Nat.le_of_eq hDepth.symm) h

theorem level_bind {m : Step σ α} {f : α → Step σ β} (hm : Level m) (hf : ∀ a, Level (f a)) :
    Level (m >>= f) := by
  intro s
  have hFirst := hm s
  rcases hStep : m s with ⟨result, t⟩
  rw [hStep] at hFirst
  change s.Levels (andThen m f s)
  rw [andThen, hStep]
  cases result with
  | error halt => exact hFirst
  | ok a => exact (hf a t).of_depth hFirst

/-- A production is finished before anything comes behind it. -/
theorem level_nested {m : Step σ α} (hm : Level m) : Level (nested setup m) := by
  intro s
  by_cases hDepth : s.depth < setup.options.maxDepth
  · have hInner := hm { s with depth := s.depth + 1 }
    rw [nested_of_room hDepth]
    show s.Levels (andThen m _ _)
    unfold andThen
    split
    · rename_i a t hEq
      rw [hEq] at hInner
      have hDeeper : t.depth = s.depth + 1 := hInner
      show t.depth - 1 = s.depth
      omega
    · rename_i halt t hEq
      rw [hEq] at hInner
      exact Nat.le_of_succ_le hInner
  · rw [nested_of_no_room hDepth]
    exact Nat.le_refl _

/-- A step that always succeeds and does not move. -/
theorem quiet_of_ok {m : Step σ α} (hState : ∀ s : State σ, s.Unmoved (m s).2)
    (hDepth : ∀ s, (m s).2.depth = s.depth) (hOk : ∀ s, ∃ a, (m s).1 = .ok a) :
    Quiet setup room m where
  unmoved := hState
  level := fun s => .of_eq (hDepth s)
  located := by
    intro s halt hHalt
    obtain ⟨a, hValue⟩ := hOk s
    rw [hValue] at hHalt
    cases hHalt
  malformed := by
    intro s halt hRoom hHalt
    obtain ⟨a, hValue⟩ := hOk s
    rw [hValue] at hHalt
    cases hHalt

theorem quiet_pure (a : α) : Quiet setup room (pure a : Step σ α) :=
  quiet_of_ok State.Unmoved.refl (fun _ => rfl) fun _ => ⟨a, rfl⟩

theorem quiet_bind {m : Step σ α} {f : α → Step σ β} (hm : Quiet setup room m)
    (hf : ∀ a, Quiet setup room (f a)) : Quiet setup room (m >>= f) where
  unmoved := by
    intro s
    have hFirst := hm.unmoved s
    show s.Unmoved (andThen m f s).2
    unfold andThen
    split
    · rename_i a t hEq
      rw [hEq] at hFirst
      exact hFirst.trans ((hf a).unmoved t)
    · rename_i halt t hEq
      rw [hEq] at hFirst
      exact hFirst
  level := level_bind hm.level fun a => (hf a).level
  located := by
    intro s halt hHalt
    change (andThen m f s).1 = _ at hHalt
    show halt.Located (andThen m f s).2
    unfold andThen at hHalt ⊢
    split at hHalt
    · rename_i a t hEq
      exact (hf a).located t halt hHalt
    · rename_i stopped t hEq
      cases hHalt
      have hFirst := hm.located s halt (by rw [hEq])
      rw [hEq] at hFirst
      exact hFirst
  malformed := by
    intro s halt hRoom hHalt
    change (andThen m f s).1 = _ at hHalt
    unfold andThen at hHalt
    split at hHalt
    · rename_i a t hEq
      have hFirst := hm.level s
      rw [hEq] at hFirst
      have hDepth : t.depth = s.depth := hFirst
      exact (hf a).malformed t halt (hDepth ▸ hRoom) hHalt
    · rename_i stopped t hEq
      cases hHalt
      exact hm.malformed s halt hRoom (by rw [hEq])

theorem quiet_peek : Quiet setup room (peek : Step σ TokenKind) :=
  quiet_of_ok State.Unmoved.refl (fun _ => rfl) fun _ => ⟨_, rfl⟩

theorem quiet_here : Quiet setup room (here : Step σ Span) :=
  quiet_of_ok State.Unmoved.refl (fun _ => rfl) fun _ => ⟨_, rfl⟩

theorem quiet_spanFrom (start : Span) : Quiet setup room (spanFrom start : Step σ Span) :=
  quiet_of_ok State.Unmoved.refl (fun _ => rfl) fun _ => ⟨_, rfl⟩

theorem quiet_fail {error : ParseError} (h : error.problem.isMalformation = true)
    (hOther : ∀ found expected, error.problem ≠ .unexpected found expected) :
    Quiet setup room (fail error : Step σ α) where
  unmoved := State.Unmoved.refl
  level := fun _ => .of_eq rfl
  located := by
    intro s halt hHalt
    cases hHalt
    exact fun found expected hProblem => absurd hProblem (hOther found expected)
  malformed := by
    intro s halt hRoom hHalt
    cases hHalt
    exact ⟨error, rfl, h⟩

theorem quiet_unexpected (expected : List TokenKind) :
    Quiet setup room (unexpected expected : Step σ α) where
  unmoved := State.Unmoved.refl
  level := fun _ => .of_eq rfl
  located := by
    intro s halt hHalt
    cases hHalt
    intro found others hProblem
    cases hProblem
    rfl
  malformed := by
    intro s halt hRoom hHalt
    cases hHalt
    exact ⟨_, rfl, rfl⟩

theorem quiet_missing (token : Token) : Quiet setup room (missing token : Step σ α) :=
  quiet_fail rfl fun _ _ => Problem.noConfusion

theorem quiet_advance : Quiet setup room (advance : Step σ Token) :=
  quiet_of_ok State.Unmoved.next (fun _ => rfl) fun _ => ⟨_, rfl⟩

theorem quiet_skip : Quiet setup room (skip : Step σ Unit) :=
  quiet_of_ok State.Unmoved.next (fun _ => rfl) fun _ => ⟨_, rfl⟩

/-- A step is quiet if in every state it does what some quiet step does there. -/
theorem quiet_of_forall {m : Step σ α}
    (h : ∀ s, ∃ n : Step σ α, Quiet setup room n ∧ m s = n s) : Quiet setup room m where
  unmoved := by
    intro s
    obtain ⟨n, hQuiet, hSame⟩ := h s
    rw [hSame]
    exact hQuiet.unmoved s
  level := by
    intro s
    obtain ⟨n, hQuiet, hSame⟩ := h s
    rw [hSame]
    exact hQuiet.level s
  located := by
    intro s halt hHalt
    obtain ⟨n, hQuiet, hSame⟩ := h s
    rw [hSame] at hHalt ⊢
    exact hQuiet.located s halt hHalt
  malformed := by
    intro s halt hRoom hHalt
    obtain ⟨n, hQuiet, hSame⟩ := h s
    rw [hSame] at hHalt
    exact hQuiet.malformed s halt hRoom hHalt

theorem quiet_ite {p : State σ → Prop} [DecidablePred p] {m n : Step σ α}
    (hm : Quiet setup room m) (hn : Quiet setup room n) :
    Quiet setup room (fun s => if p s then m s else n s) := by
  refine quiet_of_forall fun s => ?_
  by_cases hs : p s
  · exact ⟨m, hm, if_pos hs⟩
  · exact ⟨n, hn, if_neg hs⟩

theorem quiet_skipIf (kind : TokenKind) : Quiet setup room (skipIf kind : Step σ Unit) :=
  quiet_ite quiet_skip (quiet_pure ())

theorem quiet_take (kind : TokenKind) (expected : List TokenKind) :
    Quiet setup room (take kind expected : Step σ Token) :=
  quiet_ite quiet_advance (quiet_unexpected expected)

theorem quiet_textOf (token : Token) : Quiet setup room (textOf token : Step σ String) := by
  unfold textOf
  split
  · exact quiet_pure _
  · exact quiet_missing token

theorem quiet_takeText (kind : TokenKind) (expected : List TokenKind) :
    Quiet setup room (takeText kind expected : Step σ String) :=
  quiet_bind (quiet_take kind expected) quiet_textOf

theorem quiet_whenNext (kind : TokenKind) {m : Step σ α} (hm : Quiet setup room m) :
    Quiet setup room (whenNext kind m) :=
  quiet_ite (quiet_bind hm fun a => quiet_pure (some a)) (quiet_pure none)

/-- The builder sees nothing but the value, and changes nothing but its own state. -/
theorem quiet_review (span : Span) (verdict : Verdict σ α) :
    Quiet setup room (review span verdict) where
  unmoved := by
    intro s
    unfold review
    split <;> rfl
  level := by
    intro s
    unfold review
    split <;> exact .of_eq rfl
  located := by
    intro s halt hHalt
    unfold review at hHalt ⊢
    split at hHalt
    · cases hHalt
    · cases hHalt
      exact fun _ _ hProblem => absurd hProblem Problem.noConfusion
  malformed := by
    intro s halt hRoom hHalt
    unfold review at hHalt
    split at hHalt
    · cases hHalt
    · cases hHalt
      exact ⟨_, rfl, rfl⟩

theorem quiet_reviewFrom (start : Span) (verdict : Verdict σ α) :
    Quiet setup room (reviewFrom start verdict) :=
  quiet_bind (quiet_spanFrom start) fun span => quiet_review span verdict

/-- What a production does inside another one shows in nothing but the depth. -/
theorem unmoved_nested {m : Step σ α} (hm : ∀ s : State σ, s.Unmoved (m s).2) (s : State σ) :
    s.Unmoved (nested setup m s).2 := by
  by_cases hDepth : s.depth < setup.options.maxDepth
  · have hInner := (State.Unmoved.deeper s _).trans (hm { s with depth := s.depth + 1 })
    rw [nested_of_room hDepth]
    show s.Unmoved (andThen m _ _).2
    unfold andThen
    split
    · rename_i a t hEq
      rw [hEq] at hInner
      exact hInner.trans (.deeper t _)
    · rename_i halt t hEq
      rw [hEq] at hInner
      exact hInner
  · rw [nested_of_no_room hDepth]
    exact .refl s

/-- A production that halts where there is room has halted inside. -/
theorem nested_eq_error {m : Step σ α} {s : State σ} {halt : Halt}
    (hDepth : s.depth < setup.options.maxDepth) (h : (nested setup m s).1 = .error halt) :
    ∃ t, m { s with depth := s.depth + 1 } = (.error halt, t) ∧
      nested setup m s = (.error halt, t) := by
  rw [nested_of_room hDepth] at h ⊢
  change (andThen m _ _).1 = _ at h
  change ∃ t, _ ∧ andThen m _ _ = _
  unfold andThen at h ⊢
  split at h
  · cases h
  · rename_i stopped t hEq
    cases h
    exact ⟨t, hEq, rfl⟩

/-- Nesting takes up one level. -/
theorem quiet_nested {m : Step σ α} (hm : Quiet setup room m) :
    Quiet setup (room + 1) (nested setup m) where
  unmoved := unmoved_nested hm.unmoved
  level := level_nested hm.level
  located := by
    intro s halt hHalt
    by_cases hDepth : s.depth < setup.options.maxDepth
    · obtain ⟨t, hInner, hStep⟩ := nested_eq_error hDepth hHalt
      have hWhy := hm.located { s with depth := s.depth + 1 } halt (by rw [hInner])
      rw [hInner] at hWhy
      rw [hStep]
      exact hWhy
    · rw [nested_of_no_room hDepth] at hHalt ⊢
      cases hHalt
      exact ⟨_, rfl⟩
  malformed := by
    intro s halt hRoom hHalt
    have hDepth : s.depth < setup.options.maxDepth := by omega
    obtain ⟨t, hInner, -⟩ := nested_eq_error hDepth hHalt
    refine hm.malformed { s with depth := s.depth + 1 } halt ?_ (by rw [hInner])
    show s.depth + 1 + room ≤ setup.options.maxDepth
    omega

/-- A repetition of a quiet step is quiet. The induction is on the tokens that are left. -/
theorem quiet_repeatWhile {ahead : State σ → Bool} {m : Step σ α}
    {hAhead : ∀ s, ahead s → s.lookahead.kind ≠ .endOfInput} {hm : Consumes m}
    (hQuiet : Quiet setup room m) : Quiet setup room (repeatWhile ahead m hAhead hm) := by
  have hAll : ∀ (length : Nat) (s : State σ), s.input.length = length →
      s.Unmoved (repeatWhile ahead m hAhead hm s).2 ∧
      s.Levels (repeatWhile ahead m hAhead hm s) ∧
      ∀ halt, (repeatWhile ahead m hAhead hm s).1 = .error halt →
        halt.Located (repeatWhile ahead m hAhead hm s).2 ∧
          (s.depth + room ≤ setup.options.maxDepth → Malformed halt) := by
    intro length
    induction length using Nat.strongRecOn with
    | _ length ih =>
        intro s hLength
        have hFirst := hQuiet.unmoved s
        have hLevel := hQuiet.level s
        rw [repeatWhile]
        split
        · rename_i hs
          split
          · rename_i a t hEq
            have hLess := hm s a t (hAhead s hs) hEq
            rw [hEq] at hFirst hLevel
            have hDepth : t.depth = s.depth := hLevel
            obtain ⟨hState, hMoreLevel, hHalts⟩ := ih t.input.length (hLength ▸ hLess) t rfl
            split
            · rename_i others u hMore
              rw [hMore] at hState hMoreLevel
              exact ⟨hFirst.trans hState, hMoreLevel.of_depth hDepth,
                fun _ hHalt => by cases hHalt⟩
            · rename_i stopped u hMore
              rw [hMore] at hState hMoreLevel hHalts
              refine ⟨hFirst.trans hState, hMoreLevel.of_depth hDepth, fun halt hHalt => ?_⟩
              cases hHalt
              rw [← hDepth]
              exact hHalts stopped rfl
          · rename_i stopped t hEq
            have hWhy := hQuiet.located s stopped (by rw [hEq])
            rw [hEq] at hFirst hLevel hWhy
            refine ⟨hFirst, hLevel, fun halt hHalt => ?_⟩
            cases hHalt
            exact ⟨hWhy, fun hRoom => hQuiet.malformed s stopped hRoom (by rw [hEq])⟩
        · exact ⟨.refl s, .of_eq rfl, fun _ hHalt => by cases hHalt⟩
  exact ⟨fun s => (hAll _ s rfl).1, fun s => (hAll _ s rfl).2.1,
    fun s halt hHalt => ((hAll _ s rfl).2.2 halt hHalt).1,
    fun s halt hRoom hHalt => ((hAll _ s rfl).2.2 halt hHalt).2 hRoom⟩

/-! ## Productions of a posting -/

theorem quiet_lineEnd (also : List TokenKind) :
    Quiet setup room (lineEnd also : Step σ Unit) := by
  refine quiet_bind quiet_peek fun kind => ?_
  split
  · exact quiet_skip
  · exact quiet_bind quiet_skip fun _ => quiet_skipIf _
  · exact quiet_bind quiet_skip fun _ => quiet_skipIf _
  · exact quiet_unexpected _

theorem quiet_number : Quiet setup room (number : Step σ Decimal) := by
  refine quiet_bind (quiet_take _ _) fun token => ?_
  split
  · exact quiet_pure _
  · exact quiet_missing token

theorem quiet_flag : Quiet setup room (flag : Step σ Char) := by
  refine quiet_bind quiet_advance fun token => ?_
  split
  · exact quiet_pure _
  · exact quiet_pure _
  · exact quiet_missing token

theorem quiet_day (token : Token) : Quiet setup room (day setup token) :=
  quiet_bind (quiet_textOf token) fun _ => quiet_review _ _

theorem quiet_amount : Quiet setup (room + 1) (amount setup) :=
  quiet_nested <| quiet_bind quiet_here fun _ => quiet_bind quiet_number fun _ =>
    quiet_bind (quiet_takeText _ _) fun _ => quiet_reviewFrom _ _

theorem quiet_lotDate : Quiet setup room (lotDate setup) := by
  refine quiet_bind quiet_peek fun kind => ?_
  split
  · exact quiet_bind quiet_skip fun _ => quiet_bind (quiet_take _ _) fun token =>
      quiet_bind (quiet_day token) fun _ => quiet_pure _
  · exact quiet_pure _
  · exact quiet_unexpected _

theorem quiet_lotCost : Quiet setup (room + 2) (lotCost setup) :=
  quiet_nested <| quiet_bind quiet_here fun _ => quiet_bind quiet_skip fun _ =>
    quiet_bind quiet_amount fun _ => quiet_bind quiet_lotDate fun _ =>
      quiet_bind (quiet_take _ _) fun _ => quiet_reviewFrom _ _

theorem quiet_position : Quiet setup (room + 3) (position setup) :=
  quiet_nested <| quiet_bind quiet_here fun _ => quiet_bind quiet_amount fun _ =>
    quiet_bind (quiet_whenNext _ quiet_lotCost) fun _ => quiet_reviewFrom _ _

theorem quiet_priceTag (position : Position) (total : Bool) :
    Quiet setup (room + 1) (priceTag setup position total) :=
  quiet_bind quiet_skip fun _ => quiet_bind quiet_amount fun _ =>
    quiet_bind (quiet_lineEnd _) fun _ => quiet_pure _

theorem quiet_movement : Quiet setup (room + 3) (movement setup) := by
  refine quiet_bind quiet_peek fun kind => ?_
  split
  · refine quiet_bind quiet_position fun position => quiet_bind quiet_peek fun next => ?_
    split
    · exact quiet_priceTag position false
    · exact quiet_priceTag position true
    · exact quiet_bind (quiet_lineEnd _) fun _ => quiet_pure _
  · exact quiet_bind (quiet_lineEnd _) fun _ => quiet_pure _

theorem quiet_posting : Quiet setup (room + 4) (posting setup) :=
  quiet_nested <| quiet_bind quiet_here fun _ => quiet_bind quiet_skip fun _ =>
    quiet_bind (quiet_whenNext _ quiet_flag) fun _ => quiet_bind (quiet_takeText _ _) fun _ =>
      quiet_bind quiet_movement fun _ => quiet_reviewFrom _ _

/-! ## Productions of a transaction -/

theorem quiet_texts (kind : TokenKind) (h : kind ≠ .endOfInput) :
    Quiet setup room (texts kind h : Step σ (List String)) :=
  quiet_repeatWhile (quiet_takeText _ _)

theorem quiet_postingLine : Quiet setup (room + 4) (postingLine setup) := by
  refine quiet_bind quiet_peek fun kind => ?_
  split
  · exact quiet_bind quiet_posting fun _ => quiet_pure _
  · exact quiet_bind (quiet_lineEnd _) fun _ => quiet_pure _

theorem quiet_postingLines : Quiet setup (room + 4) (postingLines setup) :=
  quiet_bind (quiet_repeatWhile quiet_postingLine) fun _ => quiet_pure _

theorem quiet_title : Quiet setup room (title : Step σ Title) := by
  refine quiet_bind (quiet_takeText _ _) fun first => quiet_bind quiet_peek fun kind => ?_
  split
  · exact quiet_bind quiet_skip fun _ => quiet_bind (quiet_takeText _ _) fun _ => quiet_pure _
  · exact quiet_bind (quiet_takeText _ _) fun _ => quiet_pure _
  · exact quiet_pure _

/-- The builder is told the active tags, which it cannot change. -/
theorem quiet_conclude (heading : Heading) (content : Content) :
    Quiet setup room (conclude setup heading content) :=
  quiet_of_forall fun _ => ⟨_, quiet_reviewFrom _ _, rfl⟩

theorem quiet_transaction (heading : Heading) (date : Date) :
    Quiet setup (room + 5) (transaction setup heading date) :=
  quiet_nested <| quiet_bind quiet_flag fun _ => quiet_bind quiet_title fun _ =>
    quiet_bind (quiet_texts _ _) fun _ => quiet_bind (quiet_texts _ _) fun _ =>
      quiet_bind (quiet_lineEnd _) fun _ => quiet_bind quiet_postingLines fun _ =>
        quiet_conclude _ _

/-! ## Other statements -/

theorem quiet_listedCurrency : Quiet setup room (listedCurrency : Step σ String) := by
  refine quiet_bind (quiet_takeText _ _) fun currency => quiet_bind quiet_peek fun kind => ?_
  split
  · refine quiet_bind quiet_skip fun _ => quiet_bind quiet_peek fun next => ?_
    split
    · exact quiet_pure _
    · exact quiet_unexpected _
  · exact quiet_pure _

theorem quiet_currencies : Quiet setup room (currencies : Step σ (List String)) :=
  quiet_repeatWhile quiet_listedCurrency

/-- The end of a statement of one line, whatever it says. -/
theorem quiet_finish (heading : Heading) (content : Content) (also : List TokenKind) :
    Quiet setup room (lineEnd also >>= fun _ => conclude setup heading content) :=
  quiet_bind (quiet_lineEnd also) fun _ => quiet_conclude heading content

theorem quiet_dated (heading : Heading) (date : Date) :
    Quiet setup (room + 5) (dated setup heading date) := by
  refine quiet_bind quiet_peek fun kind => ?_
  split
  · exact quiet_transaction heading date
  · exact quiet_transaction heading date
  · exact quiet_bind quiet_skip fun _ => quiet_bind (quiet_takeText _ _) fun _ =>
      quiet_bind quiet_currencies fun _ => quiet_finish _ _ _
  · exact quiet_bind quiet_skip fun _ => quiet_bind (quiet_takeText _ _) fun _ =>
      quiet_finish _ _ _
  · exact quiet_bind quiet_skip fun _ => quiet_bind (quiet_takeText _ _) fun _ =>
      quiet_bind (quiet_takeText _ _) fun _ => quiet_finish _ _ _
  · exact quiet_bind quiet_skip fun _ => quiet_bind (quiet_takeText _ _) fun _ =>
      quiet_bind quiet_amount fun _ => quiet_finish _ _ _
  · exact quiet_bind quiet_skip fun _ => quiet_bind (quiet_takeText _ _) fun _ =>
      quiet_bind quiet_amount fun _ => quiet_finish _ _ _
  · exact quiet_bind quiet_skip fun _ => quiet_bind (quiet_takeText _ _) fun _ =>
      quiet_bind (quiet_takeText _ _) fun _ => quiet_finish _ _ _
  · exact quiet_bind quiet_skip fun _ => quiet_bind (quiet_takeText _ _) fun _ =>
      quiet_bind (quiet_takeText _ _) fun _ => quiet_finish _ _ _
  · exact quiet_bind quiet_skip fun _ => quiet_bind (quiet_takeText _ _) fun _ =>
      quiet_bind (quiet_takeText _ _) fun _ => quiet_finish _ _ _
  · exact quiet_unexpected _

theorem quiet_entry : Quiet setup (room + 6) (entry setup) :=
  quiet_nested <| quiet_bind quiet_advance fun token => quiet_bind (quiet_day token) fun date =>
    quiet_bind (quiet_dated _ date) fun _ => quiet_bind (quiet_spanFrom _) fun _ => quiet_pure _

theorem quiet_option : Quiet setup (room + 1) (option setup) :=
  quiet_nested <| quiet_bind quiet_advance fun _ => quiet_bind (quiet_takeText _ _) fun _ =>
    quiet_bind (quiet_takeText _ _) fun _ => quiet_bind (quiet_lineEnd _) fun _ =>
      quiet_bind (quiet_conclude _ _) fun _ => quiet_bind (quiet_spanFrom _) fun _ => quiet_pure _

/-! ## The depth of declarations -/

/-- A word and a tag, and what is done with the tag. -/
theorem level_tag (setup : Setup σ) {f : String → Step σ Unit} (hf : ∀ tag, Level (f tag)) :
    Level (skip >>= fun _ => takeText .tag [.tag] >>= f) :=
  level_bind (fun _ => .of_eq rfl) fun _ =>
    level_bind (quiet_takeText .tag [.tag] : Quiet setup 0 _).level hf

/-- A declaration that succeeds has finished all productions that it has begun, and one that fails
has finished no others. -/
theorem level_declaration (setup : Setup σ) : Level (declaration setup) := by
  have hEntry : Quiet setup 6 (entry setup) := quiet_entry
  have hOption : Quiet setup 1 (option setup) := quiet_option
  have hLineEnd : Quiet setup 0 (lineEnd []) := quiet_lineEnd []
  have hAccept (x : Spanned Directive) : Level (accept x : Step σ Unit) := fun _ => .of_eq rfl
  refine level_bind (fun _ => .of_eq rfl) fun kind => ?_
  split
  · exact level_bind hEntry.level hAccept
  · exact level_bind hOption.level hAccept
  · exact level_tag setup fun _ _ => .of_eq rfl
  · refine level_bind (fun _ => .of_eq rfl) fun start => level_tag setup fun tag => ?_
    refine level_bind (fun _ => .of_eq rfl) fun span s => ?_
    split <;> exact .of_eq rfl
  · exact hLineEnd.level
  · exact hLineEnd.level
  · exact hLineEnd.level
  · exact fun _ => .of_eq rfl
  · exact fun _ => .of_eq rfl

theorem depth_of_ok {s t : State σ} {v : Unit} (h : declaration setup s = (.ok v, t)) :
    t.depth = s.depth := by
  have hLevel := level_declaration setup s
  rw [h] at hLevel
  exact hLevel

theorem depth_of_error {s t : State σ} {halt : Halt}
    (h : declaration setup s = (.error halt, t)) : s.depth ≤ t.depth := by
  have hLevel := level_declaration setup s
  rw [h] at hLevel
  exact hLevel

/-! ## Declarations that fail -/

/-- Where the second of two steps always succeeds, only the first can halt. -/
theorem bind_eq_error {m : Step σ α} {f : α → Step σ β} {s t : State σ} {halt : Halt}
    (hf : ∀ a u, ∃ b, (f a u).1 = .ok b) (h : (m >>= f) s = (.error halt, t)) :
    m s = (.error halt, t) := by
  change andThen m f s = _ at h
  unfold andThen at h
  split at h
  · rename_i a u hEq
    obtain ⟨b, hOk⟩ := hf a u
    rw [h] at hOk
    cases hOk
  · rename_i stopped u hEq
    cases h
    exact hEq

theorem Quiet.of_error {m : Step σ α} (hm : Quiet setup room m) {s t : State σ} {halt : Halt}
    (h : m s = (.error halt, t)) : s.Unmoved t ∧ halt.Located t ∧
      (s.depth + room ≤ setup.options.maxDepth → Malformed halt) := by
  have hState := hm.unmoved s
  have hWhy := hm.located s halt (by rw [h])
  rw [h] at hState hWhy
  exact ⟨hState, hWhy, fun hRoom => hm.malformed s halt hRoom (by rw [h])⟩

/-- A declaration that fails leaves directives, tags and errors as they were: all it does is to move
on in the text, up to the token that it refuses if it refuses one, and to let the builder do what it
will. If there is room enough, the parse can go on. -/
theorem unmoved_of_error {s t : State σ} {halt : Halt}
    (h : declaration setup s = (.error halt, t)) :
    s.Unmoved t ∧ halt.Located t ∧
      (s.depth + 6 ≤ setup.options.maxDepth → Malformed halt) := by
  have hAccept (x : Spanned Directive) (u : State σ) : ∃ v, (accept x u).1 = .ok v := ⟨(), rfl⟩
  -- What is done with the tag of a `pushtag` or `poptag` always succeeds.
  have hTag {f : String → Step σ Unit} (hf : ∀ tag u, ∃ v, (f tag u).1 = .ok v)
      (hStep : (takeText .tag [.tag] >>= f) s.next = (.error halt, t)) :
      s.Unmoved t ∧ halt.Located t ∧
        (s.depth + 6 ≤ setup.options.maxDepth → Malformed halt) := by
    obtain ⟨hState, hHalt⟩ := (quiet_takeText .tag [.tag]).of_error (bind_eq_error hf hStep)
    exact ⟨(State.Unmoved.next s).trans hState, hHalt⟩
  rw [declaration, peek_bind] at h
  generalize s.lookahead.kind = kind at h
  split at h
  · exact quiet_entry.of_error (bind_eq_error hAccept h)
  · exact quiet_option.of_error (bind_eq_error hAccept h)
  · exact hTag (fun _ _ => ⟨(), rfl⟩) h
  · refine hTag (fun tag u => ?_) h
    refine ⟨(), ?_⟩
    show (if u.tags.contains tag then _ else _ : Except Halt Unit × State σ).1 = _
    split <;> rfl
  · exact (quiet_lineEnd []).of_error h
  · exact (quiet_lineEnd []).of_error h
  · exact (quiet_lineEnd []).of_error h
  · cases h
  · exact (quiet_unexpected declarationStart).of_error h

/-- Where there is room enough, a declaration that fails does nothing else. -/
theorem declaration_eq_error {s t : State σ} {halt : Halt}
    (hRoom : s.depth + 6 ≤ setup.options.maxDepth) (h : declaration setup s = (.error halt, t)) :
    s.Unmoved t ∧ Malformed halt := by
  obtain ⟨hState, -, hHalt⟩ := unmoved_of_error h
  exact ⟨hState, hHalt hRoom⟩

end Parse

end LedgerText
