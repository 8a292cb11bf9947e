import LedgerText.Parse.Run
import LedgerText.Proofs.Grammar.Declarations

/-!
# The nesting limit

The limit on nested productions ends a parse or does nothing: a step under one
limit either halts for good or does just what it does under a higher one
(`agrees_declaration`). In particular, what a declaration reads if it succeeds
is a parse tree under every limit (`exists_node`).
-/

namespace LedgerText.Parse

variable {σ α β : Type}

/-- The same setup with a limit that is no lower. -/
def Setup.raised (setup : Setup σ) (limit : Nat) : Setup σ :=
  { setup with options := { setup.options with maxDepth := max setup.options.maxDepth limit } }

open Step

/-- In a state, one step ends the parse, or does what the other one does. -/
def AgreesAt (s : State σ) (m n : Step σ α) : Prop := EndsParse (m s).1 ∨ m s = n s

/-- In every state, one step ends the parse, or does what the other one does. -/
def Agrees (m n : Step σ α) : Prop := ∀ s, AgreesAt s m n

section

variable {setup : Setup σ} {limit : Nat}

theorem agrees_refl (m : Step σ α) : Agrees m m := fun _ => .inr rfl

/-- Steps that agree, up to the states that the first one leads to. -/
theorem AgreesAt.bind {s : State σ} {m n : Step σ α} {f g : α → Step σ β} (hStep : AgreesAt s m n)
    (hMore : ∀ a t, m s = (.ok a, t) → AgreesAt t (f a) (g a)) :
    AgreesAt s (m >>= f) (n >>= g) := by
  rcases hResult : m s with ⟨result, t⟩
  rw [AgreesAt, hResult] at hStep
  rw [AgreesAt]
  cases result with
  | ok a =>
      rcases hStep with ⟨error, hEnd⟩ | hSame
      · cases hEnd
      · rw [bind_of_ok hResult, bind_of_ok hSame.symm]
        exact hMore a t hResult
  | error halt =>
      rw [bind_of_error hResult]
      rcases hStep with hEnd | hSame
      · obtain ⟨error, hError⟩ := hEnd
        cases hError
        exact .inl ⟨error, rfl⟩
      · exact .inr (bind_of_error hSame.symm g).symm

theorem agrees_bind {m n : Step σ α} {f g : α → Step σ β} (hStep : Agrees m n)
    (hMore : ∀ a, Agrees (f a) (g a)) : Agrees (m >>= f) (n >>= g) :=
  fun s => (hStep s).bind fun a t _ => hMore a t

/-- What a step goes on with does not depend on the limit. -/
theorem agrees_bind_left {m n : Step σ α} (hStep : Agrees m n) (f : α → Step σ β) :
    Agrees (m >>= f) (n >>= f) := agrees_bind hStep fun _ => agrees_refl _

/-- Only a step that comes later depends on the limit. -/
theorem agrees_bind_right (m : Step σ α) {f g : α → Step σ β} (hMore : ∀ a, Agrees (f a) (g a)) :
    Agrees (m >>= f) (m >>= g) := agrees_bind (agrees_refl m) hMore

theorem agrees_whenNext (kind : TokenKind) {m n : Step σ α} (h : Agrees m n) :
    Agrees (whenNext kind m) (whenNext kind n) := by
  intro s
  unfold AgreesAt whenNext
  by_cases hNext : s.lookahead.kind = kind
  · rw [if_pos hNext, if_pos hNext]
    exact agrees_bind_left h (fun a => pure (some a)) s
  · rw [if_neg hNext, if_neg hNext]
    exact .inr rfl

/-- Where a production is too deep the parse ends, and elsewhere the limit does not show. -/
theorem agrees_nested {m n : Step σ α} (h : Agrees m n) :
    Agrees (nested setup m) (nested (setup.raised limit) n) := by
  intro s
  by_cases hDepth : s.depth < setup.options.maxDepth
  · have hHigher : s.depth < (setup.raised limit).options.maxDepth :=
      Nat.lt_of_lt_of_le hDepth (Nat.le_max_left _ _)
    rw [AgreesAt, nested_of_room hDepth, nested_of_room hHigher]
    exact agrees_bind_left h _ { s with depth := s.depth + 1 }
  · refine .inl ⟨⟨.stackExhausted setup.options.maxDepth, s.lookahead.span⟩, ?_⟩
    rw [nested_of_no_room hDepth]

/-- Repetitions of steps that agree. The induction is on the tokens that are left. -/
theorem agrees_repeatWhile {ahead : State σ → Bool} {m n : Step σ α}
    {hAhead : ∀ s, ahead s → s.lookahead.kind ≠ .endOfInput} {hm : Consumes m} {hn : Consumes n}
    (h : Agrees m n) : Agrees (repeatWhile ahead m hAhead hm) (repeatWhile ahead n hAhead hn) := by
  intro s
  generalize hLength : s.input.length = length
  induction length using Nat.strongRecOn generalizing s with
  | _ length ih =>
      subst hLength
      by_cases hs : ahead s = true
      · rw [AgreesAt, repeatWhile_of_true hs, repeatWhile_of_true hs]
        refine (h s).bind fun a t hStep => ?_
        exact (ih _ (hm s a t (hAhead s hs) hStep) t rfl).bind fun _ _ _ => .inr rfl
      · have hStop : ahead s = false := by simpa using hs
        exact .inr (by rw [repeatWhile_of_false hStop, repeatWhile_of_false hStop])

/-! ## Productions -/

theorem agrees_amount : Agrees (amount setup) (amount (setup.raised limit)) :=
  agrees_nested (agrees_refl _)

theorem agrees_lotCost : Agrees (lotCost setup) (lotCost (setup.raised limit)) :=
  agrees_nested <| agrees_bind_right here fun _ => agrees_bind_right skip fun _ =>
    agrees_bind_left agrees_amount _

theorem agrees_position : Agrees (position setup) (position (setup.raised limit)) :=
  agrees_nested <| agrees_bind_right here fun _ => agrees_bind agrees_amount fun _ =>
    agrees_bind_left (agrees_whenNext _ agrees_lotCost) _

theorem agrees_priceTag (position : Position) (total : Bool) :
    Agrees (priceTag setup position total) (priceTag (setup.raised limit) position total) :=
  agrees_bind_right skip fun _ => agrees_bind_left agrees_amount _

theorem agrees_movement : Agrees (movement setup) (movement (setup.raised limit)) := by
  refine agrees_bind_right peek fun kind => ?_
  split
  · refine agrees_bind agrees_position fun position => agrees_bind_right peek fun next => ?_
    split
    · exact agrees_priceTag position false
    · exact agrees_priceTag position true
    · exact agrees_refl _
  · exact agrees_refl _

theorem agrees_posting : Agrees (posting setup) (posting (setup.raised limit)) :=
  agrees_nested <| agrees_bind_right here fun _ => agrees_bind_right skip fun _ =>
    agrees_bind_right (whenNext .flag flag) fun _ => agrees_bind_right (takeText _ _) fun _ =>
      agrees_bind_left agrees_movement _

theorem agrees_postingLine : Agrees (postingLine setup) (postingLine (setup.raised limit)) := by
  refine agrees_bind_right peek fun kind => ?_
  split
  · exact agrees_bind_left agrees_posting _
  · exact agrees_refl _

theorem agrees_postingLines : Agrees (postingLines setup) (postingLines (setup.raised limit)) :=
  agrees_bind_left (agrees_repeatWhile agrees_postingLine) _

theorem agrees_transaction (heading : Heading) (date : Date) :
    Agrees (transaction setup heading date) (transaction (setup.raised limit) heading date) :=
  agrees_nested <| agrees_bind_right flag fun _ => agrees_bind_right title fun _ =>
    agrees_bind_right (texts _ _) fun _ => agrees_bind_right (texts _ _) fun _ =>
      agrees_bind_right (lineEnd _) fun _ => agrees_bind_left agrees_postingLines _

/-- A word and a name, an amount, and the rest of the line. -/
theorem agrees_amountLine (kind : TokenKind) (f : String → Amount → Step σ β) :
    Agrees (skip >>= fun _ => takeText kind [kind] >>= fun name => amount setup >>= f name)
      (skip >>= fun _ => takeText kind [kind] >>= fun name =>
        amount (setup.raised limit) >>= f name) :=
  agrees_bind_right skip fun _ => agrees_bind_right (takeText kind [kind]) fun _ =>
    agrees_bind_left agrees_amount _

theorem agrees_dated (heading : Heading) (date : Date) :
    Agrees (dated setup heading date) (dated (setup.raised limit) heading date) := by
  refine agrees_bind_right peek fun kind => ?_
  split
  · exact agrees_transaction heading date
  · exact agrees_transaction heading date
  · exact agrees_refl _
  · exact agrees_refl _
  · exact agrees_refl _
  · exact agrees_amountLine .account _
  · exact agrees_amountLine .currency _
  · exact agrees_refl _
  · exact agrees_refl _
  · exact agrees_refl _
  · exact agrees_refl _

theorem agrees_entry : Agrees (entry setup) (entry (setup.raised limit)) :=
  agrees_nested <| agrees_bind_right advance fun token => agrees_bind_right (day setup token)
    fun date => agrees_bind_left (agrees_dated _ date) _

theorem agrees_option : Agrees (option setup) (option (setup.raised limit)) :=
  agrees_nested (agrees_refl _)

theorem agrees_declaration : Agrees (declaration setup) (declaration (setup.raised limit)) := by
  refine agrees_bind_right peek fun kind => ?_
  split
  · exact agrees_bind_left agrees_entry _
  · exact agrees_bind_left agrees_option _
  · exact agrees_refl _
  · exact agrees_refl _
  · exact agrees_refl _
  · exact agrees_refl _
  · exact agrees_refl _
  · exact agrees_refl _
  · exact agrees_refl _

/-- A declaration that succeeds does so under every limit that is no lower. -/
theorem declaration_raised {s t : State σ} {v : Unit} (h : declaration setup s = (.ok v, t)) :
    declaration (setup.raised limit) s = (.ok v, t) := by
  have hAgrees : Agrees (declaration setup) (declaration (setup.raised limit)) := agrees_declaration
  rcases hAgrees s with ⟨error, hEnd⟩ | hSame
  · rw [h] at hEnd
    cases hEnd
  · rw [← hSame, h]

/-- A declaration with an error in it has the same error under every limit that is no lower. -/
theorem error_raised {s t : State σ} {error : ParseError}
    (h : declaration setup s = (.error (.statement error), t)) :
    declaration (setup.raised limit) s = (.error (.statement error), t) := by
  have hAgrees : Agrees (declaration setup) (declaration (setup.raised limit)) := agrees_declaration
  rcases hAgrees s with ⟨other, hEnd⟩ | hSame
  · rw [h] at hEnd
    cases hEnd
  · rw [← hSame, h]

end

/-! ## Trees -/

open Grammar

variable {options : Options}

/-- Under every limit, a declaration that succeeds reads the tokens of a parse tree, the greedy
choices made, and does what the tree says. -/
theorem exists_node {s t : State Unit} {v : Unit}
    (h : declaration (.standard options) s = (.ok v, t)) :
    ∃ (n : DeclarationNode) (u : State Unit), s.Reads n.tokens u ∧ n.Greedy u.input ∧
      n.applyTo? options.filename u = some t := by
  have hRoom : s.depth + 5 < ((Setup.standard options).raised (s.depth + 6)).options.maxDepth :=
    Nat.lt_of_lt_of_le (Nat.lt_succ_self _) (Nat.le_max_right _ _)
  exact (declaration_eq_ok hRoom).1 (declaration_raised h)

end LedgerText.Parse
