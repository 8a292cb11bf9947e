import LedgerText.Proofs.Parse.Effects

/-!
# The name of a text

The name of a text ends up in the locations of its directives and does nothing
else, as long as the builder does not act on it (`Builder.IgnoresNames`). The
name enters a statement with its heading, and the productions below that are the
same under every name. So a declaration does the same under two names, and adds
the same directive but for the name in its location (`declaration_named`).

States of two parses that differ in this way, and in the notes on tokens that
were passed over, are `Alike`.
-/

namespace LedgerText

variable {ε τ α β : Type}

/-- Two answers that leave the same state, and are the same as far as `f` tells. -/
inductive SameUpTo (f : α → β) : Except ε α × τ → Except ε α × τ → Prop where
  | ok {a b : α} {state : τ} (h : f a = f b) : SameUpTo f (.ok a, state) (.ok b, state)
  | error {reason : ε} {state : τ} : SameUpTo f (.error reason, state) (.error reason, state)

theorem SameUpTo.refl (f : α → β) (answer : Except ε α × τ) : SameUpTo f answer answer := by
  rcases answer with ⟨_ | _, _⟩
  · exact .error
  · exact .ok rfl

/-- The directive without the name of the text that it was read from. -/
def Directive.unnamed (d : Directive) : Directive :=
  { d with location := { d.location with filename := "" } }

/-- The builder does not act on the name of the text. Its answers to the same statement in two
texts differ at most in that name. -/
def Builder.IgnoresNames {σ : Type} (builder : Builder σ) : Prop :=
  ∀ (active : TagContext) (content : Content) (line : Nat) (name other : String) (state : σ),
    SameUpTo Directive.unnamed (builder.directive active ⟨content, ⟨name, line⟩⟩ state)
      (builder.directive active ⟨content, ⟨other, line⟩⟩ state)

theorem Builder.standard_ignoresNames : Builder.standard.IgnoresNames :=
  fun _ _ _ _ _ _ => .ok rfl

namespace Parse

open Step

variable {σ γ δ : Type} {setup : Setup σ} {f : α → β} {g : γ → δ} {name : String} {trace : Bool}

/-- The directive where it stands, without the name of the text. -/
def unnamed (x : Spanned Directive) : Spanned Directive := ⟨x.value.unnamed, x.span⟩

/-- The same setup for a text with another name. Whether tokens that are passed over are noted may
differ as well. -/
def Setup.named (setup : Setup σ) (name : String) (trace : Bool) : Setup σ :=
  { setup with options := { setup.options with filename := name, traceRecovery := trace } }

/-- The same heading in a text with another name. -/
def Heading.named (heading : Heading) (name : String) : Heading :=
  { heading with location := { heading.location with filename := name } }

/-! ## Steps -/

/-- The steps do the same, and yield the same as far as `f` tells. -/
def Similar (f : α → β) (m n : Step σ α) : Prop := ∀ s, SameUpTo f (m s) (n s)

theorem similar_refl (f : α → β) (m : Step σ α) : Similar f m m := fun s => .refl f (m s)

theorem similar_bind {m n : Step σ α} {k l : α → Step σ γ} (h : Similar f m n)
    (hMore : ∀ a b, f a = f b → Similar g (k a) (l b)) : Similar g (m >>= k) (n >>= l) := by
  intro s
  have hStep := h s
  show SameUpTo g (andThen m k s) (andThen n l s)
  unfold andThen
  revert hStep
  generalize m s = first
  generalize n s = second
  rintro (⟨hSame⟩ | _)
  · exact hMore _ _ hSame _
  · exact .error

/-- Only a step that comes later differs. -/
theorem similar_bind_right (m : Step σ α) {k l : α → Step σ γ}
    (hMore : ∀ a, Similar g (k a) (l a)) : Similar g (m >>= k) (m >>= l) :=
  similar_bind (similar_refl id m) fun a b hSame => by
    cases hSame
    exact hMore a

theorem similar_nested {m n : Step σ α} (h : Similar f m n) :
    Similar f (nested setup m) (nested setup n) :=
  similar_bind_right (enter setup) fun _ => similar_bind h fun _ _ hSame =>
    similar_bind_right leave fun _ _ => .ok hSame

theorem similar_review (span : Span) {v w : Verdict σ α} (h : ∀ state, SameUpTo f (v state) (w state)) :
    Similar f (review span v) (review span w) := by
  intro s
  have hAnswer := h s.builder
  unfold review
  revert hAnswer
  generalize v s.builder = first
  generalize w s.builder = second
  rintro (⟨hSame⟩ | _)
  · exact .ok hSame
  · exact .error

/-- A word and one text. -/
theorem similar_word (kind : TokenKind) {k l : String → Step σ γ}
    (h : ∀ text, Similar g (k text) (l text)) :
    Similar g (skip >>= fun _ => takeText kind [kind] >>= k)
      (skip >>= fun _ => takeText kind [kind] >>= l) :=
  similar_bind_right skip fun _ => similar_bind_right (takeText kind [kind]) h

/-- Where a statement ends. -/
theorem similar_spanned (start : Span) {d e : Directive} (h : d.unnamed = e.unnamed) :
    Similar unnamed (spanFrom start >>= fun span => pure ⟨d, span⟩ : Step σ (Spanned Directive))
      (spanFrom start >>= fun span => pure ⟨e, span⟩) :=
  similar_bind_right (spanFrom start) fun span _ => .ok (congrArg (Spanned.mk · span) h)

/-! ## Productions -/

section

variable {heading : Heading} (hBuilder : setup.builder.IgnoresNames)
include hBuilder

theorem similar_conclude (content : Content) : Similar Directive.unnamed
    (conclude setup heading content) (conclude setup (heading.named name) content) := fun s =>
  similar_bind_right (spanFrom heading.start) (fun span => similar_review span fun state =>
    hBuilder s.tags content heading.location.line heading.location.filename name state) s

/-- The end of a line, and the statement that it completes. -/
theorem similar_finish (content : Content) : Similar Directive.unnamed
    (lineEnd [] >>= fun _ => conclude setup heading content)
    (lineEnd [] >>= fun _ => conclude setup (heading.named name) content) :=
  similar_bind_right (lineEnd []) fun _ => similar_conclude hBuilder content

theorem similar_transaction (date : Date) : Similar Directive.unnamed
    (transaction setup heading date) (transaction setup (heading.named name) date) :=
  similar_nested <| similar_bind_right flag fun _ => similar_bind_right title fun _ =>
    similar_bind_right (texts _ _) fun _ => similar_bind_right (texts _ _) fun _ =>
      similar_bind_right (lineEnd _) fun _ => similar_bind_right (postingLines setup) fun _ =>
        similar_conclude hBuilder _

theorem similar_dated (date : Date) : Similar Directive.unnamed
    (dated setup heading date) (dated setup (heading.named name) date) := by
  refine similar_bind_right peek fun kind => ?_
  split
  · exact similar_transaction hBuilder date
  · exact similar_transaction hBuilder date
  · exact similar_word .account fun account => similar_bind_right currencies fun listed =>
      similar_bind_right (lineEnd _) fun _ => similar_conclude hBuilder _
  · exact similar_word .account fun account => similar_finish hBuilder _
  · exact similar_word .account fun account => similar_bind_right (takeText .account [.account])
      fun source => similar_finish hBuilder _
  · exact similar_word .account fun account => similar_bind_right (amount setup)
      fun amount => similar_finish hBuilder _
  · exact similar_word .currency fun currency => similar_bind_right (amount setup)
      fun amount => similar_finish hBuilder _
  · exact similar_word .string fun topic => similar_bind_right (takeText .string [.string])
      fun description => similar_finish hBuilder _
  · exact similar_word .account fun account => similar_bind_right (takeText .string [.string])
      fun comment => similar_finish hBuilder _
  · exact similar_word .account fun account => similar_bind_right (takeText .string [.string])
      fun path => similar_finish hBuilder _
  · exact similar_refl _ _

theorem similar_entry : Similar unnamed (entry setup) (entry (setup.named name trace)) :=
  similar_nested <| similar_bind_right advance fun token => similar_bind_right (day setup token)
    fun date => similar_bind (similar_dated hBuilder date) fun _ _ hSame =>
      similar_spanned token.span hSame

theorem similar_option : Similar unnamed (option setup) (option (setup.named name trace)) :=
  similar_nested <| similar_bind_right advance fun token =>
    similar_bind_right (takeText .string [.string]) fun key =>
      similar_bind_right (takeText .string [.string]) fun value =>
        similar_bind_right (lineEnd []) fun _ =>
          similar_bind (similar_conclude hBuilder (.option key value)) fun _ _ hSame =>
            similar_spanned token.span hSame

end

/-! ## Declarations -/

/-- The state without what was read and reported so far. -/
def State.bare (s : State σ) : State σ := { s with directives := [], errors := [] }

/-- The states of two parses that differ in the name of the text alone, and in what they note about
tokens that were passed over. -/
structure State.Alike (s t : State σ) : Prop where
  bare_eq : s.bare = t.bare
  directives_eq : s.directives.map unnamed = t.directives.map unnamed
  errors_eq : (s.errors.filter fun error => error.problem.isError) =
    t.errors.filter fun error => error.problem.isError

theorem State.Alike.refl (s : State σ) : s.Alike s := ⟨rfl, rfl, rfl⟩

/-- The directives that are added may differ in the name of the text. -/
theorem alike_accept {m n : Step σ (Spanned Directive)} (h : Similar unnamed m n) (s : State σ) :
    ((m >>= accept) s).1 = ((n >>= accept) s).1 ∧
      ((m >>= accept) s).2.Alike ((n >>= accept) s).2 := by
  have hStep := h s
  show (andThen m accept s).1 = (andThen n accept s).1 ∧
    (andThen m accept s).2.Alike (andThen n accept s).2
  unfold andThen
  revert hStep
  generalize m s = first
  generalize n s = second
  rintro (⟨hSame⟩ | _)
  · refine ⟨rfl, rfl, ?_, rfl⟩
    show List.map unnamed (_ ++ _) = List.map unnamed (_ ++ _)
    rw [List.map_append, List.map_append, List.map_singleton, List.map_singleton, hSame]
  · exact ⟨rfl, .refl _⟩

/-- The name of a text does not show in what a declaration does, but in the locations of the
directives. -/
theorem declaration_named (hBuilder : setup.builder.IgnoresNames) (name : String) (trace : Bool)
    (s : State σ) :
    (declaration setup s).1 = (declaration (setup.named name trace) s).1 ∧
      (declaration setup s).2.Alike (declaration (setup.named name trace) s).2 := by
  rw [declaration, declaration, peek_bind, peek_bind]
  generalize s.lookahead.kind = kind
  split
  · exact alike_accept (similar_entry hBuilder) s
  · exact alike_accept (similar_option hBuilder) s
  all_goals exact ⟨rfl, .refl _⟩

end Parse

end LedgerText
