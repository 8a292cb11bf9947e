import LedgerText.Builder

/-!
# What a builder is asked

While a value is put together from its parts, a builder is asked about some of
the parts and about the whole, and each of its answers goes into what it is
asked next. A `Visit` is such a course: it reads tokens and makes requests in a
fixed order, whatever the answers, and gets stuck where a token does not carry
a value that is needed. It knows nothing about how a ledger is parsed.

`Runs` says which tokens are read and which calls a builder receives in the
course of a visit, and what comes of it. Only the last of the calls can be
refused, and one is exactly if the visit ends with that refusal
(`Runs.refusals_eq`, `Runs.accepted`). A visit is broken off only in front of a
token or where it is stuck, so every request that is due has been made.
-/

namespace LedgerText

variable {σ α β γ ι : Type}

/-! ## Requests and calls -/

/-- What a builder is asked, by the kind of value that it answers with. -/
inductive Request : Type → Type where
  | date (text : String) : Request Date
  | amount (given : Amount) : Request Amount
  | lotCost (given : LotCost) : Request LotCost
  | position (given : Position) : Request Position
  | posting (given : Posting) : Request Posting
  | directive (active : TagContext) (given : Directive) : Request Directive

/-- A request that was made, with the answer to it. -/
inductive Call where
  | date (text : String) (answer : Except Refusal Date)
  | amount (given : Amount) (answer : Except Refusal Amount)
  | lotCost (given : LotCost) (answer : Except Refusal LotCost)
  | position (given : Position) (answer : Except Refusal Position)
  | posting (given : Posting) (answer : Except Refusal Posting)
  | directive (active : TagContext) (given : Directive) (answer : Except Refusal Directive)

namespace Request

/-- How a builder answers a request. -/
def verdict (builder : Builder σ) : Request α → Verdict σ α
  | .date text => builder.date text
  | .amount given => builder.amount given
  | .lotCost given => builder.lotCost given
  | .position given => builder.position given
  | .posting given => builder.posting given
  | .directive active given => builder.directive active given

/-- The request with an answer to it. -/
def call : Request α → Except Refusal α → Call
  | .date text, answer => .date text answer
  | .amount given, answer => .amount given answer
  | .lotCost given, answer => .lotCost given answer
  | .position given, answer => .position given answer
  | .posting given, answer => .posting given answer
  | .directive active given, answer => .directive active given answer

/-- Whether the request is about a part of a statement, and not about a whole one. -/
def IsPart : Request α → Prop
  | .directive _ _ => False
  | _ => True

end Request

/-- Why a value was refused, if it was. -/
def refusalOf? : Except Refusal α → Option Refusal
  | .ok _ => none
  | .error refusal => some refusal

namespace Call

/-- Why the builder refused a call, if it did. -/
def refusal? : Call → Option Refusal
  | .date _ answer => refusalOf? answer
  | .amount _ answer => refusalOf? answer
  | .lotCost _ answer => refusalOf? answer
  | .position _ answer => refusalOf? answer
  | .posting _ answer => refusalOf? answer
  | .directive _ _ answer => refusalOf? answer

/-- The statement that a call yielded, if it was about a whole one and not refused. -/
def directive? : Call → Option Directive
  | .directive _ _ (.ok d) => some d
  | _ => none

/-- The active tags that came with a call about a whole statement. -/
def active? : Call → Option TagContext
  | .directive active _ _ => some active
  | _ => none

/-- Only calls about whole statements yield one. -/
theorem directive?_eq_none {call : Call} (h : call.active? = none) : call.directive? = none := by
  cases call with
  | directive active given answer => cases h
  | _ => rfl

end Call

@[simp] theorem Request.refusal?_call (request : Request α) (answer : Except Refusal α) :
    (request.call answer).refusal? = refusalOf? answer := by
  cases request <;> rfl

theorem Request.IsPart.active?_call {request : Request α} (h : request.IsPart)
    (answer : Except Refusal α) : (request.call answer).active? = none := by
  cases request with
  | directive active given => exact h.elim
  | _ => rfl

/-! ## Visits -/

/-- A course of tokens and requests that comes to a value if no request is refused. -/
inductive Visit (α : Type) : Type 1 where
  | done (a : α)
  /-- A token does not carry what is needed to go on. -/
  | stuck
  | read (token : Token) (next : Visit α)
  | ask {β : Type} (request : Request β) (next : β → Visit α)

namespace Visit

/-- Goes on with what a visit comes to. -/
def andThen : Visit α → (α → Visit β) → Visit β
  | .done a, f => f a
  | .stuck, _ => .stuck
  | .read token next, f => .read token (next.andThen f)
  | .ask request next, f => .ask request fun b => (next b).andThen f

instance : Monad Visit where
  pure := .done
  bind := andThen

theorem andThen_done (v : Visit α) : v.andThen .done = v := by
  induction v with
  | done a => rfl
  | stuck => rfl
  | read token next ih => exact congrArg (Visit.read token) ih
  | ask request next ih => exact congrArg (Visit.ask request) (funext ih)

theorem andThen_assoc (v : Visit α) (f : α → Visit β) (g : β → Visit γ) :
    (v.andThen f).andThen g = v.andThen fun a => (f a).andThen g := by
  induction v with
  | done a => rfl
  | stuck => rfl
  | read token next ih => exact congrArg (Visit.read token) ih
  | ask request next ih => exact congrArg (Visit.ask request) (funext ih)

instance : LawfulMonad Visit := .mk' _ andThen_done (fun _ _ => rfl) andThen_assoc

/-- What a token carries, which may be missing. -/
def leaf : Option α → Visit α
  | some a => .done a
  | none => .stuck

/-- Reads some tokens. -/
def readAll : List Token → Visit Unit
  | [] => .done ()
  | token :: rest => .read token (readAll rest)

/-- Makes a request. -/
def hand (request : Request α) : Visit α := .ask request .done

/-- Visits a part that may be absent. -/
def optional (visit : ι → Visit α) : Option ι → Visit (Option α)
  | none => pure none
  | some part => do pure (some (← visit part))

/-- Visits parts one after another. -/
def each (visit : ι → Visit α) : List ι → Visit (List α)
  | [] => pure []
  | part :: others => do
      let value ← visit part
      let values ← each visit others
      pure (value :: values)

/-! ## What a visit covers -/

/-- The visit reads the tokens, unless it comes to an end before, and does not ask about whole
statements. -/
def Covers : Visit α → List Token → Prop
  | .done _, tokens => tokens = []
  | .stuck, _ => True
  | .read token next, tokens => ∃ rest, tokens = token :: rest ∧ next.Covers rest
  | .ask request next, tokens => request.IsPart ∧ ∀ answer, (next answer).Covers tokens

theorem covers_pure (a : α) : (pure a : Visit α).Covers [] := rfl

theorem covers_leaf (a : Option α) : (leaf a).Covers [] := by
  cases a with
  | none => exact trivial
  | some a => exact rfl

theorem Covers.read {v : Visit α} {tokens : List Token} (h : v.Covers tokens) (token : Token) :
    (Visit.read token v).Covers (token :: tokens) :=
  ⟨tokens, rfl, h⟩

theorem covers_readAll (tokens : List Token) : (readAll tokens).Covers tokens := by
  induction tokens with
  | nil => exact rfl
  | cons token rest ih => exact ih.read token

theorem covers_hand {request : Request α} (h : request.IsPart) : (hand request).Covers [] :=
  ⟨h, fun _ => rfl⟩

theorem Covers.bind {v : Visit α} {f : α → Visit β} {front back : List Token}
    (hv : v.Covers front) (hf : ∀ a, (f a).Covers back) : (v >>= f).Covers (front ++ back) := by
  induction v generalizing front with
  | done a =>
      obtain rfl : front = [] := hv
      exact hf a
  | stuck => exact trivial
  | read token next ih =>
      obtain ⟨rest, rfl, hNext⟩ := hv
      exact (ih hNext).read token
  | ask request next ih => exact ⟨hv.1, fun answer => ih answer (hv.2 answer)⟩

/-- Behind a visit, nothing more is read. -/
theorem Covers.finish {v : Visit α} {f : α → Visit β} {tokens : List Token}
    (hv : v.Covers tokens) (hf : ∀ a, (f a).Covers []) : (v >>= f).Covers tokens := by
  rw [← List.append_nil tokens]
  exact hv.bind hf

theorem covers_optional {visit : ι → Visit α} {tokens : ι → List Token}
    (h : ∀ part, (visit part).Covers (tokens part)) (part : Option ι) :
    (optional visit part).Covers (part.elim [] tokens) := by
  cases part with
  | none => exact covers_pure none
  | some part => exact (h part).finish fun _ => covers_pure _

theorem covers_each {visit : ι → Visit α} {tokens : ι → List Token}
    (h : ∀ part, (visit part).Covers (tokens part)) (parts : List ι) :
    (each visit parts).Covers (parts.flatMap tokens) := by
  induction parts with
  | nil => exact covers_pure []
  | cons part others ih =>
      rw [List.flatMap_cons]
      exact (h part).bind fun _ => ih.finish fun _ => covers_pure _

/-! ## Running a visit -/

/-- What comes of a visit. -/
inductive Upshot (α : Type) where
  | value (a : α)
  | refused (refusal : Refusal)
  /-- The visit was broken off. -/
  | cut

namespace Upshot

/-- The value of a visit that was neither refused nor broken off. -/
def value? : Upshot α → Option α
  | .value a => some a
  | _ => none

/-- The refusal that a visit ended with, if it did. -/
def refusal? : Upshot α → Option Refusal
  | .refused refusal => some refusal
  | _ => none

end Upshot

/-- `v.Runs builder state tokens calls upshot after`: in the course of a visit, the tokens are read
and the builder receives the calls, in the order of the visit. The builder begins in one state and
ends in another. -/
inductive Runs (builder : Builder σ) :
    Visit α → σ → List Token → List Call → Upshot α → σ → Prop where
  | done (a : α) (state : σ) : Runs builder (.done a) state [] [] (.value a) state
  | stuck (state : σ) : Runs builder .stuck state [] [] .cut state
  /-- The next token of the ledger is another one. -/
  | cut (token : Token) (next : Visit α) (state : σ) :
      Runs builder (.read token next) state [] [] .cut state
  | read {token : Token} {next : Visit α} {state after : σ} {tokens : List Token}
      {calls : List Call} {upshot : Upshot α}
      (rest : Runs builder next state tokens calls upshot after) :
      Runs builder (.read token next) state (token :: tokens) calls upshot after
  | refused {β : Type} {request : Request β} {next : β → Visit α} {state after : σ}
      {refusal : Refusal} (answer : request.verdict builder state = (.error refusal, after)) :
      Runs builder (.ask request next) state [] [request.call (.error refusal)]
        (.refused refusal) after
  | asked {β : Type} {request : Request β} {next : β → Visit α} {state between after : σ} {b : β}
      {tokens : List Token} {calls : List Call} {upshot : Upshot α}
      (answer : request.verdict builder state = (.ok b, between))
      (rest : Runs builder (next b) between tokens calls upshot after) :
      Runs builder (.ask request next) state tokens (request.call (.ok b) :: calls) upshot after

namespace Runs

variable {builder : Builder σ} {v : Visit α} {f : α → Visit β} {state between after : σ}
  {tokens others : List Token} {calls more : List Call}

/-- A visit that comes to a value, and what is visited behind it. -/
theorem bind {a : α} {upshot : Upshot β} (h : v.Runs builder state tokens calls (.value a) between)
    (hMore : (f a).Runs builder between others more upshot after) :
    (v >>= f).Runs builder state (tokens ++ others) (calls ++ more) upshot after := by
  generalize hUpshot : Upshot.value a = first at h
  induction h with
  | done b state =>
      cases hUpshot
      exact hMore
  | stuck state => cases hUpshot
  | cut token next state => cases hUpshot
  | read rest ih => exact .read (ih hMore hUpshot)
  | refused answer => cases hUpshot
  | asked answer rest ih => exact .asked answer (ih hMore hUpshot)

/-- What is made of the value of a visit. -/
theorem bind_pure {a : α} {g : α → β}
    (h : v.Runs builder state tokens calls (.value a) after) :
    (v >>= fun a => pure (g a)).Runs builder state tokens calls (.value (g a)) after := by
  have hWhole := h.bind (f := fun a => pure (g a)) (.done (g a) after)
  rw [List.append_nil, List.append_nil] at hWhole
  exact hWhole

/-- Behind a visit that is refused, nothing is visited. -/
theorem bind_refused {refusal : Refusal}
    (h : v.Runs builder state tokens calls (.refused refusal) after) :
    (v >>= f).Runs builder state tokens calls (.refused refusal) after := by
  generalize hUpshot : Upshot.refused refusal = first at h
  induction h with
  | done b state => cases hUpshot
  | stuck state => cases hUpshot
  | cut token next state => cases hUpshot
  | read rest ih => exact .read (ih hUpshot)
  | refused answer =>
      cases hUpshot
      exact .refused answer
  | asked answer rest ih => exact .asked answer (ih hUpshot)

/-- Behind a visit that is broken off, nothing is visited. -/
theorem bind_cut (h : v.Runs builder state tokens calls .cut after) :
    (v >>= f).Runs builder state tokens calls .cut after := by
  generalize hUpshot : Upshot.cut = first at h
  induction h with
  | done b state => cases hUpshot
  | stuck state => exact .stuck state
  | cut token next state => exact .cut token _ state
  | read rest ih => exact .read (ih hUpshot)
  | refused answer => cases hUpshot
  | asked answer rest ih => exact .asked answer (ih hUpshot)

/-- What is visited in the course of two visits belongs to the first one, or to the second one
behind a value of the first. -/
theorem of_bind {upshot : Upshot β} (h : (v >>= f).Runs builder state tokens calls upshot after) :
    (∃ first : Upshot α, first.value? = none ∧ upshot.value? = none ∧
      v.Runs builder state tokens calls first after) ∨
    ∃ (a : α) (front back : List Token) (early late : List Call) (between : σ),
      v.Runs builder state front early (.value a) between ∧
        (f a).Runs builder between back late upshot after ∧ tokens = front ++ back ∧
          calls = early ++ late := by
  induction v generalizing state tokens calls with
  | done a => exact .inr ⟨a, [], tokens, [], calls, state, .done a state, h, rfl, rfl⟩
  | stuck =>
      cases h
      exact .inl ⟨.cut, rfl, rfl, .stuck _⟩
  | read token next ih =>
      cases h with
      | cut => exact .inl ⟨.cut, rfl, rfl, .cut token next _⟩
      | read rest =>
          rcases ih rest with ⟨first, hFirst, hNone, hRuns⟩ |
            ⟨a, front, back, early, late, between, hFront, hBack, rfl, rfl⟩
          · exact .inl ⟨first, hFirst, hNone, .read hRuns⟩
          · exact .inr ⟨a, token :: front, back, early, late, between, .read hFront, hBack, rfl,
              rfl⟩
  | ask request next ih =>
      cases h with
      | refused answer => exact .inl ⟨.refused _, rfl, rfl, .refused answer⟩
      | asked answer rest =>
          rcases ih _ rest with ⟨first, hFirst, hNone, hRuns⟩ |
            ⟨a, front, back, early, late, between, hFront, hBack, rfl, rfl⟩
          · exact .inl ⟨first, hFirst, hNone, .asked answer hRuns⟩
          · exact .inr ⟨a, front, back, _ :: early, late, between, .asked answer hFront, hBack, rfl,
              rfl⟩

/-- Reading tokens comes to nothing but that they have been read. -/
theorem readAll (tokens : List Token) (state : σ) :
    (Visit.readAll tokens).Runs builder state tokens [] (.value ()) state := by
  induction tokens with
  | nil => exact .done () state
  | cons token rest ih => exact .read ih

/-! ## What was refused and what was yielded -/

section

variable {upshot : Upshot α}

/-- The refusals among the calls are what the visit ended with. -/
theorem refusals_eq (h : v.Runs builder state tokens calls upshot after) :
    calls.filterMap Call.refusal? = upshot.refusal?.toList := by
  induction h with
  | done a state => rfl
  | stuck state => rfl
  | cut token next state => rfl
  | read rest ih => exact ih
  | refused answer =>
      rw [List.filterMap_cons, Request.refusal?_call]
      rfl
  | asked answer rest ih =>
      rw [List.filterMap_cons, Request.refusal?_call]
      exact ih

/-- No call but the last one was refused. -/
theorem accepted (h : v.Runs builder state tokens calls upshot after) :
    ∀ call ∈ calls.dropLast, call.refusal? = none := by
  induction h with
  | done a state => exact List.forall_mem_nil _
  | stuck state => exact List.forall_mem_nil _
  | cut token next state => exact List.forall_mem_nil _
  | read rest ih => exact ih
  | refused answer => exact List.forall_mem_nil _
  | @asked _ request next state between after b tokens calls upshot answer rest ih =>
      cases calls with
      | nil => exact List.forall_mem_nil _
      | cons call others =>
          rw [List.dropLast_cons_cons, List.forall_mem_cons]
          exact ⟨request.refusal?_call _, ih⟩

/-- The tokens that are read are the first ones of those that the visit covers, and all of them if
it comes to a value. -/
theorem tokens_eq {covered : List Token} (h : v.Runs builder state tokens calls upshot after)
    (hv : v.Covers covered) :
    tokens <+: covered ∧ (upshot.value?.isSome → tokens = covered) := by
  induction h generalizing covered with
  | done a state => exact ⟨List.nil_prefix, fun _ => Eq.symm hv⟩
  | stuck state => exact ⟨List.nil_prefix, nofun⟩
  | cut token next state => exact ⟨List.nil_prefix, nofun⟩
  | read rest ih =>
      obtain ⟨others, rfl, hNext⟩ := hv
      obtain ⟨hFirst, hAll⟩ := ih hNext
      exact ⟨(List.prefix_cons_inj _).2 hFirst, fun hValue => congrArg _ (hAll hValue)⟩
  | refused answer => exact ⟨List.nil_prefix, nofun⟩
  | asked answer rest ih => exact ih (hv.2 _)

end

/-- In the course of a visit that asks about parts alone, no call is about a whole statement. -/
theorem active?_eq_none {upshot : Upshot α} {covered : List Token}
    (h : v.Runs builder state tokens calls upshot after) (hv : v.Covers covered) :
    ∀ call ∈ calls, call.active? = none := by
  induction h generalizing covered with
  | done a state => exact List.forall_mem_nil _
  | stuck state => exact List.forall_mem_nil _
  | cut token next state => exact List.forall_mem_nil _
  | read rest ih =>
      obtain ⟨others, -, hNext⟩ := hv
      exact ih hNext
  | refused answer => exact List.forall_mem_singleton.2 (hv.1.active?_call _)
  | asked answer rest ih =>
      exact List.forall_mem_cons.2 ⟨hv.1.active?_call _, ih (hv.2 _)⟩

end Runs

end Visit

end LedgerText
