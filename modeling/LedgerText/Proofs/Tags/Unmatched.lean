import LedgerText.TagContext
import Mathlib.Data.List.Basic
import Mathlib.Data.List.Infix

/-!
# Pushes without a pop

The tags that are active after some pushes and pops, told from these alone. A
pop takes back the latest push of its tag that no other pop has taken back, as a
closing bracket does with an opening one. So a push stays if what comes behind
it never has more pops of the tag than pushes (`Outlasts`), and the pushes that
stay are those in the context, in their order (`pushes_after`).

How many pops of a tag are in excess is counted by `excess`, from the back. It
decides `Outlasts` and accounts for the pushes that stay (`count_unmatched`).
-/

namespace LedgerText

/-- What a statement does with a tag. -/
inductive TagOp where
  | push (tag : String)
  | pop (tag : String)
  deriving DecidableEq, Repr

namespace TagOp

/-! ## Pushes and pops one after the other -/

/-- Switches a tag on or off. -/
def applyTo (t : TagContext) : TagOp → TagContext
  | .push tag => t.push tag
  | .pop tag => t.pop tag

/-- A tag can be switched off where it is active, and switched on everywhere. -/
def succeeds (t : TagContext) : TagOp → Bool
  | .push _ => true
  | .pop tag => t.contains tag

end TagOp

namespace TagContext

/-- The context behind some pushes and pops. -/
def after (t : TagContext) (ops : List TagOp) : TagContext := ops.foldl TagOp.applyTo t

/-- Those of some pushes and pops that succeed, one after the other. -/
def successful (t : TagContext) : List TagOp → List TagOp
  | [] => []
  | op :: rest =>
      if op.succeeds t then op :: successful (op.applyTo t) rest else successful t rest

/-- The pushes that a context stands for. -/
def history (t : TagContext) : List TagOp := t.pushes.map .push

@[simp]
theorem after_nil (t : TagContext) : t.after [] = t := rfl

theorem after_append (t : TagContext) (ops more : List TagOp) :
    t.after (ops ++ more) = (t.after ops).after more :=
  List.foldl_append

/-- What does not succeed changes nothing. -/
theorem applyTo_of_not_succeeds {t : TagContext} {op : TagOp} (h : ¬ op.succeeds t) :
    op.applyTo t = t := by
  cases op with
  | push tag => exact absurd rfl h
  | pop tag => exact pop_of_not_contains (Bool.eq_false_iff.2 h)

/-- Only what succeeds counts. -/
theorem after_successful (t : TagContext) (ops : List TagOp) :
    t.after (t.successful ops) = t.after ops := by
  induction ops generalizing t with
  | nil => rfl
  | cons op rest ih =>
      rw [successful]
      by_cases hOp : op.succeeds t
      · rw [if_pos hOp]
        exact ih (op.applyTo t)
      · rw [if_neg hOp, ih t]
        show t.after rest = (op.applyTo t).after rest
        rw [applyTo_of_not_succeeds hOp]

end TagContext

/-! ## Pops in excess -/

namespace TagOp

variable {tag other : String} {ops rest : List TagOp}

theorem count_pop_push : (push other :: rest).count (.pop tag) = rest.count (.pop tag) :=
  List.count_cons_of_ne TagOp.noConfusion

theorem count_push_pop : (pop other :: rest).count (.push tag) = rest.count (.push tag) :=
  List.count_cons_of_ne TagOp.noConfusion

theorem count_push_of_ne (h : other ≠ tag) :
    (push other :: rest).count (.push tag) = rest.count (.push tag) :=
  List.count_cons_of_ne fun hSame => h (push.inj hSame)

theorem count_pop_of_ne (h : other ≠ tag) :
    (pop other :: rest).count (.pop tag) = rest.count (.pop tag) :=
  List.count_cons_of_ne fun hSame => h (pop.inj hSame)

/-- How many pops of a tag have no push in front of them, among some pushes and pops. -/
def excess (tag : String) : List TagOp → Nat
  | [] => 0
  | .push other :: rest => if other = tag then excess tag rest - 1 else excess tag rest
  | .pop other :: rest => if other = tag then excess tag rest + 1 else excess tag rest

/-- A push in front of some pushes and pops is not taken back by them: up to no point do they have
more pops of the tag than pushes. -/
def Outlasts (tag : String) (ops : List TagOp) : Prop :=
  ∀ front, front <+: ops → front.count (.pop tag) ≤ front.count (.push tag)

/-- What holds of every beginning of a list holds of the empty one, and of all that have the first
element. -/
theorem forall_prefix_cons {P : List TagOp → Prop} {op : TagOp} (hNil : P []) :
    (∀ front, front <+: op :: rest → P front) ↔ ∀ front, front <+: rest → P (op :: front) := by
  constructor
  · intro h front hFront
    exact h _ (List.cons_prefix_cons.2 ⟨rfl, hFront⟩)
  · intro h front hFront
    rcases List.prefix_cons_iff.1 hFront with rfl | ⟨others, rfl, hOthers⟩
    · exact hNil
    · exact h others hOthers

/-- The excess is the least number of pushes in front that make up for all pops of the tag. The
induction is on the pushes and pops, for every number of pushes in front of them. -/
theorem excess_le_iff {n : Nat} : excess tag ops ≤ n ↔
    ∀ front, front <+: ops → front.count (.pop tag) ≤ front.count (.push tag) + n := by
  induction ops generalizing n with
  | nil =>
      constructor
      · intro _ front hFront
        rw [List.prefix_nil.1 hFront]
        exact Nat.zero_le _
      · intro _
        exact Nat.zero_le n
  | cons op rest ih =>
      rw [forall_prefix_cons (Nat.zero_le _)]
      cases op with
      | push other =>
          by_cases hTag : other = tag
          · subst hTag
            have hLess : excess other (.push other :: rest) ≤ n ↔ excess other rest ≤ n + 1 := by
              rw [excess, if_pos rfl]
              omega
            rw [hLess, ih]
            refine forall₂_congr fun front _ => ?_
            rw [count_pop_push, List.count_cons_self]
            omega
          · rw [excess, if_neg hTag, ih]
            refine forall₂_congr fun front _ => ?_
            rw [count_pop_push, count_push_of_ne hTag]
      | pop other =>
          by_cases hTag : other = tag
          · subst hTag
            rw [excess, if_pos rfl]
            cases n with
            | zero =>
                constructor
                · intro h
                  exact absurd h (Nat.not_succ_le_zero _)
                · intro h
                  have hFirst := h [] List.nil_prefix
                  rw [List.count_cons_self] at hFirst
                  exact absurd hFirst (Nat.not_succ_le_zero _)
            | succ m =>
                rw [Nat.succ_le_succ_iff, ih]
                refine forall₂_congr fun front _ => ?_
                rw [List.count_cons_self, count_push_pop]
                omega
          · rw [excess, if_neg hTag, ih]
            refine forall₂_congr fun front _ => ?_
            rw [count_pop_of_ne hTag, count_push_pop]

theorem outlasts_iff : Outlasts tag ops ↔ excess tag ops = 0 := by
  rw [← Nat.le_zero, excess_le_iff]
  exact Iff.rfl

instance : Decidable (Outlasts tag ops) := decidable_of_iff _ outlasts_iff.symm

/-- The tags of the pushes that are not taken back, the earliest first. -/
def unmatched : List TagOp → List String
  | [] => []
  | .push tag :: rest => if Outlasts tag rest then tag :: unmatched rest else unmatched rest
  | .pop _ :: rest => unmatched rest

/-- Every push stays, or makes up for a pop. -/
theorem count_unmatched (tag : String) (ops : List TagOp) :
    (unmatched ops).count tag + ops.count (.pop tag) =
      ops.count (.push tag) + excess tag ops := by
  induction ops with
  | nil => rfl
  | cons op rest ih =>
      cases op with
      | push other =>
          by_cases hTag : other = tag
          · subst hTag
            rw [unmatched, excess, if_pos rfl, count_pop_push, List.count_cons_self]
            by_cases hStays : Outlasts other rest
            · have hNone := outlasts_iff.1 hStays
              rw [if_pos hStays, List.count_cons_self]
              omega
            · have hSome : excess other rest ≠ 0 := fun hNone => hStays (outlasts_iff.2 hNone)
              rw [if_neg hStays]
              omega
          · have hSame : (unmatched (.push other :: rest)).count tag =
                (unmatched rest).count tag := by
              rw [unmatched]
              split
              · exact List.count_cons_of_ne hTag
              · rfl
            rw [hSame, excess, if_neg hTag, count_pop_push, count_push_of_ne hTag]
            exact ih
      | pop other =>
          rw [unmatched, excess, count_push_pop]
          by_cases hTag : other = tag
          · subst hTag
            rw [if_pos rfl, List.count_cons_self]
            omega
          · rw [if_neg hTag, count_pop_of_ne hTag]
            exact ih

/-! ## One more -/

/-- Behind a push, all pushes that stay still do. -/
theorem outlasts_concat_push : Outlasts tag (ops ++ [.push other]) ↔ Outlasts tag ops := by
  constructor
  · intro h front hFront
    exact h front (hFront.trans (List.prefix_append _ _))
  · intro h front hFront
    rcases List.prefix_concat_iff.1 hFront with rfl | hOps
    · have hAll := h ops (List.prefix_refl _)
      have hNone : [push other].count (.pop tag) = 0 := count_pop_push
      rw [List.count_append, List.count_append]
      omega
    · exact h front hOps

/-- Behind a pop, a push still stays unless the pop takes it back. -/
theorem outlasts_concat_pop : Outlasts tag (ops ++ [.pop other]) ↔
    Outlasts tag ops ∧ (other = tag → tag ∈ unmatched ops) := by
  have hPush : [pop other].count (.push tag) = 0 := count_push_pop
  constructor
  · intro h
    have hOps : Outlasts tag ops := by
      intro front hFront
      exact h front (hFront.trans (List.prefix_append _ _))
    refine ⟨hOps, ?_⟩
    rintro rfl
    have hAll := h _ (List.prefix_refl _)
    have hPop : [pop other].count (.pop other) = 1 := List.count_cons_self
    have hStay := count_unmatched other ops
    have hNone := outlasts_iff.1 hOps
    rw [List.count_append, List.count_append] at hAll
    exact List.count_pos_iff.1 (by omega)
  · rintro ⟨hOps, hTag⟩ front hFront
    rcases List.prefix_concat_iff.1 hFront with rfl | hShort
    · have hStay := count_unmatched tag ops
      have hNone := outlasts_iff.1 hOps
      rw [List.count_append, List.count_append]
      by_cases hSame : other = tag
      · have hSome := List.count_pos_iff.2 (hTag hSame)
        have hPop : [pop other].count (.pop tag) = 1 := hSame ▸ List.count_cons_self
        omega
      · have hPop : [pop other].count (.pop tag) = 0 := count_pop_of_ne hSame
        omega
    · exact hOps front hShort

theorem unmatched_concat_push :
    unmatched (ops ++ [.push tag]) = unmatched ops ++ [tag] := by
  induction ops with
  | nil => rfl
  | cons op rest ih =>
      cases op with
      | push other =>
          rw [List.cons_append, unmatched, unmatched, ih]
          by_cases hStays : Outlasts other rest
          · rw [if_pos hStays, if_pos (outlasts_concat_push.2 hStays), List.cons_append]
          · rw [if_neg hStays, if_neg fun h => hStays (outlasts_concat_push.1 h)]
      | pop other => exact ih

/-- A pop takes back the latest push that stays. The induction is on what comes in front of it. -/
theorem unmatched_concat_pop :
    (unmatched (ops ++ [.pop tag])).reverse = (unmatched ops).reverse.erase tag := by
  induction ops with
  | nil => rfl
  | cons op rest ih =>
      cases op with
      | push other =>
          rw [List.cons_append, unmatched, unmatched]
          by_cases hStays : Outlasts other rest
          · rw [if_pos hStays, List.reverse_cons]
            by_cases hLater : tag ∈ unmatched rest
            · -- The pop takes back a later push.
              have hStill : Outlasts other (rest ++ [pop tag]) :=
                outlasts_concat_pop.2 ⟨hStays, fun hSame => hSame ▸ hLater⟩
              rw [if_pos hStill, List.reverse_cons, ih,
                List.erase_append_left _ (List.mem_reverse.2 hLater)]
            · have hNone : tag ∉ (unmatched rest).reverse := fun h => hLater (List.mem_reverse.1 h)
              rw [List.erase_append_right _ hNone]
              rw [List.erase_of_not_mem hNone] at ih
              by_cases hSame : tag = other
              · -- The pop takes back this push.
                subst hSame
                rw [if_neg fun h => hLater ((outlasts_concat_pop.1 h).2 rfl), ih,
                  List.erase_cons_head, List.append_nil]
              · have hStill : Outlasts other (rest ++ [pop tag]) :=
                  outlasts_concat_pop.2 ⟨hStays, fun h => absurd h hSame⟩
                have hOther : tag ∉ [other] := fun h => hSame (List.mem_singleton.1 h)
                rw [if_pos hStill, List.reverse_cons, ih, List.erase_of_not_mem hOther]
          · rw [if_neg hStays, if_neg fun h => hStays (outlasts_concat_pop.1 h).1, ih]
      | pop other => exact ih

end TagOp

/-! ## Contexts -/

namespace TagContext

open TagOp

theorem unmatched_history (t : TagContext) : unmatched t.history = t.pushes := by
  rw [history]
  generalize t.pushes = tags
  induction tags with
  | nil => rfl
  | cons tag rest ih =>
      have hStays : Outlasts tag (rest.map TagOp.push) := by
        intro front hFront
        have hNone : TagOp.pop tag ∉ front := by
          intro hMem
          simpa using hFront.subset hMem
        rw [List.count_eq_zero_of_not_mem hNone]
        exact Nat.zero_le _
      rw [List.map_cons, unmatched, if_pos hStays, ih]

/-- The pushes in a context are those that are not taken back: of the pushes it began with, and of
those since. -/
theorem pushes_after (t : TagContext) (ops : List TagOp) :
    (t.after ops).pushes = unmatched (t.history ++ ops) := by
  induction ops using List.reverseRecOn with
  | nil => rw [List.append_nil, unmatched_history, after_nil]
  | append_singleton front op ih =>
      rw [after_append, ← List.append_assoc]
      cases op with
      | push tag =>
          rw [unmatched_concat_push, ← ih]
          exact List.reverse_cons
      | pop tag =>
          have hPushed : (t.after front).pushed = (unmatched (t.history ++ front)).reverse := by
            rw [← ih, pushes, List.reverse_reverse]
          show ((t.after front).pushed.erase tag).reverse = _
          rw [hPushed, ← unmatched_concat_pop, List.reverse_reverse]

example : unmatched [.push "a", .push "b", .push "a", .pop "a", .pop "c", .push "c"] =
    ["a", "b", "c"] := by decide

/-- A tag is active where a push of it has not been taken back. -/
theorem contains_after (t : TagContext) (ops : List TagOp) (tag : String) :
    (t.after ops).contains tag = true ↔ tag ∈ unmatched (t.history ++ ops) := by
  rw [← pushes_after, contains, List.contains_iff_mem, pushes, List.mem_reverse]

/-! ## Active tags -/

/-- The elements of a list without repetition, in the order in which they come first in it. The
induction is from the end of the list. -/
theorem pairwise_eraseDups (tags : List String) :
    tags.eraseDups.Pairwise fun a b => tags.idxOf a < tags.idxOf b := by
  induction tags using List.reverseRecOn with
  | nil => exact .nil
  | append_singleton front last ih =>
      have hFront : front.eraseDups.Pairwise fun a b =>
          (front ++ [last]).idxOf a < (front ++ [last]).idxOf b := by
        refine ih.imp_of_mem ?_
        intro a b ha hb hLess
        rw [List.idxOf_append_of_mem (List.mem_eraseDups.1 ha),
          List.idxOf_append_of_mem (List.mem_eraseDups.1 hb)]
        exact hLess
      rw [List.eraseDups_append, List.pairwise_append]
      refine ⟨hFront, ?_, ?_⟩
      · by_cases hLast : last ∈ front
        · simp [List.removeAll, hLast]
        · simp [List.removeAll, hLast, List.eraseDups_cons]
      · intro a ha b hb
        have hBehind := List.mem_eraseDups.1 hb
        simp only [List.removeAll, List.mem_filter, List.mem_singleton, List.elem_eq_mem,
          Bool.not_eq_true', decide_eq_false_iff_not] at hBehind
        obtain ⟨rfl, hNone⟩ := hBehind
        have hLess := List.idxOf_lt_length_iff.2 (List.mem_eraseDups.1 ha)
        rw [List.idxOf_append_of_mem (List.mem_eraseDups.1 ha), List.idxOf_append_of_notMem hNone]
        omega

/-- What a transaction inherits behind some pushes and pops if its header names some tags: the tags
with a push that is not taken back, but for those, each once and in the order of the earliest such
push. -/
structure Inherits (ops : List TagOp) (header inherited : List String) : Prop where
  mem_iff : ∀ tag, tag ∈ inherited ↔ tag ∈ unmatched ops ∧ tag ∉ header
  nodup : inherited.Nodup
  ordered : inherited.Pairwise fun a b => (unmatched ops).idxOf a < (unmatched ops).idxOf b

/-- A transaction inherits the active tags that its header does not name. -/
theorem inherits_active (t : TagContext) (ops : List TagOp) (header : List String) :
    Inherits (t.history ++ ops) header
      ((t.after ops).active.filter fun tag => !header.contains tag) := by
  have hOrdered := (pairwise_eraseDups (t.after ops).pushes).filter fun tag => !header.contains tag
  rw [active]
  refine ⟨fun tag => ?_, ?_, ?_⟩
  · rw [← pushes_after]
    simp
  · refine hOrdered.imp ?_
    rintro a b hLess rfl
    exact Nat.lt_irrefl _ hLess
  · rw [← pushes_after]
    exact hOrdered

end TagContext

end LedgerText
