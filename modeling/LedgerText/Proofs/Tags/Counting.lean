import LedgerText.Proofs.Tags.Unmatched
import Mathlib.Algebra.GroupWithZero.Nat

/-!
# Tags as counters

A context answers as a family of counters would, one for each tag: a push raises
the counter of its tag, and a pop lowers it unless it is zero. No operation on
another tag shows (`counter_filter`, `count_after`).

What the counters do not say is the order of the active tags. A tag takes its
place behind all others when its counter rises from zero, and keeps it until the
counter is at zero again, as a pop takes back the latest push of its tag and not
the one that the place is owed to (`active_push`, `active_pop_sublist`). So the
active tags are in the order in which their counters last rose from zero
(`pairwise_active`).
-/

namespace LedgerText

namespace TagOp

/-! ## Counters -/

/-- The tag that is switched on or off. -/
def tag : TagOp → String
  | .push tag => tag
  | .pop tag => tag

section

variable {tag : String} {ops : List TagOp} {op : TagOp} {m n : Nat}

/-- What an operation makes of the counter of a tag. Only those on the tag itself matter, and there
is nothing below zero. -/
def count (tag : String) (n : Nat) : TagOp → Nat
  | .push other => if other = tag then n + 1 else n
  | .pop other => if other = tag then n - 1 else n

/-- The counter of a tag, which is zero before all operations. -/
def counter (tag : String) (ops : List TagOp) : Nat := ops.foldl (count tag) 0

theorem counter_concat : counter tag (ops ++ [op]) = op.count tag (counter tag ops) :=
  List.foldl_append

theorem count_of_ne (h : op.tag ≠ tag) : op.count tag n = n := by
  cases op with
  | push other => exact if_neg h
  | pop other => exact if_neg h

/-- The counter of a tag depends on the operations on this tag alone. -/
theorem counter_filter (tag : String) (ops : List TagOp) :
    counter tag (ops.filter fun op => op.tag = tag) = counter tag ops := by
  induction ops using List.reverseRecOn with
  | nil => rfl
  | append_singleton front op ih =>
      rw [List.filter_append, counter_concat]
      by_cases hTag : op.tag = tag
      · rw [List.filter_cons_of_pos (by simpa using hTag), List.filter_nil, counter_concat, ih]
      · rw [List.filter_cons_of_neg (by simpa using hTag), List.filter_nil, List.append_nil, ih,
          count_of_ne hTag]

/-! ## Rises -/

/-- Behind `m` operations, the counter of a tag rises from zero. -/
def RisesAt (tag : String) (ops : List TagOp) (m : Nat) : Prop :=
  ops[m]? = some (.push tag) ∧ counter tag (ops.take m) = 0

/-- The counter of a tag rises from zero behind `m` operations, and not again. -/
structure LastRise (tag : String) (ops : List TagOp) (m : Nat) : Prop where
  risesAt : RisesAt tag ops m
  last : ∀ n, RisesAt tag ops n → n ≤ m

theorem RisesAt.lt (h : RisesAt tag ops m) : m < ops.length :=
  (List.getElem?_eq_some_iff.1 h.1).1

/-- One more operation leaves the rises where they are. It is one itself if it is a push of the tag
at zero. -/
theorem risesAt_concat : RisesAt tag (ops ++ [op]) m ↔
    RisesAt tag ops m ∨ m = ops.length ∧ op = .push tag ∧ counter tag ops = 0 := by
  unfold RisesAt
  rcases Nat.lt_trichotomy m ops.length with hLess | rfl | hMore
  · rw [List.getElem?_append_left hLess, List.take_append_of_le_length (Nat.le_of_lt hLess)]
    simp [Nat.ne_of_lt hLess]
  · simp
  · have hEnd : (ops ++ [op]).length ≤ m := by
      rw [List.length_append]
      exact hMore
    rw [List.getElem?_eq_none hEnd, List.getElem?_eq_none (Nat.le_of_lt hMore)]
    simp [Nat.ne_of_gt hMore]

/-- Where the counter rises from zero now, it did not do so later. -/
theorem lastRise_concat_of_zero (h : counter tag ops = 0) :
    LastRise tag (ops ++ [.push tag]) ops.length where
  risesAt := risesAt_concat.2 (.inr ⟨rfl, rfl, h⟩)
  last n hn := by
    rcases risesAt_concat.1 hn with hBefore | ⟨rfl, -⟩
    · exact Nat.le_of_lt hBefore.lt
    · exact Nat.le_refl _

/-- An operation that does not raise the counter from zero leaves its last rise where it is. -/
theorem LastRise.concat (h : LastRise tag ops m) (hOp : op = .push tag → counter tag ops ≠ 0) :
    LastRise tag (ops ++ [op]) m where
  risesAt := risesAt_concat.2 (.inl h.risesAt)
  last n hn := by
    rcases risesAt_concat.1 hn with hBefore | ⟨-, hPush, hZero⟩
    · exact h.last n hBefore
    · exact absurd hZero (hOp hPush)

/-- A counter that is positive has risen from zero. -/
theorem exists_lastRise (h : 0 < counter tag ops) : ∃ m, LastRise tag ops m := by
  induction ops using List.reverseRecOn with
  | nil => exact absurd h (Nat.lt_irrefl 0)
  | append_singleton front op ih =>
      by_cases hZero : counter tag front = 0
      · -- Only a push of the tag makes the counter positive.
        rw [counter_concat, hZero] at h
        cases op with
        | pop other => simp [count] at h
        | push other =>
            have hTag : other = tag := by
              by_contra hOther
              have hSame : (push other).count tag 0 = 0 := count_of_ne hOther
              rw [hSame] at h
              exact Nat.lt_irrefl 0 h
            subst hTag
            exact ⟨front.length, lastRise_concat_of_zero hZero⟩
      · obtain ⟨m, hRise⟩ := ih (Nat.pos_of_ne_zero hZero)
        exact ⟨m, hRise.concat fun _ => hZero⟩

end

end TagOp

namespace TagContext

open TagOp

variable {t : TagContext} {tag other : String} {ops : List TagOp}

/-! ## The counters of a context -/

theorem contains_iff : t.contains tag = true ↔ 0 < t.pushed.count tag := by
  rw [contains, List.contains_iff_mem, List.count_pos_iff]

/-- A context holds each tag as often as its counter says. -/
theorem count_after (tag : String) (ops : List TagOp) :
    (empty.after ops).pushed.count tag = counter tag ops := by
  induction ops using List.reverseRecOn with
  | nil => rfl
  | append_singleton front op ih =>
      rw [after_append, counter_concat, ← ih]
      generalize empty.after front = t
      cases op with
      | push other =>
          show (other :: t.pushed).count tag = _
          rw [List.count_cons, TagOp.count]
          by_cases hTag : other = tag
          · simp [hTag]
          · simp [hTag]
      | pop other =>
          show (t.pushed.erase other).count tag = _
          rw [List.count_erase, TagOp.count]
          by_cases hTag : other = tag
          · simp [hTag]
          · simp [hTag]

theorem contains_after_eq (tag : String) (ops : List TagOp) :
    (empty.after ops).contains tag = decide (0 < counter tag ops) := by
  rw [Bool.eq_iff_iff, contains_iff, count_after, decide_eq_true_eq]

theorem nodup_eraseDups (tags : List String) : tags.eraseDups.Nodup := by
  refine (pairwise_eraseDups tags).imp ?_
  rintro a _ hLess rfl
  exact Nat.lt_irrefl _ hLess

/-- Every element of a list is counted once. -/
theorem sum_count {tags pushed : List String} (hNodup : tags.Nodup)
    (h : ∀ tag ∈ pushed, tag ∈ tags) :
    (tags.map fun tag => pushed.count tag).sum = pushed.length := by
  induction tags generalizing pushed with
  | nil =>
      rw [List.eq_nil_iff_forall_not_mem.2 fun tag hTag => List.not_mem_nil (h tag hTag)]
      rfl
  | cons first tags ih =>
      obtain ⟨hFirst, hTags⟩ := List.nodup_cons.1 hNodup
      have hOthers : (tags.map fun tag => (pushed.filter (· != first)).count tag).sum =
          (pushed.filter (· != first)).length := by
        refine ih hTags fun tag hTag => ?_
        obtain ⟨hMem, hOther⟩ := List.mem_filter.1 hTag
        exact (List.mem_cons.1 (h tag hMem)).resolve_left (by simpa using hOther)
      have hSame : (tags.map fun tag => pushed.count tag) =
          tags.map fun tag => (pushed.filter (· != first)).count tag := by
        refine List.map_congr_left fun tag hTag => (List.count_filter ?_).symm
        simpa using fun hEq : tag = first => hFirst (hEq ▸ hTag)
      have hSplit : pushed.length = pushed.count first + (pushed.filter (· != first)).length := by
        rw [List.count_eq_length_filter]
        exact List.length_eq_length_filter_add _
      rw [List.map_cons, List.sum_cons, hSame, hOthers, hSplit]

/-- The pushes without a pop are counted by the counters of all tags. -/
theorem depth_after (ops : List TagOp) : (empty.after ops).depth =
    ((ops.map TagOp.tag).eraseDups.map fun tag => counter tag ops).sum := by
  have hZero : ∀ tag, tag ∉ ops.map TagOp.tag → counter tag ops = 0 := by
    intro tag hTag
    have hNone : (ops.filter fun op => op.tag = tag) = [] := by
      refine List.filter_eq_nil_iff.2 fun op hOp hSame => hTag ?_
      exact List.mem_map.2 ⟨op, hOp, of_decide_eq_true hSame⟩
    rw [← counter_filter, hNone]
    rfl
  have hPushed : ∀ tag ∈ (empty.after ops).pushed, tag ∈ (ops.map TagOp.tag).eraseDups := by
    intro tag hTag
    rw [List.mem_eraseDups]
    by_contra hNone
    have hSome := List.count_pos_iff.2 hTag
    rw [count_after, hZero tag hNone] at hSome
    exact Nat.lt_irrefl 0 hSome
  have hCounters : (fun tag => counter tag ops) = fun tag => (empty.after ops).pushed.count tag :=
    funext fun tag => (count_after tag ops).symm
  rw [hCounters, sum_count (nodup_eraseDups _) hPushed]
  rfl

/-! ## The order of the active tags -/

theorem mem_active : tag ∈ t.active ↔ t.contains tag = true := by
  rw [active, List.mem_eraseDups, pushes, List.mem_reverse, contains, List.contains_iff_mem]

/-- A push puts its tag behind the others, unless it is among them. -/
theorem active_push (t : TagContext) (tag : String) : (t.push tag).active =
    if t.contains tag then t.active else t.active ++ [tag] := by
  have hPushes : (t.push tag).pushes = t.pushes ++ [tag] := List.reverse_cons
  have hMem : tag ∈ t.pushes ↔ t.contains tag = true := by
    rw [← mem_active, active, List.mem_eraseDups]
  rw [active, hPushes, List.eraseDups_append]
  by_cases hActive : t.contains tag = true
  · simp [hActive, List.removeAll, hMem.2 hActive, active]
  · simp [hActive, List.removeAll, mt hMem.1 hActive, active, List.eraseDups_cons]

/-- A pop moves no tag. The latest push of its tag goes, which does not show in the order if there
is an earlier one. -/
theorem active_pop_sublist (t : TagContext) (tag : String) :
    (t.pop tag).active.Sublist t.active := by
  by_cases hActive : t.contains tag = true
  · have hMem : tag ∈ t.pushed := List.contains_iff_mem.1 hActive
    obtain ⟨later, earlier, hNone, hPushed, hPopped⟩ := List.exists_erase_eq hMem
    have hFront : t.pushes = earlier.reverse ++ tag :: later.reverse := by
      rw [pushes, hPushed]
      simp
    have hBack : (t.pop tag).pushes = earlier.reverse ++ later.reverse := by
      rw [pushes, pop, hPopped, List.reverse_append]
    rw [active, active, hFront, hBack, List.eraseDups_append, List.eraseDups_append]
    refine List.Sublist.append_left ?_ _
    by_cases hEarlier : tag ∈ earlier.reverse
    · simp [List.removeAll, List.mem_reverse.1 hEarlier]
    · have hKept : (tag :: later.reverse).removeAll earlier.reverse =
          tag :: later.reverse.removeAll earlier.reverse := by
        simp [List.removeAll, mt List.mem_reverse.2 hEarlier]
      have hOnly : (later.reverse.removeAll earlier.reverse).filter (fun b => !b == tag) =
          later.reverse.removeAll earlier.reverse := by
        refine List.filter_eq_self.2 fun b hb => ?_
        have hLater : b ∈ later := List.mem_reverse.1 (List.mem_of_mem_filter hb)
        simpa using fun hSame : b = tag => hNone (hSame ▸ hLater)
      rw [hKept, List.eraseDups_cons, hOnly]
      exact List.sublist_cons_self _ _
  · rw [pop_of_not_contains (by simpa using hActive)]

theorem mem_active_after : tag ∈ (empty.after ops).active ↔ 0 < counter tag ops := by
  rw [mem_active, contains_after_eq, decide_eq_true_eq]

/-- The counter of one tag rose from zero for the last time before that of another. -/
def RoseBefore (ops : List TagOp) (a b : String) : Prop :=
  ∃ m n, LastRise a ops m ∧ LastRise b ops n ∧ m < n

/-- The last rises of the active tags stay where they are. -/
theorem lastRise_concat_of_active {op : TagOp} {m : Nat}
    (hTag : tag ∈ (empty.after ops).active) (h : LastRise tag ops m) :
    LastRise tag (ops ++ [op]) m :=
  h.concat fun _ => Nat.ne_of_gt (mem_active_after.1 hTag)

/-- The active tags are in the order in which their counters last rose from zero. One more operation
leaves them where they are, and at most puts its tag behind them. -/
theorem pairwise_active (ops : List TagOp) :
    (empty.after ops).active.Pairwise (RoseBefore ops) := by
  induction ops using List.reverseRecOn with
  | nil => exact .nil
  | append_singleton front op ih =>
      have hKept : (empty.after front).active.Pairwise (RoseBefore (front ++ [op])) := by
        refine ih.imp_of_mem ?_
        rintro a b ha hb ⟨m, n, hFirst, hSecond, hLess⟩
        exact ⟨m, n, lastRise_concat_of_active ha hFirst, lastRise_concat_of_active hb hSecond,
          hLess⟩
      rw [after_append]
      cases op with
      | push tag =>
          show ((empty.after front).push tag).active.Pairwise _
          rw [active_push]
          split
          · exact hKept
          · next hNone =>
              have hZero : counter tag front = 0 := by
                rw [contains_after_eq, decide_eq_true_eq] at hNone
                exact Nat.eq_zero_of_not_pos hNone
              refine List.pairwise_append.2 ⟨hKept, List.pairwise_singleton _ _, ?_⟩
              intro a ha b hb
              rw [List.mem_singleton] at hb
              subst hb
              obtain ⟨m, hRise⟩ := exists_lastRise (mem_active_after.1 ha)
              exact ⟨m, front.length, lastRise_concat_of_active ha hRise,
                lastRise_concat_of_zero hZero, hRise.risesAt.lt⟩
      | pop tag => exact hKept.sublist (active_pop_sublist _ tag)

/-! ## The whole behaviour -/

/-- A context that answers as the counters of some operations do. -/
structure Counted (ops : List TagOp) (t : TagContext) : Prop where
  /-- A tag is active while its counter is positive. -/
  contains_eq : ∀ tag, t.contains tag = decide (0 < counter tag ops)
  /-- A tag can be switched off while its counter is positive. -/
  succeeds_eq : ∀ tag, (TagOp.pop tag).succeeds t = decide (0 < counter tag ops)
  /-- The answers are those that the operations on the tag give without the others. -/
  own : ∀ tag, (t.contains tag, (TagOp.pop tag).succeeds t) =
    ((empty.after (ops.filter fun op => op.tag = tag)).contains tag,
      (TagOp.pop tag).succeeds (empty.after (ops.filter fun op => op.tag = tag)))
  /-- A pop takes one push back if it succeeds, and changes nothing otherwise. -/
  pop_eq : ∀ tag, if (TagOp.pop tag).succeeds t then (t.pop tag).depth + 1 = t.depth
    else t.pop tag = t
  /-- The depth is the sum of the counters of all tags that there are, each taken once. -/
  depth_eq : t.depth = ((ops.map TagOp.tag).eraseDups.map fun tag => counter tag ops).sum
  nodup : t.active.Nodup
  /-- The tags with a positive counter are active. -/
  mem_active : ∀ tag, tag ∈ t.active ↔ 0 < counter tag ops
  /-- The active tags are ordered by the moments at which their counters last rose from zero, and
  each has such a moment. -/
  rises : ∀ tag ∈ t.active, ∃ m, LastRise tag ops m
  ordered : t.active.Pairwise (RoseBefore ops)
  /-- A pop undoes the push right before it. -/
  pop_push : ∀ tag, (t.push tag).pop tag = t
  /-- Pops of different tags can be exchanged, and neither changes whether the other succeeds. -/
  pop_comm : ∀ a b, a ≠ b → (t.pop a).pop b = (t.pop b).pop a ∧
    (TagOp.pop b).succeeds (t.pop a) = (TagOp.pop b).succeeds t

/-- Behind any pushes and pops, an empty context answers as the counters of the tags do, and holds
them in the order in which they rose. -/
theorem counted_after (ops : List TagOp) : Counted ops (empty.after ops) where
  contains_eq tag := contains_after_eq tag ops
  succeeds_eq tag := contains_after_eq tag ops
  own tag := by
    simp only [TagOp.succeeds, contains_after_eq, counter_filter]
  pop_eq tag := by
    generalize empty.after ops = t
    by_cases hActive : t.contains tag = true
    · have hMem : tag ∈ t.pushed := List.contains_iff_mem.1 hActive
      rw [TagOp.succeeds, if_pos hActive]
      exact List.length_erase_add_one hMem
    · rw [TagOp.succeeds, if_neg hActive, pop_of_not_contains (by simpa using hActive)]
  depth_eq := depth_after ops
  nodup := nodup_eraseDups _
  mem_active tag := mem_active_after
  rises tag hTag := exists_lastRise (mem_active_after.1 hTag)
  ordered := pairwise_active ops
  pop_push tag := by
    show TagContext.mk ((tag :: (empty.after ops).pushed).erase tag) = _
    rw [List.erase_cons_head]
  pop_comm a b hOther := by
    constructor
    · exact congrArg TagContext.mk (List.erase_comm a b)
    · rw [TagOp.succeeds, TagOp.succeeds, Bool.eq_iff_iff, contains_iff, contains_iff, pop,
        List.count_erase_of_ne hOther.symm]

example : (empty.after [.push "a", .push "b", .push "a", .pop "a", .pop "c", .push "c",
    .pop "a", .push "a"]).active = ["b", "c", "a"] := by decide

end TagContext

end LedgerText
