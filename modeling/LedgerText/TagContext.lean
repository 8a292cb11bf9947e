/-!
# Active tags

Tags switched on by one statement and off by another. Every push needs its own
pop, so a tag pushed twice stays active when it is popped once. The tags active
at a point are reported once each, in the order in which they were pushed.
-/

namespace LedgerText

/-- The pushes that have not been popped, the latest first. -/
structure TagContext where
  pushed : List String
  deriving DecidableEq, Repr

namespace TagContext

/-- No tag is active. -/
def empty : TagContext := ⟨[]⟩

/-- Activates a tag once more. -/
def push (t : TagContext) (tag : String) : TagContext := ⟨tag :: t.pushed⟩

/-- Whether a tag is active. -/
def contains (t : TagContext) (tag : String) : Bool := t.pushed.contains tag

/-- Takes back the latest push of a tag; nothing changes if the tag is not active. -/
def pop (t : TagContext) (tag : String) : TagContext := ⟨t.pushed.erase tag⟩

/-- The number of pushes that have not been popped. -/
def depth (t : TagContext) : Nat := t.pushed.length

/-- Whether no tag is active. -/
def isEmpty (t : TagContext) : Bool := t.pushed.isEmpty

/-- The pushes that have not been popped, the earliest first. -/
def pushes (t : TagContext) : List String := t.pushed.reverse

/-- The active tags, each at its earliest push. -/
def active (t : TagContext) : List String := t.pushes.eraseDups

theorem pop_of_not_contains {t : TagContext} {tag : String} (h : t.contains tag = false) :
    t.pop tag = t := by
  have hMem : tag ∉ t.pushed := by simpa [contains] using h
  rw [pop, List.erase_of_not_mem hMem]

end TagContext

end LedgerText
