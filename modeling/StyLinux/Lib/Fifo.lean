import Mathlib.Tactic

/-!
# First-in first-out queues

A queue told by its history: what has been appended to it, and how many items have been removed,
always the oldest one.
-/

namespace StyLinux.Lib

structure History (D : Type*) where
  appended : List D
  removals : ℕ
  removals_le : removals ≤ appended.length

namespace History

variable {D : Type*}

def start : History D := ⟨[], 0, le_rfl⟩

def append (h : History D) (item : D) : History D where
  appended := h.appended ++ [item]
  removals := h.removals
  removals_le := by
    have hle := h.removals_le
    rw [List.length_append]
    omega

/-- The removal of the oldest item, if there is any. -/
def remove (h : History D) : History D where
  appended := h.appended
  removals := min (h.removals + 1) h.appended.length
  removals_le := min_le_right _ _

def removed (h : History D) : List D := h.appended.take h.removals

/-- The oldest item that has not been removed. -/
def oldest (h : History D) : Option D := h.appended[h.removals]?

/-- The items that have not been removed, the oldest one first. -/
def waiting (h : History D) : List D := h.appended.drop h.removals

variable (h : History D) (item : D)

@[simp] lemma waiting_start : (start : History D).waiting = [] := rfl

@[simp] lemma waiting_append : (h.append item).waiting = h.waiting ++ [item] :=
  List.drop_append_of_le_length h.removals_le

@[simp] lemma waiting_remove : h.remove.waiting = h.waiting.tail := by
  have hle := h.removals_le
  rw [waiting, waiting, List.tail_drop]
  change h.appended.drop (min (h.removals + 1) h.appended.length) = _
  rcases Nat.lt_or_ge h.removals h.appended.length with hlt | hge
  · rw [min_eq_left hlt]
  · rw [min_eq_right (by omega), List.drop_of_length_le le_rfl, List.drop_of_length_le (by omega)]

lemma oldest_eq_head? : h.oldest = h.waiting.head? := by
  rw [waiting, List.head?_drop, oldest]

lemma removed_append_waiting : h.removed ++ h.waiting = h.appended :=
  List.take_append_drop _ _

lemma waiting_eq_nil_iff : h.waiting = [] ↔ h.removals = h.appended.length := by
  have hle := h.removals_le
  rw [waiting, List.drop_eq_nil_iff]
  omega

lemma mem_waiting_iff [BEq D] [LawfulBEq D] :
    item ∈ h.waiting ↔ h.removed.count item < h.appended.count item := by
  rw [← h.removed_append_waiting, List.count_append, ← List.count_pos_iff]
  omega

end History

end StyLinux.Lib
