import Mathlib.Data.Finset.Card
import Mathlib.Data.Finset.Range
import Mathlib.Tactic

/-!
# File descriptors

A process has a finite set of descriptors open. The kernel hands out the lowest free one.
-/

namespace StyLinux.Lib

/-- The lowest descriptor that is not open. -/
def lowestFree (opened : Finset ℕ) : ℕ :=
  ((List.range (opened.card + 1)).find? fun fd => fd ∉ opened).getD 0

/-- There is one among the first few. -/
lemma exists_free (opened : Finset ℕ) : ∃ fd ∈ List.range (opened.card + 1), fd ∉ opened := by
  by_contra hnone
  push Not at hnone
  have hsub : Finset.range (opened.card + 1) ⊆ opened := by
    intro fd hfd
    exact hnone fd (List.mem_range.mpr (Finset.mem_range.mp hfd))
  have hcard := Finset.card_le_card hsub
  rw [Finset.card_range] at hcard
  omega

lemma lowestFree_notMem (opened : Finset ℕ) : lowestFree opened ∉ opened := by
  obtain ⟨fd, hfd, hfree⟩ := exists_free opened
  unfold lowestFree
  cases hfind : (List.range (opened.card + 1)).find? fun fd => fd ∉ opened with
  | none =>
    have hmem := List.find?_eq_none.mp hfind fd hfd
    exact absurd (by simpa using hfree) hmem
  | some fd' => simpa using List.find?_some hfind

end StyLinux.Lib
