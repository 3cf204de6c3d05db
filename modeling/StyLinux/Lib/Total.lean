import Mathlib.Tactic
import Mathlib.Algebra.BigOperators.Group.Finset.Basic

/-!
# Totals over threads

What finitely many of arbitrarily many threads contribute to a total, and how the total changes
when one of them goes on.
-/

namespace StyLinux.Lib

variable {ι P M : Type*} [AddCommMonoid M]

/-- All but finitely many values are zero, and the others add up to `n`. -/
def HasTotal (f : ι → M) (n : M) : Prop :=
  ∃ T : Finset ι, (∀ t, t ∉ T → f t = 0) ∧ ∑ t ∈ T, f t = n

lemma HasTotal.of_zero {f : ι → M} (h : ∀ t, f t = 0) : HasTotal f 0 :=
  ⟨∅, fun t _ => h t, rfl⟩

/-- A thread at the place `places t` goes to the place `p`. -/
lemma HasTotal.update [DecidableEq ι] {places : ι → P} {weight : P → M} {n : M}
    (h : HasTotal (fun u => weight (places u)) n) (t : ι) (p : P) :
    ∃ m, n = weight (places t) + m ∧
      HasTotal (fun u => weight (Function.update places t p u)) (weight p + m) := by
  obtain ⟨T, hzero, hsum⟩ := h
  refine ⟨∑ u ∈ T.erase t, weight (places u), ?_, insert t T, ?_, ?_⟩
  · by_cases ht : t ∈ T
    · rw [← hsum, Finset.add_sum_erase T (fun u => weight (places u)) ht]
    · have hidle : weight (places t) = 0 := hzero t ht
      rw [Finset.erase_eq_of_notMem ht, hsum, hidle, zero_add]
  · intro u hu
    obtain ⟨hne, hu⟩ := not_or.mp (mt Finset.mem_insert.mpr hu)
    show weight (Function.update places t p u) = 0
    rw [Function.update_of_ne hne]
    exact hzero u hu
  · rw [← Finset.add_sum_erase _ _ (Finset.mem_insert_self t T), Finset.erase_insert_eq_erase,
      Function.update_self]
    congr 1
    apply Finset.sum_congr rfl
    intro u hu
    rw [Function.update_of_ne (Finset.ne_of_mem_erase hu)]

end StyLinux.Lib
