import Mathlib.Tactic

/-!
# Words with flags below an aligned base

Entries that keep a base with zero low bits together with flags in these bits. What a mask
selects after flags are set or cleared follows from which masks overlap, and for constant
masks that is decided by computation.
-/

namespace StyLinux.Lib

variable {w : ℕ} {x f m : BitVec w}

lemma and_eq_zero_of_submask (hx : x &&& m = 0#w) (hf : m &&& f = f) : x &&& f = 0#w := by
  rw [← hf, ← BitVec.and_assoc, hx, BitVec.zero_and]

lemma and_not_eq_self (hx : x &&& m = 0#w) : x &&& ~~~m = x := by
  ext i hi
  have hxi : (x &&& m)[i] = false := by simp [hx]
  simp only [BitVec.getElem_and, BitVec.getElem_not] at hxi ⊢
  cases hx : x[i] with
  | false => rfl
  | true =>
    rw [hx] at hxi
    simp [show m[i] = false by simpa using hxi]

lemma or_and_of_disjoint (hf : f &&& m = 0#w) : (x ||| f) &&& m = x &&& m := by
  rw [BitVec.and_or_distrib_right, hf]
  exact BitVec.or_zero

lemma and_not_and_self : (x &&& ~~~f) &&& f = 0#w := by
  rw [BitVec.and_assoc, BitVec.and_comm (~~~f), BitVec.and_not_self]
  exact BitVec.and_zero

lemma or_and_self : (x ||| f) &&& f = f := by
  ext i hi
  simp only [BitVec.getElem_and, BitVec.getElem_or]
  cases x[i] <;> simp

lemma or_and_not (hx : x &&& m = 0#w) (hf : m &&& f = f) : (x ||| f) &&& ~~~m = x := by
  have hfm : f &&& ~~~m = 0 := by
    rw [← hf, BitVec.and_comm m, BitVec.and_assoc, BitVec.and_not_self]
    exact BitVec.and_zero
  rw [or_and_of_disjoint hfm, and_not_eq_self hx]

lemma or_and_flag (hx : x &&& m = 0#w) (hf : m &&& f = f) (g : BitVec w) :
    (x ||| g) &&& f = g &&& f := by
  rw [BitVec.and_or_distrib_right, and_eq_zero_of_submask hx hf]
  exact BitVec.zero_or

end StyLinux.Lib
