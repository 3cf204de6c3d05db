import Mathlib.Data.Nat.Prime.Basic
import Mathlib.Tactic

/-!
# The sieve of Eratosthenes

A number survives the rounds below `i` if no number from 2 to `i - 1` properly divides it. A round
only has to be made for a number that survives, and once `i * i` is too large all survivors are
prime.
-/

namespace StyLinux.Lib

def Survives (i n : ℕ) : Prop := ∀ d < i, 2 ≤ d → d ∣ n → d = n

instance (i n : ℕ) : Decidable (Survives i n) := inferInstanceAs (Decidable (∀ d < i, _))

variable {i n : ℕ}

lemma survives_two (n : ℕ) : Survives 2 n := by
  intro d hd hd2
  omega

lemma survives_succ_iff (hi : 2 ≤ i) : Survives (i + 1) n ↔ Survives i n ∧ (i ∣ n → i = n) := by
  constructor
  · intro h
    exact ⟨fun d hd => h d (by omega), h i (by omega) hi⟩
  · rintro ⟨h, hdvd⟩ d hd hd2
    rcases Nat.lt_succ_iff_lt_or_eq.mp hd with hd | rfl
    · exact h d hd hd2
    · exact hdvd

/-- The multiples of a number that does not survive have not survived either. -/
lemma survives_succ_of_not (hi : 2 ≤ i) (hnot : ¬Survives i i) :
    Survives (i + 1) n ↔ Survives i n := by
  rw [survives_succ_iff hi, and_iff_left_iff_imp]
  intro h hdvd
  by_contra hne
  apply hnot
  intro d hd hd2 hdi
  obtain rfl := h d hd hd2 (hdi.trans hdvd)
  exact absurd (Nat.dvd_antisymm hdi hdvd).symm hne

lemma survives_iff_prime (hn : 2 ≤ n) (hi : n < i * i) : Survives i n ↔ n.Prime := by
  constructor
  · intro h
    by_contra hprime
    have hfac := Nat.minFac_prime (by omega : n ≠ 1)
    have hsq := Nat.minFac_sq_le_self (by omega) hprime
    have hlt : n.minFac < i := by
      by_contra hge
      have hmul := Nat.mul_le_mul (not_lt.mp hge) (not_lt.mp hge)
      rw [pow_two] at hsq
      omega
    have heq := h _ hlt hfac.two_le (Nat.minFac_dvd n)
    rw [heq] at hfac
    exact hprime hfac
  · intro hprime d _ hd2 hdvd
    rcases hprime.eq_one_or_self_of_dvd d hdvd with rfl | rfl
    · omega
    · rfl

end StyLinux.Lib
