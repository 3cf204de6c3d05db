import StyLinux.Lib.Eratosthenes
import StyLinux.Sieve.Model

/-!
# The printed numbers

After the rounds below `i` the array holds the numbers that survive them, and zeros. No product
goes beyond `max + i`, since the inner loop ends at the first one above `max`.
-/

namespace StyLinux.Sieve

open Lib

/-- The array has room for the indices up to `max`, and from 2 up to `k` it holds the values of
`v`. -/
structure Holds (max k : ℕ) (v : ℕ → ℤ) (primes : Primes) : Prop where
  length_eq : primes.length = max + 1
  getElem_eq : ∀ n, 2 ≤ n → n < k → primes[n]? = some (some (v n))

variable {max k : ℕ} {v w : ℕ → ℤ} {primes : Primes} {n i j fuel : ℕ}

namespace Holds

lemma load_eq (h : Holds max k v primes) (hn : 2 ≤ n) (hk : n < k) (hmax : n ≤ max) :
    load primes n = .ok (v n) := by
  have hlength := h.length_eq
  rw [load, if_pos ⟨by omega, by omega⟩, Int.toNat_natCast, List.getD_eq_getElem?_getD,
    h.getElem_eq n hn hk]
  rfl

lemma store_eq (h : Holds max k v primes) (hmax : n ≤ max) (x : ℤ) :
    store primes n x = .ok (primes.set n (some x)) := by
  have hlength := h.length_eq
  rw [store, if_pos ⟨by omega, by omega⟩, Int.toNat_natCast]

lemma set (h : Holds max k v primes) (hmax : n ≤ max) (x : ℤ) :
    Holds max k (Function.update v n x) (primes.set n (some x)) := by
  refine ⟨by rw [List.length_set, h.length_eq], ?_⟩
  intro m hm hk
  by_cases heq : m = n
  · subst heq
    rw [Function.update_self, List.getElem?_set_self (by rw [h.length_eq]; omega)]
  · rw [Function.update_of_ne heq, List.getElem?_set_ne (Ne.symm heq), h.getElem_eq m hm hk]

/-- The next element is assigned for the first time. -/
lemma push (h : Holds max n v primes) (hmax : n ≤ max) :
    Holds max (n + 1) v (primes.set n (some (v n))) := by
  have hset := h.set hmax (v n)
  rw [Function.update_eq_self] at hset
  refine ⟨hset.length_eq, ?_⟩
  intro m hm hk
  rcases Nat.lt_succ_iff_lt_or_eq.mp hk with hk | rfl
  · exact hset.getElem_eq m hm hk
  · exact List.getElem?_set_self (by rw [h.length_eq]; omega)

lemma congr (h : Holds max k v primes) (heq : ∀ n, 2 ≤ n → n < k → v n = w n) :
    Holds max k w primes := by
  refine ⟨h.length_eq, ?_⟩
  intro n hn hk
  rw [h.getElem_eq n hn hk, heq n hn hk]

end Holds

/-! ### The values -/

/-- What the array holds after the rounds below `i`. -/
def survivors (i n : ℕ) : ℤ := if Survives i n then n else 0

/-- What it holds in the round of `i`, after the multiples with factors below `j`. -/
def crossed (i j n : ℕ) : ℤ := if ∃ k < j, 2 ≤ k ∧ i * k = n then 0 else survivors i n

lemma survivors_two (n : ℕ) : survivors 2 n = n := if_pos (survives_two n)

lemma crossed_two (i n : ℕ) : crossed i 2 n = survivors i n := by
  apply if_neg
  rintro ⟨k, hk, hk2, -⟩
  omega

lemma crossed_self (hi : 2 ≤ i) (hsurvives : Survives i i) (j : ℕ) : crossed i j i = i := by
  rw [crossed, if_neg, survivors, if_pos hsurvives]
  rintro ⟨k, -, hk2, heq⟩
  have hlt : i * 1 < i * k := Nat.mul_lt_mul_of_pos_left hk2 (by omega)
  omega

lemma update_crossed (hj : 2 ≤ j) (i : ℕ) :
    Function.update (crossed i j) (i * j) 0 = crossed i (j + 1) := by
  funext n
  by_cases hn : n = i * j
  · rw [hn, Function.update_self, crossed, if_pos ⟨j, by omega, by omega, rfl⟩]
  · rw [Function.update_of_ne hn, crossed, crossed]
    have hsame : (∃ k < j, 2 ≤ k ∧ i * k = n) ↔ ∃ k < j + 1, 2 ≤ k ∧ i * k = n := by
      constructor
      · rintro ⟨k, hk, hk2, heq⟩
        exact ⟨k, by omega, hk2, heq⟩
      · rintro ⟨k, hk, hk2, heq⟩
        refine ⟨k, ?_, hk2, heq⟩
        by_contra hge
        obtain rfl : k = j := by omega
        exact hn heq.symm
    simp only [hsame]

/-- Once the next multiple is too large, the round is done. -/
lemma crossed_eq_survivors (hi : 2 ≤ i) (hn : 2 ≤ n) (hlt : n < i * j) :
    crossed i j n = survivors (i + 1) n := by
  unfold crossed survivors
  simp only [survives_succ_iff hi]
  by_cases hcrossed : ∃ k < j, 2 ≤ k ∧ i * k = n
  · rw [if_pos hcrossed, if_neg]
    rintro ⟨-, hdvd⟩
    obtain ⟨k, -, hk2, rfl⟩ := hcrossed
    have heq := hdvd (Nat.dvd_mul_right i k)
    have hlt : i * 1 < i * k := Nat.mul_lt_mul_of_pos_left hk2 (by omega)
    omega
  · rw [if_neg hcrossed]
    have hdvd : i ∣ n → i = n := by
      rintro ⟨k, rfl⟩
      by_contra hne
      have hkj : k < j := Nat.lt_of_mul_lt_mul_left hlt
      have hk2 : 2 ≤ k := by
        by_contra hlt2
        interval_cases k
        · omega
        · omega
      exact hcrossed ⟨k, hkj, hk2, rfl⟩
    simp only [and_iff_left hdvd]

/-- The round of a number that has been crossed out changes nothing. -/
lemma survivors_succ_of_not (hi : 2 ≤ i) (hnot : ¬Survives i i) (n : ℕ) :
    survivors i n = survivors (i + 1) n := by
  unfold survivors
  simp only [survives_succ_of_not hi hnot]

/-! ### The loops -/

/-- A product that fits into an `int`. -/
lemma asInt_mul (h : i * j ≤ 2147483647) :
    asInt Fault.overflow ((i : ℤ) * j) = .ok ((i * j : ℕ) : ℤ) := by
  rw [← Nat.cast_mul]
  exact asInt_natCast (by unfold INT_MAX; omega)

section Loops

variable (hmax : max ≤ 2147000000)
include hmax

lemma asInt_succ (hle : n ≤ max) : asInt Fault.overflow ((n : ℤ) + 1) = .ok ((n + 1 : ℕ) : ℤ) :=
  asInt_natCast (by unfold INT_MAX; push_cast; omega)

/-- The loop that assigns to each element its index. -/
lemma exists_fillLoop (hi : 2 ≤ i) (hle : i ≤ max + 1) (hfuel : max + 1 < fuel + i)
    (h : Holds max i Nat.cast primes) :
    ∃ primes', fillLoop max fuel i primes = .ok primes' ∧ Holds max (max + 1) Nat.cast primes' := by
  induction fuel generalizing i primes with
  | zero => omega
  | succ fuel ih =>
    rw [fillLoop]
    by_cases hcontinue : i ≤ max
    · rw [if_pos (by omega), h.store_eq hcontinue, ok_bind, asInt_succ hmax hcontinue, ok_bind]
      exact ih (by omega) (by omega) (by omega) (h.push hcontinue)
    · obtain rfl : i = max + 1 := by omega
      rw [if_neg (by omega)]
      exact ⟨primes, rfl, h⟩

/-- The multiples of a survivor are crossed out. -/
lemma exists_crossLoop (hi : 2 ≤ i) (hsq : i * i ≤ max) (hsurvives : Survives i i) (hj : 2 ≤ j)
    (hproduct : i * j ≤ max + i) (hfuel : max < fuel + j)
    (h : Holds max (max + 1) (crossed i j) primes) :
    ∃ primes', crossLoop max i fuel j primes = .ok primes' ∧
      Holds max (max + 1) (survivors (i + 1)) primes' := by
  have hbound : i ≤ 46335 := by
    by_contra hgt
    have hmul := Nat.mul_le_mul (not_le.mp hgt) (not_le.mp hgt)
    omega
  have hle : i ≤ max := (Nat.le_mul_self i).trans hsq
  induction fuel generalizing j primes with
  | zero =>
    have hmul := Nat.mul_le_mul hi (by omega : max + 1 ≤ j)
    omega
  | succ fuel ih =>
    rw [crossLoop]
    by_cases hcontinue : j < max
    · have hvalue : load primes i = .ok (i : ℤ) := by
        rw [h.load_eq hi (by omega) hle, crossed_self hi hsurvives]
      rw [if_pos (by omega), hvalue, ok_bind, asInt_mul (by omega), ok_bind]
      by_cases hlast : max < i * j
      · rw [if_pos (by omega)]
        exact ⟨primes, rfl, h.congr fun n hn hk => crossed_eq_survivors hi hn (by omega)⟩
      · have hnext := asInt_succ hmax (by omega : j ≤ max)
        have hstore : store primes (i * j : ℕ) 0 = .ok (primes.set (i * j) (some 0)) :=
          h.store_eq (by omega) 0
        have hset := h.set (by omega : i * j ≤ max) 0
        rw [update_crossed hj] at hset
        rw [if_neg (by omega), hstore, ok_bind, hnext, ok_bind]
        exact ih (by omega) (by rw [Nat.mul_succ]; omega) (by omega) hset
    · have hmul := Nat.mul_le_mul hi (not_lt.mp hcontinue)
      rw [if_neg (by omega)]
      exact ⟨primes, rfl, h.congr fun n hn hk => crossed_eq_survivors hi hn (by omega)⟩

/-- The rounds end with one whose square is too large. -/
lemma exists_sieveLoop {bound : ℕ} (hbound : max < bound + 2) (hi : 2 ≤ i) (hle : i ≤ max + 1)
    (hroot : i ≤ 46336) (hfuel : max + 1 < fuel + i)
    (h : Holds max (max + 1) (survivors i) primes) :
    ∃ primes' i', sieveLoop max bound fuel i primes = .ok primes' ∧ max < i' * i' ∧
      Holds max (max + 1) (survivors i') primes' := by
  induction fuel generalizing i primes with
  | zero => omega
  | succ fuel ih =>
    have hmul := Nat.mul_le_mul hroot hroot
    rw [sieveLoop, asInt_mul (by omega), ok_bind]
    by_cases hcontinue : i * i ≤ max
    · have hi' : i ≤ max := (Nat.le_mul_self i).trans hcontinue
      have hnext := asInt_succ hmax hi'
      have hroot' : i + 1 ≤ 46336 := by
        by_contra hgt
        have hmul := Nat.mul_le_mul (by omega : 46336 ≤ i) (by omega : 46336 ≤ i)
        omega
      rw [if_pos (by omega), h.load_eq hi (by omega) hi', ok_bind]
      by_cases hsurvives : Survives i i
      · have hfirst : Holds max (max + 1) (crossed i 2) primes :=
          h.congr fun n _ _ => (crossed_two i n).symm
        have hdouble := Nat.mul_le_mul_left i hi
        obtain ⟨primes', hcross, h'⟩ := exists_crossLoop hmax hi hcontinue hsurvives le_rfl
          (by omega) hbound hfirst
        have hvalue : survivors i i ≠ 0 := by
          rw [survivors, if_pos hsurvives]
          omega
        have hcross' : crossLoop max i bound 2 primes = .ok primes' := hcross
        rw [if_pos hvalue, hcross', ok_bind]
        dsimp only
        rw [hnext, ok_bind]
        exact ih (by omega) (by omega) hroot' (by omega) h'
      · have hvalue : survivors i i = 0 := if_neg hsurvives
        rw [if_neg (not_not.mpr hvalue), ok_bind]
        dsimp only
        rw [hnext, ok_bind]
        exact ih (by omega) (by omega) hroot' (by omega)
          (h.congr fun n _ _ => survivors_succ_of_not hi hsurvives n)
    · rw [if_neg (by omega)]
      exact ⟨primes, i, rfl, by omega, h⟩

/-- The loop prints the elements that are not zero. -/
lemma printLoop_eq (hi : 2 ≤ i) (hle : i ≤ max + 1) (hfuel : max + 1 < fuel + i)
    (h : Holds max (max + 1) v primes) : printLoop max fuel i primes =
      .ok (((List.range' i (max + 1 - i)).map v).filter fun value => value ≠ 0) := by
  induction fuel generalizing i with
  | zero => omega
  | succ fuel ih =>
    rw [printLoop]
    by_cases hcontinue : i ≤ max
    · have hnext := asInt_succ hmax hcontinue
      have hrange : max + 1 - i = max + 1 - (i + 1) + 1 := by omega
      rw [if_pos (by omega), h.load_eq hi (by omega) hcontinue, ok_bind, hnext, ok_bind,
        ih (by omega) (by omega) (by omega), ok_bind, hrange, List.range'_succ, List.map_cons,
        List.filter_cons]
      simp only [decide_eq_true_eq]
    · rw [if_neg (by omega), show max + 1 - i = 0 by omega]
      rfl

end Loops

/-- The numbers that survive are the primes. -/
lemma filter_survivors (hmin : 2 ≤ max) (hsquare : max < i * i) :
    ((List.range' 2 (max + 1 - 2)).map (survivors i)).filter (fun value => value ≠ 0) =
      ((List.range (max + 1)).filter Nat.Prime).map Nat.cast := by
  have hprime : ∀ n ∈ List.range' 2 (max + 1 - 2), Survives i n ↔ n.Prime := by
    intro n hn
    obtain ⟨hn2, hlt⟩ := List.mem_range'_1.mp hn
    exact survives_iff_prime hn2 (by omega)
  have hrange : (List.range (max + 1)).filter Nat.Prime =
      (List.range' 2 (max + 1 - 2)).filter Nat.Prime := by
    rw [List.range_eq_range', show max + 1 = max + 1 - 2 + 1 + 1 by omega, List.range'_succ,
      List.range'_succ, List.filter_cons_of_neg (by decide), List.filter_cons_of_neg (by decide)]
    rfl
  rw [List.filter_map, hrange]
  have hfilter : (List.range' 2 (max + 1 - 2)).filter
      ((fun value => decide (value ≠ 0)) ∘ survivors i) =
      (List.range' 2 (max + 1 - 2)).filter Nat.Prime := by
    apply List.filter_congr
    intro n hn
    obtain ⟨hn2, -⟩ := List.mem_range'_1.mp hn
    rw [Function.comp_apply, decide_eq_decide, survivors, ← hprime n hn]
    by_cases hsurvives : Survives i n
    · rw [if_pos hsurvives]
      exact iff_of_true (by omega) hsurvives
    · rw [if_neg hsurvives]
      exact iff_of_false (not_not.mpr rfl) hsurvives
  rw [hfilter]
  apply List.map_congr_left
  intro n hn
  obtain ⟨hn, hnprime⟩ := List.mem_filter.mp hn
  exact if_pos ((hprime n hn).mpr (of_decide_eq_true hnprime))

/-- `main` prints the primes up to `max` in increasing order, without any overflow and any access
out of the bounds of the array. -/
theorem main_eq {max : ℤ} (hmin : 2 ≤ max) (hmax : max ≤ 2147000000) {fuel : ℕ}
    (hfuel : max ≤ fuel) : main true max fuel =
      .ok (0, ((List.range (max.toNat + 1)).filter Nat.Prime).map Nat.cast) := by
  obtain ⟨max, rfl⟩ := Int.eq_ofNat_of_zero_le (by omega : 0 ≤ max)
  have hmin' : 2 ≤ max := by omega
  have hmax' : max ≤ 2147000000 := by omega
  have hlength : asInt Fault.overflow ((max : ℤ) + 1) = .ok ((max + 1 : ℕ) : ℤ) :=
    asInt_natCast (by unfold INT_MAX; push_cast; omega)
  have hempty : Holds max 2 Nat.cast (List.replicate (max + 1) none) :=
    ⟨List.length_replicate, fun n hn hlt => by omega⟩
  obtain ⟨filled, hfill, hfilled⟩ :=
    exists_fillLoop hmax' le_rfl (by omega) (by omega : max + 1 < fuel + 2) hempty
  have hstart : Holds max (max + 1) (survivors 2) filled :=
    hfilled.congr fun n _ _ => (survivors_two n).symm
  obtain ⟨sieved, i, hsieve, hsquare, hsieved⟩ := exists_sieveLoop hmax'
    (by omega : max < fuel + 2) le_rfl (by omega) (by omega) (by omega : max + 1 < fuel + 2) hstart
  have hprint := printLoop_eq hmax' le_rfl (by omega) (by omega : max + 1 < fuel + 2) hsieved
  have hfill' : fillLoop max fuel 2 (List.replicate (max + 1) none) = .ok filled := hfill
  have hsieve' : sieveLoop max fuel fuel 2 filled = .ok sieved := hsieve
  have hprint' : printLoop max fuel 2 sieved = _ := hprint
  rw [main, hlength, ok_bind, if_neg (by simp), Int.toNat_natCast, hfill', ok_bind, hsieve',
    ok_bind, hprint', ok_bind, filter_survivors hmin' hsquare, Int.toNat_natCast]

theorem main_eq_ten : main true 10 10 = .ok (0, [2, 3, 5, 7]) := by
  have hprimes : (List.range 11).filter (fun n => n.Prime) = [2, 3, 5, 7] := by decide
  have hmain := main_eq (by decide : (2 : ℤ) ≤ 10) (by decide) (by decide : (10 : ℤ) ≤ (10 : ℕ))
  rw [show (10 : ℤ).toNat + 1 = 11 from rfl, hprimes] at hmain
  exact hmain

end StyLinux.Sieve
