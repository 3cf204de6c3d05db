import Mathlib.Tactic

/-!
# Numerals

The value of a list of digits, the most significant one first, computed from left to right as
parsers do, and the digits of a number. A list of digits is the numeral of its value, with zeros in
front of it.
-/

namespace StyLinux.Lib

/-- The value of the digits behind what has been read with the value `acc`. -/
def valueFrom (base : ℕ) (acc : ℕ) (digits : List ℕ) : ℕ :=
  digits.foldl (fun value digit => value * base + digit) acc

variable {base acc : ℕ} {digits : List ℕ}

@[simp] lemma valueFrom_nil : valueFrom base acc [] = acc := rfl

@[simp] lemma valueFrom_cons (digit : ℕ) :
    valueFrom base acc (digit :: digits) = valueFrom base (acc * base + digit) digits := rfl

lemma le_valueFrom (hbase : 0 < base) : acc ≤ valueFrom base acc digits := by
  induction digits generalizing acc with
  | nil => exact le_rfl
  | cons digit digits ih =>
    have hle : acc ≤ acc * base := Nat.le_mul_of_pos_right acc hbase
    exact (hle.trans (Nat.le_add_right _ digit)).trans ih

lemma valueFrom_eq : valueFrom base acc digits =
    acc * base ^ digits.length + Nat.ofDigits base digits.reverse := by
  induction digits generalizing acc with
  | nil => simp
  | cons digit digits ih =>
    rw [valueFrom_cons, ih, List.reverse_cons, Nat.ofDigits_append, Nat.ofDigits_singleton,
      List.length_reverse, List.length_cons, pow_succ]
    ring

/-- The value of a whole numeral is the one of positional notation. -/
lemma valueFrom_zero : valueFrom base 0 digits = Nat.ofDigits base digits.reverse := by
  rw [valueFrom_eq, zero_mul, zero_add]

/-- The digits of `n`, the most significant one first, and none for 0. -/
def digitsOf (base n : ℕ) : List ℕ := (Nat.digits base n).reverse

lemma valueFrom_digitsOf (base n : ℕ) : valueFrom base 0 (digitsOf base n) = n := by
  rw [valueFrom_zero, digitsOf, List.reverse_reverse, Nat.ofDigits_digits]

lemma lt_of_mem_digitsOf {n digit : ℕ} (hbase : 1 < base) (h : digit ∈ digitsOf base n) :
    digit < base := Nat.digits_lt_base hbase (List.mem_reverse.mp h)

lemma head?_digitsOf_ne_zero (base n : ℕ) : (digitsOf base n).head? ≠ some 0 := by
  rw [digitsOf, List.head?_reverse]
  intro hlast
  by_cases hn : n = 0
  · simp [hn] at hlast
  · rw [List.getLast?_eq_some_getLast (Nat.digits_ne_nil_iff_ne_zero.mpr hn)] at hlast
    exact Nat.getLast_digit_ne_zero base hn (Option.some.inj hlast)

lemma valueFrom_replicate_zero (k : ℕ) :
    valueFrom base 0 (List.replicate k 0 ++ digits) = valueFrom base 0 digits := by
  induction k with
  | zero => rfl
  | succ k ih => simpa [List.replicate_succ] using ih

lemma digitsOf_valueFrom {digit : ℕ} (hbase : 1 < base) (hlt : ∀ d ∈ digit :: digits, d < base)
    (hdigit : digit ≠ 0) :
    digitsOf base (valueFrom base 0 (digit :: digits)) = digit :: digits := by
  have hreverse : ∀ d ∈ (digit :: digits).reverse, d < base := fun d hd =>
    hlt d (List.mem_reverse.mp hd)
  rw [valueFrom_zero, digitsOf, Nat.digits_ofDigits base hbase _ hreverse, List.reverse_reverse]
  intro _
  simpa using hdigit

lemma exists_replicate_digitsOf (hbase : 1 < base) (hlt : ∀ d ∈ digits, d < base) :
    ∃ k, digits = List.replicate k 0 ++ digitsOf base (valueFrom base 0 digits) := by
  induction digits with
  | nil => exact ⟨0, by simp [digitsOf]⟩
  | cons digit digits ih =>
    by_cases hdigit : digit = 0
    · obtain ⟨k, hk⟩ := ih fun d hd => hlt d (List.mem_cons_of_mem _ hd)
      refine ⟨k + 1, ?_⟩
      rw [hdigit, valueFrom_cons, zero_mul, zero_add, List.replicate_succ, List.cons_append, ← hk]
    · exact ⟨0, (digitsOf_valueFrom hbase hlt hdigit).symm⟩

end StyLinux.Lib
