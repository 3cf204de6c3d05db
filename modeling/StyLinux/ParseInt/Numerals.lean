import StyLinux.ParseInt.Range

/-!
# What the parser accepts

The strings to which `parseInt` gives a number are the numerals of the number as `printf` prints
them: the decimal one, or the octal one behind a zero, where more zeros do no harm.
-/

namespace StyLinux.ParseInt

open Lib

variable {string : CString} {base n : ℕ} {digits : List ℕ}

/-! ### Digits as characters -/

def charOf (digit : ℕ) : CChar := BitVec.ofNat 8 (48 + digit)

lemma toNat_charOf {digit : ℕ} (hlt : digit < 10) : (charOf digit).toNat = 48 + digit :=
  BitVec.toNat_ofNat _ _ ▸ Nat.mod_eq_of_lt (by omega)

lemma charOf_zero : charOf 0 = ZERO := rfl

lemma charOf_eq_zero_iff {digit : ℕ} (hlt : digit < 10) : charOf digit = ZERO ↔ digit = 0 := by
  constructor
  · intro h
    have hnat := congrArg BitVec.toNat h
    rw [toNat_charOf hlt] at hnat
    exact Nat.add_left_cancel hnat
  · rintro rfl
    rfl

lemma isDigit_charOf {digit : ℕ} (hlt : digit < base) (hbase : base ≤ 10) :
    isDigit base (charOf digit) := by
  simp only [isDigit, toNat_charOf (hlt.trans_le hbase), Bool.decide_and, Bool.and_eq_true,
    decide_eq_true_eq]
  omega

lemma map_digitOf_charOf (hlt : ∀ d ∈ digits, d < 10) :
    (digits.map charOf).map digitOf = digits := by
  rw [List.map_map]
  refine List.map_congr_left (g := id) (fun d hd => ?_) |>.trans (List.map_id _)
  simp [digitOf, toNat_charOf (hlt d hd)]

lemma map_charOf_digitOf {bytes : List CChar} (hall : bytes.all (isDigit base)) :
    (bytes.map digitOf).map charOf = bytes := by
  rw [List.map_map]
  refine List.map_congr_left (g := id) (fun c hc => ?_) |>.trans (List.map_id _)
  have hdigit := List.all_eq_true.mp hall c hc
  simp only [isDigit, Bool.decide_and, Bool.and_eq_true, decide_eq_true_eq] at hdigit
  have hsum : 48 + (c.toNat - 48) = c.toNat := by omega
  simp [charOf, digitOf, hsum]

lemma digitOf_lt_base {bytes : List CChar} (hall : bytes.all (isDigit base)) :
    ∀ d ∈ bytes.map digitOf, d < base := by
  intro d hd
  obtain ⟨c, hc, rfl⟩ := List.mem_map.mp hd
  have hdigit := List.all_eq_true.mp hall c hc
  simp only [isDigit, Bool.decide_and, Bool.and_eq_true, decide_eq_true_eq] at hdigit
  unfold digitOf
  omega

/-! ### Numerals -/

/-- What `printf` prints for `n`; nothing for 0. -/
def numeral (base n : ℕ) : List CChar := (digitsOf base n).map charOf

/-- The decimal numeral of a positive number, or the octal one with zeros in front of it. -/
inductive IsNumeral (string : CString) (n : ℕ) : Prop
  | decimal : n ≠ 0 → string.bytes = numeral 10 n → IsNumeral string n
  | octal (k : ℕ) : string.bytes = List.replicate (k + 1) ZERO ++ numeral 8 n → IsNumeral string n

lemma denotes_of_digits (hbytes : string.bytes = digits.map charOf) (hne : digits ≠ [])
    (hlt : ∀ d ∈ digits, d < baseOf string) :
    denotes string = some (valueFrom (baseOf string) 0 digits) := by
  have hle := baseOf_le string
  have hall : string.bytes.all (isDigit (baseOf string)) = true := by
    rw [hbytes, List.all_map]
    exact List.all_eq_true.mpr fun d hd => isDigit_charOf (hlt d hd) hle
  have hbytes' : string.bytes ≠ [] := by simpa [hbytes] using hne
  rw [denotes, if_pos ⟨hbytes', hall⟩, hbytes,
    map_digitOf_charOf (fun d hd => (hlt d hd).trans_le hle), valueFrom_zero]

lemma IsNumeral.denotes_eq (h : IsNumeral string n) : denotes string = some n := by
  cases h with
  | decimal hn hbytes =>
    have hlt : ∀ d ∈ digitsOf 10 n, d < 10 := fun d hd => lt_of_mem_digitsOf (by omega) hd
    have hbase : baseOf string = 10 := by
      refine if_neg fun hhead => head?_digitsOf_ne_zero 10 n ?_
      rw [hbytes, numeral, List.head?_map, Option.map_eq_some_iff] at hhead
      obtain ⟨d, hd, hchar⟩ := hhead
      rwa [(charOf_eq_zero_iff (hlt d (List.mem_of_head? hd))).mp hchar] at hd
    have hne : digitsOf 10 n ≠ [] := by
      simpa [digitsOf] using Nat.digits_ne_nil_iff_ne_zero.mpr hn
    rw [denotes_of_digits hbytes hne (by rwa [hbase]), hbase, valueFrom_digitsOf]
  | octal k hbytes =>
    have hbase : baseOf string = 8 := by
      refine if_pos ?_
      rw [hbytes]
      rfl
    have hbytes' : string.bytes = (List.replicate (k + 1) 0 ++ digitsOf 8 n).map charOf := by
      rw [hbytes, List.map_append, List.map_replicate, charOf_zero]
      rfl
    have hlt : ∀ d ∈ List.replicate (k + 1) 0 ++ digitsOf 8 n, d < 8 := by
      intro d hd
      rcases List.mem_append.mp hd with hd | hd
      · rw [List.eq_of_mem_replicate hd]
        omega
      · exact lt_of_mem_digitsOf (by omega) hd
    rw [denotes_of_digits hbytes' (by simp) (by rwa [hbase]), hbase, valueFrom_replicate_zero,
      valueFrom_digitsOf]

lemma isNumeral_of_denotes (h : denotes string = some n) : IsNumeral string n := by
  unfold denotes at h
  obtain ⟨⟨hne, hall⟩, hvalue⟩ := Option.ite_none_right_eq_some.mp h
  have hvalue' : valueFrom (baseOf string) 0 (string.bytes.map digitOf) = n := by
    rw [valueFrom_zero]
    exact Option.some.inj hvalue
  have hlt := digitOf_lt_base hall
  have hchars := map_charOf_digitOf hall
  cases hbytes : string.bytes with
  | nil => exact absurd hbytes hne
  | cons c bytes =>
    rw [hbytes, List.map_cons] at hvalue' hlt hchars
    rw [List.map_cons] at hchars
    by_cases hc : c = ZERO
    · have hbase : baseOf string = 8 := if_pos (by simp [hbytes, hc])
      have hzero : digitOf c = 0 := by rw [hc]; rfl
      rw [hbase] at hvalue' hlt
      have hrest : ∀ d ∈ bytes.map digitOf, d < 8 := fun d hd => hlt d (List.mem_cons_of_mem _ hd)
      obtain ⟨k, hk⟩ := exists_replicate_digitsOf (by omega) hrest
      rw [hzero, valueFrom_cons, zero_mul, zero_add] at hvalue'
      rw [hvalue'] at hk
      refine .octal k ?_
      rw [hbytes, hc, ← (List.cons.inj hchars).2, hk, List.map_append, List.map_replicate,
        charOf_zero, List.replicate_succ]
      rfl
    · have hbase : baseOf string = 10 := if_neg (by simp [hbytes, hc])
      have hdigit : digitOf c ≠ 0 := by
        intro hzero
        rw [hzero] at hchars
        exact hc (List.cons.inj hchars).1.symm
      rw [hbase] at hvalue' hlt
      have hdigits := digitsOf_valueFrom (by omega) hlt hdigit
      rw [hvalue'] at hdigits
      refine .decimal ?_ ?_
      · rintro rfl
        simp [digitsOf] at hdigits
      · rw [hbytes, numeral, hdigits, List.map_cons, hchars]

/-! ### The parser -/

/-- A string that denotes a number has no character but its digits. -/
lemma leadingDigits_of_denotes (h : denotes string = some n) :
    Nat.ofDigits (baseOf string) (leadingDigits string).reverse = n ∧
      (leadingDigits string).length = string.bytes.length := by
  unfold denotes at h
  obtain ⟨⟨-, hall⟩, hvalue⟩ := Option.ite_none_right_eq_some.mp h
  rw [leadingDigits_of_all hall]
  exact ⟨Option.some.inj hvalue, List.length_map _⟩

lemma expected_eq_iff : expected string = (n : ℤ) ↔
    denotes string = some n ∧ (n : ℤ) ≤ INT_MAX := by
  unfold expected
  cases denotes string with
  | none => simp [show (-1 : ℤ) ≠ n by omega]
  | some v =>
    simp only [Option.some.injEq]
    by_cases hv : (v : ℤ) ≤ INT_MAX
    · rw [if_pos hv]
      constructor
      · intro heq
        exact ⟨by exact_mod_cast heq, heq ▸ hv⟩
      · rintro ⟨rfl, -⟩
        rfl
    · rw [if_neg hv]
      constructor
      · intro heq
        omega
      · rintro ⟨rfl, hle⟩
        exact absurd hle hv

/-- The parser returns `n` exactly for the numerals of `n`, as long as `n` and the number of the
characters are in the range of `int`. -/
theorem parseInt_eq_ok_iff (string : CString) (n : ℕ) :
    parseInt string = .ok (n : ℤ) ↔
      IsNumeral string n ∧ (n : ℤ) ≤ INT_MAX ∧ (string.bytes.length : ℤ) ≤ INT_MAX := by
  rw [parseInt_eq]
  constructor
  · intro heq
    by_cases hrange : InRange string
    · rw [if_pos hrange] at heq
      obtain ⟨hdenotes, hn⟩ := expected_eq_iff.mp (Except.ok.inj heq)
      obtain ⟨-, hlength⟩ := leadingDigits_of_denotes hdenotes
      exact ⟨isNumeral_of_denotes hdenotes, hn, hlength ▸ hrange.2⟩
    · rw [if_neg hrange] at heq
      cases heq
  · rintro ⟨hnumeral, hn, hlength⟩
    have hdenotes := hnumeral.denotes_eq
    obtain ⟨hvalue, hlength'⟩ := leadingDigits_of_denotes hdenotes
    have hrange : InRange string := ⟨by rwa [hvalue], by rwa [hlength']⟩
    rw [if_pos hrange, expected_eq_iff.mpr ⟨hdenotes, hn⟩]

end StyLinux.ParseInt
