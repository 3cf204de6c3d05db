import Mathlib.Data.List.TakeWhile
import Mathlib.Tactic
import StyLinux.Lib.Fuel
import StyLinux.Lib.Numeral
import StyLinux.ParseInt.Model

/-!
# The range of the parsed integers

`parseInt` computes the value of the digits in front of the first other character without looking
at the range of `int`. As long as this value and the number of these digits are in the range, it
returns the value of a numeral and -1 for any other string; beyond it, it overflows.
-/

namespace StyLinux.ParseInt

open Lib

/-! ### Numerals -/

/-- The base in which the string is to be read. -/
def baseOf (string : CString) : ℕ := if string.bytes.head? = some ZERO then 8 else 10

/-- The character is a digit in the base. -/
def isDigit (base : ℕ) (c : CChar) : Bool := 48 ≤ c.toNat ∧ c.toNat < 48 + base

def digitOf (c : CChar) : ℕ := c.toNat - 48

/-- The number that the string denotes. -/
def denotes (string : CString) : Option ℕ :=
  if string.bytes ≠ [] ∧ string.bytes.all (isDigit (baseOf string)) then
    some (Nat.ofDigits (baseOf string) (string.bytes.map digitOf).reverse)
  else none

/-- What `parseInt` is to return: the number that the string denotes if it is an `int`, else -1. -/
def expected (string : CString) : ℤ :=
  match denotes string with
  | some v => if (v : ℤ) ≤ INT_MAX then v else -1
  | none => -1

/-- The digits in front of the first other character. -/
def leadingDigits (string : CString) : List ℕ :=
  (string.bytes.takeWhile (isDigit (baseOf string))).map digitOf

/-- The value of the leading digits and their number are in the range of `int`. -/
def InRange (string : CString) : Prop :=
  ((Nat.ofDigits (baseOf string) (leadingDigits string).reverse : ℕ) : ℤ) ≤ INT_MAX ∧
    ((leadingDigits string).length : ℤ) ≤ INT_MAX

instance (string : CString) : Decidable (InRange string) :=
  inferInstanceAs (Decidable (_ ∧ _))

/-! ### The loop -/

section Loop

variable {base : ℕ} {last : CChar} (hlast : last.toNat = 47 + base) (hbase : base ≤ 10)
include hlast hbase

lemma isDigit_iff {c : CChar} :
    isDigit base c ↔ ¬(c.toInt < ZERO.toInt ∨ last.toInt < c.toInt) := by
  have hc := c.isLt
  have hzero : ZERO.toInt = 48 := by decide
  have hlastInt : last.toInt = 47 + base := by
    rw [BitVec.toInt_eq_toNat_cond, if_pos (by omega)]
    omega
  rw [hzero, hlastInt, BitVec.toInt_eq_toNat_cond]
  simp only [isDigit, Bool.decide_and, Bool.and_eq_true, decide_eq_true_eq]
  split <;> omega

omit hlast in
lemma toInt_sub_of_isDigit {c : CChar} (hc : isDigit base c) :
    c.toInt - ZERO.toInt = digitOf c := by
  have hzero : ZERO.toInt = 48 := by decide
  simp only [isDigit, Bool.decide_and, Bool.and_eq_true, decide_eq_true_eq] at hc
  rw [hzero, BitVec.toInt_eq_toNat_cond, if_pos (by omega), digitOf]
  omega

omit hlast in
lemma digitOf_lt {c : CChar} (hc : isDigit base c) : digitOf c < 10 := by
  simp only [isDigit, Bool.decide_and, Bool.and_eq_true, decide_eq_true_eq] at hc
  unfold digitOf
  omega

/-- One iteration of the loop. -/
lemma digitLoop_cons {c : CChar} {string : List CChar} {i acc : ℕ} (hc : isDigit base c) :
    digitLoop base last (c :: string) i acc =
      if ((acc * base + digitOf c : ℕ) : ℤ) ≤ INT_MAX ∧ ((i + 1 : ℕ) : ℤ) ≤ INT_MAX then
        digitLoop base last string (i + 1 : ℕ) (acc * base + digitOf c : ℕ)
      else .error .overflow := by
  have hdigit : (digitOf c : ℤ) ≤ INT_MAX := by
    have hlt := digitOf_lt hbase hc
    unfold INT_MAX
    omega
  rw [digitLoop, if_neg ((isDigit_iff hlast hbase).mp hc), toInt_sub_of_isDigit hbase hc,
    asInt_of_nonneg (n := (digitOf c : ℤ)) (by omega) hdigit]
  have hproduct₀ : 0 ≤ (acc : ℤ) * base := by positivity
  by_cases hsum : ((acc * base + digitOf c : ℕ) : ℤ) ≤ INT_MAX
  · have hresult : (acc : ℤ) * base + digitOf c ≤ INT_MAX := by
      push_cast at hsum
      exact hsum
    rw [asInt_of_nonneg hproduct₀ (by omega), ok_bind, ok_bind,
      asInt_of_nonneg (n := (acc : ℤ) * base + digitOf c) (by omega) hresult, ok_bind]
    by_cases hi : ((i + 1 : ℕ) : ℤ) ≤ INT_MAX
    · have hnext : (i : ℤ) + 1 ≤ INT_MAX := by omega
      rw [if_pos ⟨hsum, hi⟩, asInt_of_nonneg (n := (i : ℤ) + 1) (by omega) hnext, ok_bind,
        Nat.cast_succ, Nat.cast_add, Nat.cast_mul]
    · rw [if_neg (fun h => hi h.2), asInt_of_gt (n := (i : ℤ) + 1) (by omega)]
      rfl
  · rw [if_neg (fun h => hsum h.1)]
    have hgt : INT_MAX < (acc : ℤ) * base + digitOf c := by
      push_cast at hsum
      omega
    by_cases hproduct : (acc : ℤ) * base ≤ INT_MAX
    · rw [asInt_of_nonneg hproduct₀ hproduct, ok_bind, ok_bind, asInt_of_gt hgt]
      rfl
    · rw [asInt_of_gt (not_le.mp hproduct)]
      rfl

/-- What the loop returns: a fault if the value of the digits in front of the first other
character or their number is not an `int`. -/
lemma digitLoop_eq (hpos : 0 < base) (string : List CChar) {i acc : ℕ}
    (hi : (i : ℤ) ≤ INT_MAX) (hacc : (acc : ℤ) ≤ INT_MAX) :
    digitLoop base last string i acc =
      let digits := (string.takeWhile (isDigit base)).map digitOf
      if (valueFrom base acc digits : ℤ) ≤ INT_MAX ∧ ((i + digits.length : ℕ) : ℤ) ≤ INT_MAX then
        .ok (if string.all (isDigit base) then valueFrom base acc digits else -1)
      else .error .overflow := by
  induction string generalizing i acc with
  | nil => simp [digitLoop, hi, hacc]
  | cons c string ih =>
    by_cases hc : isDigit base c
    · rw [digitLoop_cons hlast hbase hc]
      simp only [List.takeWhile_cons_of_pos hc, List.map_cons, valueFrom_cons, List.length_cons,
        List.all_cons, hc, Bool.true_and]
      set digits := (string.takeWhile (isDigit base)).map digitOf
      have hle : acc * base + digitOf c ≤ valueFrom base (acc * base + digitOf c) digits :=
        le_valueFrom hpos
      by_cases hstep : ((acc * base + digitOf c : ℕ) : ℤ) ≤ INT_MAX ∧ ((i + 1 : ℕ) : ℤ) ≤ INT_MAX
      · rw [if_pos hstep, ih hstep.2 hstep.1]
        simp only [Nat.add_right_comm i 1, Nat.add_assoc]
      · rw [if_neg hstep, if_neg]
        rintro ⟨hvalue, hlength⟩
        exact hstep ⟨by omega, by omega⟩
    · have hout := not_not.mp (mt (isDigit_iff hlast hbase).mpr hc)
      rw [digitLoop, if_pos hout]
      simp [List.takeWhile_cons_of_neg hc, hc, hi, hacc]

end Loop

/-! ### The parser -/

/-- The loop that the parser chooses runs in the base of the string. -/
lemma parseInt_eq_digitLoop {string : CString} (hne : string.bytes ≠ []) :
    ∃ last : CChar, last.toNat = 47 + baseOf string ∧
      parseInt string = digitLoop (baseOf string) last string.bytes 0 0 := by
  obtain ⟨bytes, nul⟩ := string
  cases bytes with
  | nil => exact absurd rfl hne
  | cons c bytes =>
    by_cases hc : c = ZERO
    · refine ⟨55#8, ?_, ?_⟩
      · simp [baseOf, hc]
      · simp [parseInt, hc, calculateOctal, baseOf]
    · refine ⟨57#8, ?_, ?_⟩
      · simp [baseOf, hc]
      · simp [parseInt, hc, calculateDecimal, baseOf]

lemma baseOf_pos (string : CString) : 0 < baseOf string := by
  unfold baseOf
  split <;> omega

lemma baseOf_le (string : CString) : baseOf string ≤ 10 := by
  unfold baseOf
  split <;> omega

lemma leadingDigits_of_all {string : CString}
    (hall : string.bytes.all (isDigit (baseOf string)) = true) :
    leadingDigits string = string.bytes.map digitOf := by
  unfold leadingDigits
  rw [List.takeWhile_eq_self_iff.mpr (List.all_eq_true.mp hall)]

/-- In the range the parser returns what it is to return, and outside of it it overflows. -/
lemma parseInt_eq (string : CString) :
    parseInt string = if InRange string then .ok (expected string) else .error .overflow := by
  by_cases hne : string.bytes = []
  · have hrange : InRange string := by
      simp [InRange, leadingDigits, hne, INT_MAX]
    rw [if_pos hrange]
    simp [parseInt, hne, expected, denotes]
  · obtain ⟨last, hlast, hparse⟩ := parseInt_eq_digitLoop hne
    have hzero : ((0 : ℕ) : ℤ) ≤ INT_MAX := by decide
    have hloop := digitLoop_eq hlast (baseOf_le string) (baseOf_pos string) string.bytes
      hzero hzero
    rw [hparse]
    refine hloop.trans ?_
    simp only [Nat.zero_add, valueFrom_zero]
    change (if InRange string then _ else _) = _
    by_cases hrange : InRange string
    · rw [if_pos hrange, if_pos hrange]
      by_cases hall : string.bytes.all (isDigit (baseOf string)) = true
      · have hvalue := hrange.1
        rw [leadingDigits_of_all hall] at hvalue
        rw [if_pos hall, expected, denotes, if_pos ⟨hne, hall⟩]
        simp only [hvalue, if_true]
        rw [← leadingDigits_of_all hall]
        rfl
      · rw [if_neg hall, expected, denotes, if_neg (fun h => hall h.2)]
    · rw [if_neg hrange, if_neg hrange]

/-- The parser returns the number that a numeral denotes and -1 for any other string exactly if
the value of the digits in front of the first other character, and their number, are in the range
of `int`. -/
theorem parseInt_eq_iff (string : CString) :
    parseInt string = .ok (expected string) ↔ InRange string := by
  rw [parseInt_eq]
  constructor
  · intro heq
    by_contra hrange
    rw [if_neg hrange] at heq
    cases heq
  · intro hrange
    rw [if_pos hrange]

/-- The decimal numeral `2147483648`, which is no `int` by one. -/
def aboveMax : CString := ⟨[50, 49, 52, 55, 52, 56, 51, 54, 52, 56], by decide⟩

/-- The loop overflows on its last digit, where the parser is to return -1. -/
theorem parseInt_aboveMax :
    expected aboveMax = -1 ∧ parseInt aboveMax = .error .overflow ∧
      ¬parseInt aboveMax = .ok (expected aboveMax) := by
  decide

end StyLinux.ParseInt
