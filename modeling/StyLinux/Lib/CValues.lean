import Mathlib.Tactic

/-!
# Values of C

Results of the type `int`, which overflow outside of its range, and strings that end in a NUL
byte. A `char` is read as an eight-bit number with a sign.
-/

namespace StyLinux.Lib

def INT_MIN : ℤ := -2147483648

def INT_MAX : ℤ := 2147483647

/-- The value of an expression of type `int`; outside of the range its evaluation is undefined. -/
def asInt {ε : Type*} (overflow : ε) (n : ℤ) : Except ε ℤ :=
  if INT_MIN ≤ n ∧ n ≤ INT_MAX then .ok n else .error overflow

section Int

variable {ε : Type*} {overflow : ε} {n : ℤ}

lemma asInt_of_nonneg (hn : 0 ≤ n) (hle : n ≤ INT_MAX) : asInt overflow n = .ok n :=
  if_pos ⟨by unfold INT_MIN; omega, hle⟩

lemma asInt_natCast {m : ℕ} (hle : (m : ℤ) ≤ INT_MAX) : asInt overflow (m : ℤ) = .ok (m : ℤ) :=
  asInt_of_nonneg (Int.natCast_nonneg m) hle

lemma asInt_of_gt (hlt : INT_MAX < n) : asInt overflow n = .error overflow :=
  if_neg fun h => absurd h.2 (not_le.mpr hlt)

end Int

abbrev CChar := BitVec 8

/-- The bytes in front of the terminating NUL. -/
structure CString where
  bytes : List CChar
  nul : 0#8 ∉ bytes
  deriving DecidableEq

end StyLinux.Lib
