import Mathlib.Tactic
import StyLinux.Lib.CValues

/-!
# Parsing an integer

`parseInt` of `assignment01-templates/p2/parseint.c`, which reads a string as an octal numeral when
it starts with `0` and as a decimal one otherwise. An operation on values of type `int` whose
result is no `int` is a fault.
-/

namespace StyLinux.ParseInt

open Lib

inductive Fault
  | overflow
  deriving DecidableEq, Repr

/-- The character `0`. -/
def ZERO : CChar := 48#8

/-- The loop over the string, from its `i`-th character on, for the digits up to `last`. -/
def digitLoop (base : ℤ) (last : CChar) : List CChar → ℤ → ℤ → Except Fault ℤ
  | [], _, result => .ok result
  | c :: string, i, result =>
    if c.toInt < ZERO.toInt ∨ last.toInt < c.toInt then .ok (-1)
    else do
      let product ← asInt .overflow (result * base)
      let digit ← asInt .overflow (c.toInt - ZERO.toInt)
      let result ← asInt .overflow (product + digit)
      let i ← asInt .overflow (i + 1)
      digitLoop base last string i result

/-- The digits end with `7`. -/
def calculateOctal (octalString : CString) : Except Fault ℤ :=
  digitLoop 8 55#8 octalString.bytes 0 0

/-- The digits end with `9`. -/
def calculateDecimal (decimalString : CString) : Except Fault ℤ :=
  digitLoop 10 57#8 decimalString.bytes 0 0

def parseInt (string : CString) : Except Fault ℤ :=
  match string.bytes with
  | [] => .ok (-1)
  | c :: _ => if c = ZERO then calculateOctal string else calculateDecimal string

end StyLinux.ParseInt
