import StyLinux.Lib.CValues
import StyLinux.Lib.Fuel

/-!
# The prime sieve

`main` of `vika2/templates-solution-tut02/p1/malloc2.c` behind the call of `atoi`. The loops of
`vika2/DynamicMemoryManagement.c` are the same.
-/

namespace StyLinux.Sieve

open Lib

inductive Fault
  | overflow
  | outOfBounds
  | uninitialized
  | outOfFuel
  deriving DecidableEq, Repr

/-- The array `primes`. An element that nothing has been assigned to is `none`. -/
abbrev Primes := List (Option ℤ)

def load (primes : Primes) (i : ℤ) : Except Fault ℤ :=
  if 0 ≤ i ∧ i < primes.length then
    match primes.getD i.toNat none with
    | none => .error .uninitialized
    | some value => .ok value
  else .error .outOfBounds

def store (primes : Primes) (i value : ℤ) : Except Fault Primes :=
  if 0 ≤ i ∧ i < primes.length then .ok (primes.set i.toNat (some value))
  else .error .outOfBounds

section Loops

variable (max : ℤ)

/-- `for(i = 2; i<=max; i++) primes[i] = i;` -/
def fillLoop : ℕ → ℤ → Primes → Except Fault Primes
  | 0, _, _ => .error .outOfFuel
  | fuel + 1, i, primes =>
    if i ≤ max then do
      let primes ← store primes i i
      let i ← asInt .overflow (i + 1)
      fillLoop fuel i primes
    else .ok primes

/-- The loop over `j`. -/
def crossLoop (i : ℤ) : ℕ → ℤ → Primes → Except Fault Primes
  | 0, _, _ => .error .outOfFuel
  | fuel + 1, j, primes =>
    if j < max then do
      let value ← load primes i
      let product ← asInt .overflow (value * j)
      if max < product then .ok primes
      else do
        let primes ← store primes product 0
        let j ← asInt .overflow (j + 1)
        crossLoop i fuel j primes
    else .ok primes

/-- The loop over `i`, with the bound on the iterations of each loop over `j`. -/
def sieveLoop (bound : ℕ) : ℕ → ℤ → Primes → Except Fault Primes
  | 0, _, _ => .error .outOfFuel
  | fuel + 1, i, primes => do
    let square ← asInt .overflow (i * i)
    if square ≤ max then do
      let value ← load primes i
      let primes ← if value ≠ 0 then crossLoop max i bound 2 primes else .ok primes
      let i ← asInt .overflow (i + 1)
      sieveLoop bound fuel i primes
    else .ok primes

/-- The loop that prints, and what it prints. -/
def printLoop : ℕ → ℤ → Primes → Except Fault (List ℤ)
  | 0, _, _ => .error .outOfFuel
  | fuel + 1, i, primes =>
    if i ≤ max then do
      let value ← load primes i
      let i ← asInt .overflow (i + 1)
      let rest ← printLoop fuel i primes
      .ok (if value ≠ 0 then value :: rest else rest)
    else .ok []

end Loops

/-- The exit status and the numbers that are printed. No loop may have more than `fuel`
iterations. -/
def main (allocated : Bool) (max : ℤ) (fuel : ℕ) : Except Fault (ℤ × List ℤ) := do
  let length ← asInt .overflow (max + 1)
  if ¬allocated then .ok (1, [])
  else do
    let primes ← fillLoop max fuel 2 (List.replicate length.toNat none)
    let primes ← sieveLoop max fuel fuel 2 primes
    let printed ← printLoop max fuel 2 primes
    .ok (0, printed)

end StyLinux.Sieve
