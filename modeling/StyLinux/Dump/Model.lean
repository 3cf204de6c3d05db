import Mathlib.Tactic
import StyLinux.Lib.CValues

/-!
# The strings of a memory dump

`print_null_terminated_strings_in_range` of `vika7/P7/assignment07-templates/p2/main.c`. A run is
the list of what it reads from the dump and what it prints.
-/

namespace StyLinux.Dump

open Lib

inductive Fault
  | outOfBounds
  | outOfFuel
  deriving DecidableEq, Repr

/-- The file that `initdump` has mapped. Its size is an `off_t`. -/
structure DumpFile where
  bytes : List CChar
  length_lt : bytes.length < 2 ^ 63

def DumpFile.dump_size (dump : DumpFile) : BitVec 64 := BitVec.ofNat 64 dump.bytes.length

inductive Message
  /-- `"Invalid physical range: 0x%lx - 0x%lx\n"` -/
  | invalidRange (start_phys end_phys : BitVec 64)
  /-- `perror("malloc")` -/
  | malloc
  deriving DecidableEq, Repr

inductive Event
  | read (phys : BitVec 64)
  /-- `printf("%s\n", string)` -/
  | printf (string : List CChar)
  | stderr (message : Message)
  deriving DecidableEq, Repr

/-- `dump_base[phys]` -/
def DumpFile.load (dump : DumpFile) (phys : BitVec 64) : Except Fault CChar :=
  match dump.bytes[phys.toNat]? with
  | some c => .ok c
  | none => .error .outOfBounds

/-- `memcpy(buf, dump_base + phys, len)` -/
def DumpFile.memcpy (dump : DumpFile) : ℕ → BitVec 64 → Except Fault (List CChar × List Event)
  | 0, _ => .ok ([], [])
  | len + 1, phys => do
    let c ← dump.load phys
    let (buf, events) ← dump.memcpy len (phys + 1#64)
    .ok (c :: buf, .read phys :: events)

section Loops

variable (malloc : BitVec 64 → Bool) (dump : DumpFile) (end_phys : BitVec 64)

/-- `while (pos < end_phys && …) pos++;`, where the rest of the condition is `goesOn` of the byte
at `pos`. -/
def scanLoop (goesOn : CChar → Bool) : ℕ → BitVec 64 → Except Fault (BitVec 64 × List Event)
  | 0, _ => .error .outOfFuel
  | fuel + 1, pos =>
    if pos < end_phys then do
      let c ← dump.load pos
      if goesOn c then do
        let (stop, events) ← scanLoop goesOn fuel (pos + 1#64)
        .ok (stop, .read pos :: events)
      else .ok (pos, [.read pos])
    else .ok (pos, [])

/-- `if (pos > cur)`, and whether the loop goes on behind it. -/
def printString (cur pos : BitVec 64) : Except Fault (Bool × List Event) :=
  if cur < pos then
    let len := pos - cur
    if ¬malloc (len + 1#64) then .ok (false, [.stderr .malloc])
    else do
      let (buf, events) ← dump.memcpy len.toNat cur
      .ok (true, events ++ [.printf ((buf ++ [0#8]).takeWhile (· ≠ 0#8))])
  else .ok (true, [])

/-- The loop over the strings. Neither it nor the loops in it may have more than `fuel`
iterations. -/
def stringsLoop : ℕ → BitVec 64 → Except Fault (List Event)
  | 0, _ => .error .outOfFuel
  | fuel + 1, cur =>
    if cur < end_phys then do
      let (pos, scanned) ← scanLoop dump end_phys (· ≠ 0#8) (fuel + 1) cur
      let (goesOn, string) ← printString malloc dump cur pos
      if goesOn then do
        let (next, skipped) ← scanLoop dump end_phys (· = 0#8) (fuel + 1) pos
        let rest ← stringsLoop fuel next
        .ok (scanned ++ string ++ skipped ++ rest)
      else .ok (scanned ++ string)
    else .ok []

end Loops

def printNullTerminatedStringsInRange (malloc : BitVec 64 → Bool) (dump : DumpFile)
    (start_phys end_phys : BitVec 64) (fuel : ℕ) : Except Fault (List Event) :=
  if dump.dump_size ≤ start_phys ∨ dump.dump_size < end_phys ∨ end_phys ≤ start_phys then
    .ok [.stderr (.invalidRange start_phys end_phys)]
  else stringsLoop malloc dump end_phys fuel start_phys

end StyLinux.Dump
