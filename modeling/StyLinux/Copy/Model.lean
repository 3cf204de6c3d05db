import Mathlib.Data.UInt
import Mathlib.Tactic
import StyLinux.Lib.File

/-!
# Copying a file

`doCopy` of `vika10`, in the versions `copy.c` and `sol.c`. The kernel decides which system
calls fail and how many bytes a read or a write transfers, within what it promises. Blocks of
zeros are skipped by `lseek`; the versions differ in how they write the other blocks.
-/

namespace StyLinux.Copy

open Lib

/-- `args->blocksize` is positive, as `parseCopyArgs` checks. -/
structure CopyArgs where
  blocksize : ℕ
  blocksize_pos : 0 < blocksize

/-- The answers of the kernel. The `i`-th read of `count` bytes when `left` bytes are left of the
source gives a number of bytes or fails, likewise the `i`-th write of `count` bytes. -/
structure Kernel where
  openSource : Bool
  fstat : Option (BitVec 12)
  openDest : Bool
  umask : BitVec 12
  malloc : Bool
  read : ℕ → ℕ → ℕ → Option ℕ
  read_spec : ∀ {i count left n}, read i count left = some n →
    n ≤ count ∧ n ≤ left ∧ (0 < count → 0 < left → 0 < n)
  lseek : ℕ → Bool
  write : ℕ → ℕ → Option ℕ
  write_spec : ∀ {i count n}, write i count = some n → n ≤ count ∧ (0 < count → 0 < n)
  fchmod : Bool

/-- The destination and the numbers of calls of `read`, `lseek` and `write` made so far. -/
structure State where
  file : File UInt8
  reads : ℕ
  seeks : ℕ
  writes : ℕ

namespace State

def created : State := ⟨File.empty, 0, 0, 0⟩

def afterRead (s : State) : State := { s with reads := s.reads + 1 }

def seek (n : ℕ) (s : State) : State := { s with file := s.file.seek n, seeks := s.seeks + 1 }

def write (data : List UInt8) (s : State) : State :=
  { s with file := s.file.write data, writes := s.writes + 1 }

end State

/-- The loop over the bytes of the buffer, which stops at the first one that is not zero. -/
def allZeroBytes (buffer : List UInt8) : Bool := buffer.all fun byte => byte = 0

/-- Skip a block: `lseek` is asked for the position and then moves it. -/
def skipBlock (kernel : Kernel) (bytes_read : ℕ) (s : State) : Bool × State :=
  if !kernel.lseek s.seeks then (false, s.seek 0)
  else if !kernel.lseek (s.seeks + 1) then (false, (s.seek 0).seek 0)
  else (true, (s.seek 0).seek bytes_read)

/-- The loop of `doCopy`, from the bytes of the source that are left; `writeBlock` writes a block
and tells whether that succeeded. -/
def copyLoop (writeBlock : Kernel → List UInt8 → State → Bool × State) (kernel : Kernel)
    (blocksize : ℕ) (left : List UInt8) (s : State) : ℤ × State :=
  match hread : kernel.read s.reads blocksize left.length with
  | none => (-1, s.afterRead)
  | some bytes_read =>
    if bytes_read = 0 then (0, s.afterRead)
    else
      let buffer := left.take bytes_read
      let (ok, s) := if allZeroBytes buffer then skipBlock kernel bytes_read s.afterRead
        else writeBlock kernel buffer s.afterRead
      if ok then copyLoop writeBlock kernel blocksize (left.drop bytes_read) s else (-1, s)
termination_by left.length
decreasing_by
  have hle := (kernel.read_spec hread).2.1
  rw [List.length_drop]
  omega

structure Destination where
  content : List UInt8
  mode : BitVec 12

/-- The text of `doCopy` that the versions share: the result and the destination, if it was
created. That `fchmod` fails is reported only. -/
def doCopyWith (writeBlock : Kernel → List UInt8 → State → Bool × State) (mode : BitVec 12)
    (args : Option CopyArgs) (kernel : Kernel) (source : List UInt8) : ℤ × Option Destination :=
  match args with
  | none => (-1, none)
  | some args =>
    if !kernel.openSource then (-1, none)
    else
      match kernel.fstat with
      | none => (-1, none)
      | some st_mode =>
        let created := mode &&& ~~~kernel.umask
        if !kernel.openDest then (-1, none)
        else if !kernel.malloc then (-1, some ⟨[], created⟩)
        else
          let (result, s) := copyLoop writeBlock kernel args.blocksize source .created
          if result = 0 ∧ kernel.fchmod then (result, some ⟨s.file.content, st_mode⟩)
          else (result, some ⟨s.file.content, created⟩)

/-! ### `copy.c` -/

def writeOnce (kernel : Kernel) (buffer : List UInt8) (s : State) : Bool × State :=
  match kernel.write s.writes buffer.length with
  | none => (false, s.write [])
  | some bytes_written => (true, s.write (buffer.take bytes_written))

def doCopy (args : Option CopyArgs) (kernel : Kernel) (source : List UInt8) :
    ℤ × Option Destination :=
  doCopyWith writeOnce 0o644#12 args kernel source

/-! ### `sol.c` -/

namespace Sol

/-- The loop that calls `write` until the block is written. -/
def writeLoop (kernel : Kernel) (buffer : List UInt8) (total_written : ℕ) (s : State) :
    Bool × State :=
  if total_written < buffer.length then
    match _hwrite : kernel.write s.writes (buffer.length - total_written) with
    | none => (false, s.write [])
    | some bytes_written =>
      writeLoop kernel buffer (total_written + bytes_written)
        (s.write ((buffer.drop total_written).take bytes_written))
  else (true, s)
termination_by buffer.length - total_written
decreasing_by
  have hpos := (kernel.write_spec _hwrite).2
  omega

def writeAll (kernel : Kernel) (buffer : List UInt8) (s : State) : Bool × State :=
  writeLoop kernel buffer 0 s

def doCopy (args : Option CopyArgs) (kernel : Kernel) (source : List UInt8) :
    ℤ × Option Destination :=
  doCopyWith writeAll 0o666#12 args kernel source

end Sol

end StyLinux.Copy
