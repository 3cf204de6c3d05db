import Mathlib.Tactic
import StyLinux.Lib.CValues

/-!
# Listing a directory

`list` of `vika10/assignment10-templates/p1/ls.c`. The file system and the allocator answer its
calls and do not change meanwhile. What it prints is the list of the arguments of `printLine`.
-/

namespace StyLinux.Ls

open Lib

inductive Fault
  | outOfFuel
  deriving DecidableEq, Repr

/-- The bytes of a path in front of the terminating NUL. -/
abbrev Path := List CChar

def SLASH : CChar := 47#8

/-- The name of a directory entry. -/
@[ext]
structure Name where
  bytes : List CChar
  ne_nil : bytes ≠ []
  nul : 0#8 ∉ bytes
  slash : SLASH ∉ bytes

instance : DecidableEq Name := fun a b =>
  decidable_of_iff (a.bytes = b.bytes) Name.ext_iff.symm

def DOT : Name := ⟨[46#8], by decide, by decide, by decide⟩

def DOT_DOT : Name := ⟨[46#8, 46#8], by decide, by decide, by decide⟩

structure Stat where
  st_mode : BitVec 32
  st_size : BitVec 64
  deriving DecidableEq, Repr

/-- The answers to the system calls: the names that `readdir` yields for a directory that can be
opened, whether the memory for a path can be allocated, and the target of a symbolic link. -/
structure System where
  opendir : Path → Option (List Name)
  malloc : Path → Bool
  lstat : Path → Option Stat
  readlinkat : Path → Name → Option (List CChar)

/-- The arguments of `printLine`, the last one with all the bytes of the array. -/
structure Line where
  size : ℕ
  mode : List CChar
  name : Path
  typestr : List CChar
  deriving DecidableEq, Repr

/-! ### The type and the permissions -/

def S_IFMT : BitVec 32 := 0xF000#32
def S_IFIFO : BitVec 32 := 0x1000#32
def S_IFDIR : BitVec 32 := 0x4000#32
def S_IFLNK : BitVec 32 := 0xA000#32

def Stat.filetype (st : Stat) : BitVec 32 := st.st_mode &&& S_IFMT

/-- The character of a permission, or `-` if it is not granted. -/
def permission (st : Stat) (bit : BitVec 32) (c : CChar) : CChar :=
  if st.st_mode &&& bit ≠ 0#32 then c else 45#8

/-- The permissions of the owner, the group and others, and the terminating NUL. -/
def permissions (st : Stat) : List CChar :=
  [permission st 0x100#32 114#8, permission st 0x080#32 119#8, permission st 0x040#32 120#8,
    permission st 0x020#32 114#8, permission st 0x010#32 119#8, permission st 0x008#32 120#8,
    permission st 0x004#32 114#8, permission st 0x002#32 119#8, permission st 0x001#32 120#8, 0#8]

/-- The bytes of `" -> "` without the terminating NUL. -/
def ARROW : List CChar := [32#8, 45#8, 62#8, 32#8]

/-- The array `buffer` of 1024 bytes, which is zero at first, once the link has been read. -/
def linkBuffer (target : Option (List CChar)) : List CChar :=
  let stored := (target.getD []).take 1020
  ARROW ++ stored ++ List.replicate (1020 - stored.length) 0#8

/-- The array in the `list` of `testing2.c`, which writes a NUL behind what `readlink` has stored,
and `none` if that place is behind the end of the array. -/
def Testing2.linkBuffer (target : Option (List CChar)) : Option (List CChar) :=
  let buffer := Ls.linkBuffer target
  match target with
  | none => some (buffer.set 4 0#8)
  | some target =>
    let len := min target.length 1020
    if len + 4 < buffer.length then some (buffer.set (len + 4) 0#8) else none

/-- `mode[0]` and `typestr` -/
def fileType (sys : System) (path : Path) (d_name : Name) (st : Stat) : CChar × List CChar :=
  if st.filetype = S_IFIFO then (112#8, [124#8, 0#8])
  else if st.filetype = S_IFDIR then (100#8, [47#8, 0#8])
  else if st.filetype = S_IFLNK then (108#8, linkBuffer (sys.readlinkat path d_name))
  else if st.st_mode &&& 0x040#32 ≠ 0#32 then (45#8, [42#8, 0#8])
  else (45#8, [0#8])

/-! ### The listing -/

/-- `name_path` -/
def namePath (path : Path) (d_name : Name) : Path := path ++ [SLASH] ++ d_name.bytes

/-- What is printed for an entry. -/
def entryLine (sys : System) (path : Path) (d_name : Name) (st : Stat) : Line where
  size := st.st_size.toNat
  mode := (fileType sys path d_name st).1 :: permissions st
  name := namePath path d_name
  typestr := (fileType sys path d_name st).2

/-- The loop over the entries of the directory, where `descend` lists a subdirectory. -/
def entryLoop (sys : System) (descend : Path → ℤ → Except Fault (ℤ × List Line)) (path : Path)
    (recursive : ℤ) : List Name → Except Fault (ℤ × List Line)
  | [] => .ok (0, [])
  | d_name :: entries =>
    if d_name = DOT ∨ d_name = DOT_DOT then entryLoop sys descend path recursive entries
    else if ¬sys.malloc (namePath path d_name) then .ok (-1, [])
    else
      match sys.lstat (namePath path d_name) with
      | none => entryLoop sys descend path recursive entries
      | some st =>
        let descent :=
          if recursive ≠ 0 ∧ st.filetype = S_IFDIR then descend (namePath path d_name) recursive
          else .ok (0, [])
        do
          let (_, below) ← descent
          let (result, rest) ← entryLoop sys descend path recursive entries
          .ok (result, entryLine sys path d_name st :: (below ++ rest))

/-- `list(path, recursive)`, with a bound on the depth of the recursion. -/
def list (sys : System) : ℕ → Path → ℤ → Except Fault (ℤ × List Line)
  | 0, _, _ => .error .outOfFuel
  | fuel + 1, path, recursive =>
    match sys.opendir path with
    | none => .ok (-1, [])
    | some entries => entryLoop sys (list sys fuel) path recursive entries

end StyLinux.Ls
