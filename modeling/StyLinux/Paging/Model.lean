import Mathlib.Tactic
import StyLinux.Lib.Fuel

/-!
# The two-level page table

The page table of `vika7`: a page directory whose entries hold addresses of page tables and a
present bit, page tables whose entries hold frames and flags, and the functions that map,
translate and unmap a page. An access to memory that holds no page table and a call of `free`
with an address that `posix_memalign` did not return are faults.
-/

namespace StyLinux.Paging

open Lib

abbrev BITS_PER_ENTRY : ℕ := 10

abbrev ENTRIES_PER_TABLE : ℕ := 1 <<< BITS_PER_ENTRY

abbrev OFFSET_BITS : ℕ := 12

def OFFSET_MASK : BitVec 64 := (1#64 <<< OFFSET_BITS) - 1#64

def ENTRY_MASK : BitVec 32 := BitVec.ofNat 32 (ENTRIES_PER_TABLE - 1)

/-- The bits of a directory entry for the position of the page table. -/
def PAGE_DIRECTORY_ADDRESS_MASK : BitVec 64 := ~~~0xfff#64

/-- The bits of a table entry for the position of the page. -/
def PAGE_TABLE_ADDRESS_MASK : BitVec 32 := ~~~0xfff#32

def PAGE_ACCESSED_MASK : BitVec 32 := 0x20#32

def PAGE_USERMODE_MASK : BitVec 32 := 0x04#32

def PAGE_READWRITE_MASK : BitVec 32 := 0x02#32

/-- The present bit, in entries of both widths. -/
def PAGE_PRESENT_MASK {w : ℕ} : BitVec w := 0x01#w

def INVALID_ADDRESS : BitVec 32 := 0xFFFFFFFF#32

inductive ReadWrite
  | ACCESS_READ
  | ACCESS_WRITE
  deriving DecidableEq, Repr

inductive PrivilegeLevel
  | USER_MODE
  | KERNEL_MODE
  deriving DecidableEq, Repr

abbrev Index := Fin ENTRIES_PER_TABLE

instance : NeZero ENTRIES_PER_TABLE := ⟨by decide⟩

structure PageDirectory where
  entries : Index → BitVec 64

structure PageTable where
  entries : Index → BitVec 32

/-- `tables` are the page tables in memory and `heap` the addresses that `posix_memalign`
returned and that have not been freed. -/
structure State where
  cr3 : PageDirectory
  tables : BitVec 64 → Option PageTable
  heap : Finset (BitVec 64)

/-- The ways in which a call may leave defined behaviour. -/
inductive Fault
  | access (address : BitVec 64)
  | free (address : BitVec 64)
  deriving DecidableEq, Repr

namespace PageTable

def zero : PageTable := ⟨fun _ => 0#32⟩

def setEntry (i : Index) (entry : BitVec 32) (t : PageTable) : PageTable :=
  ⟨Function.update t.entries i entry⟩

/-- The loop over the entries in `unmapPage`, which stops at the first present one. -/
def allUnmapped (t : PageTable) : Bool :=
  (List.finRange ENTRIES_PER_TABLE).all fun i => t.entries i &&& PAGE_PRESENT_MASK = 0#32

end PageTable

namespace State

def setDirectoryEntry (i : Index) (entry : BitVec 64) (s : State) : State :=
  { s with cr3 := ⟨Function.update s.cr3.entries i entry⟩ }

def setTable (p : BitVec 64) (t : Option PageTable) (s : State) : State :=
  { s with tables := Function.update s.tables p t }

def table (p : BitVec 64) (s : State) : Except Fault PageTable :=
  match s.tables p with
  | some t => .ok t
  | none => .error (.access p)

def free (p : BitVec 64) (s : State) : Except Fault State :=
  if p ∈ s.heap then .ok { s.setTable p none with heap := s.heap.erase p }
  else .error (.free p)

/-- A block from `posix_memalign` at `p`, filled with zeros. -/
def allocate (p : BitVec 64) (s : State) : State :=
  { s.setTable p (some PageTable.zero) with heap := insert p s.heap }

end State

/-- The state before the first call: an all-zero directory and no page table. -/
def initial : State := ⟨⟨fun _ => 0#64⟩, fun _ => none, ∅⟩

def setPageDirectory (directory : PageDirectory) (s : State) : State := { s with cr3 := directory }

def getPageDirectoryIndex (address : BitVec 32) : Index :=
  ⟨(address >>> (OFFSET_BITS + BITS_PER_ENTRY)).toNat, by
    have h : address.toNat < 2 ^ 32 := address.isLt
    rw [BitVec.toNat_ushiftRight, Nat.shiftRight_eq_div_pow]
    change address.toNat / 2 ^ 22 < 1024
    omega⟩

def getPageTableIndex (address : BitVec 32) : Index :=
  ⟨((address >>> OFFSET_BITS) &&& ENTRY_MASK).toNat, by
    have h : (address >>> OFFSET_BITS).toNat &&& ENTRY_MASK.toNat ≤ ENTRY_MASK.toNat :=
      Nat.and_le_right
    have hm : ENTRY_MASK.toNat = 1023 := by decide
    rw [BitVec.toNat_and]
    change _ < 1024
    omega⟩

/-- The mask is 64 bits wide, the result is cut to 32. -/
def getOffset (address : BitVec 32) : BitVec 32 :=
  (address.setWidth 64 &&& OFFSET_MASK).setWidth 32

def newEntry (physicalBase : BitVec 32) (accessMode : ReadWrite) (privileges : PrivilegeLevel) :
    BitVec 32 :=
  let PTE := physicalBase ||| PAGE_PRESENT_MASK
  let PTE := if accessMode = .ACCESS_WRITE then PTE ||| PAGE_READWRITE_MASK else PTE
  if privileges = .USER_MODE then PTE ||| PAGE_USERMODE_MASK else PTE

/-- `memory` is what `posix_memalign` gives if it is called: an address, or nothing when it
fails. -/
def mapPage (memory : Option (BitVec 64)) (virtualBase physicalBase : BitVec 32)
    (accessMode : ReadWrite) (privileges : PrivilegeLevel) (s : State) : Except Fault (ℤ × State) :=
  if getOffset virtualBase ≠ 0#32 ∨ getOffset physicalBase ≠ 0#32 then .ok (-1, s)
  else
    let pageDirectoryIndex := getPageDirectoryIndex virtualBase
    let pageTableIndex := getPageTableIndex virtualBase
    let pde := s.cr3.entries pageDirectoryIndex
    let PTE := newEntry physicalBase accessMode privileges
    if pde &&& PAGE_PRESENT_MASK = 0#64 then
      match memory with
      | none => .ok (-1, s)
      | some pageTable => do
        let s := s.allocate pageTable
        let s := s.setDirectoryEntry pageDirectoryIndex (pageTable ||| PAGE_PRESENT_MASK)
        let t ← s.table pageTable
        pure (0, s.setTable pageTable (some (t.setEntry pageTableIndex PTE)))
    else do
      let pageTable := pde &&& PAGE_DIRECTORY_ADDRESS_MASK
      let t ← s.table pageTable
      pure (0, s.setTable pageTable (some (t.setEntry pageTableIndex PTE)))

/-- The checks on a present entry: only user mode is restricted. -/
def permits (PTE : BitVec 32) (accessMode : ReadWrite) (privileges : PrivilegeLevel) : Bool :=
  if privileges = .USER_MODE then
    if accessMode = .ACCESS_WRITE ∧ PTE &&& PAGE_READWRITE_MASK = 0#32 then false
    else if PTE &&& PAGE_USERMODE_MASK = 0#32 then false
    else true
  else true

def translatePageTable (virtualAddress : BitVec 32) (accessMode : ReadWrite)
    (privileges : PrivilegeLevel) (s : State) : Except Fault (BitVec 32 × State) :=
  let pageDirectoryIndex := getPageDirectoryIndex virtualAddress
  let pageTableIndex := getPageTableIndex virtualAddress
  let offset := getOffset virtualAddress
  let pde := s.cr3.entries pageDirectoryIndex
  if pde &&& PAGE_PRESENT_MASK = 0#64 then .ok (INVALID_ADDRESS, s)
  else do
    let pageTable := pde &&& PAGE_DIRECTORY_ADDRESS_MASK
    let t ← s.table pageTable
    let PTE := t.entries pageTableIndex
    if PTE &&& PAGE_PRESENT_MASK = 0#32 then pure (INVALID_ADDRESS, s)
    else if !permits PTE accessMode privileges then pure (INVALID_ADDRESS, s)
    else
      let t := t.setEntry pageTableIndex (PTE ||| PAGE_ACCESSED_MASK)
      pure ((PTE &&& PAGE_TABLE_ADDRESS_MASK) + offset, s.setTable pageTable (some t))

def unmapPage (virtualBase : BitVec 32) (s : State) : Except Fault (ℤ × State) :=
  if getOffset virtualBase ≠ 0#32 then .ok (-1, s)
  else
    let PageDirectoryIndex := getPageDirectoryIndex virtualBase
    let PageTableIndex := getPageTableIndex virtualBase
    let pde := s.cr3.entries PageDirectoryIndex
    if pde &&& PAGE_PRESENT_MASK = 0#64 then .ok (-1, s)
    else do
      let pageTable := pde &&& PAGE_DIRECTORY_ADDRESS_MASK
      let t ← s.table pageTable
      let PTE := t.entries PageTableIndex
      if PTE &&& PAGE_PRESENT_MASK = 0#32 then pure (-1, s)
      else
        let t := t.setEntry PageTableIndex (PTE &&& ~~~PAGE_PRESENT_MASK)
        let s := s.setTable pageTable (some t)
        if t.allUnmapped then do
          let s ← s.free pageTable
          pure (0, s.setDirectoryEntry PageDirectoryIndex (pde &&& ~~~PAGE_PRESENT_MASK))
        else pure (0, s)

/-! ### Calls -/

inductive Call
  | mapPage (memory : Option (BitVec 64)) (virtualBase physicalBase : BitVec 32)
      (accessMode : ReadWrite) (privileges : PrivilegeLevel)
  | translatePageTable (virtualAddress : BitVec 32) (accessMode : ReadWrite)
      (privileges : PrivilegeLevel)
  | unmapPage (virtualBase : BitVec 32)
  deriving DecidableEq, Repr

/-- What a call returns: the `int` of `mapPage` and `unmapPage` or a physical address. -/
inductive Result
  | status (code : ℤ)
  | address (physicalAddress : BitVec 32)
  deriving DecidableEq, Repr

def call (s : State) : Call → Except Fault (Result × State)
  | .mapPage memory virtualBase physicalBase accessMode privileges => do
    let (code, s) ← mapPage memory virtualBase physicalBase accessMode privileges s
    pure (.status code, s)
  | .translatePageTable virtualAddress accessMode privileges => do
    let (physicalAddress, s) ← translatePageTable virtualAddress accessMode privileges s
    pure (.address physicalAddress, s)
  | .unmapPage virtualBase => do
    let (code, s) ← unmapPage virtualBase s
    pure (.status code, s)

/-- What `posix_memalign` promises: the block is aligned to 4096 bytes and fresh. -/
def MemoryFresh (s : State) : Call → Prop
  | .mapPage (some p) _ _ _ _ => p &&& 0xfff#64 = 0#64 ∧ s.tables p = none
  | _ => True

/-! ### Reading after writing -/

namespace PageTable

variable (i : Index) (entry : BitVec 32) (t : PageTable)

@[simp] lemma entries_setEntry :
    (t.setEntry i entry).entries = Function.update t.entries i entry := rfl

@[simp] lemma entries_zero : zero.entries i = 0#32 := rfl

lemma allUnmapped_iff : t.allUnmapped ↔ ∀ i, t.entries i &&& PAGE_PRESENT_MASK = 0#32 := by
  simp [allUnmapped]

end PageTable

namespace State

variable (p : BitVec 64) (t : Option PageTable) (i : Index) (entry : BitVec 64) (s : State)

@[simp] lemma cr3_setTable : (s.setTable p t).cr3 = s.cr3 := rfl

@[simp] lemma heap_setTable : (s.setTable p t).heap = s.heap := rfl

@[simp] lemma tables_setTable : (s.setTable p t).tables = Function.update s.tables p t := rfl

@[simp] lemma tables_setDirectoryEntry : (s.setDirectoryEntry i entry).tables = s.tables := rfl

@[simp] lemma heap_setDirectoryEntry : (s.setDirectoryEntry i entry).heap = s.heap := rfl

@[simp] lemma entries_setDirectoryEntry :
    (s.setDirectoryEntry i entry).cr3.entries = Function.update s.cr3.entries i entry := rfl

@[simp] lemma cr3_allocate : (s.allocate p).cr3 = s.cr3 := rfl

@[simp] lemma heap_allocate : (s.allocate p).heap = insert p s.heap := rfl

@[simp] lemma tables_allocate :
    (s.allocate p).tables = Function.update s.tables p (some PageTable.zero) := rfl

lemma table_eq_ok {t : PageTable} (h : s.tables p = some t) : s.table p = .ok t := by
  simp [table, h]

lemma table_eq_error (h : s.tables p = none) : s.table p = .error (.access p) := by
  simp [table, h]

end State

end StyLinux.Paging
