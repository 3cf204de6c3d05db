import Mathlib.Tactic
import StyLinux.Lib.Simulation
import StyLinux.Paging.Operations

/-!
# Page tables as an address space

What the page table is for: an address space maps some of the virtual pages to frames with
rights. Every sequence of calls from the empty directory is answered as an address space
answers it, whatever tables are allocated, found full or given back on the way.
-/

namespace StyLinux.Paging

open Lib

/-! ### The address space -/

abbrev PageNumber := BitVec 20

structure Mapping where
  frame : BitVec 32
  writable : Bool
  user : Bool
  deriving DecidableEq, Repr

abbrev AddressSpace := PageNumber → Option Mapping

def pageOf (address : BitVec 32) : PageNumber := address.extractLsb' 12 20

def offsetOf (address : BitVec 32) : BitVec 12 := address.extractLsb' 0 12

def PageAligned (address : BitVec 32) : Prop := offsetOf address = 0#12

instance (address : BitVec 32) : Decidable (PageAligned address) :=
  inferInstanceAs (Decidable (_ = _))

/-- Kernel mode may do everything; a user needs a user page, and a writable one to write. -/
def Mapping.allows (x : Mapping) (accessMode : ReadWrite) (privileges : PrivilegeLevel) : Bool :=
  privileges = .KERNEL_MODE ∨ x.user ∧ (accessMode = .ACCESS_WRITE → x.writable)

namespace AddressSpace

/-- No page is mapped that has its upper ten bits in common with `n`. -/
def NeedsTable (space : AddressSpace) (n : PageNumber) : Prop :=
  ∀ n', n'.toNat / 1024 = n.toNat / 1024 → space n' = none

open Classical in
/-- The answer to a call and the address space after it. -/
noncomputable def answer (space : AddressSpace) : Call → Result × AddressSpace
  | .mapPage memory virtualBase physicalBase accessMode privileges =>
    if ¬PageAligned virtualBase ∨ ¬PageAligned physicalBase ∨
        space.NeedsTable (pageOf virtualBase) ∧ memory = none then
      (.status (-1), space)
    else
      (.status 0, Function.update space (pageOf virtualBase)
        (some ⟨physicalBase, accessMode = .ACCESS_WRITE, privileges = .USER_MODE⟩))
  | .translatePageTable virtualAddress accessMode privileges =>
    match space (pageOf virtualAddress) with
    | some x =>
      if x.allows accessMode privileges then
        (.address (x.frame + (offsetOf virtualAddress).setWidth 32), space)
      else (.address INVALID_ADDRESS, space)
    | none => (.address INVALID_ADDRESS, space)
  | .unmapPage virtualBase =>
    if ¬PageAligned virtualBase ∨ space (pageOf virtualBase) = none then (.status (-1), space)
    else (.status 0, Function.update space (pageOf virtualBase) none)

end AddressSpace

/-! ### Page numbers and positions -/

def positionOf (n : PageNumber) : Index × Index :=
  (⟨n.toNat / 1024, by
      have h := n.isLt
      change _ < 1024
      omega⟩,
   ⟨n.toNat % 1024, Nat.mod_lt _ (by decide)⟩)

lemma position_eq (address : BitVec 32) : position address = positionOf (pageOf address) := by
  have hlt := address.isLt
  have hpage : (pageOf address).toNat = address.toNat / 4096 := by
    simp only [pageOf, BitVec.extractLsb'_toNat, Nat.shiftRight_eq_div_pow]
    omega
  have hmask : ENTRY_MASK.toNat = 2 ^ 10 - 1 := by decide
  apply Prod.ext
  · apply Fin.ext
    change (address >>> (OFFSET_BITS + BITS_PER_ENTRY)).toNat = (pageOf address).toNat / 1024
    rw [BitVec.toNat_ushiftRight, Nat.shiftRight_eq_div_pow, hpage]
    change address.toNat / 2 ^ 22 = _
    omega
  · apply Fin.ext
    change ((address >>> OFFSET_BITS) &&& ENTRY_MASK).toNat = (pageOf address).toNat % 1024
    rw [BitVec.toNat_and, BitVec.toNat_ushiftRight, hmask, Nat.and_two_pow_sub_one_eq_mod,
      Nat.shiftRight_eq_div_pow, hpage]
    rfl

lemma positionOf_injective : Function.Injective positionOf := by
  intro n n' h
  have h1 : n.toNat / 1024 = n'.toNat / 1024 := congrArg (fun x => (x.1 : ℕ)) h
  have h2 : n.toNat % 1024 = n'.toNat % 1024 := congrArg (fun x => (x.2 : ℕ)) h
  apply BitVec.eq_of_toNat_eq
  omega

lemma exists_positionOf (n : PageNumber) (j : Index) :
    ∃ n' : PageNumber,
      n'.toNat / 1024 = n.toNat / 1024 ∧ positionOf n' = ((positionOf n).1, j) := by
  have hn := n.isLt
  have hj : (j : ℕ) < 1024 := j.isLt
  have hnat : (BitVec.ofNat 20 (n.toNat / 1024 * 1024 + j)).toNat = n.toNat / 1024 * 1024 + j :=
    BitVec.toNat_ofNat _ _ ▸ Nat.mod_eq_of_lt (by omega)
  refine ⟨BitVec.ofNat 20 (n.toNat / 1024 * 1024 + j), by omega, ?_⟩
  apply Prod.ext
  · apply Fin.ext
    change _ / 1024 = n.toNat / 1024
    omega
  · apply Fin.ext
    change _ % 1024 = (j : ℕ)
    omega

lemma getOffset_eq (address : BitVec 32) : getOffset address = (offsetOf address).setWidth 32 := by
  apply BitVec.eq_of_toNat_eq
  rw [getOffset_eq_and, BitVec.toNat_and]
  simp only [offsetOf, BitVec.toNat_setWidth, BitVec.extractLsb'_toNat, Nat.shiftRight_zero]
  rw [show (4095#32).toNat = 2 ^ 12 - 1 by decide, Nat.and_two_pow_sub_one_eq_mod]
  omega

lemma getOffset_eq_zero {address : BitVec 32} :
    getOffset address = 0#32 ↔ PageAligned address := by
  unfold PageAligned
  rw [getOffset_eq]
  constructor
  · intro h
    apply BitVec.eq_of_toNat_eq
    have hlt := (offsetOf address).isLt
    have hnat := congrArg BitVec.toNat h
    rw [BitVec.toNat_setWidth, Nat.mod_eq_of_lt (by omega)] at hnat
    exact hnat
  · intro h
    rw [h]
    decide

/-! ### The entries as an address space -/

/-- What an entry says about its page. -/
def mappingOf (e : BitVec 32) : Mapping :=
  ⟨e &&& PAGE_TABLE_ADDRESS_MASK, e &&& PAGE_READWRITE_MASK ≠ 0#32,
    e &&& PAGE_USERMODE_MASK ≠ 0#32⟩

def State.addressSpace (s : State) : AddressSpace :=
  fun n => (s.entry (positionOf n)).map mappingOf

lemma addressSpace_pageOf (s : State) (address : BitVec 32) :
    s.addressSpace (pageOf address) = (s.entry (position address)).map mappingOf := by
  rw [position_eq]
  rfl

lemma addressSpace_initial : initial.addressSpace = fun _ => none := by
  funext n
  simp [State.addressSpace]

lemma mappingOf_newEntry {physicalBase : BitVec 32} (accessMode : ReadWrite)
    (privileges : PrivilegeLevel) (hb : PageAligned physicalBase) :
    mappingOf (newEntry physicalBase accessMode privileges) =
      ⟨physicalBase, accessMode = .ACCESS_WRITE, privileges = .USER_MODE⟩ := by
  have hlow : physicalBase &&& 0xfff#32 = 0#32 := by
    rw [← getOffset_eq_and, getOffset_eq_zero.mpr hb]
  have hwrite := newEntry_and_flag accessMode privileges hlow
    (show 0xfff#32 &&& PAGE_READWRITE_MASK = PAGE_READWRITE_MASK by decide)
  have huser := newEntry_and_flag accessMode privileges hlow
    (show 0xfff#32 &&& PAGE_USERMODE_MASK = PAGE_USERMODE_MASK by decide)
  unfold mappingOf
  rw [newEntry_frame accessMode privileges hlow, hwrite, huser]
  cases accessMode <;> cases privileges <;> rfl

/-- The accessed bit says nothing about the mapping. -/
lemma mappingOf_accessed (e : BitVec 32) : mappingOf (e ||| PAGE_ACCESSED_MASK) = mappingOf e := by
  unfold mappingOf
  rw [or_and_of_disjoint (by decide), or_and_of_disjoint (by decide),
    or_and_of_disjoint (by decide)]

lemma permits_eq_allows (e : BitVec 32) (accessMode : ReadWrite) (privileges : PrivilegeLevel) :
    permits e accessMode privileges = (mappingOf e).allows accessMode privileges := by
  unfold permits Mapping.allows mappingOf
  cases privileges with
  | KERNEL_MODE => rfl
  | USER_MODE =>
    by_cases hw : e &&& PAGE_READWRITE_MASK = 0#32
    · cases accessMode <;> simp [hw]
    · simp [hw]

variable {s s' : State} {n : PageNumber}

lemma Edited.addressSpace_eq {e : Option (BitVec 32)} (h : Edited s s' (positionOf n) e) :
    s'.addressSpace = Function.update s.addressSpace n (e.map mappingOf) := by
  funext n'
  by_cases hn : n' = n
  · subst hn
    simp [State.addressSpace, h.entry]
  · have hne : positionOf n' ≠ positionOf n := positionOf_injective.ne hn
    simp [State.addressSpace, h.entry, hn, hne]

/-- A page needs a table in its address space exactly when its directory entry has none. -/
lemma needsTable_iff (h : TablesOk s) :
    s.addressSpace.NeedsTable n ↔ ¬s.Present (positionOf n).1 := by
  rw [← h.pageTable_eq_none, h.pageTable_eq_none_iff]
  unfold AddressSpace.NeedsTable State.addressSpace
  constructor
  · intro hneeds j
    obtain ⟨n', hn', hpos⟩ := exists_positionOf n j
    have hnone := hneeds n' hn'
    rw [hpos] at hnone
    exact Option.map_eq_none_iff.mp hnone
  · intro hnone n' hn'
    have hfst : (positionOf n').1 = (positionOf n).1 := Fin.ext hn'
    have hpos : positionOf n' = ((positionOf n).1, (positionOf n').2) := Prod.ext hfst rfl
    rw [hpos, hnone]
    rfl

/-! ### Refinement -/

/-- The call is answered as the address space of the state answers it, and leads to the address
space after that answer. -/
def Refines (s : State) (c : Call) : Prop :=
  ∃ s', call s c = .ok ((s.addressSpace.answer c).1, s') ∧ TablesOk s' ∧
    s'.addressSpace = (s.addressSpace.answer c).2

section Refinement

variable {memory : Option (BitVec 64)} {virtualBase physicalBase virtualAddress : BitVec 32}
  {accessMode : ReadWrite} {privileges : PrivilegeLevel}

lemma mapPage_refines (h : TablesOk s)
    (hfresh : MemoryFresh s (.mapPage memory virtualBase physicalBase accessMode privileges)) :
    Refines s (.mapPage memory virtualBase physicalBase accessMode privileges) := by
  unfold Refines
  simp only [AddressSpace.answer, call]
  by_cases hv : PageAligned virtualBase
  · by_cases hb : PageAligned physicalBase
    · by_cases hroom : s.Present (getPageDirectoryIndex virtualBase) ∨ memory ≠ none
      · obtain ⟨s', hs', hedit⟩ := mapPage_edits h (getOffset_eq_zero.mpr hv)
          (getOffset_eq_zero.mpr hb) hfresh hroom
        have hanswer : ¬(¬PageAligned virtualBase ∨ ¬PageAligned physicalBase ∨
            s.addressSpace.NeedsTable (pageOf virtualBase) ∧ memory = none) := by
          rw [needsTable_iff h, ← position_eq]
          change ¬(_ ∨ _ ∨ ¬s.Present (getPageDirectoryIndex virtualBase) ∧ _)
          tauto
        rw [if_neg hanswer, hs']
        rw [position_eq] at hedit
        refine ⟨s', rfl, hedit.ok, ?_⟩
        rw [hedit.addressSpace_eq, Option.map_some, mappingOf_newEntry _ _ hb]
      · rw [not_or, not_not] at hroom
        obtain ⟨hi, rfl⟩ := hroom
        rw [if_pos (.inr (.inr ⟨(needsTable_iff h).mpr (by rw [← position_eq]; exact hi), rfl⟩)),
          mapPage_of_no_memory (getOffset_eq_zero.mpr hv) (getOffset_eq_zero.mpr hb) hi]
        exact ⟨s, rfl, h, rfl⟩
    · rw [if_pos (.inr (.inl hb)), mapPage_of_misaligned (.inr (mt getOffset_eq_zero.mp hb))]
      exact ⟨s, rfl, h, rfl⟩
  · rw [if_pos (.inl hv), mapPage_of_misaligned (.inl (mt getOffset_eq_zero.mp hv))]
    exact ⟨s, rfl, h, rfl⟩

lemma translatePageTable_refines (h : TablesOk s) :
    Refines s (.translatePageTable virtualAddress accessMode privileges) := by
  unfold Refines
  simp only [AddressSpace.answer, call]
  have hspace := addressSpace_pageOf s virtualAddress
  cases he : s.entry (position virtualAddress) with
  | none =>
    rw [hspace, he, translatePageTable_of_absent h.toLinked he]
    exact ⟨s, rfl, h, rfl⟩
  | some e =>
    rw [he, Option.map_some] at hspace
    rw [hspace]
    simp only [← permits_eq_allows]
    cases hp : permits e accessMode privileges with
    | false =>
      rw [translatePageTable_of_denied he hp]
      exact ⟨s, rfl, h, rfl⟩
    | true =>
      obtain ⟨s', hs', hedit⟩ := translatePageTable_edits h he hp
      rw [hs', getOffset_eq]
      rw [position_eq] at hedit
      refine ⟨s', rfl, hedit.ok, ?_⟩
      rw [hedit.addressSpace_eq, Option.map_some, mappingOf_accessed, ← hspace,
        Function.update_eq_self]
      rfl

lemma unmapPage_refines (h : TablesOk s) : Refines s (.unmapPage virtualBase) := by
  unfold Refines
  simp only [AddressSpace.answer, call]
  by_cases hv : PageAligned virtualBase
  · have hspace := addressSpace_pageOf s virtualBase
    cases he : s.entry (position virtualBase) with
    | none =>
      rw [he, Option.map_none] at hspace
      rw [if_pos (.inr hspace), unmapPage_of_absent h.toLinked he]
      exact ⟨s, rfl, h, rfl⟩
    | some e =>
      have hmapped : s.addressSpace (pageOf virtualBase) ≠ none := by simp [hspace, he]
      obtain ⟨s', hs', hedit⟩ := unmapPage_edits h (getOffset_eq_zero.mpr hv) he
      rw [if_neg (by tauto), hs']
      rw [position_eq] at hedit
      refine ⟨s', rfl, hedit.ok, ?_⟩
      rw [hedit.addressSpace_eq, Option.map_none]
  · rw [if_pos (.inl hv), unmapPage_of_misaligned (mt getOffset_eq_zero.mp hv)]
    exact ⟨s, rfl, h, rfl⟩

lemma call_refines (h : TablesOk s) {c : Call} (hfresh : MemoryFresh s c) : Refines s c := by
  cases c with
  | mapPage memory virtualBase physicalBase accessMode privileges => exact mapPage_refines h hfresh
  | translatePageTable virtualAddress accessMode privileges => exact translatePageTable_refines h
  | unmapPage virtualBase => exact unmapPage_refines h

/-- The page table answers every sequence of calls as an address space does, and ends with the
same pages mapped. -/
theorem exec_eq_answers {calls : List Call} (hfresh : Admits call MemoryFresh initial calls) :
    ∃ s', exec call initial calls =
        .ok ((execSpec AddressSpace.answer (fun _ => none) calls).1, s') ∧
      s'.addressSpace = (execSpec AddressSpace.answer (fun _ => none) calls).2 := by
  obtain ⟨s', hs', hR⟩ := exec_simulates
    (R := fun space s => TablesOk s ∧ s.addressSpace = space)
    (by
      rintro space s c ⟨hs, rfl⟩ hc
      exact call_refines hs hc)
    ⟨tablesOk_initial, addressSpace_initial⟩ hfresh
  exact ⟨s', hs', hR.2⟩

end Refinement

/-- A page of the table at `0x10000` is mapped, used and unmapped again; no second table is to
be had. -/
def oneTableCalls : List Call :=
  [.mapPage (some 0x10000#64) 0x00400000#32 0x5000#32 .ACCESS_WRITE .USER_MODE,
    .mapPage none 0x00000000#32 0x1000#32 .ACCESS_READ .USER_MODE,
    .translatePageTable 0x00400123#32 .ACCESS_WRITE .USER_MODE,
    .unmapPage 0x00400000#32,
    .translatePageTable 0x00400123#32 .ACCESS_READ .KERNEL_MODE]

lemma admits_oneTableCalls : Admits call MemoryFresh initial oneTableCalls := by
  refine ⟨⟨by decide, rfl⟩, ?_⟩
  intro o s' h
  simp [Admits, MemoryFresh]

theorem exec_oneTableCalls :
    ∃ s', exec call initial oneTableCalls =
        .ok ((execSpec AddressSpace.answer (fun _ => none) oneTableCalls).1, s') ∧
      s'.addressSpace = (execSpec AddressSpace.answer (fun _ => none) oneTableCalls).2 :=
  exec_eq_answers admits_oneTableCalls

end StyLinux.Paging
