import Mathlib.Tactic
import StyLinux.Lib.Masks
import StyLinux.Paging.Model

/-!
# The tables behind the directory

The state is read as a function from directory indices to page tables. While each present
directory entry has a table of its own in memory, adding a table, writing to one and dropping
one change this function at a single index.
-/

namespace StyLinux.Paging

open Lib

variable {s : State} {i j : Index} {p : BitVec 64} {t : PageTable}

namespace State

def Present (s : State) (i : Index) : Prop := s.cr3.entries i &&& PAGE_PRESENT_MASK ≠ 0#64

instance (s : State) (i : Index) : Decidable (s.Present i) := inferInstanceAs (Decidable (_ ≠ _))

def tableAddress (s : State) (i : Index) : BitVec 64 :=
  s.cr3.entries i &&& PAGE_DIRECTORY_ADDRESS_MASK

/-- The page table of a present directory entry. -/
def pageTable (s : State) (i : Index) : Option PageTable :=
  if s.Present i then s.tables (s.tableAddress i) else none

end State

/-- The present directory entries and the allocated tables correspond to each other. -/
structure Linked (s : State) : Prop where
  live : ∀ i, s.Present i → ∃ t, s.tables (s.tableAddress i) = some t
  unique : ∀ i j, s.Present i → s.Present j → s.tableAddress i = s.tableAddress j → i = j
  owned : ∀ p, p ∈ s.heap ↔ ∃ i, s.Present i ∧ s.tableAddress i = p

lemma linked_initial : Linked initial := by
  have habsent : ∀ i, ¬initial.Present i := by
    intro i
    simp [State.Present, initial]
  constructor
  · intro i hi
    exact absurd hi (habsent i)
  · intro i j hi
    exact absurd hi (habsent i)
  · intro p
    constructor
    · intro hp
      simp [initial] at hp
    · rintro ⟨i, hi, -⟩
      exact absurd hi (habsent i)

@[simp] lemma pageTable_initial (i : Index) : initial.pageTable i = none := by
  simp [State.pageTable, State.Present, initial]

lemma pageTable_eq_some :
    s.pageTable i = some t ↔ s.Present i ∧ s.tables (s.tableAddress i) = some t := by
  unfold State.pageTable
  by_cases hi : s.Present i
  · simp [hi]
  · simp [hi]

lemma Linked.pageTable_eq_none (h : Linked s) : s.pageTable i = none ↔ ¬s.Present i := by
  unfold State.pageTable
  by_cases hi : s.Present i
  · obtain ⟨t, ht⟩ := h.live i hi
    simp [hi, ht]
  · simp [hi]

/-! ### Entries of the directory -/

lemma present_or_of_aligned (hp : p &&& 0xfff#64 = 0#64) :
    (p ||| PAGE_PRESENT_MASK) &&& PAGE_PRESENT_MASK ≠ 0#64 := by
  have hflag := or_and_flag hp (show 0xfff#64 &&& PAGE_PRESENT_MASK = PAGE_PRESENT_MASK by decide)
    PAGE_PRESENT_MASK
  rw [hflag]
  decide

lemma address_or_of_aligned (hp : p &&& 0xfff#64 = 0#64) :
    (p ||| PAGE_PRESENT_MASK) &&& PAGE_DIRECTORY_ADDRESS_MASK = p :=
  or_and_not hp (by decide)

lemma absent_and_not (e : BitVec 64) : (e &&& ~~~PAGE_PRESENT_MASK) &&& PAGE_PRESENT_MASK = 0#64 :=
  and_not_and_self

namespace State

@[simp] lemma present_setTable (u : Option PageTable) :
    (s.setTable p u).Present i ↔ s.Present i := Iff.rfl

@[simp] lemma tableAddress_setTable (u : Option PageTable) :
    (s.setTable p u).tableAddress i = s.tableAddress i := rfl

@[simp] lemma present_allocate : (s.allocate p).Present i ↔ s.Present i := Iff.rfl

@[simp] lemma tableAddress_allocate : (s.allocate p).tableAddress i = s.tableAddress i := rfl

variable {entry : BitVec 64}

lemma present_setDirectoryEntry_self :
    (s.setDirectoryEntry i entry).Present i ↔ entry &&& PAGE_PRESENT_MASK ≠ 0#64 := by
  simp [Present]

lemma present_setDirectoryEntry_of_ne (hij : j ≠ i) :
    (s.setDirectoryEntry i entry).Present j ↔ s.Present j := by
  simp [Present, hij]

lemma tableAddress_setDirectoryEntry_self :
    (s.setDirectoryEntry i entry).tableAddress i = entry &&& PAGE_DIRECTORY_ADDRESS_MASK := by
  simp [tableAddress]

lemma tableAddress_setDirectoryEntry_of_ne (hij : j ≠ i) :
    (s.setDirectoryEntry i entry).tableAddress j = s.tableAddress j := by
  simp [tableAddress, hij]

end State

/-! ### Writing to a table -/

section Write

variable (t' : PageTable)

lemma Linked.write (h : Linked s) : Linked (s.setTable (s.tableAddress i) (some t')) := by
  constructor
  · intro k hk
    by_cases hki : s.tableAddress k = s.tableAddress i
    · exact ⟨t', by simp [hki]⟩
    · obtain ⟨t, ht⟩ := h.live k hk
      exact ⟨t, by simp [hki, ht]⟩
  · exact h.unique
  · exact h.owned

lemma Linked.pageTable_write (h : Linked s) (hi : s.Present i) :
    (s.setTable (s.tableAddress i) (some t')).pageTable =
      Function.update s.pageTable i (some t') := by
  funext k
  by_cases hki : k = i
  · subst hki
    simp [State.pageTable, hi]
  · rw [Function.update_of_ne hki]
    unfold State.pageTable
    by_cases hk : s.Present k
    · have hne : s.tableAddress k ≠ s.tableAddress i := fun he => hki (h.unique k i hk hi he)
      simp [hk, hne]
    · simp [hk]

end Write

/-! ### Adding a table -/

/-- A fresh table becomes the table of directory index `i`. -/
def State.addTable (i : Index) (p : BitVec 64) (s : State) : State :=
  (s.allocate p).setDirectoryEntry i (p ||| PAGE_PRESENT_MASK)

section Add

variable (hp : p &&& 0xfff#64 = 0#64)
include hp

lemma present_addTable_self : (s.addTable i p).Present i :=
  State.present_setDirectoryEntry_self.mpr (present_or_of_aligned hp)

lemma tableAddress_addTable_self : (s.addTable i p).tableAddress i = p := by
  unfold State.addTable
  rw [State.tableAddress_setDirectoryEntry_self, address_or_of_aligned hp]

omit hp in
lemma present_addTable_of_ne (hji : j ≠ i) : (s.addTable i p).Present j ↔ s.Present j := by
  unfold State.addTable
  rw [State.present_setDirectoryEntry_of_ne hji, State.present_allocate]

omit hp in
lemma tableAddress_addTable_of_ne (hji : j ≠ i) :
    (s.addTable i p).tableAddress j = s.tableAddress j := by
  unfold State.addTable
  rw [State.tableAddress_setDirectoryEntry_of_ne hji, State.tableAddress_allocate]

omit hp in
lemma tables_addTable :
    (s.addTable i p).tables = Function.update s.tables p (some PageTable.zero) := rfl

omit hp in
lemma Linked.tableAddress_ne_fresh (h : Linked s) (hfresh : s.tables p = none) (hj : s.Present j) :
    s.tableAddress j ≠ p := by
  intro he
  obtain ⟨t, ht⟩ := h.live j hj
  rw [he, hfresh] at ht
  cases ht

lemma Linked.add (h : Linked s) (hi : ¬s.Present i) (hfresh : s.tables p = none) :
    Linked (s.addTable i p) := by
  have hne : ∀ {k}, s.Present k → k ≠ i := by
    intro k hk he
    exact hi (he ▸ hk)
  constructor
  · intro k hk
    by_cases hki : k = i
    · subst hki
      exact ⟨PageTable.zero, by simp [tables_addTable, tableAddress_addTable_self hp]⟩
    · rw [present_addTable_of_ne hki] at hk
      obtain ⟨t, ht⟩ := h.live k hk
      refine ⟨t, ?_⟩
      rw [tables_addTable, tableAddress_addTable_of_ne hki,
        Function.update_of_ne (h.tableAddress_ne_fresh hfresh hk), ht]
  · intro k l hk hl he
    by_cases hki : k = i
    · by_cases hli : l = i
      · rw [hki, hli]
      · rw [present_addTable_of_ne hli] at hl
        rw [hki, tableAddress_addTable_self hp, tableAddress_addTable_of_ne hli] at he
        exact absurd he.symm (h.tableAddress_ne_fresh hfresh hl)
    · rw [present_addTable_of_ne hki] at hk
      rw [tableAddress_addTable_of_ne hki] at he
      by_cases hli : l = i
      · rw [hli, tableAddress_addTable_self hp] at he
        exact absurd he (h.tableAddress_ne_fresh hfresh hk)
      · rw [present_addTable_of_ne hli] at hl
        rw [tableAddress_addTable_of_ne hli] at he
        exact h.unique k l hk hl he
  · intro q
    have hheap : q ∈ (s.addTable i p).heap ↔ q = p ∨ q ∈ s.heap := Finset.mem_insert
    rw [hheap, h.owned]
    constructor
    · rintro (rfl | ⟨k, hk, rfl⟩)
      · exact ⟨i, present_addTable_self hp, tableAddress_addTable_self hp⟩
      · exact ⟨k, (present_addTable_of_ne (hne hk)).mpr hk, tableAddress_addTable_of_ne (hne hk)⟩
    · rintro ⟨k, hk, rfl⟩
      by_cases hki : k = i
      · subst hki
        exact .inl (tableAddress_addTable_self hp)
      · rw [present_addTable_of_ne hki] at hk
        exact .inr ⟨k, hk, (tableAddress_addTable_of_ne hki).symm⟩

lemma Linked.pageTable_add (h : Linked s) (hfresh : s.tables p = none) :
    (s.addTable i p).pageTable = Function.update s.pageTable i (some PageTable.zero) := by
  funext k
  by_cases hki : k = i
  · subst hki
    rw [Function.update_self, pageTable_eq_some, tableAddress_addTable_self hp]
    exact ⟨present_addTable_self hp, by simp [tables_addTable]⟩
  · rw [Function.update_of_ne hki]
    unfold State.pageTable
    rw [tableAddress_addTable_of_ne hki, tables_addTable]
    simp only [present_addTable_of_ne hki]
    by_cases hk : s.Present k
    · rw [if_pos hk, if_pos hk, Function.update_of_ne (h.tableAddress_ne_fresh hfresh hk)]
    · rw [if_neg hk, if_neg hk]

end Add

/-! ### Dropping a table -/

/-- The table of directory index `i` is freed and its present bit cleared. -/
def State.dropTable (i : Index) (s : State) : State :=
  State.setDirectoryEntry i (s.cr3.entries i &&& ~~~PAGE_PRESENT_MASK)
    { s.setTable (s.tableAddress i) none with heap := s.heap.erase (s.tableAddress i) }

lemma not_present_dropTable_self : ¬(s.dropTable i).Present i := by
  unfold State.dropTable
  rw [State.present_setDirectoryEntry_self, absent_and_not]
  simp

lemma present_dropTable_of_ne (hji : j ≠ i) : (s.dropTable i).Present j ↔ s.Present j :=
  State.present_setDirectoryEntry_of_ne hji

lemma tableAddress_dropTable_of_ne (hji : j ≠ i) :
    (s.dropTable i).tableAddress j = s.tableAddress j :=
  State.tableAddress_setDirectoryEntry_of_ne hji

lemma tables_dropTable :
    (s.dropTable i).tables = Function.update s.tables (s.tableAddress i) none := rfl

lemma Linked.drop (h : Linked s) (hi : s.Present i) : Linked (s.dropTable i) := by
  have hne : ∀ {k}, (s.dropTable i).Present k → k ≠ i := by
    intro k hk he
    exact not_present_dropTable_self (he ▸ hk)
  have hold : ∀ {k}, (s.dropTable i).Present k → s.Present k := by
    intro k hk
    exact (present_dropTable_of_ne (hne hk)).mp hk
  constructor
  · intro k hk
    obtain ⟨t, ht⟩ := h.live k (hold hk)
    have haddress : s.tableAddress k ≠ s.tableAddress i :=
      fun he => hne hk (h.unique k i (hold hk) hi he)
    refine ⟨t, ?_⟩
    rw [tables_dropTable, tableAddress_dropTable_of_ne (hne hk), Function.update_of_ne haddress, ht]
  · intro k l hk hl he
    rw [tableAddress_dropTable_of_ne (hne hk), tableAddress_dropTable_of_ne (hne hl)] at he
    exact h.unique k l (hold hk) (hold hl) he
  · intro q
    have hheap : q ∈ (s.dropTable i).heap ↔ q ≠ s.tableAddress i ∧ q ∈ s.heap := Finset.mem_erase
    rw [hheap, h.owned]
    constructor
    · rintro ⟨hq, k, hk, rfl⟩
      have hki : k ≠ i := fun he => hq (by rw [he])
      exact ⟨k, (present_dropTable_of_ne hki).mpr hk, tableAddress_dropTable_of_ne hki⟩
    · rintro ⟨k, hk, rfl⟩
      rw [tableAddress_dropTable_of_ne (hne hk)]
      exact ⟨fun he => hne hk (h.unique k i (hold hk) hi he), k, hold hk, rfl⟩

lemma Linked.pageTable_drop (h : Linked s) (hi : s.Present i) :
    (s.dropTable i).pageTable = Function.update s.pageTable i none := by
  funext k
  by_cases hki : k = i
  · subst hki
    rw [Function.update_self]
    exact if_neg not_present_dropTable_self
  · rw [Function.update_of_ne hki]
    unfold State.pageTable
    rw [tableAddress_dropTable_of_ne hki, tables_dropTable]
    simp only [present_dropTable_of_ne hki]
    by_cases hk : s.Present k
    · have haddress : s.tableAddress k ≠ s.tableAddress i := fun he => hki (h.unique k i hk hi he)
      rw [if_pos hk, if_pos hk, Function.update_of_ne haddress]
    · rw [if_neg hk, if_neg hk]

end StyLinux.Paging
