import Mathlib.Tactic
import StyLinux.Paging.Tables

/-!
# What the calls do to the entries

The present table entries form a partial function of the position in the directory and in the
table. Every call that succeeds changes this function at the position of its address only, and
keeps a table for a directory entry exactly as long as one of its entries is present.
-/

namespace StyLinux.Paging

open Lib

variable {s : State} {i j : Index} {t : PageTable}

def presentEntry (entry : BitVec 32) : Option (BitVec 32) :=
  if entry &&& PAGE_PRESENT_MASK = 0#32 then none else some entry

lemma presentEntry_eq_none {entry : BitVec 32} :
    presentEntry entry = none ↔ entry &&& PAGE_PRESENT_MASK = 0#32 := by
  simp [presentEntry]

lemma presentEntry_of_present {entry : BitVec 32} (h : entry &&& PAGE_PRESENT_MASK ≠ 0#32) :
    presentEntry entry = some entry := if_neg h

namespace PageTable

def lookup (t : PageTable) (j : Index) : Option (BitVec 32) := presentEntry (t.entries j)

@[simp] lemma lookup_zero (j : Index) : zero.lookup j = none := by
  simp [lookup, presentEntry]

@[simp] lemma lookup_setEntry (entry : BitVec 32) :
    (t.setEntry j entry).lookup = Function.update t.lookup j (presentEntry entry) := by
  funext k
  by_cases hk : k = j
  · subst hk
    simp [lookup]
  · simp [lookup, hk]

lemma not_allUnmapped_setEntry {entry : BitVec 32} (h : entry &&& PAGE_PRESENT_MASK ≠ 0#32) :
    ¬(t.setEntry j entry).allUnmapped := by
  rw [allUnmapped_iff, not_forall]
  exact ⟨j, by simpa using h⟩

lemma allUnmapped_iff_lookup : t.allUnmapped ↔ ∀ j, t.lookup j = none := by
  simp [allUnmapped_iff, lookup, presentEntry_eq_none]

end PageTable

def position (address : BitVec 32) : Index × Index :=
  (getPageDirectoryIndex address, getPageTableIndex address)

namespace State

def entry (s : State) (x : Index × Index) : Option (BitVec 32) :=
  match s.pageTable x.1 with
  | none => none
  | some t => t.lookup x.2

lemma entry_of_pageTable {x : Index × Index} (h : s.pageTable x.1 = some t) :
    s.entry x = t.lookup x.2 := by
  simp [entry, h]

lemma entry_of_pageTable_none {x : Index × Index} (h : s.pageTable x.1 = none) :
    s.entry x = none := by
  simp [entry, h]

end State

/-- The tables are linked to the directory and none of them is empty. -/
structure TablesOk (s : State) : Prop extends Linked s where
  occupied : ∀ i, s.Present i → ∃ j e, s.entry (i, j) = some e

lemma tablesOk_initial : TablesOk initial := by
  constructor
  · exact linked_initial
  · intro i hi
    simp [State.Present, initial] at hi

@[simp] lemma entry_initial (x : Index × Index) : initial.entry x = none := by
  simp [State.entry]

lemma TablesOk.pageTable_eq_none_iff (h : TablesOk s) :
    s.pageTable i = none ↔ ∀ j, s.entry (i, j) = none := by
  constructor
  · intro hi j
    exact State.entry_of_pageTable_none hi
  · intro hall
    rw [h.pageTable_eq_none]
    intro hi
    obtain ⟨j, e, he⟩ := h.occupied i hi
    rw [hall j] at he
    cases he

lemma Linked.present_of_pageTable_eq {s' : State} (hs : Linked s) (hs' : Linked s')
    (h : s'.pageTable i = s.pageTable i) (hi : s'.Present i) : s.Present i := by
  by_contra hn
  rw [hs.pageTable_eq_none.mpr hn] at h
  exact hs'.pageTable_eq_none.mp h hi

/-- A table that has not changed is still nonempty. -/
lemma TablesOk.occupied_of_pageTable_eq {s' : State} (hs : TablesOk s) (hs' : Linked s')
    (h : s'.pageTable i = s.pageTable i) (hi : s'.Present i) :
    ∃ j e, s'.entry (i, j) = some e := by
  obtain ⟨j, e, he⟩ := hs.occupied i (hs.present_of_pageTable_eq hs' h hi)
  refine ⟨j, e, ?_⟩
  rw [← he]
  unfold State.entry
  rw [h]

/-- `s'` differs from `s` in the entry at `x`, which is now `e`. -/
structure Edited (s s' : State) (x : Index × Index) (e : Option (BitVec 32)) : Prop where
  ok : TablesOk s'
  entry : s'.entry = Function.update s.entry x e

/-- Writing an entry to the table of index `i`, or to a zeroed one if there was none. -/
lemma entry_of_setEntry {s' : State} {e : BitVec 32} (ht : (s.pageTable i).getD .zero = t)
    (h : s'.pageTable = Function.update s.pageTable i (some (t.setEntry j e))) :
    s'.entry = Function.update s.entry (i, j) (presentEntry e) := by
  funext x
  obtain ⟨k, l⟩ := x
  by_cases hk : k = i
  · subst hk
    rw [State.entry_of_pageTable (t := t.setEntry j e) (by simp [h])]
    have hold : s.entry (k, l) = t.lookup l := by
      cases hp : s.pageTable k with
      | none =>
        rw [hp] at ht
        rw [State.entry_of_pageTable_none hp, ← ht]
        simp
      | some u =>
        rw [hp] at ht
        rw [State.entry_of_pageTable hp, ← ht]
        rfl
    by_cases hl : l = j
    · subst hl
      simp
    · rw [PageTable.lookup_setEntry, Function.update_of_ne (by simpa using hl),
        Function.update_of_ne (by simpa using hl), hold]
  · rw [Function.update_of_ne (by simp [hk])]
    simp [State.entry, h, hk]

lemma TablesOk.edited_of_setEntry {s' : State} {e : BitVec 32} (hs : TablesOk s)
    (hs' : Linked s') (ht : (s.pageTable i).getD .zero = t)
    (h : s'.pageTable = Function.update s.pageTable i (some (t.setEntry j e)))
    (hne : ¬(t.setEntry j e).allUnmapped) : Edited s s' (i, j) (presentEntry e) := by
  refine ⟨⟨hs', ?_⟩, entry_of_setEntry ht h⟩
  intro k hk
  by_cases hki : k = i
  · subst hki
    have hk' : s'.pageTable k = some (t.setEntry j e) := by simp [h]
    rw [PageTable.allUnmapped_iff_lookup, not_forall] at hne
    obtain ⟨l, hl⟩ := hne
    obtain ⟨d, hd⟩ := Option.ne_none_iff_exists'.mp hl
    exact ⟨l, d, (State.entry_of_pageTable hk').trans hd⟩
  · exact hs.occupied_of_pageTable_eq hs' (by rw [h, Function.update_of_ne hki]) hk

lemma TablesOk.edited_of_drop {s' : State} {e : BitVec 32} (hs : TablesOk s) (hs' : Linked s')
    (ht : s.pageTable i = some t) (h : s'.pageTable = Function.update s.pageTable i none)
    (hempty : (t.setEntry j e).allUnmapped) : Edited s s' (i, j) none := by
  have hi' : s'.pageTable i = none := by simp [h]
  constructor
  · refine ⟨hs', ?_⟩
    intro k hk
    have hki : k ≠ i := by
      intro hki
      exact hs'.pageTable_eq_none.mp (hki ▸ hi') hk
    exact hs.occupied_of_pageTable_eq hs' (by rw [h, Function.update_of_ne hki]) hk
  · funext x
    obtain ⟨k, l⟩ := x
    by_cases hki : k = i
    · subst hki
      rw [State.entry_of_pageTable_none hi']
      by_cases hl : l = j
      · simp [hl]
      · have hlookup := PageTable.allUnmapped_iff_lookup.mp hempty l
        rw [PageTable.lookup_setEntry, Function.update_of_ne hl] at hlookup
        rw [Function.update_of_ne (by simp [hl]), State.entry_of_pageTable ht, hlookup]
    · rw [Function.update_of_ne (by simp [hki])]
      unfold State.entry
      rw [h, Function.update_of_ne hki]

/-! ### The entry written by `mapPage` -/

section NewEntry

variable {physicalBase : BitVec 32} (accessMode : ReadWrite) (privileges : PrivilegeLevel)

def newFlags (accessMode : ReadWrite) (privileges : PrivilegeLevel) : BitVec 32 :=
  newEntry 0#32 accessMode privileges

lemma newEntry_eq : newEntry physicalBase accessMode privileges =
    physicalBase ||| newFlags accessMode privileges := by
  unfold newFlags newEntry
  cases accessMode <;> cases privileges <;> simp [BitVec.or_assoc]

variable (hb : physicalBase &&& 0xfff#32 = 0#32)
include hb

lemma newEntry_and_flag {f : BitVec 32} (hf : 0xfff#32 &&& f = f) :
    newEntry physicalBase accessMode privileges &&& f = newFlags accessMode privileges &&& f := by
  rw [newEntry_eq]
  exact or_and_flag hb hf _

lemma newEntry_present :
    newEntry physicalBase accessMode privileges &&& PAGE_PRESENT_MASK ≠ 0#32 := by
  rw [newEntry_and_flag accessMode privileges hb (by decide)]
  cases accessMode <;> cases privileges <;> decide

lemma newEntry_frame :
    newEntry physicalBase accessMode privileges &&& PAGE_TABLE_ADDRESS_MASK = physicalBase := by
  rw [newEntry_eq]
  apply or_and_not hb
  cases accessMode <;> cases privileges <;> decide

end NewEntry

/-! ### Offsets -/

lemma getOffset_eq_and (address : BitVec 32) : getOffset address = address &&& 0xfff#32 := by
  apply BitVec.eq_of_toNat_eq
  have hmask : OFFSET_MASK.toNat = 4095 := by decide
  simp only [getOffset, BitVec.toNat_setWidth, BitVec.toNat_and, hmask, BitVec.toNat_ofNat]
  rw [Nat.mod_eq_of_lt (a := address.toNat) (by have := address.isLt; omega)]
  exact Nat.mod_eq_of_lt (lt_of_le_of_lt Nat.and_le_left address.isLt)

/-! ### The calls -/

section Calls

variable {memory : Option (BitVec 64)} {virtualBase physicalBase : BitVec 32}
  {accessMode : ReadWrite} {privileges : PrivilegeLevel}

lemma mapPage_of_misaligned
    (h : getOffset virtualBase ≠ 0#32 ∨ getOffset physicalBase ≠ 0#32) :
    mapPage memory virtualBase physicalBase accessMode privileges s = .ok (-1, s) :=
  if_pos h

lemma mapPage_of_no_memory (hv : getOffset virtualBase = 0#32)
    (hb : getOffset physicalBase = 0#32)
    (hi : ¬s.Present (getPageDirectoryIndex virtualBase)) :
    mapPage none virtualBase physicalBase accessMode privileges s = .ok (-1, s) := by
  unfold mapPage
  rw [if_neg (by simp [hv, hb]), if_pos (not_not.mp hi)]

lemma mapPage_of_present (hv : getOffset virtualBase = 0#32)
    (hb : getOffset physicalBase = 0#32)
    (ht : s.pageTable (getPageDirectoryIndex virtualBase) = some t) :
    mapPage memory virtualBase physicalBase accessMode privileges s =
      .ok (0, s.setTable (s.tableAddress (getPageDirectoryIndex virtualBase))
        (some (t.setEntry (getPageTableIndex virtualBase)
          (newEntry physicalBase accessMode privileges)))) := by
  obtain ⟨hi, hlive⟩ := pageTable_eq_some.mp ht
  unfold mapPage
  rw [if_neg (by simp [hv, hb]), if_neg hi]
  change (s.table (s.tableAddress _) >>= _) = _
  rw [State.table_eq_ok _ _ hlive]
  rfl

lemma mapPage_of_fresh {p : BitVec 64} (hv : getOffset virtualBase = 0#32)
    (hb : getOffset physicalBase = 0#32)
    (hi : ¬s.Present (getPageDirectoryIndex virtualBase)) :
    mapPage (some p) virtualBase physicalBase accessMode privileges s =
      .ok (0, (s.addTable (getPageDirectoryIndex virtualBase) p).setTable p
        (some (PageTable.zero.setEntry (getPageTableIndex virtualBase)
          (newEntry physicalBase accessMode privileges)))) := by
  have htable : (s.addTable (getPageDirectoryIndex virtualBase) p).tables p =
      some PageTable.zero := by
    simp [tables_addTable]
  unfold mapPage
  rw [if_neg (by simp [hv, hb]), if_pos (not_not.mp hi)]
  change ((s.addTable _ p).table p >>= _) = _
  rw [State.table_eq_ok _ _ htable]
  rfl

lemma mapPage_edits (hs : TablesOk s) (hv : getOffset virtualBase = 0#32)
    (hb : getOffset physicalBase = 0#32)
    (hfresh : MemoryFresh s (.mapPage memory virtualBase physicalBase accessMode privileges))
    (hroom : s.Present (getPageDirectoryIndex virtualBase) ∨ memory ≠ none) :
    ∃ s', mapPage memory virtualBase physicalBase accessMode privileges s = .ok (0, s') ∧
      Edited s s' (position virtualBase) (some (newEntry physicalBase accessMode privileges)) := by
  have he : newEntry physicalBase accessMode privileges &&& PAGE_PRESENT_MASK ≠ 0#32 :=
    newEntry_present accessMode privileges (by rw [← getOffset_eq_and, hb])
  rw [← presentEntry_of_present he]
  by_cases hi : s.Present (getPageDirectoryIndex virtualBase)
  · obtain ⟨t, hlive⟩ := hs.live _ hi
    have ht : s.pageTable (getPageDirectoryIndex virtualBase) = some t :=
      pageTable_eq_some.mpr ⟨hi, hlive⟩
    refine ⟨_, mapPage_of_present hv hb ht, ?_⟩
    exact hs.edited_of_setEntry (hs.write _) (by rw [ht]; rfl) (hs.pageTable_write _ hi)
      (PageTable.not_allUnmapped_setEntry he)
  · cases memory with
    | none => simp [hi] at hroom
    | some p =>
      obtain ⟨hp, hfree⟩ := hfresh
      have hadd := hs.add hp hi hfree
      have haddress := tableAddress_addTable_self (s := s)
        (i := getPageDirectoryIndex virtualBase) hp
      have hwrite := hadd.write (i := getPageDirectoryIndex virtualBase)
        (PageTable.zero.setEntry (getPageTableIndex virtualBase)
          (newEntry physicalBase accessMode privileges))
      have htables := hadd.pageTable_write
        (PageTable.zero.setEntry (getPageTableIndex virtualBase)
          (newEntry physicalBase accessMode privileges)) (present_addTable_self hp)
      rw [haddress] at hwrite htables
      rw [hs.pageTable_add hp hfree, Function.update_idem] at htables
      refine ⟨_, mapPage_of_fresh hv hb hi, ?_⟩
      apply hs.edited_of_setEntry hwrite _ htables (PageTable.not_allUnmapped_setEntry he)
      rw [hs.pageTable_eq_none.mpr hi]
      rfl

lemma entry_eq_some {e : BitVec 32} (h : s.entry (i, j) = some e) :
    ∃ t, s.pageTable i = some t ∧ t.entries j = e ∧ e &&& PAGE_PRESENT_MASK ≠ 0#32 := by
  cases ht : s.pageTable i with
  | none =>
    rw [State.entry_of_pageTable_none ht] at h
    cases h
  | some t =>
    rw [State.entry_of_pageTable ht] at h
    unfold PageTable.lookup presentEntry at h
    by_cases hp : t.entries j &&& PAGE_PRESENT_MASK = 0#32
    · rw [if_pos hp] at h
      cases h
    · rw [if_neg hp, Option.some.injEq] at h
      exact ⟨t, rfl, h, h ▸ hp⟩

lemma entry_eq_none (h : s.entry (i, j) = none) (ht : s.pageTable i = some t) :
    t.entries j &&& PAGE_PRESENT_MASK = 0#32 := by
  rw [State.entry_of_pageTable ht] at h
  exact presentEntry_eq_none.mp h

variable {virtualAddress : BitVec 32} {e : BitVec 32}

lemma translatePageTable_of_not_present (hi : ¬s.Present (getPageDirectoryIndex virtualAddress)) :
    translatePageTable virtualAddress accessMode privileges s = .ok (INVALID_ADDRESS, s) :=
  if_pos (not_not.mp hi)

/-- What `translatePageTable` does once it has found the table. -/
lemma translatePageTable_of_table (accessMode : ReadWrite) (privileges : PrivilegeLevel)
    (ht : s.pageTable (getPageDirectoryIndex virtualAddress) = some t) :
    translatePageTable virtualAddress accessMode privileges s =
      let e := t.entries (getPageTableIndex virtualAddress)
      if e &&& PAGE_PRESENT_MASK = 0#32 then .ok (INVALID_ADDRESS, s)
      else if permits e accessMode privileges then
        .ok ((e &&& PAGE_TABLE_ADDRESS_MASK) + getOffset virtualAddress,
          s.setTable (s.tableAddress (getPageDirectoryIndex virtualAddress))
            (some (t.setEntry (getPageTableIndex virtualAddress) (e ||| PAGE_ACCESSED_MASK))))
      else .ok (INVALID_ADDRESS, s) := by
  obtain ⟨hi, hlive⟩ := pageTable_eq_some.mp ht
  unfold translatePageTable
  simp only []
  rw [if_neg hi]
  change (s.table (s.tableAddress _) >>= _) = _
  rw [State.table_eq_ok _ _ hlive]
  change (if _ then _ else _) = _
  by_cases hpresent :
      t.entries (getPageTableIndex virtualAddress) &&& PAGE_PRESENT_MASK = 0#32
  · rw [if_pos hpresent, if_pos hpresent]
    rfl
  · rw [if_neg hpresent, if_neg hpresent]
    cases hp : permits (t.entries (getPageTableIndex virtualAddress)) accessMode privileges with
    | false => rfl
    | true => rfl

lemma translatePageTable_of_absent (hs : Linked s) (h : s.entry (position virtualAddress) = none) :
    translatePageTable virtualAddress accessMode privileges s = .ok (INVALID_ADDRESS, s) := by
  by_cases hi : s.Present (getPageDirectoryIndex virtualAddress)
  · obtain ⟨t, hlive⟩ := hs.live _ hi
    have ht := pageTable_eq_some.mpr ⟨hi, hlive⟩
    rw [translatePageTable_of_table _ _ ht]
    exact if_pos (entry_eq_none h ht)
  · exact translatePageTable_of_not_present hi

lemma translatePageTable_of_present (accessMode : ReadWrite) (privileges : PrivilegeLevel)
    (h : s.entry (position virtualAddress) = some e) :
    ∃ t, s.pageTable (getPageDirectoryIndex virtualAddress) = some t ∧
      t.entries (getPageTableIndex virtualAddress) = e ∧
      translatePageTable virtualAddress accessMode privileges s =
        if permits e accessMode privileges then
          .ok ((e &&& PAGE_TABLE_ADDRESS_MASK) + getOffset virtualAddress,
            s.setTable (s.tableAddress (getPageDirectoryIndex virtualAddress))
              (some (t.setEntry (getPageTableIndex virtualAddress) (e ||| PAGE_ACCESSED_MASK))))
        else .ok (INVALID_ADDRESS, s) := by
  obtain ⟨t, ht, rfl, hpresent⟩ := entry_eq_some h
  refine ⟨t, ht, rfl, ?_⟩
  rw [translatePageTable_of_table _ _ ht]
  exact if_neg hpresent

lemma translatePageTable_of_denied (h : s.entry (position virtualAddress) = some e)
    (hdenied : permits e accessMode privileges = false) :
    translatePageTable virtualAddress accessMode privileges s = .ok (INVALID_ADDRESS, s) := by
  obtain ⟨t, -, -, heq⟩ := translatePageTable_of_present accessMode privileges h
  rw [heq, if_neg (by simp [hdenied])]

lemma translatePageTable_edits (hs : TablesOk s) (h : s.entry (position virtualAddress) = some e)
    (hpermit : permits e accessMode privileges = true) :
    ∃ s', translatePageTable virtualAddress accessMode privileges s =
        .ok ((e &&& PAGE_TABLE_ADDRESS_MASK) + getOffset virtualAddress, s') ∧
      Edited s s' (position virtualAddress) (some (e ||| PAGE_ACCESSED_MASK)) := by
  obtain ⟨t, ht, hte, heq⟩ := translatePageTable_of_present accessMode privileges h
  obtain ⟨-, -, -, hpresent⟩ := entry_eq_some h
  have he : (e ||| PAGE_ACCESSED_MASK) &&& PAGE_PRESENT_MASK ≠ 0#32 := by
    rw [or_and_of_disjoint (by decide)]
    exact hpresent
  refine ⟨_, heq.trans (if_pos hpermit), ?_⟩
  rw [← presentEntry_of_present he]
  exact hs.edited_of_setEntry (hs.write _) (by rw [ht]; rfl)
    (hs.pageTable_write _ (pageTable_eq_some.mp ht).1) (PageTable.not_allUnmapped_setEntry he)

lemma unmapPage_of_misaligned (h : getOffset virtualBase ≠ 0#32) :
    unmapPage virtualBase s = .ok (-1, s) := if_pos h

lemma unmapPage_of_not_present (hv : getOffset virtualBase = 0#32)
    (hi : ¬s.Present (getPageDirectoryIndex virtualBase)) :
    unmapPage virtualBase s = .ok (-1, s) := by
  unfold unmapPage
  rw [if_neg (by simp [hv])]
  exact if_pos (not_not.mp hi)

/-- What `unmapPage` does once it has found the table, whoever has allocated it. -/
lemma unmapPage_of_table (hv : getOffset virtualBase = 0#32)
    (ht : s.pageTable (getPageDirectoryIndex virtualBase) = some t) :
    unmapPage virtualBase s =
      let p := s.tableAddress (getPageDirectoryIndex virtualBase)
      let e := t.entries (getPageTableIndex virtualBase)
      let t' := t.setEntry (getPageTableIndex virtualBase) (e &&& ~~~PAGE_PRESENT_MASK)
      if e &&& PAGE_PRESENT_MASK = 0#32 then .ok (-1, s)
      else if t'.allUnmapped then
        if p ∈ s.heap then
          .ok (0, (s.setTable p (some t')).dropTable (getPageDirectoryIndex virtualBase))
        else .error (.free p)
      else .ok (0, s.setTable p (some t')) := by
  obtain ⟨hi, hlive⟩ := pageTable_eq_some.mp ht
  unfold unmapPage
  simp only []
  rw [if_neg (by simp [hv]), if_neg hi]
  change (s.table (s.tableAddress _) >>= _) = _
  rw [State.table_eq_ok _ _ hlive]
  change (if _ then _ else _) = _
  by_cases hpresent :
      t.entries (getPageTableIndex virtualBase) &&& PAGE_PRESENT_MASK = 0#32
  · rw [if_pos hpresent, if_pos hpresent]
    rfl
  · rw [if_neg hpresent, if_neg hpresent]
    split
    · change (State.free (s.tableAddress _) _ >>= _) = _
      unfold State.free
      rw [State.heap_setTable]
      split <;> rfl
    · rfl

lemma unmapPage_of_absent (hs : Linked s) (h : s.entry (position virtualBase) = none) :
    unmapPage virtualBase s = .ok (-1, s) := by
  by_cases hv : getOffset virtualBase = 0#32
  · by_cases hi : s.Present (getPageDirectoryIndex virtualBase)
    · obtain ⟨t, hlive⟩ := hs.live _ hi
      have ht := pageTable_eq_some.mpr ⟨hi, hlive⟩
      rw [unmapPage_of_table hv ht]
      exact if_pos (entry_eq_none h ht)
    · exact unmapPage_of_not_present hv hi
  · exact unmapPage_of_misaligned hv

/-- What `unmapPage` does to a present entry: its table loses the entry, and is dropped if no
entry is left. -/
lemma unmapPage_of_present (hs : Linked s) (hv : getOffset virtualBase = 0#32)
    (h : s.entry (position virtualBase) = some e) :
    ∃ t, s.pageTable (getPageDirectoryIndex virtualBase) = some t ∧
      unmapPage virtualBase s =
        let t' := t.setEntry (getPageTableIndex virtualBase) (e &&& ~~~PAGE_PRESENT_MASK)
        let s' := s.setTable (s.tableAddress (getPageDirectoryIndex virtualBase)) (some t')
        if t'.allUnmapped then .ok (0, s'.dropTable (getPageDirectoryIndex virtualBase))
        else .ok (0, s') := by
  obtain ⟨t, ht, rfl, hpresent⟩ := entry_eq_some h
  obtain ⟨hi, -⟩ := pageTable_eq_some.mp ht
  have howned : s.tableAddress (getPageDirectoryIndex virtualBase) ∈ s.heap :=
    (hs.owned _).mpr ⟨_, hi, rfl⟩
  refine ⟨t, ht, ?_⟩
  rw [unmapPage_of_table hv ht]
  simp only [if_neg hpresent, if_pos howned]

lemma unmapPage_edits (hs : TablesOk s) (hv : getOffset virtualBase = 0#32)
    (h : s.entry (position virtualBase) = some e) :
    ∃ s', unmapPage virtualBase s = .ok (0, s') ∧ Edited s s' (position virtualBase) none := by
  obtain ⟨t, ht, heq⟩ := unmapPage_of_present hs.toLinked hv h
  obtain ⟨hi, -⟩ := pageTable_eq_some.mp ht
  have hcleared : presentEntry (e &&& ~~~PAGE_PRESENT_MASK) = none :=
    presentEntry_eq_none.mpr and_not_and_self
  have hwrite := hs.write (i := getPageDirectoryIndex virtualBase)
    (t.setEntry (getPageTableIndex virtualBase) (e &&& ~~~PAGE_PRESENT_MASK))
  have htables := hs.pageTable_write
    (t.setEntry (getPageTableIndex virtualBase) (e &&& ~~~PAGE_PRESENT_MASK)) hi
  by_cases hempty :
      (t.setEntry (getPageTableIndex virtualBase) (e &&& ~~~PAGE_PRESENT_MASK)).allUnmapped
  · refine ⟨_, heq.trans (if_pos hempty), ?_⟩
    apply hs.edited_of_drop (hwrite.drop hi) ht _ hempty
    rw [hwrite.pageTable_drop hi, htables, Function.update_idem]
  · refine ⟨_, heq.trans (if_neg hempty), ?_⟩
    rw [← hcleared]
    exact hs.edited_of_setEntry hwrite (by rw [ht]; rfl) htables hempty

/-! ### The calls and their results -/

lemma mapPage_result (hs : TablesOk s)
    (hfresh : MemoryFresh s (.mapPage memory virtualBase physicalBase accessMode privileges)) :
    ∃ code s', mapPage memory virtualBase physicalBase accessMode privileges s = .ok (code, s') ∧
      (code = -1 ∧ s' = s ∨ code = 0 ∧ getOffset physicalBase = 0#32 ∧
        Edited s s' (position virtualBase)
          (some (newEntry physicalBase accessMode privileges))) := by
  by_cases haligned : getOffset virtualBase ≠ 0#32 ∨ getOffset physicalBase ≠ 0#32
  · exact ⟨-1, s, mapPage_of_misaligned haligned, .inl ⟨rfl, rfl⟩⟩
  · obtain ⟨hv, hb⟩ : getOffset virtualBase = 0#32 ∧ getOffset physicalBase = 0#32 := by
      simpa using haligned
    by_cases hroom : s.Present (getPageDirectoryIndex virtualBase) ∨ memory ≠ none
    · obtain ⟨s', hs', hedit⟩ := mapPage_edits hs hv hb hfresh hroom
      exact ⟨0, s', hs', .inr ⟨rfl, hb, hedit⟩⟩
    · rw [not_or, not_not] at hroom
      obtain ⟨hi, rfl⟩ := hroom
      exact ⟨-1, s, mapPage_of_no_memory hv hb hi, .inl ⟨rfl, rfl⟩⟩

lemma unmapPage_result (hs : TablesOk s) (virtualBase : BitVec 32) :
    ∃ code s', unmapPage virtualBase s = .ok (code, s') ∧
      (code = -1 ∧ s' = s ∨ code = 0 ∧ Edited s s' (position virtualBase) none) := by
  by_cases hv : getOffset virtualBase = 0#32
  · cases he : s.entry (position virtualBase) with
    | none => exact ⟨-1, s, unmapPage_of_absent hs.toLinked he, .inl ⟨rfl, rfl⟩⟩
    | some e =>
      obtain ⟨s', hs', hedit⟩ := unmapPage_edits hs hv he
      exact ⟨0, s', hs', .inr ⟨rfl, hedit⟩⟩
  · exact ⟨-1, s, unmapPage_of_misaligned hv, .inl ⟨rfl, rfl⟩⟩

/-- The entry of the page of `virtualAddress` is present and permits the access. -/
def Passes (s : State) (virtualAddress : BitVec 32) (accessMode : ReadWrite)
    (privileges : PrivilegeLevel) : Prop :=
  ∃ e, s.entry (position virtualAddress) = some e ∧ permits e accessMode privileges = true

lemma translatePageTable_of_not_passes (hs : TablesOk s)
    (h : ¬Passes s virtualAddress accessMode privileges) :
    translatePageTable virtualAddress accessMode privileges s = .ok (INVALID_ADDRESS, s) := by
  cases he : s.entry (position virtualAddress) with
  | none => exact translatePageTable_of_absent hs.toLinked he
  | some e =>
    have hdenied : permits e accessMode privileges = false := by
      by_contra hp
      exact h ⟨e, he, by simpa using hp⟩
    exact translatePageTable_of_denied he hdenied

section Call

variable {code : ℤ} {s' : State} {physicalAddress : BitVec 32}

lemma call_mapPage (h : mapPage memory virtualBase physicalBase accessMode privileges s =
    .ok (code, s')) :
    call s (.mapPage memory virtualBase physicalBase accessMode privileges) =
      .ok (.status code, s') := by
  simp only [call, h]
  rfl

lemma call_translatePageTable (h : translatePageTable virtualAddress accessMode privileges s =
    .ok (physicalAddress, s')) :
    call s (.translatePageTable virtualAddress accessMode privileges) =
      .ok (.address physicalAddress, s') := by
  simp only [call, h]
  rfl

lemma call_unmapPage (h : unmapPage virtualBase s = .ok (code, s')) :
    call s (.unmapPage virtualBase) = .ok (.status code, s') := by
  simp only [call, h]
  rfl

end Call

end Calls

end StyLinux.Paging
