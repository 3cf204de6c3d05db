import Mathlib.Tactic
import StyLinux.Paging.AddressSpace

/-!
# Who owns a page table

A caller may install a directory whose tables it owns itself, as `main.c` does with static ones.
No entry records who allocated a table, so `unmapPage` also passes such a table to `free` when
its last page is unmapped.
-/

namespace StyLinux.Paging

open Lib

variable {static : BitVec 64 → Option PageTable} {s s' : State} {i : Index} {p : BitVec 64}
  {t t' : PageTable}

/-- The state after `setPageDirectory(directory)`, with the tables of the caller in memory. -/
def install (directory : PageDirectory) (static : BitVec 64 → Option PageTable) : State :=
  setPageDirectory directory { initial with tables := static }

namespace PageTable

/-- Entry `j` is present, and no other one is. -/
def OnlyEntry (t : PageTable) (j : Index) : Prop :=
  t.lookup j ≠ none ∧ ∀ k, k ≠ j → t.lookup k = none

lemma allUnmapped_clear_iff {j : Index} {e : BitVec 32} :
    (t.setEntry j (e &&& ~~~PAGE_PRESENT_MASK)).allUnmapped ↔ ∀ k, k ≠ j → t.lookup k = none := by
  rw [allUnmapped_iff_lookup, lookup_setEntry]
  constructor
  · intro h k hk
    simpa [hk] using h k
  · intro h k
    by_cases hk : k = j
    · subst hk
      rw [Function.update_self, presentEntry_eq_none]
      exact and_not_and_self
    · rw [Function.update_of_ne hk]
      exact h k hk

end PageTable

/-- The call unmaps the only page of a table that belongs to the caller. -/
def EmptiesStatic (static : BitVec 64 → Option PageTable) (s : State) : Call → Prop
  | .unmapPage virtualBase => PageAligned virtualBase ∧
      static (s.tableAddress (getPageDirectoryIndex virtualBase)) ≠ none ∧
      ∃ t, s.pageTable (getPageDirectoryIndex virtualBase) = some t ∧
        t.OnlyEntry (getPageTableIndex virtualBase)
  | _ => False

/-! ### The two kinds of tables -/

/-- The tables in memory are those of the caller and those of the heap, and no table is both. -/
structure Owned (static : BitVec 64 → Option PageTable) (s : State) : Prop where
  kept : ∀ p, static p ≠ none → s.tables p ≠ none
  apart : ∀ p, static p ≠ none → p ∉ s.heap
  heap : ∀ p, s.tables p ≠ none → static p = none → p ∈ s.heap

lemma owned_install (directory : PageDirectory) : Owned static (install directory static) where
  kept _ hp := hp
  apart p _ := Finset.notMem_empty p
  heap _ hp hnone := absurd hnone hp

lemma Owned.mem_heap_iff (h : Owned static s) (hp : s.tables p ≠ none) :
    p ∈ s.heap ↔ static p = none :=
  ⟨fun hheap => not_not.mp fun hne => h.apart p hne hheap, h.heap p hp⟩

lemma Owned.write (h : Owned static s) (hp : s.tables p ≠ none) :
    Owned static (s.setTable p (some t)) := by
  refine ⟨?_, h.apart, ?_⟩
  · intro q hq
    rw [State.tables_setTable]
    by_cases hqp : q = p
    · simp [hqp]
    · rw [Function.update_of_ne hqp]
      exact h.kept q hq
  · intro q hq
    rw [State.tables_setTable] at hq
    by_cases hqp : q = p
    · subst hqp
      exact h.heap q hp
    · rw [Function.update_of_ne hqp] at hq
      exact h.heap q hq

lemma Owned.add (h : Owned static s) (hfresh : s.tables p = none) :
    Owned static ((s.addTable i p).setTable p (some t)) := by
  have hstatic : ∀ q, static q ≠ none → q ≠ p := by
    rintro q hq rfl
    exact h.kept q hq hfresh
  refine ⟨?_, ?_, ?_⟩
  · intro q hq
    rw [State.tables_setTable, tables_addTable, Function.update_idem,
      Function.update_of_ne (hstatic q hq)]
    exact h.kept q hq
  · intro q hq
    change q ∉ insert p s.heap
    rw [Finset.mem_insert, not_or]
    exact ⟨hstatic q hq, h.apart q hq⟩
  · intro q hq hnone
    change q ∈ insert p s.heap
    rw [State.tables_setTable, tables_addTable, Function.update_idem] at hq
    by_cases hqp : q = p
    · exact Finset.mem_insert.mpr (.inl hqp)
    · rw [Function.update_of_ne hqp] at hq
      exact Finset.mem_insert_of_mem (h.heap q hq hnone)

lemma Owned.drop (h : Owned static s) (hp : s.tableAddress i ∈ s.heap) :
    Owned static (s.dropTable i) := by
  refine ⟨?_, ?_, ?_⟩
  · intro q hq
    have hqp : q ≠ s.tableAddress i := by
      rintro rfl
      exact h.apart _ hq hp
    rw [tables_dropTable, Function.update_of_ne hqp]
    exact h.kept q hq
  · intro q hq hheap
    exact h.apart q hq (Finset.mem_of_mem_erase hheap)
  · intro q hq hnone
    rw [tables_dropTable] at hq
    by_cases hqp : q = s.tableAddress i
    · rw [hqp, Function.update_self] at hq
      exact absurd rfl hq
    · rw [Function.update_of_ne hqp] at hq
      exact Finset.mem_erase_of_ne_of_mem hqp (h.heap q hq hnone)

/-! ### Calls in any state -/

/-- What a call that returns does to the tables, whatever the directory is. -/
inductive Changes (s : State) : Call → State → Prop
  | same (c : Call) : Changes s c s
  | write (c : Call) (p : BitVec 64) (t : PageTable) : s.tables p ≠ none →
      Changes s c (s.setTable p (some t))
  | add (i : Index) (p : BitVec 64) (t : PageTable) (virtualBase physicalBase : BitVec 32)
      (accessMode : ReadWrite) (privileges : PrivilegeLevel) :
      Changes s (.mapPage (some p) virtualBase physicalBase accessMode privileges)
        ((s.addTable i p).setTable p (some t))
  | drop (c : Call) (i : Index) (t : PageTable) : s.tables (s.tableAddress i) ≠ none →
      s.tableAddress i ∈ s.heap →
      Changes s c ((s.setTable (s.tableAddress i) (some t)).dropTable i)

lemma Owned.changes (h : Owned static s) {c : Call} (hfresh : MemoryFresh s c)
    (hc : Changes s c s') : Owned static s' := by
  cases hc with
  | same _ => exact h
  | write _ p t hp => exact h.write hp
  | add i p t _ _ _ _ => exact h.add hfresh.2
  | drop _ i t hp hheap => exact (h.write hp).drop (by simpa using hheap)

section Calls

variable {memory : Option (BitVec 64)} {virtualBase physicalBase virtualAddress : BitVec 32}
  {accessMode : ReadWrite} {privileges : PrivilegeLevel} {code : ℤ}

lemma pageTable_cases (s : State) (i : Index) :
    ¬s.Present i ∨ (s.Present i ∧ s.tables (s.tableAddress i) = none) ∨
      ∃ t, s.pageTable i = some t := by
  by_cases hi : s.Present i
  · cases ht : s.tables (s.tableAddress i) with
    | none => exact .inr (.inl ⟨hi, rfl⟩)
    | some t => exact .inr (.inr ⟨t, pageTable_eq_some.mpr ⟨hi, ht⟩⟩)
  · exact .inl hi

lemma mapPage_of_missing (hv : getOffset virtualBase = 0#32) (hb : getOffset physicalBase = 0#32)
    (hi : s.Present (getPageDirectoryIndex virtualBase))
    (ht : s.tables (s.tableAddress (getPageDirectoryIndex virtualBase)) = none) :
    mapPage memory virtualBase physicalBase accessMode privileges s =
      .error (.access (s.tableAddress (getPageDirectoryIndex virtualBase))) := by
  unfold mapPage
  rw [if_neg (by simp [hv, hb])]
  simp only []
  rw [if_neg hi]
  change (s.table (s.tableAddress _) >>= _) = _
  rw [State.table_eq_error _ _ ht]
  rfl

lemma translatePageTable_of_missing (hi : s.Present (getPageDirectoryIndex virtualAddress))
    (ht : s.tables (s.tableAddress (getPageDirectoryIndex virtualAddress)) = none) :
    translatePageTable virtualAddress accessMode privileges s =
      .error (.access (s.tableAddress (getPageDirectoryIndex virtualAddress))) := by
  unfold translatePageTable
  simp only []
  rw [if_neg hi]
  change (s.table (s.tableAddress _) >>= _) = _
  rw [State.table_eq_error _ _ ht]
  rfl

lemma unmapPage_of_missing (hv : getOffset virtualBase = 0#32)
    (hi : s.Present (getPageDirectoryIndex virtualBase))
    (ht : s.tables (s.tableAddress (getPageDirectoryIndex virtualBase)) = none) :
    unmapPage virtualBase s =
      .error (.access (s.tableAddress (getPageDirectoryIndex virtualBase))) := by
  unfold unmapPage
  rw [if_neg (by simp [hv])]
  simp only []
  rw [if_neg hi]
  change (s.table (s.tableAddress _) >>= _) = _
  rw [State.table_eq_error _ _ ht]
  rfl

/-- A call that does not free a table of the caller: it returns, or it comes upon a directory
entry without a table. -/
def NoBadFree (s : State) (c : Call) : Prop :=
  (∃ r s', call s c = .ok (r, s') ∧ Changes s c s') ∨ ∃ p, call s c = .error (.access p)

lemma mapPage_noBadFree :
    NoBadFree s (.mapPage memory virtualBase physicalBase accessMode privileges) := by
  by_cases haligned : getOffset virtualBase ≠ 0#32 ∨ getOffset physicalBase ≠ 0#32
  · exact .inl ⟨_, s, call_mapPage (mapPage_of_misaligned haligned), .same _⟩
  · obtain ⟨hv, hb⟩ : getOffset virtualBase = 0#32 ∧ getOffset physicalBase = 0#32 := by
      simpa using haligned
    rcases pageTable_cases s (getPageDirectoryIndex virtualBase) with hi | ⟨hi, ht⟩ | ⟨t, ht⟩
    · cases memory with
      | none => exact .inl ⟨_, s, call_mapPage (mapPage_of_no_memory hv hb hi), .same _⟩
      | some p => exact .inl ⟨_, _, call_mapPage (mapPage_of_fresh hv hb hi), .add _ p _ _ _ _ _⟩
    · refine .inr ⟨s.tableAddress (getPageDirectoryIndex virtualBase), ?_⟩
      simp only [call, mapPage_of_missing hv hb hi ht]
      rfl
    · exact .inl ⟨_, _, call_mapPage (mapPage_of_present hv hb ht),
        .write _ _ _ (by simp [(pageTable_eq_some.mp ht).2])⟩

lemma translatePageTable_noBadFree :
    NoBadFree s (.translatePageTable virtualAddress accessMode privileges) := by
  rcases pageTable_cases s (getPageDirectoryIndex virtualAddress) with hi | ⟨hi, ht⟩ | ⟨t, ht⟩
  · exact .inl ⟨_, s, call_translatePageTable (translatePageTable_of_not_present hi), .same _⟩
  · refine .inr ⟨s.tableAddress (getPageDirectoryIndex virtualAddress), ?_⟩
    simp only [call, translatePageTable_of_missing hi ht]
    rfl
  · have heq := translatePageTable_of_table accessMode privileges ht
    simp only [] at heq
    split_ifs at heq
    · exact .inl ⟨_, s, call_translatePageTable heq, .same _⟩
    · exact .inl ⟨_, _, call_translatePageTable heq,
        .write _ _ _ (by simp [(pageTable_eq_some.mp ht).2])⟩
    · exact .inl ⟨_, s, call_translatePageTable heq, .same _⟩

/-- `unmapPage` frees a table of the caller when it unmaps the only page of one. -/
lemma unmapPage_cases (h : Owned static s) :
    ¬EmptiesStatic static s (.unmapPage virtualBase) ∧ NoBadFree s (.unmapPage virtualBase) ∨
    EmptiesStatic static s (.unmapPage virtualBase) ∧
      ∃ p, call s (.unmapPage virtualBase) = .error (.free p) := by
  by_cases hv : getOffset virtualBase = 0#32
  · rcases pageTable_cases s (getPageDirectoryIndex virtualBase) with hi | ⟨hi, ht⟩ | ⟨t, ht⟩
    · refine .inl ⟨?_, .inl ⟨_, s, call_unmapPage (unmapPage_of_not_present hv hi), .same _⟩⟩
      rintro ⟨-, -, t, ht, -⟩
      exact hi (pageTable_eq_some.mp ht).1
    · refine .inl ⟨?_, .inr ⟨s.tableAddress (getPageDirectoryIndex virtualBase), ?_⟩⟩
      · rintro ⟨-, -, t, ht', -⟩
        rw [(pageTable_eq_some.mp ht').2] at ht
        cases ht
      · simp only [call, unmapPage_of_missing hv hi ht]
        rfl
    · have hlive : s.tables (s.tableAddress (getPageDirectoryIndex virtualBase)) ≠ none := by
        simp [(pageTable_eq_some.mp ht).2]
      have hempties : EmptiesStatic static s (.unmapPage virtualBase) ↔
          s.tableAddress (getPageDirectoryIndex virtualBase) ∉ s.heap ∧
            t.OnlyEntry (getPageTableIndex virtualBase) := by
        rw [h.mem_heap_iff hlive]
        constructor
        · rintro ⟨-, hstatic, t', ht', honly⟩
          obtain rfl : t = t' := Option.some.inj (ht.symm.trans ht')
          exact ⟨hstatic, honly⟩
        · rintro ⟨hstatic, honly⟩
          exact ⟨getOffset_eq_zero.mp hv, hstatic, t, ht, honly⟩
      have heq := unmapPage_of_table hv ht
      simp only [PageTable.allUnmapped_clear_iff] at heq
      rw [hempties]
      split_ifs at heq with habsent honly hheap
      · refine .inl ⟨?_, .inl ⟨_, s, call_unmapPage heq, .same _⟩⟩
        rintro ⟨-, hpresent, -⟩
        exact hpresent (presentEntry_eq_none.mpr habsent)
      · refine .inl ⟨fun hnot => hnot.1 hheap, .inl ⟨_, _, call_unmapPage heq, ?_⟩⟩
        exact .drop _ _ _ hlive hheap
      · refine .inr ⟨⟨hheap, ?_, honly⟩, s.tableAddress (getPageDirectoryIndex virtualBase), ?_⟩
        · exact fun hnone => habsent (presentEntry_eq_none.mp hnone)
        · simp only [call, heq]
          rfl
      · refine .inl ⟨fun hnot => honly hnot.2.2, .inl ⟨_, _, call_unmapPage heq, ?_⟩⟩
        exact .write _ _ _ hlive
  · refine .inl ⟨?_, .inl ⟨_, s, call_unmapPage (unmapPage_of_misaligned hv), .same _⟩⟩
    rintro ⟨haligned, -⟩
    exact hv (getOffset_eq_zero.mpr haligned)

lemma call_cases (h : Owned static s) (c : Call) :
    ¬EmptiesStatic static s c ∧ NoBadFree s c ∨
      EmptiesStatic static s c ∧ ∃ p, call s c = .error (.free p) := by
  cases c with
  | mapPage memory virtualBase physicalBase accessMode privileges =>
    exact .inl ⟨id, mapPage_noBadFree⟩
  | translatePageTable virtualAddress accessMode privileges =>
    exact .inl ⟨id, translatePageTable_noBadFree⟩
  | unmapPage virtualBase => exact unmapPage_cases h

end Calls

lemma NoBadFree.ne_free {c : Call} (h : NoBadFree s c) (p : BitVec 64) :
    call s c ≠ .error (.free p) := by
  rcases h with ⟨r, s', hok, -⟩ | ⟨q, herror⟩
  · simp [hok]
  · simp [herror]

lemma Owned.call (h : Owned static s) {c : Call} {r : Result} (hfresh : MemoryFresh s c)
    (hok : call s c = .ok (r, s')) : Owned static s' := by
  rcases call_cases h c with ⟨-, ⟨r', s'', hok', hchanges⟩ | ⟨q, herror⟩⟩ | ⟨-, q, herror⟩
  · rw [hok] at hok'
    cases hok'
    exact h.changes hfresh hchanges
  · rw [hok] at herror
    cases herror
  · rw [hok] at herror
    cases herror

lemma call_ne_free_iff (h : Owned static s) (c : Call) :
    (∀ p, call s c ≠ .error (.free p)) ↔ ¬EmptiesStatic static s c := by
  rcases call_cases h c with ⟨hnot, hfine⟩ | ⟨hempties, p, hfree⟩
  · exact iff_of_true hfine.ne_free hnot
  · exact iff_of_false (fun hne => hne p hfree) (not_not.mpr hempties)

/-- From any directory with any tables of the caller, a sequence of calls frees only tables that
`mapPage` has allocated exactly if no call unmaps the only page of a table of the caller. -/
theorem frees_owned_iff (directory : PageDirectory) (static : BitVec 64 → Option PageTable)
    {calls : List Call} (hfresh : Admits call MemoryFresh (install directory static) calls) :
    (∀ p, exec call (install directory static) calls ≠ .error (.free p)) ↔
      Admits call (fun s c => ¬EmptiesStatic static s c) (install directory static) calls := by
  have hrule := exec_ne_error_iff (J := Owned static) (D := fun s c => ¬EmptiesStatic static s c)
    (F := fun e => ∃ p, e = .free p) (fun s c r s' hs hc hok => hs.call hc hok)
    (fun s c hs _ => by simpa using call_ne_free_iff hs c) (owned_install directory) hfresh
  rw [← hrule]
  simp

/-! ### A static table -/

/-- The address of `pageTable1` of `main.c`. -/
def pageTable1 : BitVec 64 := 0x10000#64

/-- A table with one user page. -/
def staticTable : PageTable :=
  PageTable.zero.setEntry 0 (newEntry 0x02000000#32 .ACCESS_WRITE .USER_MODE)

def staticTables : BitVec 64 → Option PageTable :=
  fun p => if p = pageTable1 then some staticTable else none

def basePageDirectory : PageDirectory :=
  ⟨Function.update (fun _ => 0#64) 0 (pageTable1 ||| PAGE_PRESENT_MASK)⟩

lemma pageTable_static : (install basePageDirectory staticTables).pageTable 0 = some staticTable :=
  rfl

lemma emptiesStatic_static :
    EmptiesStatic staticTables (install basePageDirectory staticTables) (.unmapPage 0#32) := by
  refine ⟨by decide, by decide, staticTable, pageTable_static, ?_, ?_⟩
  · decide
  · intro k hk
    have hk' : k ≠ 0 := hk
    simp [staticTable, hk']

/-- Unmapping page 0 frees the static table. -/
theorem not_frees_owned_static : ¬∀ calls,
    Admits call MemoryFresh (install basePageDirectory staticTables) calls → ∀ p,
      exec call (install basePageDirectory staticTables) calls ≠ .error (.free p) := by
  intro h
  have hfresh : Admits call MemoryFresh (install basePageDirectory staticTables)
      [.unmapPage 0#32] := ⟨trivial, fun _ _ _ => trivial⟩
  rcases call_cases (owned_install basePageDirectory) (.unmapPage 0#32) with
    ⟨hnot, -⟩ | ⟨-, p, hfree⟩
  · exact hnot emptiesStatic_static
  · exact h _ hfresh p (exec_cons_error hfree)

/-- A second page is mapped in the static table first. -/
def twoPageCalls : List Call :=
  [.mapPage none 0x1000#32 0x02008000#32 .ACCESS_WRITE .USER_MODE, .unmapPage 0#32]

def twoPageTable : PageTable :=
  staticTable.setEntry 1 (newEntry 0x02008000#32 .ACCESS_WRITE .USER_MODE)

lemma admits_twoPageCalls : Admits call (fun s c => ¬EmptiesStatic staticTables s c)
    (install basePageDirectory staticTables) twoPageCalls := by
  refine ⟨id, ?_⟩
  intro r s' hok
  refine ⟨?_, fun _ _ _ => trivial⟩
  have hmap : call (install basePageDirectory staticTables)
      (.mapPage none 0x1000#32 0x02008000#32 .ACCESS_WRITE .USER_MODE) =
        .ok (.status 0, (install basePageDirectory staticTables).setTable pageTable1
          (some twoPageTable)) :=
    call_mapPage (mapPage_of_present (by decide) (by decide) pageTable_static)
  rw [hok] at hmap
  cases hmap
  rintro ⟨-, -, t, ht, -, honly⟩
  obtain rfl : twoPageTable = t := Option.some.inj ht
  have hsecond := honly 1 (by decide)
  revert hsecond
  decide

theorem frees_owned_twoPageCalls :
    Admits call MemoryFresh (install basePageDirectory staticTables) twoPageCalls ∧
      ∀ p, exec call (install basePageDirectory staticTables) twoPageCalls ≠ .error (.free p) := by
  have hfresh : Admits call MemoryFresh (install basePageDirectory staticTables) twoPageCalls :=
    ⟨trivial, fun _ _ _ => ⟨trivial, fun _ _ _ => trivial⟩⟩
  exact ⟨hfresh, (frees_owned_iff basePageDirectory staticTables hfresh).mpr admits_twoPageCalls⟩

end StyLinux.Paging
