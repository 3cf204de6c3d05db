import Mathlib.Tactic
import StyLinux.Lib.Run
import StyLinux.Paging.AddressSpace

/-!
# The life of the page tables

Over every run of calls from the empty directory, the tables in memory are those of the present
directory entries, one each. The address left behind in an entry that is no longer present may
be given to a later table, so the address alone does not say whether an entry is present.
-/

namespace StyLinux.Paging

open Lib

variable {s s' : State} {i : Index}

/-- A call with its result. -/
abbrev Event := Call × Result

def Step (s : State) (x : Event) (s' : State) : Prop := call s x.1 = .ok (x.2, s')

/-- What holds of the result of a call holds of the step that it makes. -/
lemma Step.of_call {c : Call} {r : Result} {P : Result → State → Prop} (hstep : Step s (c, r) s')
    (h : ∃ r s', call s c = .ok (r, s') ∧ P r s') : P r s' := by
  obtain ⟨r', s'', hcall, hs''⟩ := h
  obtain ⟨rfl, rfl⟩ := Prod.mk.inj (Except.ok.inj (hcall.symm.trans hstep))
  exact hs''

def Fresh (s : State) (x : Event) : Prop := MemoryFresh s x.1

lemma TablesOk.step (h : TablesOk s) {x : Event} (hfresh : Fresh s x) (hstep : Step s x s') :
    TablesOk s' := by
  obtain ⟨s'', hcall, hok, -⟩ := call_refines h hfresh
  exact hstep.of_call (P := fun _ s' => TablesOk s') ⟨_, s'', hcall, hok⟩

/-! ### The memory of the tables -/

/-- What a call may do to the directory and the tables. -/
inductive Rewrites (s : State) : State → Prop
  | same : Rewrites s s
  | write (i : Index) (hi : s.Present i) (t : PageTable) :
    Rewrites s (s.setTable (s.tableAddress i) (some t))
  | add (i : Index) (p : BitVec 64) (t : PageTable) :
    Rewrites s ((s.addTable i p).setTable p (some t))
  | drop (i : Index) (hi : s.Present i) (t : PageTable) :
    Rewrites s ((s.setTable (s.tableAddress i) (some t)).dropTable i)

section Calls

variable {memory : Option (BitVec 64)} {virtualBase physicalBase virtualAddress : BitVec 32}
  {accessMode : ReadWrite} {privileges : PrivilegeLevel}

lemma mapPage_rewrites (h : Linked s) : ∃ code s',
    mapPage memory virtualBase physicalBase accessMode privileges s = .ok (code, s') ∧
      Rewrites s s' := by
  by_cases haligned : getOffset virtualBase ≠ 0#32 ∨ getOffset physicalBase ≠ 0#32
  · exact ⟨-1, s, mapPage_of_misaligned haligned, .same⟩
  · obtain ⟨hv, hb⟩ : getOffset virtualBase = 0#32 ∧ getOffset physicalBase = 0#32 := by
      simpa using haligned
    by_cases hi : s.Present (getPageDirectoryIndex virtualBase)
    · obtain ⟨t, ht⟩ := h.live _ hi
      exact ⟨0, _, mapPage_of_present hv hb (pageTable_eq_some.mpr ⟨hi, ht⟩), .write _ hi _⟩
    · cases memory with
      | none => exact ⟨-1, s, mapPage_of_no_memory hv hb hi, .same⟩
      | some p => exact ⟨0, _, mapPage_of_fresh hv hb hi, .add _ p _⟩

lemma translatePageTable_rewrites (h : Linked s) : ∃ physicalAddress s',
    translatePageTable virtualAddress accessMode privileges s = .ok (physicalAddress, s') ∧
      Rewrites s s' := by
  cases he : s.entry (position virtualAddress) with
  | none => exact ⟨_, s, translatePageTable_of_absent h he, .same⟩
  | some e =>
    obtain ⟨t, ht, -, heq⟩ := translatePageTable_of_present accessMode privileges he
    cases hp : permits e accessMode privileges with
    | false => exact ⟨_, s, heq.trans (if_neg (by simp [hp])), .same⟩
    | true => exact ⟨_, _, heq.trans (if_pos hp), .write _ (pageTable_eq_some.mp ht).1 _⟩

lemma unmapPage_rewrites (h : Linked s) : ∃ code s',
    unmapPage virtualBase s = .ok (code, s') ∧ Rewrites s s' := by
  by_cases hv : getOffset virtualBase = 0#32
  · cases he : s.entry (position virtualBase) with
    | none => exact ⟨-1, s, unmapPage_of_absent h he, .same⟩
    | some e =>
      obtain ⟨t, ht, heq⟩ := unmapPage_of_present h hv he
      have hi := (pageTable_eq_some.mp ht).1
      by_cases hempty :
          (t.setEntry (getPageTableIndex virtualBase) (e &&& ~~~PAGE_PRESENT_MASK)).allUnmapped
      · exact ⟨0, _, heq.trans (if_pos hempty), .drop _ hi _⟩
      · exact ⟨0, _, heq.trans (if_neg hempty), .write _ hi _⟩
  · exact ⟨-1, s, unmapPage_of_misaligned hv, .same⟩

end Calls

lemma step_rewrites (h : Linked s) {x : Event} (hstep : Step s x s') : Rewrites s s' := by
  obtain ⟨c, r⟩ := x
  apply hstep.of_call (P := fun _ s' => Rewrites s s')
  cases c with
  | mapPage memory virtualBase physicalBase accessMode privileges =>
    obtain ⟨code, s'', hs'', hrewrites⟩ := mapPage_rewrites h
    exact ⟨_, s'', call_mapPage hs'', hrewrites⟩
  | translatePageTable virtualAddress accessMode privileges =>
    obtain ⟨physicalAddress, s'', hs'', hrewrites⟩ := translatePageTable_rewrites h
    exact ⟨_, s'', call_translatePageTable hs'', hrewrites⟩
  | unmapPage virtualBase =>
    obtain ⟨code, s'', hs'', hrewrites⟩ := unmapPage_rewrites h
    exact ⟨_, s'', call_unmapPage hs'', hrewrites⟩

/-- There is no table outside the allocated memory. -/
def Stored (s : State) : Prop := ∀ p t, s.tables p = some t → p ∈ s.heap

lemma stored_initial : Stored initial := by
  intro p t h
  simp [initial] at h

lemma Stored.rewrites (hs : Stored s) (h : Linked s) (hrewrites : Rewrites s s') : Stored s' := by
  have hwrite : ∀ {k}, s.Present k → ∀ u, Stored (s.setTable (s.tableAddress k) (some u)) := by
    intro k hk u q t hq
    rw [State.tables_setTable] at hq
    by_cases hqk : q = s.tableAddress k
    · exact (h.owned q).mpr ⟨k, hk, hqk.symm⟩
    · rw [Function.update_of_ne hqk] at hq
      exact hs q t hq
  cases hrewrites with
  | same => exact hs
  | write k hk u => exact hwrite hk u
  | add k p u =>
    intro q t hq
    change q ∈ insert p s.heap
    rw [State.tables_setTable, tables_addTable, Function.update_idem] at hq
    by_cases hqp : q = p
    · simp [hqp]
    · rw [Function.update_of_ne hqp] at hq
      exact Finset.mem_insert_of_mem (hs q t hq)
  | drop k hk u =>
    intro q t hq
    rw [tables_dropTable, State.tableAddress_setTable] at hq
    by_cases hqk : q = s.tableAddress k
    · rw [hqk, Function.update_self] at hq
      cases hq
    · rw [Function.update_of_ne hqk] at hq
      exact Finset.mem_erase_of_ne_of_mem hqk (hwrite hk u q t hq)

/-! ### The life cycle -/

namespace State

/-- There is a table at `p` with a present entry. -/
def InUse (s : State) (p : BitVec 64) : Prop :=
  ∃ t j, s.tables p = some t ∧ t.entries j &&& PAGE_PRESENT_MASK ≠ 0#32

end State

/-- An entry is present exactly if its address is that of a table in use which no other present
entry has; and the present entries correspond to the allocated tables, one to one. -/
structure LifeCycle (s : State) : Prop where
  present_iff : ∀ i, s.Present i ↔ s.InUse (s.tableAddress i) ∧
    ∀ k, k ≠ i → s.Present k → s.tableAddress k ≠ s.tableAddress i
  allocated : ∀ i, s.Present i → s.tableAddress i ∈ s.heap
  distinct : ∀ i k, s.Present i → s.Present k → s.tableAddress i = s.tableAddress k → i = k
  owned : ∀ p ∈ s.heap, ∃! i, s.Present i ∧ s.tableAddress i = p

lemma TablesOk.inUse (h : TablesOk s) (hi : s.Present i) : s.InUse (s.tableAddress i) := by
  obtain ⟨j, e, he⟩ := h.occupied i hi
  obtain ⟨t, ht, rfl, hpresent⟩ := entry_eq_some he
  exact ⟨t, j, (pageTable_eq_some.mp ht).2, hpresent⟩

lemma lifeCycle_of_tablesOk (h : TablesOk s) (hstored : Stored s) : LifeCycle s := by
  have hallocated : ∀ i, s.Present i → s.tableAddress i ∈ s.heap :=
    fun i hi => (h.owned _).mpr ⟨i, hi, rfl⟩
  constructor
  · intro i
    constructor
    · intro hi
      exact ⟨h.inUse hi, fun k hki hk he => hki (h.unique k i hk hi he)⟩
    · rintro ⟨⟨t, -, ht, -⟩, hother⟩
      obtain ⟨k, hk, he⟩ := (h.owned _).mp (hstored _ t ht)
      by_contra hi
      have hki : k ≠ i := fun hki => hi (hki ▸ hk)
      exact hother k hki hk he
  · exact hallocated
  · exact h.unique
  · intro p hp
    obtain ⟨i, hi, hip⟩ := (h.owned p).mp hp
    exact ⟨i, ⟨hi, hip⟩, fun k hk => h.unique k i hk.1 hi (hk.2.trans hip.symm)⟩

lemma tablesOk_stored_of_run {run : List (Event × State)} (hrun : IsRun Step initial run)
    (hfresh : StepsMeet Fresh initial run) :
    TablesOk (lastState initial run) ∧ Stored (lastState initial run) :=
  IsRun.invariant_last (I := fun s => TablesOk s ∧ Stored s)
    (fun _ _ _ h hc hstep =>
      ⟨h.1.step hc hstep, h.2.rewrites h.1.toLinked (step_rewrites h.1.toLinked hstep)⟩)
    ⟨tablesOk_initial, stored_initial⟩ hrun hfresh

/-- After every call the tables follow the directory, and no call touches memory that is not a
table or frees a table twice. -/
theorem lifeCycle_of_run {run : List (Event × State)} (hrun : IsRun Step initial run)
    (hfresh : StepsMeet Fresh initial run) :
    LifeCycle (lastState initial run) ∧ ∀ c, MemoryFresh (lastState initial run) c →
      ∃ x s', call (lastState initial run) c = .ok (x, s') := by
  obtain ⟨hok, hstored⟩ := tablesOk_stored_of_run hrun hfresh
  refine ⟨lifeCycle_of_tablesOk hok hstored, ?_⟩
  intro c hc
  obtain ⟨s', hcall, -⟩ := call_refines hok hc
  exact ⟨_, s', hcall⟩

/-! ### An address used twice -/

/-- The table of page 0 is freed, and its memory then holds the table of another page. -/
def reuseRun : List (Event × State) :=
  let p := 0x10000#64
  let PTE := newEntry 0x1000#32 .ACCESS_READ .USER_MODE
  let mapped := (initial.addTable 0 p).setTable p (some (PageTable.zero.setEntry 0 PTE))
  let unmapped := (mapped.setTable p
    (some ((PageTable.zero.setEntry 0 PTE).setEntry 0 (PTE &&& ~~~PAGE_PRESENT_MASK)))).dropTable 0
  [((.mapPage (some p) 0x0#32 0x1000#32 .ACCESS_READ .USER_MODE, .status 0), mapped),
    ((.unmapPage 0x0#32, .status 0), unmapped),
    ((.mapPage (some p) 0x400000#32 0x1000#32 .ACCESS_READ .USER_MODE, .status 0),
      (unmapped.addTable 1 p).setTable p (some (PageTable.zero.setEntry 0 PTE)))]

lemma allUnmapped_clear_only_entry (e : BitVec 32) (j : Index) :
    ((PageTable.zero.setEntry j e).setEntry j (e &&& ~~~PAGE_PRESENT_MASK)).allUnmapped := by
  rw [PageTable.allUnmapped_iff]
  intro k
  by_cases hk : k = j
  · subst hk
    rw [PageTable.entries_setEntry, Function.update_self]
    exact and_not_and_self
  · simp [hk]

lemma stepsMeet_fresh_reuseRun : StepsMeet Fresh initial reuseRun := by
  refine ⟨⟨by decide, rfl⟩, trivial, ⟨by decide, ?_⟩, trivial⟩
  rfl

lemma isRun_reuseRun : IsRun Step initial reuseRun := by
  have hv : getOffset 0x0#32 = 0#32 := by decide
  have hv' : getOffset 0x400000#32 = 0#32 := by decide
  have hb : getOffset 0x1000#32 = 0#32 := by decide
  have hfirst : call initial
      (.mapPage (some 0x10000#64) 0x0#32 0x1000#32 .ACCESS_READ .USER_MODE) = .ok (.status 0, _) :=
    call_mapPage (mapPage_of_fresh hv hb (by decide))
  have hok := tablesOk_initial.step stepsMeet_fresh_reuseRun.1 hfirst
  obtain ⟨t, ht, heq⟩ := unmapPage_of_present hok.toLinked hv
    (e := newEntry 0x1000#32 .ACCESS_READ .USER_MODE) rfl
  have hsame : t = PageTable.zero.setEntry 0 (newEntry 0x1000#32 .ACCESS_READ .USER_MODE) :=
    Option.some.inj (ht.symm.trans rfl)
  refine ⟨hfirst, call_unmapPage (heq.trans ?_),
    call_mapPage (mapPage_of_fresh hv' hb (by decide)), trivial⟩
  rw [hsame]
  exact if_pos (allUnmapped_clear_only_entry _ _)

theorem lifeCycle_reuseRun : LifeCycle (lastState initial reuseRun) ∧
    ∀ c, MemoryFresh (lastState initial reuseRun) c →
      ∃ x s', call (lastState initial reuseRun) c = .ok (x, s') :=
  lifeCycle_of_run isRun_reuseRun stepsMeet_fresh_reuseRun

/-- A directory entry may be absent although its address is that of a table in use. -/
theorem not_present_iff_inUse : ¬∀ run, IsRun Step initial run → StepsMeet Fresh initial run →
    ∀ i, (lastState initial run).Present i ↔
      (lastState initial run).InUse ((lastState initial run).tableAddress i) := by
  intro h
  have hrun := (h reuseRun isRun_reuseRun stepsMeet_fresh_reuseRun 0).mpr
    ⟨PageTable.zero.setEntry 0 (newEntry 0x1000#32 .ACCESS_READ .USER_MODE), 0, rfl, by decide⟩
  revert hrun
  decide

end StyLinux.Paging
