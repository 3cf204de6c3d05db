import Mathlib.Tactic
import StyLinux.Paging.Accessed

/-!
# The printed page tables

`main.c` prints the directory and its tables entry by entry. After every run of calls from the empty
directory the lines tell the address space: the mapped pages in the order of their numbers, each
once, with frame, rights and accessed bit, and no line about a table without pages.
-/

namespace StyLinux.Paging

open Lib

variable {s : State} {i j : Index} {t : PageTable}

/-! ### `_dumpPageDirectory` and `_dumpPageTable` -/

/-- A line, as the arguments of `printf`. -/
inductive Line
  | table (i : Index) (address : BitVec 64)
  | entry (i : Index) (address : BitVec 32) (accessed privileges rw : Char)
  deriving DecidableEq, Repr

/-- The line about an entry, if it is present. -/
def dumpEntry (entries : Index → BitVec 32) (i : Index) : Option Line :=
  if entries i &&& PAGE_PRESENT_MASK = 0#32 then none
  else
    let rw := if entries i &&& PAGE_READWRITE_MASK ≠ 0#32 then 'W' else ' '
    let privileges := if entries i &&& PAGE_USERMODE_MASK ≠ 0#32 then 'U' else ' '
    let accessed := if entries i &&& PAGE_ACCESSED_MASK ≠ 0#32 then 'A' else ' '
    let address := entries i &&& PAGE_TABLE_ADDRESS_MASK
    some (.entry i address accessed privileges rw)

def dumpPageTable (table : PageTable) : List Line :=
  (List.finRange ENTRIES_PER_TABLE).filterMap (dumpEntry table.entries)

/-- The loop of `_dumpPageDirectory` over the indices that are left. -/
def dumpLoop (s : State) : List Index → Except Fault (List Line)
  | [] => .ok []
  | i :: is =>
    if s.cr3.entries i &&& PAGE_PRESENT_MASK = 0#64 then dumpLoop s is
    else do
      let address := s.cr3.entries i &&& PAGE_DIRECTORY_ADDRESS_MASK
      let table ← s.table address
      let lines ← dumpLoop s is
      pure (.table i address :: dumpPageTable table ++ lines)

def dumpPageDirectory (s : State) : Except Fault (List Line) :=
  dumpLoop s (List.finRange ENTRIES_PER_TABLE)

/-! ### Pages -/

/-- A mapped page. -/
structure Page where
  number : PageNumber
  mapping : Mapping
  accessed : Bool
  deriving DecidableEq, Repr

/-- The pages that the lines tell of, below the last line about a table. -/
def readPages (directory : ℕ) : List Line → List Page
  | [] => []
  | .table i _ :: lines => readPages i lines
  | .entry j address accessed privileges rw :: lines =>
    ⟨BitVec.ofNat 20 (directory * 1024 + j), ⟨address, rw = 'W', privileges = 'U'⟩,
      accessed = 'A'⟩ :: readPages directory lines

open Classical in
/-- What is known of a page in the address space. -/
noncomputable def State.page (s : State) (n : PageNumber) : Option Page :=
  (s.addressSpace n).map fun mapping => ⟨n, mapping, s.Accessed n⟩

/-- The mapped pages in the order of their numbers. -/
noncomputable def State.pages (s : State) : List Page :=
  (List.range (1024 * 1024)).filterMap fun n => s.page (BitVec.ofNat 20 n)

def pageNumber (i j : Index) : PageNumber := BitVec.ofNat 20 (i * 1024 + j)

/-- The page that an entry is about. -/
def pageOfEntry (i j : Index) (e : BitVec 32) : Page :=
  ⟨pageNumber i j, mappingOf e, e &&& PAGE_ACCESSED_MASK ≠ 0#32⟩

lemma toNat_pageNumber (i j : Index) : (pageNumber i j).toNat = i * 1024 + j := by
  have hi : (i : ℕ) < 1024 := i.isLt
  have hj : (j : ℕ) < 1024 := j.isLt
  exact BitVec.toNat_ofNat _ _ ▸ Nat.mod_eq_of_lt (by omega)

lemma positionOf_pageNumber (i j : Index) : positionOf (pageNumber i j) = (i, j) := by
  have hnat := toNat_pageNumber i j
  have hj : (j : ℕ) < 1024 := j.isLt
  apply Prod.ext
  · apply Fin.ext
    change (pageNumber i j).toNat / 1024 = i
    omega
  · apply Fin.ext
    change (pageNumber i j).toNat % 1024 = j
    omega

lemma page_pageNumber (s : State) (i j : Index) :
    s.page (pageNumber i j) = (s.entry (i, j)).map (pageOfEntry i j) := by
  unfold State.page State.addressSpace
  rw [positionOf_pageNumber]
  cases he : s.entry (i, j) with
  | none => rfl
  | some e =>
    have haccessed : s.Accessed (pageNumber i j) ↔ e &&& PAGE_ACCESSED_MASK ≠ 0#32 := by
      unfold State.Accessed
      rw [positionOf_pageNumber, he]
      simp
    simp [pageOfEntry, haccessed]

/-- All numbers are passed when the upper and the lower half count up. -/
lemma filterMap_range_mul {α : Type} (f : ℕ → Option α) (m k : ℕ) :
    (List.range (m * k)).filterMap f = (List.range m).flatMap fun i =>
      (List.range k).filterMap fun j => f (i * k + j) := by
  induction m with
  | zero => simp
  | succ m ih =>
    rw [Nat.succ_mul, List.range_add, List.filterMap_append, ih, List.filterMap_map,
      List.range_succ, List.flatMap_append, List.flatMap_singleton]
    rfl

lemma pages_eq (s : State) : s.pages = (List.finRange ENTRIES_PER_TABLE).flatMap fun i =>
    (List.finRange ENTRIES_PER_TABLE).filterMap fun j =>
      (s.entry (i, j)).map (pageOfEntry i j) := by
  have hrange : List.range 1024 = (List.finRange ENTRIES_PER_TABLE).map Fin.val :=
    (List.map_coe_finRange_eq_range).symm
  calc s.pages
      = (List.range 1024).flatMap fun i => (List.range 1024).filterMap fun j =>
          s.page (BitVec.ofNat 20 (i * 1024 + j)) := filterMap_range_mul _ _ _
    _ = (List.finRange ENTRIES_PER_TABLE).flatMap fun i =>
          (List.finRange ENTRIES_PER_TABLE).filterMap fun j => s.page (pageNumber i j) := by
      simp only [hrange, List.flatMap_map, List.filterMap_map]
      rfl
    _ = _ := by simp only [page_pageNumber]

/-! ### The lines of a table -/

lemma dumpEntry_eq (entries : Index → BitVec 32) (j : Index) :
    dumpEntry entries j = (presentEntry (entries j)).map fun e =>
      Line.entry j (e &&& PAGE_TABLE_ADDRESS_MASK)
        (if e &&& PAGE_ACCESSED_MASK ≠ 0#32 then 'A' else ' ')
        (if e &&& PAGE_USERMODE_MASK ≠ 0#32 then 'U' else ' ')
        (if e &&& PAGE_READWRITE_MASK ≠ 0#32 then 'W' else ' ') := by
  unfold dumpEntry presentEntry
  split <;> rfl

/-- A flag is read back from its character. -/
lemma flag_eq (c : Char) (hc : ' ' ≠ c) (p : Prop) [Decidable p] :
    decide ((if p then c else ' ') = c) = decide p := by
  by_cases hp : p
  · simp [hp]
  · simp [hp, hc]

lemma readPages_entries (directory : Index) (t : PageTable) (js : List Index)
    (lines : List Line) :
    readPages directory (js.filterMap (dumpEntry t.entries) ++ lines) =
      (js.filterMap fun j => (t.lookup j).map (pageOfEntry directory j)) ++
        readPages directory lines := by
  induction js with
  | nil => rfl
  | cons j js ih =>
    rw [List.filterMap_cons, List.filterMap_cons, dumpEntry_eq, PageTable.lookup]
    cases he : presentEntry (t.entries j) with
    | none => exact ih
    | some e =>
      simp only [Option.map_some, List.cons_append, readPages, ih]
      rw [flag_eq _ (by decide), flag_eq _ (by decide), flag_eq _ (by decide)]
      rfl

lemma table_notMem_dumpPageTable {a : BitVec 64} : Line.table i a ∉ dumpPageTable t := by
  intro hmem
  obtain ⟨j, -, hj⟩ := List.mem_filterMap.mp hmem
  rw [dumpEntry_eq, Option.map_eq_some_iff] at hj
  obtain ⟨e, -, he⟩ := hj
  cases he

/-! ### The lines of the directory -/

/-- The tables of the present entries are in memory. -/
def Live (s : State) : Prop := ∀ i, s.Present i → ∃ t, s.tables (s.tableAddress i) = some t

lemma entry_of_not_present (hi : ¬s.Present i) : s.entry (i, j) = none := by
  apply State.entry_of_pageTable_none
  exact if_neg hi

lemma exists_dumpLoop (hlive : Live s) (is : List Index) : ∃ lines, dumpLoop s is = .ok lines ∧
    (∀ directory, readPages directory lines = is.flatMap fun i =>
      (List.finRange ENTRIES_PER_TABLE).filterMap fun j =>
        (s.entry (i, j)).map (pageOfEntry i j)) ∧
    ∀ i a, Line.table i a ∈ lines ↔ i ∈ is ∧ s.Present i ∧ s.tableAddress i = a := by
  induction is with
  | nil => exact ⟨[], rfl, fun _ => rfl, by simp⟩
  | cons i is ih =>
    obtain ⟨lines, hloop, hpages, htables⟩ := ih
    by_cases hi : s.Present i
    · obtain ⟨t, ht⟩ := hlive i hi
      refine ⟨.table i (s.tableAddress i) :: dumpPageTable t ++ lines, ?_, ?_, ?_⟩
      · rw [dumpLoop, if_neg hi]
        change (s.table (s.tableAddress i) >>= _) = _
        rw [State.table_eq_ok _ _ ht, hloop]
        rfl
      · intro directory
        have hentry : ∀ j, s.entry (i, j) = t.lookup j := fun j =>
          State.entry_of_pageTable (pageTable_eq_some.mpr ⟨hi, ht⟩)
        rw [List.cons_append, readPages, dumpPageTable, readPages_entries, hpages,
          List.flatMap_cons]
        simp only [hentry]
      · intro k a
        rw [List.cons_append, List.mem_cons, List.mem_append, htables, List.mem_cons]
        constructor
        · rintro (heq | hmem | ⟨hk, hpresent, ha⟩)
          · obtain ⟨rfl, rfl⟩ := Line.table.inj heq
            exact ⟨.inl rfl, hi, rfl⟩
          · exact absurd hmem table_notMem_dumpPageTable
          · exact ⟨.inr hk, hpresent, ha⟩
        · rintro ⟨rfl | hk, hpresent, rfl⟩
          · exact .inl rfl
          · exact .inr (.inr ⟨hk, hpresent, rfl⟩)
    · refine ⟨lines, ?_, ?_, ?_⟩
      · rw [dumpLoop, if_pos (not_not.mp hi)]
        exact hloop
      · intro directory
        rw [hpages, List.flatMap_cons]
        simp [entry_of_not_present hi]
      · intro k a
        rw [htables, List.mem_cons]
        constructor
        · exact fun ⟨hk, hrest⟩ => ⟨.inr hk, hrest⟩
        · rintro ⟨rfl | hk, hpresent, ha⟩
          · exact absurd hpresent hi
          · exact ⟨hk, hpresent, ha⟩

/-! ### Runs -/

/-- The lines read back are the mapped pages, and there is a line for a table exactly if one of its
pages is mapped. -/
structure Tells (s : State) (lines : List Line) : Prop where
  pages : readPages 0 lines = s.pages
  tables : ∀ i, (∃ a, Line.table i a ∈ lines) ↔ ∃ n, (positionOf n).1 = i ∧ s.Mapped n

lemma TablesOk.present_iff_mapped (h : TablesOk s) (i : Index) :
    s.Present i ↔ ∃ n, (positionOf n).1 = i ∧ s.Mapped n := by
  constructor
  · intro hi
    obtain ⟨j, e, he⟩ := h.occupied i hi
    refine ⟨pageNumber i j, ?_, e, ?_⟩
    · rw [positionOf_pageNumber]
    · rw [positionOf_pageNumber]
      exact he
  · rintro ⟨n, rfl, e, he⟩
    by_contra hi
    rw [show positionOf n = ((positionOf n).1, (positionOf n).2) from rfl,
      entry_of_not_present hi] at he
    cases he

lemma TablesOk.exists_tells (h : TablesOk s) :
    ∃ lines, dumpPageDirectory s = .ok lines ∧ Tells s lines := by
  obtain ⟨lines, hloop, hpages, htables⟩ :=
    exists_dumpLoop h.live (List.finRange ENTRIES_PER_TABLE)
  refine ⟨lines, hloop, (hpages 0).trans (pages_eq s).symm, fun i => ?_⟩
  rw [← h.present_iff_mapped]
  constructor
  · rintro ⟨a, ha⟩
    exact ((htables i a).mp ha).2.1
  · exact fun hi => ⟨_, (htables i _).mpr ⟨List.mem_finRange i, hi, rfl⟩⟩

/-- After every run from the empty directory the dump meets a table behind every present entry, and
its lines tell the address space. -/
theorem dumpPageDirectory_of_run {run : List (Event × State)} (hrun : IsRun Step initial run)
    (hfresh : StepsMeet Fresh initial run) :
    ∃ lines, dumpPageDirectory (lastState initial run) = .ok lines ∧
      Tells (lastState initial run) lines :=
  (tablesOk_stored_of_run hrun hfresh).1.exists_tells

theorem dumpPageDirectory_reuseRun :
    ∃ lines, dumpPageDirectory (lastState initial reuseRun) = .ok lines ∧
      Tells (lastState initial reuseRun) lines :=
  dumpPageDirectory_of_run isRun_reuseRun stepsMeet_fresh_reuseRun

end StyLinux.Paging
