import Mathlib.Data.List.Perm.Basic
import Mathlib.Data.List.TakeWhile
import StyLinux.Lib.SortedForest
import StyLinux.Ls.Links

/-!
# The sorted listing

`list` of `vika10/assignment10-templates/p1/testing.c` reads all the names of a directory first and
sorts them by their bytes.
-/

namespace StyLinux.Ls.Testing

open Lib

def PATH_MAX : ℕ := 4096

def S_IFREG : BitVec 32 := 0x8000#32

/-- The answers to the calls: `realloc` for the given number of names and `strdup` may fail while
a directory is read. -/
structure System where
  opendir : Path → Option (List Name)
  realloc : Path → ℕ → Bool
  strdup : Path → Name → Bool
  lstat : Path → Option Stat
  readlink : Path → Option (List CChar)

/-! ### Entries -/

/-- The first character of `mode_str` in `get_mode_string`. -/
def modeType (st : Stat) : CChar :=
  if st.filetype = S_IFDIR then 100#8
  else if st.filetype = S_IFLNK then 108#8
  else if st.filetype = S_IFIFO then 112#8
  else 45#8

def getModeString (st : Stat) : List CChar := modeType st :: permissions st

/-- What `snprintf` stores for `"%s/%s"`. -/
def fullpath (path : Path) (name : Name) : Path := (namePath path name).take (PATH_MAX - 1)

/-- The string in `typestr`. -/
def marker (sys : System) (fullpath : Path) (st : Stat) : List CChar :=
  if st.filetype = S_IFDIR then [47#8]
  else if st.filetype = S_IFIFO then [124#8]
  else if st.filetype = S_IFLNK then
    match sys.readlink fullpath with
    | none => []
    | some target => ARROW ++ ((target.take (PATH_MAX - 1)).takeWhile (· ≠ 0#8)).take 1000
  else if st.filetype = S_IFREG ∧ st.st_mode &&& 0x049#32 ≠ 0#32 then [42#8]
  else []

/-- The array `typestr` of 1024 bytes, which is zero at first, once a string has been stored. -/
def typestr (string : List CChar) : List CChar :=
  string ++ List.replicate (1024 - string.length) 0#8

def entryLine (sys : System) (fullpath : Path) (st : Stat) : Line where
  size := st.st_size.toNat
  mode := getModeString st
  name := fullpath
  typestr := typestr (marker sys fullpath st)

/-! ### Names -/

/-- The difference of the first bytes that differ. -/
def strcmp : List CChar → List CChar → ℤ
  | [], [] => 0
  | [], d :: _ => -d.toNat
  | c :: _, [] => c.toNat
  | c :: cs, d :: ds => if c = d then strcmp cs ds else c.toNat - d.toNat

def compareNames (a b : Name) : ℤ := strcmp a.bytes b.bytes

def qsort (names : List Name) : List Name :=
  names.insertionSort fun a b => compareNames a b ≤ 0

/-- The loop over `readdir`, which has stored `count` names. -/
def readNames (sys : System) (path : Path) (count : ℕ) : List Name → Option (List Name)
  | [] => some []
  | d_name :: entries =>
    if d_name = DOT ∨ d_name = DOT_DOT then readNames sys path count entries
    else if sys.realloc path (count + 1) ∧ sys.strdup path d_name then
      (readNames sys path (count + 1) entries).map (List.cons d_name)
    else none

/-! ### The listing -/

/-- The loop over the sorted names, where `descend` lists a subdirectory. -/
def entryLoop (sys : System) (descend : Path → ℤ → Except Fault (ℤ × List Line)) (path : Path)
    (recursive : ℤ) : List Name → Except Fault (List Line)
  | [] => .ok []
  | name :: names =>
    match sys.lstat (fullpath path name) with
    | none => entryLoop sys descend path recursive names
    | some st =>
      let descent :=
        if recursive ≠ 0 ∧ st.filetype = S_IFDIR ∧ st.filetype ≠ S_IFLNK then
          descend (fullpath path name) recursive
        else .ok (0, [])
      do
        let (_, below) ← descent
        let rest ← entryLoop sys descend path recursive names
        .ok (entryLine sys (fullpath path name) st :: (below ++ rest))

/-- `list(path, recursive)`, with a bound on the depth of the recursion. -/
def list (sys : System) : ℕ → Path → ℤ → Except Fault (ℤ × List Line)
  | 0, _, _ => .error .outOfFuel
  | fuel + 1, path, recursive =>
    match sys.opendir path with
    | none => .ok (-1, [])
    | some entries =>
      match readNames sys path 0 entries with
      | none => .ok (-1, [])
      | some names => do
        let lines ← entryLoop sys (list sys fuel) path recursive (qsort names)
        .ok (0, lines)

/-! ### The order of the names -/

/-- Names are ordered as strings of unsigned bytes. -/
instance : LinearOrder Name :=
  LinearOrder.lift' (fun name => name.bytes.map BitVec.toNat) fun _ _ h =>
    Name.ext (List.map_injective_iff.mpr (fun _ _ => BitVec.eq_of_toNat_eq) h)

lemma strcmp_pos_iff {cs ds : List CChar} (hcs : 0#8 ∉ cs) :
    0 < strcmp cs ds ↔ ds.map BitVec.toNat < cs.map BitVec.toNat := by
  induction cs generalizing ds with
  | nil =>
    cases ds with
    | nil => simp [strcmp]
    | cons d ds => simp [strcmp]
  | cons c cs ih =>
    rw [List.mem_cons, not_or] at hcs
    cases ds with
    | nil =>
      have hc : 0 < c.toNat := by
        rw [Nat.pos_iff_ne_zero]
        exact fun h => hcs.1 (BitVec.eq_of_toNat_eq h.symm)
      simp [strcmp, hc]
    | cons d ds =>
      rw [List.map_cons, List.map_cons, List.cons_lt_cons_iff, strcmp]
      by_cases hcd : c = d
      · simp [hcd, ih hcs.2]
      · have hne : d.toNat ≠ c.toNat := fun h => hcd (BitVec.eq_of_toNat_eq h.symm)
        simp [hcd, hne]

lemma compareNames_iff (a b : Name) : compareNames a b ≤ 0 ↔ a ≤ b := by
  rw [← not_lt, compareNames, strcmp_pos_iff a.nul, not_lt]
  rfl

lemma perm_qsort (names : List Name) : (qsort names).Perm names :=
  List.perm_insertionSort _ _

lemma pairwise_qsort (names : List Name) : (qsort names).Pairwise (· ≤ ·) := by
  have hle : (fun a b => compareNames a b ≤ 0) = fun a b : Name => a ≤ b :=
    funext fun a => funext fun b => propext (compareNames_iff a b)
  have hsorted : ∀ (r : Name → Name → Prop) [DecidableRel r], r = (fun a b => a ≤ b) →
      (names.insertionSort r).Pairwise (· ≤ ·) := by
    rintro r _ rfl
    exact List.pairwise_insertionSort _ names
  exact hsorted _ hle

/-- The order of the entries is of no consequence. -/
lemma qsort_eq_of_perm {names names' : List Name} (h : names.Perm names') :
    qsort names = qsort names' := by
  refine List.Perm.eq_of_pairwise (fun _ _ _ _ => le_antisymm) (pairwise_qsort names)
    (pairwise_qsort names') ?_
  exact (perm_qsort names).trans (h.trans (perm_qsort names').symm)

/-! ### The loops -/

/-- The file system for `ls.c`, with enough memory. -/
def System.toLs (sys : System) : Ls.System where
  opendir := sys.opendir
  malloc _ := true
  lstat := sys.lstat
  readlinkat path d_name := sys.readlink (namePath path d_name)

def System.HasMemory (sys : System) : Prop :=
  (∀ path count, sys.realloc path count) ∧ ∀ path d_name, sys.strdup path d_name

/-- The kernel takes paths with fewer than `PATH_MAX` bytes only. -/
def System.Bounded (sys : System) : Prop :=
  ∀ path st, sys.lstat path = some st → path.length < PATH_MAX

/-- The line is the one of the entry with these names on the way to it. -/
def Shows (sys : System) (path : Path) (names : List Name) (line : Line) : Prop :=
  ∃ st, sys.lstat (join path names) = some st ∧ line = entryLine sys (join path names) st

variable {sys sys' : System} {path : Path} {tree : Forest Name} {order : List (List Name)}
  {recursive : ℤ}

lemma readNames_eq (hmem : sys.HasMemory) (path : Path) (count : ℕ) (entries : List Name) :
    readNames sys path count entries =
      some (entries.filter fun d_name => ¬(d_name = DOT ∨ d_name = DOT_DOT)) := by
  induction entries generalizing count with
  | nil => rfl
  | cons d_name entries ih =>
    unfold readNames
    by_cases hdot : d_name = DOT ∨ d_name = DOT_DOT
    · rw [if_pos hdot, ih, List.filter_cons_of_neg (by simpa [or_iff_not_imp_left] using hdot)]
    · rw [if_neg hdot, if_pos ⟨hmem.1 path _, hmem.2 path d_name⟩, ih,
        List.filter_cons_of_pos (by simpa using hdot), Option.map_some]

lemma list_succ (hmem : sys.HasMemory) {entries : List Name}
    (hopen : sys.opendir path = some entries) (fuel : ℕ) (recursive : ℤ) :
    list sys (fuel + 1) path recursive =
      (entryLoop sys (list sys fuel) path recursive
        (qsort (entries.filter fun d_name => ¬(d_name = DOT ∨ d_name = DOT_DOT)))).map
          (Prod.mk 0) := by
  unfold list
  rw [hopen]
  dsimp only
  rw [readNames_eq hmem]
  dsimp only
  cases entryLoop sys (list sys fuel) path recursive _ <;> rfl

lemma fullpath_eq {name : Name} {st : Stat} (hbound : sys.Bounded)
    (hst : sys.lstat (namePath path name) = some st) : fullpath path name = namePath path name := by
  have hlt := hbound _ _ hst
  exact List.take_of_length_le (by omega)

lemma shows_unique {lines lines' : List Line} (h : List.Forall₂ (Shows sys path) order lines)
    (h' : List.Forall₂ (Shows sys path) order lines') : lines = lines' := by
  refine List.right_unique_forall₂' ?_ h h'
  rintro names line line' ⟨st, hst, rfl⟩ ⟨st', hst', rfl⟩
  cases hst.symm.trans hst'
  rfl

/-- What the loop prints, given what is printed below each name. -/
lemma exists_lines (hbound : sys.Bounded) {descend : Path → ℤ → Except Fault (ℤ × List Line)}
    {orderOf : Name → List (List Name)} {names : List Name}
    (hnames : ∀ name ∈ names, ∃ st, sys.lstat (namePath path name) = some st ∧ ∃ result lines,
      (if recursive ≠ 0 ∧ st.filetype = S_IFDIR ∧ st.filetype ≠ S_IFLNK then
        descend (namePath path name) recursive else .ok (0, [])) = .ok (result, lines) ∧
      List.Forall₂ (Shows sys (namePath path name)) (orderOf name) lines) :
    ∃ lines, entryLoop sys descend path recursive names = .ok lines ∧
      List.Forall₂ (Shows sys path)
        (names.flatMap fun name => [name] :: (orderOf name).map (List.cons name)) lines := by
  induction names with
  | nil => exact ⟨[], rfl, .nil⟩
  | cons name names ih =>
    obtain ⟨st, hst, result, below, hdescent, hbelow⟩ := hnames name (by simp)
    obtain ⟨rest, hloop, hrest⟩ := ih fun name' hname' => hnames name' (by simp [hname'])
    refine ⟨entryLine sys (namePath path name) st :: (below ++ rest), ?_, ?_⟩
    · unfold entryLoop
      rw [fullpath_eq hbound hst, hst]
      dsimp only
      rw [hdescent, ok_bind, hloop, ok_bind]
    · rw [List.flatMap_cons, List.cons_append]
      refine .cons ⟨st, hst, rfl⟩ (List.rel_append ?_ hrest)
      rw [List.forall₂_map_left_iff]
      exact hbelow

/-- What the tree says about one of its roots. -/
lemma Below.of_mem {sys : Ls.System} (hbelow : sys.Below path tree) (hdistinct : tree.Distinct)
    {name : Name} (hname : name ∈ tree.roots) :
    (∃ st, sys.lstat (namePath path name) = some st ∧
      if st.filetype = S_IFDIR then sys.Opens (namePath path name) (tree.children name).roots
      else tree.children name = .nil) ∧ sys.Below (namePath path name) (tree.children name) := by
  induction tree with
  | nil => cases hname
  | node a below rest _ ihrest =>
    obtain ⟨hroot, hinner, hrest⟩ := hbelow
    unfold Forest.children
    split_ifs with heq
    · subst heq
      exact ⟨hroot, hinner⟩
    · exact ihrest hrest hdistinct.2.2 ((List.mem_cons.mp hname).resolve_left heq)

lemma pairwise_qsort_roots (hdistinct : tree.Distinct) :
    (qsort tree.roots).Pairwise (· < ·) := by
  have hnodup := (perm_qsort tree.roots).nodup_iff.mpr (Forest.nodup_roots hdistinct)
  exact ((pairwise_qsort tree.roots).and hnodup).imp fun h => lt_of_le_of_ne h.1 h.2

/-- The recursion prints the sorted tree. -/
lemma list_shows (hmem : sys.HasMemory) (hbound : sys.Bounded) {fuel : ℕ}
    (htree : sys.toLs.HasTree path tree) (hfuel : tree.depth < fuel) (horder : tree.IsSorted order)
    (hrecursive : recursive ≠ 0) :
    ∃ lines, list sys fuel path recursive = .ok (0, lines) ∧
      List.Forall₂ (Shows sys path) order lines := by
  induction fuel generalizing path tree order with
  | zero => omega
  | succ fuel ih =>
    obtain ⟨⟨entries, hopen, hentries⟩, hbelow, hdistinct⟩ := htree
    let orderOf (name : Name) := (tree.children name).preorder.insertionSort (· ≤ ·)
    have hsorted : ∀ name, (tree.children name).IsSorted (orderOf name) := fun name =>
      Forest.isSorted_insertionSort (Forest.distinct_children hdistinct)
    have hmem_roots : ∀ name, name ∈ qsort tree.roots ↔ name ∈ tree.roots := fun name =>
      (perm_qsort tree.roots).mem_iff
    have hflat := Forest.isSorted_flatMap hdistinct (pairwise_qsort_roots hdistinct) hmem_roots
      fun name _ => hsorted name
    obtain rfl := horder.unique hflat fun _ => Iff.rfl
    have hnames : ∀ name ∈ qsort tree.roots, ∃ st, sys.lstat (namePath path name) = some st ∧
        ∃ result lines, (if recursive ≠ 0 ∧ st.filetype = S_IFDIR ∧ st.filetype ≠ S_IFLNK then
          list sys fuel (namePath path name) recursive else .ok (0, [])) = .ok (result, lines) ∧
        List.Forall₂ (Shows sys (namePath path name)) (orderOf name) lines := by
      intro name hname
      rw [hmem_roots] at hname
      obtain ⟨⟨st, hst, hcontents⟩, hinner⟩ := Below.of_mem hbelow hdistinct hname
      refine ⟨st, hst, ?_⟩
      by_cases hdir : st.filetype = S_IFDIR
      · have hlink : st.filetype ≠ S_IFLNK := by
          rw [hdir]
          decide
        rw [if_pos hdir] at hcontents
        have hless := Forest.depth_children_lt hname
        obtain ⟨lines, hlines, hshows⟩ := ih
          ⟨hcontents, hinner, Forest.distinct_children hdistinct⟩ (by omega) (hsorted name)
        exact ⟨0, lines, by rw [if_pos ⟨hrecursive, hdir, hlink⟩, hlines], hshows⟩
      · rw [if_neg hdir] at hcontents
        refine ⟨0, [], if_neg fun h => hdir h.2.1, ?_⟩
        simp only [orderOf, hcontents]
        exact .nil
    obtain ⟨lines, hloop, hshows⟩ := exists_lines hbound hnames
    refine ⟨lines, ?_, hshows⟩
    rw [list_succ hmem hopen, hentries, hloop]
    rfl

/-- Without `recursive` only the directory itself is read. -/
lemma list_shows_roots (hmem : sys.HasMemory) (hbound : sys.Bounded)
    (htree : sys.toLs.HasTree path tree) :
    ∃ lines, (∀ fuel, 0 < fuel → list sys fuel path 0 = .ok (0, lines)) ∧
      List.Forall₂ (Shows sys path) ((qsort tree.roots).map fun name => [name]) lines := by
  obtain ⟨⟨entries, hopen, hentries⟩, hbelow, hdistinct⟩ := htree
  have hnames : ∀ descend : Path → ℤ → Except Fault (ℤ × List Line), ∀ name ∈ qsort tree.roots,
      ∃ st, sys.lstat (namePath path name) = some st ∧ ∃ result lines,
      (if (0 : ℤ) ≠ 0 ∧ st.filetype = S_IFDIR ∧ st.filetype ≠ S_IFLNK then
        descend (namePath path name) 0 else .ok (0, [])) = .ok (result, lines) ∧
      List.Forall₂ (Shows sys (namePath path name)) [] lines := by
    intro descend name hname
    rw [(perm_qsort tree.roots).mem_iff] at hname
    obtain ⟨⟨st, hst, -⟩, -⟩ := Below.of_mem hbelow hdistinct hname
    exact ⟨st, hst, 0, [], if_neg fun h => h.1 rfl, .nil⟩
  have hlines : ∀ fuel, ∃ lines, list sys (fuel + 1) path 0 = .ok (0, lines) ∧
      List.Forall₂ (Shows sys path) ((qsort tree.roots).map fun name => [name]) lines := by
    intro fuel
    obtain ⟨lines, hloop, hshows⟩ := exists_lines hbound (hnames (list sys fuel))
    refine ⟨lines, ?_, ?_⟩
    · rw [list_succ hmem hopen, hentries, hloop]
      rfl
    · rw [List.map_eq_flatMap]
      exact hshows
  obtain ⟨lines, -, hshows⟩ := hlines 0
  refine ⟨lines, ?_, hshows⟩
  intro fuel hfuel
  obtain ⟨fuel, rfl⟩ := Nat.exists_eq_add_one_of_ne_zero hfuel.ne'
  obtain ⟨lines', hlist, hshows'⟩ := hlines fuel
  rw [hlist, shows_unique hshows hshows']

/-! ### The strings behind the names -/

lemma marker_spec (sys : System) (path : Path) (st : Stat) :
    (marker sys path st).length < 1024 ∧ 0#8 ∉ marker sys path st := by
  unfold marker
  split_ifs
  · exact ⟨by decide, by decide⟩
  · exact ⟨by decide, by decide⟩
  · cases sys.readlink path with
    | none => exact ⟨by decide, by decide⟩
    | some target =>
      have harrow : ARROW.length = 4 ∧ 0#8 ∉ ARROW := ⟨rfl, by decide⟩
      constructor
      · rw [List.length_append, List.length_take, harrow.1]
        omega
      · rw [List.mem_append, not_or]
        refine ⟨harrow.2, fun hmem => ?_⟩
        have hne := List.mem_takeWhile_imp (List.mem_of_mem_take hmem)
        simp at hne
  · exact ⟨by decide, by decide⟩
  · exact ⟨by decide, by decide⟩

lemma holdsString_typestr {string : List CChar} (hlength : string.length < 1024)
    (hnul : 0#8 ∉ string) :
    (typestr string).length = 1024 ∧ HoldsString (typestr string) string := by
  obtain ⟨rest, hrest⟩ := Nat.exists_eq_add_one_of_ne_zero (by omega : 1024 - string.length ≠ 0)
  refine ⟨?_, hnul, ?_⟩
  · rw [typestr, List.length_append, List.length_replicate]
    omega
  · rw [typestr, hrest, List.replicate_succ]
    exact ⟨List.replicate rest 0#8, by simp⟩

/-- With `recursive`, `list` prints the entries below the directory in lexicographic order, so that
each comes right before what is below it and siblings are sorted by their bytes. Without it, the
entries of the directory are sorted. The string behind a name always ends within its array. -/
theorem list_sorted (hmem : sys.HasMemory) (hbound : sys.Bounded)
    (htree : sys.toLs.HasTree path tree) :
    (∃ order lines, tree.IsSorted order ∧ tree.IsPreorder order ∧
      List.Forall₂ (Shows sys path) order lines ∧
      ∀ fuel recursive, tree.depth < fuel → recursive ≠ 0 →
        list sys fuel path recursive = .ok (0, lines)) ∧
    (∃ (names : List Name) (lines : List Line), names.Perm tree.roots ∧ names.Pairwise (· < ·) ∧
      List.Forall₂ (Shows sys path) (names.map fun name => [name]) lines ∧
      ∀ fuel, 0 < fuel → list sys fuel path 0 = .ok (0, lines)) ∧
    ∀ names line, Shows sys path names line →
      line.typestr.length = 1024 ∧ ∃ string, HoldsString line.typestr string := by
  refine ⟨?_, ?_, ?_⟩
  · have horder := Forest.isSorted_insertionSort htree.distinct
    obtain ⟨lines, -, hshows⟩ :=
      list_shows hmem hbound htree (Nat.lt_succ_self _) horder one_ne_zero
    refine ⟨_, lines, horder, horder.isPreorder, hshows, ?_⟩
    intro fuel recursive hfuel hrecursive
    obtain ⟨lines', hlist, hshows'⟩ := list_shows hmem hbound htree hfuel horder hrecursive
    rw [hlist, shows_unique hshows hshows']
  · obtain ⟨lines, hlist, hshows⟩ := list_shows_roots hmem hbound htree
    exact ⟨_, lines, perm_qsort tree.roots, pairwise_qsort_roots htree.distinct, hshows, hlist⟩
  · rintro names line ⟨st, -, rfl⟩
    obtain ⟨hlength, hnul⟩ := marker_spec sys (join path names) st
    obtain ⟨hsize, hholds⟩ := holdsString_typestr hlength hnul
    exact ⟨hsize, _, hholds⟩

/-- The directory `.` has a file `c`, a subdirectory `a` and in it the file `b`. -/
def unsorted : System where
  opendir path :=
    if path = DOT.bytes then some [nameC, DOT, nameA, DOT_DOT]
    else if path = namePath DOT.bytes nameA then some [nameB, DOT, DOT_DOT]
    else none
  realloc _ _ := true
  strdup _ _ := true
  lstat path :=
    if path = namePath DOT.bytes nameA then some ⟨0x41ED#32, 4096#64⟩
    else if path.length < PATH_MAX then some ⟨0x81A4#32, 0#64⟩
    else none
  readlink _ := none

def unsortedTree : Forest Name := .node nameC .nil (.node nameA (.node nameB .nil .nil) .nil)

lemma unsorted_hasMemory : unsorted.HasMemory := ⟨fun _ _ => rfl, fun _ _ => rfl⟩

lemma unsorted_bounded : unsorted.Bounded := by
  intro path st hst
  unfold unsorted at hst
  dsimp only at hst
  split_ifs at hst with ha hlt
  · rw [ha]
    decide
  · exact hlt

lemma unsorted_hasTree : unsorted.toLs.HasTree DOT.bytes unsortedTree := by
  refine ⟨⟨_, rfl, by decide⟩, ⟨⟨_, rfl, ?_⟩, trivial, ⟨_, rfl, ?_⟩,
    ⟨⟨_, rfl, ?_⟩, trivial, trivial⟩, trivial⟩, ?_⟩
  · rw [if_neg (by decide)]
  · rw [if_pos (by decide)]
    exact ⟨_, rfl, by decide⟩
  · rw [if_neg (by decide)]
  · simp [unsortedTree, Forest.Distinct, Forest.roots]
    decide

theorem list_sorted_unsorted : ∃ order lines, unsortedTree.IsSorted order ∧
    List.Forall₂ (Shows unsorted DOT.bytes) order lines ∧
    list unsorted 3 DOT.bytes 1 = .ok (0, lines) := by
  obtain ⟨⟨order, lines, horder, -, hshows, hlist⟩, -⟩ :=
    list_sorted unsorted_hasMemory unsorted_bounded unsorted_hasTree
  exact ⟨order, lines, horder, hshows, hlist 3 1 (by decide) (by decide)⟩

-- `./a`, `./a/b` and `./c`
example : (list unsorted 3 DOT.bytes 1).map (fun r => r.2.map Line.name) =
    .ok [[46#8, 47#8, 97#8], [46#8, 47#8, 97#8, 47#8, 98#8], [46#8, 47#8, 99#8]] := by decide

/-! ### The order of the directory -/

lemma entryLoop_congr {descend descend' : Path → ℤ → Except Fault (ℤ × List Line)}
    (hdescend : ∀ path, descend path recursive = descend' path recursive)
    (hlstat : sys'.lstat = sys.lstat) (hreadlink : sys'.readlink = sys.readlink)
    (names : List Name) :
    entryLoop sys descend path recursive names = entryLoop sys' descend' path recursive names := by
  have hline : ∀ p st, entryLine sys p st = entryLine sys' p st := by
    intro p st
    rw [entryLine, entryLine, marker, marker, hreadlink]
  induction names with
  | nil => rfl
  | cons name names ih =>
    unfold entryLoop
    rw [hlstat, ih, hdescend]
    simp only [hline]

/-- What is printed does not depend on the order in which `readdir` yields the entries of the
directories. -/
theorem list_eq_of_perm (hmem : sys.HasMemory) (hmem' : sys'.HasMemory)
    (hopen : ∀ path, Option.Rel List.Perm (sys.opendir path) (sys'.opendir path))
    (hlstat : sys'.lstat = sys.lstat) (hreadlink : sys'.readlink = sys.readlink) (fuel : ℕ)
    (path : Path) (recursive : ℤ) :
    list sys fuel path recursive = list sys' fuel path recursive := by
  induction fuel generalizing path with
  | zero => rfl
  | succ fuel ih =>
    have hopen := hopen path
    generalize hentries : sys.opendir path = entries, hentries' : sys'.opendir path = entries'
      at hopen
    cases hopen with
    | none => rw [list, list, hentries, hentries']
    | some hperm =>
      rw [list_succ hmem hentries, list_succ hmem' hentries', qsort_eq_of_perm (hperm.filter _),
        entryLoop_congr ih hlstat hreadlink]

/-- The same directories, read in the opposite order. -/
def reversed : System :=
  { unsorted with opendir := fun path => (unsorted.opendir path).map List.reverse }

theorem list_reversed : list unsorted 3 DOT.bytes 1 = list reversed 3 DOT.bytes 1 := by
  have hopen : ∀ path, Option.Rel List.Perm (unsorted.opendir path) (reversed.opendir path) := by
    intro path
    have hreverse : reversed.opendir path = (unsorted.opendir path).map List.reverse := rfl
    rw [hreverse]
    cases unsorted.opendir path with
    | none => exact .none
    | some entries => exact .some (List.reverse_perm entries).symm
  have hmem : reversed.HasMemory := unsorted_hasMemory
  exact list_eq_of_perm unsorted_hasMemory hmem hopen rfl rfl 3 DOT.bytes 1

/-! ### The listing of `ls.c` -/

/-- The size, the mode and the name of a line. -/
def columns (line : Line) : ℕ × List CChar × Path := (line.size, line.mode, line.name)

/-- The columns for the path of an entry. -/
def columnsAt (sys : System) (path : Path) : Option (ℕ × List CChar × Path) :=
  (sys.lstat path).map fun st => (st.st_size.toNat, getModeString st, path)

lemma columnsAt_of_shows {names : List Name} {line : Line} (h : Shows sys path names line) :
    some (columns line) = columnsAt sys (join path names) := by
  obtain ⟨st, hst, rfl⟩ := h
  rw [columnsAt, hst]
  rfl

lemma fileType_fst (sys : Ls.System) (path : Path) (d_name : Name) (st : Stat) :
    (fileType sys path d_name st).1 = modeType st := by
  unfold fileType modeType
  by_cases hfifo : st.filetype = S_IFIFO
  · rw [if_pos hfifo, hfifo, if_neg (by decide), if_neg (by decide), if_pos rfl]
  · rw [if_neg hfifo]
    split_ifs <;> rfl

lemma columnsAt_of_prints {line : Line} (h : sys.toLs.Prints line) :
    some (columns line) = columnsAt sys line.name := by
  obtain ⟨path, d_name, st, hst, rfl⟩ := h
  have hst' : sys.lstat (Ls.entryLine sys.toLs path d_name st).name = some st := hst
  rw [columnsAt, hst', columns, Ls.entryLine, fileType_fst]
  rfl

/-- `ls.c` prints the same sizes, modes and names, in the order of the directories. -/
theorem list_perm_ls (hmem : sys.HasMemory) (hbound : sys.Bounded)
    (htree : sys.toLs.HasTree path tree) :
    ∃ lines lines', (lines.map columns).Perm (lines'.map columns) ∧
      ∀ fuel, tree.depth < fuel → list sys fuel path 1 = .ok (0, lines) ∧
        Ls.list sys.toLs fuel path 1 = .ok (0, lines') := by
  have horder := Forest.isSorted_insertionSort htree.distinct
  obtain ⟨lines, -, hshows⟩ :=
    list_shows hmem hbound htree (Nat.lt_succ_self _) horder one_ne_zero
  obtain ⟨result, lines', hlist', hprints⟩ := exists_list htree 1
  obtain ⟨rfl, hnames⟩ := hprints fun _ => rfl
  rw [listed, if_neg one_ne_zero] at hnames
  refine ⟨lines, lines', ?_, ?_⟩
  · have hcolumns : (lines.map columns).map some =
        (tree.preorder.insertionSort (· ≤ ·)).map (columnsAt sys ∘ join path) := by
      rw [List.map_map, ← List.forall₂_eq_eq_eq, List.forall₂_map_left_iff,
        List.forall₂_map_right_iff]
      exact hshows.flip.imp fun _ _ => columnsAt_of_shows
    have hcolumns' : (lines'.map columns).map some =
        tree.preorder.map (columnsAt sys ∘ join path) := by
      rw [← List.map_map, ← hnames, List.map_map, List.map_map]
      refine List.map_congr_left fun line hline => ?_
      exact columnsAt_of_prints (list_prints_entries (hlist' _ (Nat.lt_succ_self _)) line hline)
    rw [← List.map_perm_map_iff (Option.some_injective _), hcolumns, hcolumns']
    exact (List.perm_insertionSort _ _).map _
  · intro fuel hfuel
    obtain ⟨lines₂, hlist, hshows₂⟩ := list_shows hmem hbound htree hfuel horder one_ne_zero
    exact ⟨by rw [hlist, shows_unique hshows hshows₂], hlist' fuel hfuel⟩

theorem list_perm_ls_unsorted : ∃ lines lines', (lines.map columns).Perm (lines'.map columns) ∧
    list unsorted 3 DOT.bytes 1 = .ok (0, lines) ∧
    Ls.list unsorted.toLs 3 DOT.bytes 1 = .ok (0, lines') := by
  obtain ⟨lines, lines', hperm, hlist⟩ :=
    list_perm_ls unsorted_hasMemory unsorted_bounded unsorted_hasTree
  exact ⟨lines, lines', hperm, hlist 3 (by decide)⟩

end StyLinux.Ls.Testing
