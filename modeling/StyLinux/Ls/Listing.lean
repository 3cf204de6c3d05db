import Mathlib.Tactic
import StyLinux.Lib.Forest
import StyLinux.Lib.Fuel
import StyLinux.Ls.Model

/-!
# What `list` prints

The entries below a directory form a forest in which only directories have something below them.
The recursion follows the forest, whatever else the links of the file system can be opened as.
-/

namespace StyLinux.Ls

open Lib

/-! ### Directory trees -/

/-- The path of an entry, given by the names on the way to it. -/
def join (path : Path) (names : List Name) : Path := names.foldl namePath path

/-- `readdir` yields the given names once each, and besides at most `.` and `..`. -/
def System.Opens (sys : System) (path : Path) (names : List Name) : Prop :=
  ∃ entries, sys.opendir path = some entries ∧
    entries.filter (fun d_name => ¬(d_name = DOT ∨ d_name = DOT_DOT)) = names

/-- The entries of the forest exist, and what is below them is the contents of directories. -/
def System.Below (sys : System) : Path → Forest Name → Prop
  | _, .nil => True
  | path, .node name below rest =>
    (∃ st, sys.lstat (namePath path name) = some st ∧
      if st.filetype = S_IFDIR then sys.Opens (namePath path name) below.roots
      else below = .nil) ∧
    sys.Below (namePath path name) below ∧ sys.Below path rest

/-- The entries below the directory form the forest. -/
structure System.HasTree (sys : System) (path : Path) (tree : Forest Name) : Prop where
  opens : sys.Opens path tree.roots
  below : sys.Below path tree
  distinct : tree.Distinct

/-- A line for each entry below the directory, which comes immediately before the lines of what is
below the entry. -/
structure Listing (path : Path) (tree : Forest Name) (lines : List Line) : Prop where
  preorder : ∃ order, tree.IsPreorder order ∧ lines.map Line.name = order.map (join path)
  once : (lines.map Line.name).Nodup

/-! ### Paths -/

lemma join_cons (path : Path) (name : Name) (names : List Name) :
    join path (name :: names) = join (namePath path name) names := rfl

lemma join_eq (path : Path) (names : List Name) :
    join path names = path ++ names.flatMap fun name => SLASH :: name.bytes := by
  induction names generalizing path with
  | nil => simp [join]
  | cons name names ih =>
    rw [join_cons, ih, namePath]
    simp

/-- A name ends where the next slash is. -/
lemma takeWhile_bytes (name : Name) (names : List Name) :
    (name.bytes ++ names.flatMap fun name => SLASH :: name.bytes).takeWhile (fun c => c ≠ SLASH) =
      name.bytes := by
  have hname : ∀ c ∈ name.bytes, decide (c ≠ SLASH) = true := by
    intro c hc
    simp only [decide_eq_true_eq]
    rintro rfl
    exact name.slash hc
  rw [List.takeWhile_append_of_pos hname]
  cases names with
  | nil => simp
  | cons name' names => simp

lemma flatMap_bytes_injective {names names' : List Name}
    (h : names.flatMap (fun name => SLASH :: name.bytes) =
      names'.flatMap fun name => SLASH :: name.bytes) : names = names' := by
  induction names generalizing names' with
  | nil =>
    cases names' with
    | nil => rfl
    | cons name' names' => simp at h
  | cons name names ih =>
    cases names' with
    | nil => simp at h
    | cons name' names' =>
      simp only [List.flatMap_cons, List.cons_append, List.cons.injEq, true_and] at h
      have hbytes := congrArg (List.takeWhile fun c => decide (c ≠ SLASH)) h
      rw [takeWhile_bytes, takeWhile_bytes] at hbytes
      rw [hbytes, List.append_cancel_left_eq] at h
      have hname : name = name' := by
        cases name
        cases name'
        simpa using hbytes
      rw [hname, ih h]

lemma join_injective (path : Path) : Function.Injective (join path) := by
  intro names names' h
  rw [join_eq, join_eq, List.append_cancel_left_eq] at h
  exact flatMap_bytes_injective h

/-! ### The loop -/

section Loop

variable {sys : System} {path : Path} {tree below rest : Forest Name} {recursive : ℤ}
  {descend : Path → ℤ → Except Fault (ℤ × List Line)}

/-- The loop skips `.` and `..` up to the next other entry. -/
lemma entryLoop_append {dots entries : List Name}
    (hdots : ∀ d_name ∈ dots, d_name = DOT ∨ d_name = DOT_DOT) :
    entryLoop sys descend path recursive (dots ++ entries) =
      entryLoop sys descend path recursive entries := by
  induction dots with
  | nil => rfl
  | cons d_name dots ih =>
    rw [List.cons_append, entryLoop, if_pos (hdots d_name (by simp))]
    exact ih fun d hd => hdots d (by simp [hd])

/-- The loop at the next entry of the tree. -/
lemma exists_entry {name : Name} {st : Stat} (hmalloc : sys.malloc (namePath path name))
    (hst : sys.lstat (namePath path name) = some st) {entries names : List Name}
    (hentries : entries.filter (fun d_name => ¬(d_name = DOT ∨ d_name = DOT_DOT)) =
      name :: names) :
    ∃ entries', entries'.filter (fun d_name => ¬(d_name = DOT ∨ d_name = DOT_DOT)) = names ∧
      ∀ {descend below rest} {result₀ result : ℤ},
        (if recursive ≠ 0 ∧ st.filetype = S_IFDIR then descend (namePath path name) recursive
          else .ok (0, [])) = .ok (result₀, below) →
        entryLoop sys descend path recursive entries' = .ok (result, rest) →
        entryLoop sys descend path recursive entries =
          .ok (result, entryLine sys path name st :: (below ++ rest)) := by
  obtain ⟨dots, entries', rfl, hdots, hname, hnames⟩ := List.filter_eq_cons_iff.mp hentries
  refine ⟨entries', hnames, ?_⟩
  intro descend below rest result₀ result hbelow hrest
  rw [entryLoop_append (by simpa [or_iff_not_imp_left] using hdots), entryLoop,
    if_neg (by simpa using hname), if_neg (by simpa using hmalloc), hst]
  dsimp only
  rw [hbelow, ok_bind, hrest, ok_bind]

lemma entryLoop_nil {entries : List Name}
    (hentries : entries.filter (fun d_name => ¬(d_name = DOT ∨ d_name = DOT_DOT)) = []) :
    entryLoop sys descend path recursive entries = .ok (0, []) := by
  have hdots : ∀ d_name ∈ entries, d_name = DOT ∨ d_name = DOT_DOT := by
    simpa [List.filter_eq_nil_iff, or_iff_not_imp_left] using hentries
  have hloop : entryLoop sys descend path recursive (entries ++ []) =
      entryLoop sys descend path recursive [] := entryLoop_append hdots
  rw [List.append_nil] at hloop
  rw [hloop, entryLoop]

/-- The loop ends early at an entry for whose path there is no memory. -/
lemma entryLoop_of_not_malloc {name : Name} (hmalloc : ¬sys.malloc (namePath path name))
    {entries names : List Name}
    (hentries : entries.filter (fun d_name => ¬(d_name = DOT ∨ d_name = DOT_DOT)) =
      name :: names) :
    entryLoop sys descend path recursive entries = .ok (-1, []) := by
  obtain ⟨dots, entries', rfl, hdots, hname, -⟩ := List.filter_eq_cons_iff.mp hentries
  rw [entryLoop_append (by simpa [or_iff_not_imp_left] using hdots), entryLoop,
    if_neg (by simpa using hname), if_pos hmalloc]

/-- Without `recursive` nothing depends on how subdirectories are listed. -/
lemma entryLoop_zero {descend' : Path → ℤ → Except Fault (ℤ × List Line)} (entries : List Name) :
    entryLoop sys descend path 0 entries = entryLoop sys descend' path 0 entries := by
  induction entries with
  | nil => rfl
  | cons d_name entries ih => simp [entryLoop, ih]

/-- The entries that are listed, in order, by the names on the way to them. -/
def listed (tree : Forest Name) (recursive : ℤ) : List (List Name) :=
  if recursive = 0 then tree.roots.map fun name => [name] else tree.preorder

lemma listed_node (name : Name) :
    listed (.node name below rest) recursive =
      [name] :: ((if recursive = 0 then [] else below.preorder.map (List.cons name)) ++
        listed rest recursive) := by
  unfold listed
  split_ifs <;> rfl

/-- The listing of a forest below the path. -/
lemma exists_lines {entries : List Name}
    (hentries : entries.filter (fun d_name => ¬(d_name = DOT ∨ d_name = DOT_DOT)) = tree.roots)
    (htree : sys.Below path tree) :
    ∃ result lines, (∀ fuel, tree.depth ≤ fuel →
        entryLoop sys (list sys fuel) path recursive entries = .ok (result, lines)) ∧
      ((∀ name_path, sys.malloc name_path) →
        result = 0 ∧ lines.map Line.name = (listed tree recursive).map (join path)) := by
  induction tree generalizing path entries with
  | nil =>
    refine ⟨0, [], fun fuel _ => entryLoop_nil hentries, fun _ => ⟨rfl, ?_⟩⟩
    unfold listed
    split_ifs <;> rfl
  | node name below rest ihbelow ihrest =>
    obtain ⟨⟨st, hst, hcontents⟩, hbelow, hrest⟩ := htree
    by_cases hname : sys.malloc (namePath path name)
    · obtain ⟨entries', hentries', hloop⟩ := exists_entry hname hst hentries
      obtain ⟨result', lines', hlines', hnames'⟩ := ihrest hentries' hrest
      have hdescend : ∃ result lines, (∀ fuel, below.depth < fuel →
          (if recursive ≠ 0 ∧ st.filetype = S_IFDIR then
            list sys fuel (namePath path name) recursive else .ok (0, [])) = .ok (result, lines)) ∧
          ((∀ name_path, sys.malloc name_path) → lines.map Line.name =
            if recursive = 0 then [] else below.preorder.map (join (namePath path name))) := by
        by_cases hdir : recursive ≠ 0 ∧ st.filetype = S_IFDIR
        · rw [if_pos hdir.2] at hcontents
          obtain ⟨entries₂, hopendir, hentries₂⟩ := hcontents
          obtain ⟨result, lines, hlines, hnames⟩ := ihbelow hentries₂ hbelow
          refine ⟨result, lines, fun fuel hfuel => ?_, fun hmalloc => ?_⟩
          · obtain ⟨fuel, rfl⟩ := Nat.exists_eq_add_one_of_ne_zero (by omega : fuel ≠ 0)
            rw [if_pos hdir, list, hopendir]
            exact hlines fuel (by omega)
          · rw [(hnames hmalloc).2, listed, if_neg hdir.1, if_neg hdir.1]
        · refine ⟨0, [], fun fuel _ => if_neg hdir, fun _ => ?_⟩
          split_ifs with hrecursive
          · rfl
          · rw [if_neg fun h => hdir ⟨hrecursive, h⟩] at hcontents
            rw [hcontents]
            rfl
      obtain ⟨result, lines, hlines, hnames⟩ := hdescend
      refine ⟨result', entryLine sys path name st :: (lines ++ lines'), fun fuel hfuel => ?_,
        fun hmalloc => ⟨(hnames' hmalloc).1, ?_⟩⟩
      · rw [Forest.depth] at hfuel
        exact hloop (hlines fuel (by omega)) (hlines' fuel (by omega))
      · rw [List.map_cons, List.map_append, hnames hmalloc, (hnames' hmalloc).2, listed_node,
          List.map_cons, List.map_append]
        split_ifs
        · rfl
        · rw [List.map_map]
          rfl
    · exact ⟨-1, [], fun fuel _ => entryLoop_of_not_malloc hname hentries,
        fun hmalloc => absurd (hmalloc _) hname⟩

end Loop

/-! ### The listing -/

/-- `list` returns for a directory tree, and with enough memory it returns 0 and prints a line for
each entry that it has to. -/
lemma exists_list {sys : System} {path : Path} {tree : Forest Name} (htree : sys.HasTree path tree)
    (recursive : ℤ) :
    ∃ result lines, (∀ fuel, tree.depth < fuel →
        list sys fuel path recursive = .ok (result, lines)) ∧
      ((∀ name_path, sys.malloc name_path) →
        result = 0 ∧ lines.map Line.name = (listed tree recursive).map (join path)) := by
  obtain ⟨entries, hopendir, hentries⟩ := htree.opens
  obtain ⟨result, lines, hlines, hnames⟩ := exists_lines hentries htree.below
  refine ⟨result, lines, fun fuel hfuel => ?_, hnames⟩
  obtain ⟨fuel, rfl⟩ := Nat.exists_eq_add_one_of_ne_zero (by omega : fuel ≠ 0)
  rw [list, hopendir]
  exact hlines fuel (by omega)

lemma list_zero {sys : System} {path : Path} {fuel fuel' : ℕ} :
    list sys (fuel + 1) path 0 = list sys (fuel' + 1) path 0 := by
  unfold list
  cases sys.opendir path with
  | none => rfl
  | some entries => exact entryLoop_zero entries

/-- `list` returns 0. With `recursive` it prints a line for each entry below the directory, an
entry right before what is below it, and without it a line for each entry of the directory. -/
theorem list_prints {sys : System} {path : Path} {tree : Forest Name}
    (hmalloc : ∀ name_path, sys.malloc name_path) (htree : sys.HasTree path tree) :
    (∃ lines, (∀ fuel, tree.depth < fuel → list sys fuel path 1 = .ok (0, lines)) ∧
      Listing path tree lines) ∧
    ∃ lines, (∀ fuel, 0 < fuel → list sys fuel path 0 = .ok (0, lines)) ∧
      lines.map Line.name = tree.roots.map (namePath path) ∧ (lines.map Line.name).Nodup := by
  constructor
  · obtain ⟨result, lines, hlines, hprints⟩ := exists_list htree 1
    obtain ⟨rfl, hnames⟩ := hprints hmalloc
    rw [listed, if_neg one_ne_zero] at hnames
    refine ⟨lines, hlines, ⟨_, Forest.isPreorder_preorder htree.distinct, hnames⟩, ?_⟩
    rw [hnames]
    exact (Forest.nodup_preorder htree.distinct).map (join_injective path)
  · obtain ⟨result, lines, hlines, hprints⟩ := exists_list htree 0
    obtain ⟨rfl, hnames⟩ := hprints hmalloc
    rw [listed, if_pos rfl, List.map_map] at hnames
    refine ⟨lines, fun fuel hfuel => ?_, hnames, ?_⟩
    · obtain ⟨fuel, rfl⟩ := Nat.exists_eq_add_one_of_ne_zero (by omega : fuel ≠ 0)
      rw [list_zero, hlines (tree.depth + 1) (by omega)]
    · rw [hnames]
      refine (Forest.nodup_roots htree.distinct).map fun name name' h => ?_
      have hjoin : join path [name] = join path [name'] := h
      exact (List.cons.inj (join_injective path hjoin)).1

def nameA : Name := ⟨[97#8], by decide, by decide, by decide⟩

def nameB : Name := ⟨[98#8], by decide, by decide, by decide⟩

def nameC : Name := ⟨[99#8], by decide, by decide, by decide⟩

/-- The directory `.` has a subdirectory `a`, in which the file `b` is, and a symbolic link `c` to
itself. -/
def linked : System where
  opendir path :=
    if path = DOT.bytes ∨ path = namePath DOT.bytes nameC then some [DOT, nameA, DOT_DOT, nameC]
    else if path = namePath DOT.bytes nameA then some [nameB, DOT, DOT_DOT]
    else none
  malloc _ := true
  lstat path :=
    if path = namePath DOT.bytes nameA then some ⟨0x41ED#32, 4096#64⟩
    else if path = namePath DOT.bytes nameC then some ⟨0xA1FF#32, 1#64⟩
    else some ⟨0x81A4#32, 0#64⟩
  readlinkat _ _ := some DOT.bytes

def linkedTree : Forest Name := .node nameA (.node nameB .nil .nil) (.node nameC .nil .nil)

lemma linked_hasTree : linked.HasTree DOT.bytes linkedTree := by
  refine ⟨⟨_, rfl, by decide⟩, ⟨⟨_, rfl, ?_⟩, ⟨⟨_, rfl, ?_⟩, trivial, trivial⟩,
    ⟨_, rfl, ?_⟩, trivial, trivial⟩, by simp [linkedTree, Forest.Distinct, Forest.roots]; decide⟩
  · rw [if_pos (by decide)]
    exact ⟨_, rfl, by decide⟩
  · rw [if_neg (by decide)]
  · rw [if_neg (by decide)]

theorem list_prints_linked :
    (∃ lines, (∀ fuel, linkedTree.depth < fuel → list linked fuel DOT.bytes 1 = .ok (0, lines)) ∧
      Listing DOT.bytes linkedTree lines) ∧
    ∃ lines, (∀ fuel, 0 < fuel → list linked fuel DOT.bytes 0 = .ok (0, lines)) ∧
      lines.map Line.name = linkedTree.roots.map (namePath DOT.bytes) ∧
      (lines.map Line.name).Nodup :=
  list_prints (fun _ => rfl) linked_hasTree

-- `./a`, `./a/b` and `./c`
example : (list linked 3 DOT.bytes 1).map (fun r => r.2.map Line.name) =
    .ok [[46#8, 47#8, 97#8], [46#8, 47#8, 97#8, 47#8, 98#8], [46#8, 47#8, 99#8]] := by decide

end StyLinux.Ls
