import StyLinux.Ls.Listing

/-!
# The symbolic links of a listing

`readlinkat` stores no NUL, so the string in the array ends at one of the zero bytes that it was
initialized with. A target of 1020 or more bytes leaves none of them.
-/

namespace StyLinux.Ls

open Lib

/-- The array begins with the string and its NUL. -/
def HoldsString (buffer string : List CChar) : Prop := 0#8 ∉ string ∧ string ++ [0#8] <+: buffer

/-- The array holds the arrow and the target, or a prefix of the target if it does not fit. -/
structure LinkString (buffer target : List CChar) : Prop where
  length : buffer.length = 1024
  string : ∃ shown, shown <+: target ∧ HoldsString buffer (ARROW ++ shown) ∧
    ((ARROW ++ target ++ [0#8]).length ≤ 1024 → shown = target)

/-- The entry is a symbolic link to the target. -/
def System.Link (sys : System) (path : Path) (d_name : Name) (target : List CChar) : Prop :=
  (∃ st, sys.lstat (namePath path d_name) = some st ∧ st.filetype = S_IFLNK) ∧
    sys.readlinkat path d_name = some target

/-! ### The array -/

section Buffer

variable {target : List CChar}

lemma linkBuffer_some (target : List CChar) :
    linkBuffer (some target) =
      ARROW ++ target.take 1020 ++ List.replicate (1020 - target.length) 0#8 := by
  rw [linkBuffer, Option.getD_some, List.length_take]
  congr 2
  omega

lemma length_linkBuffer (target : List CChar) : (linkBuffer (some target)).length = 1024 := by
  rw [linkBuffer_some, List.length_append, List.length_append, List.length_take,
    List.length_replicate]
  have harrow : ARROW.length = 4 := rfl
  omega

/-- The bytes of a long target fill the array. -/
lemma notMem_linkBuffer (hnul : 0#8 ∉ target) (hlength : 1020 ≤ target.length) :
    0#8 ∉ linkBuffer (some target) := by
  have harrow : 0#8 ∉ ARROW := by decide
  rw [linkBuffer_some, Nat.sub_eq_zero_of_le hlength, List.replicate_zero, List.append_nil,
    List.mem_append, not_or]
  exact ⟨harrow, fun hmem => hnul (List.mem_of_mem_take hmem)⟩

lemma linkString_iff (hnul : 0#8 ∉ target) :
    LinkString (linkBuffer (some target)) target ↔ target.length < 1020 := by
  constructor
  · intro h
    obtain ⟨shown, -, ⟨-, hbytes⟩, -⟩ := h.string
    by_contra hlength
    exact notMem_linkBuffer hnul (not_lt.mp hlength) (hbytes.subset (by simp))
  · intro hlength
    refine ⟨length_linkBuffer target, target, List.prefix_refl target, ⟨?_, ?_⟩, fun _ => rfl⟩
    · have harrow : 0#8 ∉ ARROW := by decide
      rw [List.mem_append, not_or]
      exact ⟨harrow, hnul⟩
    · obtain ⟨rest, hrest⟩ := Nat.exists_eq_add_one_of_ne_zero (by omega : 1020 - target.length ≠ 0)
      rw [linkBuffer_some, List.take_of_length_le (by omega), hrest, List.replicate_succ]
      exact ⟨List.replicate rest 0#8, by simp⟩

/-- `testing2.c` has the same array for a short target, and for a long one it writes the NUL behind
the array. -/
theorem Testing2.linkBuffer_eq (target : List CChar) :
    Testing2.linkBuffer (some target) =
      if target.length < 1020 then some (Ls.linkBuffer (some target)) else none := by
  have hlen := length_linkBuffer target
  unfold Testing2.linkBuffer
  dsimp only
  by_cases hlength : target.length < 1020
  · obtain ⟨rest, hrest⟩ := Nat.exists_eq_add_one_of_ne_zero (by omega : 1020 - target.length ≠ 0)
    have harrow : ARROW.length = 4 := rfl
    rw [if_pos hlength, if_pos (by omega), Nat.min_eq_left (by omega), linkBuffer_some,
      List.take_of_length_le (by omega), hrest, List.replicate_succ,
      List.set_append_right _ _ (by rw [List.length_append]; omega), List.length_append, harrow,
      Nat.add_comm 4, Nat.sub_self, List.set_cons_zero]
  · rw [if_neg hlength, if_neg (by omega)]

end Buffer

/-! ### The lines of the links -/

/-- The line belongs to an entry that exists. -/
def System.Prints (sys : System) (line : Line) : Prop :=
  ∃ path d_name st, sys.lstat (namePath path d_name) = some st ∧
    line = entryLine sys path d_name st

section Lines

variable {sys : System} {path : Path} {recursive result : ℤ} {lines : List Line}

lemma entryLoop_prints {descend : Path → ℤ → Except Fault (ℤ × List Line)}
    (hdescend : ∀ {path result lines}, descend path recursive = .ok (result, lines) →
      ∀ line ∈ lines, sys.Prints line)
    {entries : List Name}
    (h : entryLoop sys descend path recursive entries = .ok (result, lines)) :
    ∀ line ∈ lines, sys.Prints line := by
  induction entries generalizing result lines with
  | nil =>
    cases h
    simp
  | cons d_name entries ih =>
    unfold entryLoop at h
    split_ifs at h with hdots hmalloc
    · exact ih h
    · cases hst : sys.lstat (namePath path d_name) with
      | none =>
        rw [hst] at h
        exact ih h
      | some st =>
        rw [hst] at h
        obtain ⟨⟨result₀, below⟩, hbelow, h⟩ := bind_eq_ok.mp h
        obtain ⟨⟨result', rest⟩, hrest, h⟩ := bind_eq_ok.mp h
        cases h
        intro line hline
        rw [List.mem_cons, List.mem_append] at hline
        rcases hline with rfl | hline | hline
        · exact ⟨path, d_name, st, hst, rfl⟩
        · split_ifs at hbelow with hdir
          · exact hdescend hbelow line hline
          · cases hbelow
            simp at hline
        · exact ih hrest line hline
    · cases h
      simp

lemma list_prints_entries {fuel : ℕ} (h : list sys fuel path recursive = .ok (result, lines)) :
    ∀ line ∈ lines, sys.Prints line := by
  induction fuel generalizing path result lines with
  | zero => cases h
  | succ fuel ih =>
    unfold list at h
    cases hopendir : sys.opendir path with
    | none =>
      rw [hopendir] at h
      cases h
      simp
    | some entries =>
      rw [hopendir] at h
      exact entryLoop_prints ih h

/-- The name of an entry begins behind the last slash of its path. -/
lemma takeWhile_reverse_namePath (path : Path) (d_name : Name) :
    (namePath path d_name).reverse.takeWhile (fun c => c ≠ SLASH) = d_name.bytes.reverse := by
  have hname : ∀ c ∈ d_name.bytes.reverse, decide (c ≠ SLASH) = true := by
    intro c hc
    rw [decide_eq_true_iff]
    rintro rfl
    exact d_name.slash (List.mem_reverse.mp hc)
  rw [namePath, List.reverse_append, List.takeWhile_append_of_pos hname, List.reverse_append]
  simp

lemma namePath_inj {path' : Path} {d_name d_name' : Name}
    (h : namePath path d_name = namePath path' d_name') : path = path' ∧ d_name = d_name' := by
  have hbytes : d_name.bytes = d_name'.bytes := by
    apply List.reverse_injective
    rw [← takeWhile_reverse_namePath path d_name, h, takeWhile_reverse_namePath]
  rw [namePath, namePath, hbytes, List.append_cancel_right_eq, List.append_cancel_right_eq] at h
  exact ⟨h, Name.ext hbytes⟩

lemma typestr_of_link {line : Line} {d_name : Name} {target : List CChar}
    (hlink : sys.Link path d_name target) (hprints : sys.Prints line)
    (hname : line.name = namePath path d_name) :
    line.typestr = linkBuffer (some target) := by
  obtain ⟨⟨st, hst, hfiletype⟩, hreadlinkat⟩ := hlink
  obtain ⟨path', d_name', st', hst', rfl⟩ := hprints
  obtain ⟨rfl, rfl⟩ := namePath_inj hname
  obtain rfl : st = st' := Option.some.inj (hst.symm.trans hst')
  have hfifo : S_IFLNK ≠ S_IFIFO := by decide
  have hdir : S_IFLNK ≠ S_IFDIR := by decide
  change (fileType sys path' d_name' st).2 = linkBuffer (some target)
  rw [fileType, hfiletype, if_neg hfifo, if_neg hdir, if_pos rfl, hreadlinkat]

end Lines

/-- `list` returns for a directory tree. With enough memory it prints a line for each symbolic link
that it has to list, and in whatever it prints, the type string of a link is the arrow and the
target, or a prefix of it, with a NUL in the array, exactly if the target is shorter than 1020
bytes. -/
theorem list_links {sys : System} {path : Path} {tree : Forest Name}
    (htargets : ∀ path d_name target, sys.readlinkat path d_name = some target → 0#8 ∉ target)
    (htree : sys.HasTree path tree) (recursive : ℤ) :
    ∃ result lines, (∀ fuel, tree.depth < fuel →
        list sys fuel path recursive = .ok (result, lines)) ∧
      ((∀ name_path, sys.malloc name_path) → ∀ names, tree.Has names →
        recursive ≠ 0 ∨ names.length = 1 → ∃ line ∈ lines, line.name = join path names) ∧
      ∀ names d_name target, tree.Has (names ++ [d_name]) →
        sys.Link (join path names) d_name target →
        ∀ line ∈ lines, line.name = join path (names ++ [d_name]) →
          (LinkString line.typestr target ↔ target.length < 1020) := by
  obtain ⟨result, lines, hlist, hprints⟩ := exists_list htree recursive
  refine ⟨result, lines, hlist, fun hmalloc names hnames hlisted => ?_, ?_⟩
  · have hmem : names ∈ listed tree recursive := by
      unfold listed
      split_ifs with hrecursive
      · have hlength : names.length = 1 := hlisted.resolve_left (not_not.mpr hrecursive)
        obtain ⟨name, rfl⟩ := List.length_eq_one_iff.mp hlength
        exact List.mem_map_of_mem hnames.mem_roots
      · exact ((Forest.isPreorder_preorder htree.distinct).mem_iff names).mpr hnames
    have hjoin := List.mem_map_of_mem (f := join path) hmem
    rw [← (hprints hmalloc).2] at hjoin
    exact List.mem_map.mp hjoin
  · intro names d_name target _ hlink line hline hname
    have hentries := list_prints_entries (hlist (tree.depth + 1) (by omega))
    rw [join, List.foldl_append] at hname
    rw [typestr_of_link hlink (hentries line hline) hname]
    exact linkString_iff (htargets _ _ _ hlink.2)

/-- The tree of `linked`, whose link is shown as a whole. -/
theorem list_links_linked : ∃ lines line, (∀ fuel, linkedTree.depth < fuel →
      ∃ result, list linked fuel DOT.bytes 1 = .ok (result, lines)) ∧ line ∈ lines ∧
    line.name = join DOT.bytes [nameC] ∧ LinkString line.typestr DOT.bytes := by
  have htargets : ∀ path d_name target, linked.readlinkat path d_name = some target →
      0#8 ∉ target := by
    intro path d_name target htarget
    obtain rfl : DOT.bytes = target := Option.some.inj htarget
    exact DOT.nul
  obtain ⟨result, lines, hlist, hlisted, hlinks⟩ := list_links htargets linked_hasTree 1
  have hhas : linkedTree.Has ([] ++ [nameC]) := .skip (.root nameC .nil .nil)
  obtain ⟨line, hline, hname⟩ :=
    hlisted (fun _ => rfl) [nameC] hhas (.inl one_ne_zero)
  have hlink : linked.Link (join DOT.bytes []) nameC DOT.bytes :=
    ⟨⟨⟨0xA1FF#32, 1#64⟩, by decide, by decide⟩, rfl⟩
  exact ⟨lines, line, fun fuel hfuel => ⟨result, hlist fuel hfuel⟩, hline, hname,
    (hlinks [] nameC DOT.bytes hhas hlink line hline hname).mpr (by decide)⟩

def longTarget : List CChar := List.replicate 1020 97#8

/-- The directory `.` has a symbolic link `c` whose target fills the array. -/
def longLink : System where
  opendir path := if path = DOT.bytes then some [nameC] else none
  malloc _ := true
  lstat _ := some ⟨0xA1FF#32, 1020#64⟩
  readlinkat _ _ := some longTarget

theorem not_linkString_longLink : longLink.HasTree DOT.bytes (.node nameC .nil .nil) ∧
    longLink.Link DOT.bytes nameC longTarget ∧
    ∃ line, list longLink 1 DOT.bytes 0 = .ok (0, [line]) ∧ 0#8 ∉ line.typestr ∧
      ¬LinkString line.typestr longTarget := by
  have hnul : 0#8 ∉ longTarget := by
    rw [longTarget, List.mem_replicate]
    decide
  have hlink : longLink.Link DOT.bytes nameC longTarget := ⟨⟨_, rfl, by decide⟩, rfl⟩
  have htypestr : (entryLine longLink DOT.bytes nameC ⟨0xA1FF#32, 1020#64⟩).typestr =
      linkBuffer (some longTarget) := typestr_of_link hlink ⟨_, _, _, rfl, rfl⟩ rfl
  refine ⟨⟨⟨_, rfl, by decide⟩, ⟨⟨_, rfl, ?_⟩, trivial, trivial⟩,
    by simp [Forest.Distinct, Forest.roots]⟩, hlink, _, rfl, ?_, ?_⟩
  · rw [if_neg (by decide)]
  · rw [htypestr]
    exact notMem_linkBuffer hnul (by rw [longTarget, List.length_replicate])
  · rw [htypestr, linkString_iff hnul, longTarget, List.length_replicate]
    omega

end StyLinux.Ls
