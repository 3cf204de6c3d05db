import Mathlib.Data.List.Lex
import Mathlib.Data.List.Sort
import StyLinux.Lib.Forest

/-!
# Forests in lexicographic order

The nodes of a forest whose labels are ordered, in the lexicographic order of the labels on the way
to them. This is a preorder in which siblings are sorted, and it does not depend on the order of
the siblings in the forest.
-/

namespace StyLinux.Lib

namespace Forest

variable {α : Type*} [LinearOrder α] {f : Forest α} {order order' : List (List α)} {a b : α}
  {p q : List α}

/-- The forest below the root `a`. -/
def children : Forest α → α → Forest α
  | nil, _ => nil
  | node b below rest, a => if a = b then below else rest.children a

lemma has_cons_iff (hf : f.Distinct) :
    f.Has (a :: p) ↔ a ∈ f.roots ∧ (p = [] ∨ (f.children a).Has p) := by
  induction f with
  | nil =>
    simp only [roots, List.not_mem_nil, false_and, iff_false]
    rintro ⟨⟩
  | node b below rest _ ihrest =>
    obtain ⟨hb, -, hrest⟩ := hf
    rw [has_node_iff, roots, List.mem_cons, children]
    by_cases hab : a = b
    · subst hab
      have hnot : ¬rest.Has (a :: p) := fun h => hb h.mem_roots
      simp [hnot]
    · simp [hab, ihrest hrest]

lemma distinct_children (hf : f.Distinct) : (f.children a).Distinct := by
  induction f with
  | nil => trivial
  | node b below rest _ ihrest =>
    unfold children
    split_ifs
    · exact hf.2.1
    · exact ihrest hf.2.2

lemma depth_children_lt (ha : a ∈ f.roots) : (f.children a).depth < f.depth := by
  induction f with
  | nil => cases ha
  | node b below rest _ ihrest =>
    rw [children, depth, lt_max_iff]
    split_ifs with hab
    · exact .inl (Nat.lt_succ_self _)
    · exact .inr (ihrest ((List.mem_cons.mp ha).resolve_left hab))

/-- The nodes are listed once each, in lexicographic order. -/
structure IsSorted (f : Forest α) (order : List (List α)) : Prop where
  sorted : order.Pairwise (· < ·)
  mem_iff : ∀ p, p ∈ order ↔ f.Has p

lemma IsSorted.nodup (h : f.IsSorted order) : order.Nodup :=
  h.sorted.imp fun hlt => hlt.ne

/-- The order is determined by the set of nodes. -/
lemma IsSorted.unique {g : Forest α} (h : f.IsSorted order) (h' : g.IsSorted order')
    (hsame : ∀ p, f.Has p ↔ g.Has p) : order = order' := by
  have hperm : order.Perm order' := by
    rw [List.perm_ext_iff_of_nodup h.nodup h'.nodup]
    intro p
    rw [h.mem_iff, h'.mem_iff, hsame]
  exact hperm.eq_of_pairwise (fun _ _ _ _ hlt hlt' => absurd hlt hlt'.not_gt) h.sorted h'.sorted

lemma isSorted_insertionSort (hf : f.Distinct) :
    f.IsSorted (f.preorder.insertionSort (· ≤ ·)) := by
  have hperm : (f.preorder.insertionSort (· ≤ ·)).Perm f.preorder := List.perm_insertionSort _ _
  constructor
  · have hnodup := hperm.nodup_iff.mpr (nodup_preorder hf)
    have hle := List.pairwise_insertionSort (· ≤ ·) f.preorder
    exact (hle.and hnodup).imp fun h => lt_of_le_of_ne h.1 h.2
  · intro p
    rw [hperm.mem_iff, mem_preorder_iff]

/-! ### Between a node and its descendants -/

lemma lt_of_isPrefix (h : p <+: q) (hne : q ≠ p) : p < q := by
  induction p generalizing q with
  | nil =>
    obtain ⟨b, q, rfl⟩ := List.exists_cons_of_ne_nil hne
    exact .nil
  | cons a p ih =>
    obtain ⟨t, rfl⟩ := h
    refine .cons (ih (List.prefix_append p t) ?_)
    simpa using hne

lemma prefix_of_between {r : List α} (hpr : p <+: r) (hpq : p < q) (hqr : q < r) : p <+: q := by
  induction p generalizing q r with
  | nil => exact List.nil_prefix
  | cons a p ih =>
    obtain ⟨t, rfl⟩ := hpr
    cases q with
    | nil => cases hpq
    | cons b q =>
      rw [List.cons_append, List.cons_lt_cons_iff] at hqr
      rw [List.cons_lt_cons_iff] at hpq
      rcases hpq with hab | ⟨rfl, hpq⟩
      · rcases hqr with hba | ⟨rfl, -⟩
        · exact absurd hab hba.not_gt
        · exact absurd hab (lt_irrefl _)
      · rcases hqr with haa | ⟨-, hqr⟩
        · exact absurd haa (lt_irrefl _)
        · exact List.cons_prefix_cons.mpr ⟨rfl, ih (List.prefix_append p t) hpq hqr⟩

/-- The nodes behind `p` that do not have it as a prefix come behind those that do. -/
lemma exists_split {rest : List (List α)} (hrest : (p :: rest).Pairwise (· < ·)) :
    ∃ below after, rest = below ++ after ∧ (∀ q ∈ below, p <+: q) ∧ ∀ q ∈ after, ¬p <+: q := by
  induction rest with
  | nil => exact ⟨[], [], rfl, by simp, by simp⟩
  | cons q rest ih =>
    have hlt : ∀ r ∈ q :: rest, p < r := fun _ => List.rel_of_pairwise_cons hrest
    obtain ⟨below, after, hrest', hbelow, hafter⟩ :=
      ih (hrest.sublist ((List.sublist_cons_self q rest).cons_cons p))
    by_cases hq : p <+: q
    · refine ⟨q :: below, after, by rw [hrest', List.cons_append], ?_, hafter⟩
      intro r hr
      rcases List.mem_cons.mp hr with rfl | hr
      · exact hq
      · exact hbelow r hr
    · refine ⟨[], q :: rest, rfl, by simp, ?_⟩
      intro r hr hpr
      rcases List.mem_cons.mp hr with rfl | hin
      · exact hq hpr
      · exact hq (prefix_of_between hpr (hlt q (by simp))
          (List.rel_of_pairwise_cons (List.pairwise_cons.mp hrest).2 hin))

theorem IsSorted.isPreorder (h : f.IsSorted order) : f.IsPreorder order where
  nodup := h.nodup
  mem_iff := h.mem_iff
  descendants := by
    intro p hp
    obtain ⟨before, rest, rfl⟩ := List.append_of_mem hp
    have hsorted := h.sorted
    rw [List.pairwise_append] at hsorted
    obtain ⟨-, hrest, hbefore⟩ := hsorted
    obtain ⟨below, after, rfl, hbelow, hafter⟩ := exists_split hrest
    refine ⟨before, below, after, rfl, ?_⟩
    intro q
    constructor
    · intro hq
      have hlt : p < q := List.rel_of_pairwise_cons hrest (List.mem_append_left _ hq)
      exact ⟨(h.mem_iff q).mp (by simp [hq]), hbelow q hq, hlt.ne'⟩
    · rintro ⟨hhas, hpq, hne⟩
      have hin := (h.mem_iff q).mpr hhas
      simp only [List.mem_append, List.mem_cons] at hin
      rcases hin with hin | rfl | hin | hin
      · exact absurd (lt_of_isPrefix hpq hne) (hbefore q hin p (by simp)).not_gt
      · exact absurd rfl hne
      · exact hin
      · exact absurd hpq (hafter q hin)

/-! ### The order from the roots on -/

/-- The sorted roots, each of them in front of what is below it. -/
lemma isSorted_flatMap (hf : f.Distinct) {names : List α} (hnames : names.Pairwise (· < ·))
    (hmem : ∀ a, a ∈ names ↔ a ∈ f.roots) {orderOf : α → List (List α)}
    (horder : ∀ a ∈ names, (f.children a).IsSorted (orderOf a)) :
    f.IsSorted (names.flatMap fun a => [a] :: (orderOf a).map (List.cons a)) := by
  constructor
  · rw [List.flatMap_def, List.pairwise_flatten]
    constructor
    · intro nodes hnodes
      obtain ⟨a, ha, rfl⟩ := List.mem_map.mp hnodes
      rw [List.pairwise_cons]
      constructor
      · intro q hq
        obtain ⟨p, hp, rfl⟩ := List.mem_map.mp hq
        have hne := (((horder a ha).mem_iff p).mp hp).ne_nil
        exact lt_of_isPrefix (List.prefix_append [a] p) (by simpa using hne)
      · exact (horder a ha).sorted.map _ fun _ _ hlt => .cons hlt
    · refine hnames.map _ ?_
      intro a b hab p hp q hq
      have hhead : ∀ c r, r ∈ [c] :: (orderOf c).map (List.cons c) → ∃ t, r = c :: t := by
        intro c r hr
        rcases List.mem_cons.mp hr with rfl | hr
        · exact ⟨[], rfl⟩
        · obtain ⟨t, -, rfl⟩ := List.mem_map.mp hr
          exact ⟨t, rfl⟩
      obtain ⟨t, rfl⟩ := hhead a p hp
      obtain ⟨u, rfl⟩ := hhead b q hq
      exact .rel hab
  · intro p
    cases p with
    | nil =>
      constructor
      · intro h
        simp at h
      · exact fun h => absurd rfl h.ne_nil
    | cons a p =>
      rw [has_cons_iff hf, ← hmem]
      constructor
      · intro h
        obtain ⟨b, hb, hin⟩ := List.mem_flatMap.mp h
        rcases List.mem_cons.mp hin with heq | hin
        · cases heq
          exact ⟨hb, .inl rfl⟩
        · obtain ⟨q, hq, heq⟩ := List.mem_map.mp hin
          cases heq
          exact ⟨hb, .inr (((horder a hb).mem_iff p).mp hq)⟩
      · rintro ⟨ha, rfl | hp⟩
        · exact List.mem_flatMap.mpr ⟨a, ha, by simp⟩
        · refine List.mem_flatMap.mpr ⟨a, ha, List.mem_cons_of_mem _ ?_⟩
          exact List.mem_map_of_mem (((horder a ha).mem_iff p).mpr hp)

end Forest

end StyLinux.Lib
