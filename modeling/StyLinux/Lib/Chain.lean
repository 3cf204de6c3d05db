import Mathlib.Tactic

/-!
# Singly linked lists

A linked structure has link cells `L` that hold a node address or nothing, and every
node `a` owns the link cell `next a`. `Chain next get l xs` says that following the
links from cell `l` visits the nodes `xs` and then reads an empty cell. The edits of a
chain (inserting, removing and replacing a node) all write the cell `endLink next l xs`
in which the nodes `xs` before the edit end.
-/

namespace StyLinux.Lib

variable {L A : Type*} (next : A → L) (get : L → Option A)

/-- From the cell `l` the links run through `xs` and end in an empty cell. -/
def Chain : L → List A → Prop
  | l, [] => get l = none
  | l, x :: xs => get l = some x ∧ Chain (next x) xs

/-- From the cell `l` the links run through `xs`; nothing is said about what follows. -/
def Path : L → List A → Prop
  | _, [] => True
  | l, x :: xs => get l = some x ∧ Path (next x) xs

/-- The cell in which a path from `l` through `xs` ends. -/
def endLink : L → List A → L
  | l, [] => l
  | _, x :: xs => endLink (next x) xs

variable {next get}

@[simp] lemma chain_nil (l : L) : Chain next get l [] ↔ get l = none := Iff.rfl

@[simp] lemma chain_cons (l : L) (x : A) (xs : List A) :
    Chain next get l (x :: xs) ↔ get l = some x ∧ Chain next get (next x) xs := Iff.rfl

@[simp] lemma path_nil (l : L) : Path next get l [] := trivial

@[simp] lemma path_cons (l : L) (x : A) (xs : List A) :
    Path next get l (x :: xs) ↔ get l = some x ∧ Path next get (next x) xs := Iff.rfl

@[simp] lemma endLink_nil (l : L) : endLink next l [] = l := rfl

@[simp] lemma endLink_cons (l : L) (x : A) (xs : List A) :
    endLink next l (x :: xs) = endLink next (next x) xs := rfl

lemma endLink_append (l : L) (xs ys : List A) :
    endLink next l (xs ++ ys) = endLink next (endLink next l xs) ys := by
  induction xs generalizing l with
  | nil => rfl
  | cons x xs ih => simp [ih]

@[simp] lemma endLink_concat (l : L) (xs : List A) (x : A) :
    endLink next l (xs ++ [x]) = next x := by
  rw [endLink_append]
  rfl

/-- The end cell of a path is its first cell or belongs to one of its nodes. -/
lemma endLink_mem (l : L) (xs : List A) :
    endLink next l xs = l ∧ xs = [] ∨ ∃ x ∈ xs, endLink next l xs = next x := by
  rcases List.eq_nil_or_concat xs with rfl | ⟨ys, y, rfl⟩
  · exact .inl ⟨rfl, rfl⟩
  · exact .inr ⟨y, by simp, by simp [List.concat_eq_append]⟩

lemma chain_append (l : L) (xs ys : List A) :
    Chain next get l (xs ++ ys) ↔ Path next get l xs ∧ Chain next get (endLink next l xs) ys := by
  induction xs generalizing l with
  | nil => simp
  | cons x xs ih => simp [ih, and_assoc]

lemma path_append (l : L) (xs ys : List A) :
    Path next get l (xs ++ ys) ↔ Path next get l xs ∧ Path next get (endLink next l xs) ys := by
  induction xs generalizing l with
  | nil => simp
  | cons x xs ih => simp [ih, and_assoc]

lemma chain_iff_path (l : L) (xs : List A) :
    Chain next get l xs ↔ Path next get l xs ∧ get (endLink next l xs) = none := by
  have h : Chain next get l (xs ++ []) ↔ _ := chain_append l xs []
  simpa using h

lemma Chain.get_eq_head? {l : L} {xs : List A} (h : Chain next get l xs) : get l = xs.head? := by
  cases xs with
  | nil => exact h
  | cons x xs => exact h.1

lemma Chain.get_endLink {l : L} {xs ys : List A} (h : Chain next get l (xs ++ ys)) :
    get (endLink next l xs) = ys.head? :=
  ((chain_append l xs ys).mp h).2.get_eq_head?

/-- A cell starts at most one chain. -/
theorem Chain.unique {l : L} {xs ys : List A} (hx : Chain next get l xs)
    (hy : Chain next get l ys) : xs = ys := by
  induction xs generalizing l ys with
  | nil =>
    cases ys with
    | nil => rfl
    | cons y ys => exact absurd (hx.symm.trans hy.1) (by simp)
  | cons x xs ih =>
    cases ys with
    | nil => exact absurd (hx.1.symm.trans hy) (by simp)
    | cons y ys =>
      obtain rfl : x = y := Option.some.inj (hx.1.symm.trans hy.1)
      rw [ih hx.2 hy.2]

lemma Chain.nodup {l : L} {xs : List A} (h : Chain next get l xs) : xs.Nodup := by
  induction xs generalizing l with
  | nil => exact List.nodup_nil
  | cons x xs ih =>
    refine List.nodup_cons.mpr ⟨?_, ih h.2⟩
    intro hmem
    obtain ⟨as, bs, rfl⟩ := List.append_of_mem hmem
    have hsuffix : Chain next get (next x) bs := ((chain_append _ _ _).mp h.2).2.2
    have hlen := congrArg List.length (h.2.unique hsuffix)
    simp only [List.length_append, List.length_cons] at hlen
    omega

lemma Path.unique_to {l : L} {z : A} {xs ys : List A} (hx : Path next get l (xs ++ [z]))
    (hy : Path next get l (ys ++ [z])) (hzx : z ∉ xs) (hzy : z ∉ ys) : xs = ys := by
  induction xs generalizing l ys with
  | nil =>
    cases ys with
    | nil => rfl
    | cons y ys =>
      have he : z = y := Option.some.inj (hx.1.symm.trans hy.1)
      exact absurd (by simp [he]) hzy
  | cons x xs ih =>
    cases ys with
    | nil =>
      have he : x = z := Option.some.inj (hx.1.symm.trans hy.1)
      exact absurd (by simp [he]) hzx
    | cons y ys =>
      obtain rfl : x = y := Option.some.inj (hx.1.symm.trans hy.1)
      rw [ih hx.2 hy.2 (fun h => hzx (by simp [h])) (fun h => hzy (by simp [h]))]

lemma Path.nodup_to {l : L} {z : A} {xs : List A} (hx : Path next get l (xs ++ [z]))
    (hz : z ∉ xs) : (xs ++ [z]).Nodup := by
  induction xs generalizing l with
  | nil => simp
  | cons x xs ih =>
    have hzx : z ∉ xs := fun h => hz (by simp [h])
    refine List.nodup_cons.mpr ⟨?_, ih hx.2 hzx⟩
    intro hmem
    rcases List.mem_append.mp hmem with hmem | hmem
    · obtain ⟨as, bs, rfl⟩ := List.append_of_mem hmem
      have hcons : Path next get (next x) (as ++ x :: (bs ++ [z])) := by simpa using hx.2
      have hsuffix : Path next get (next x) (bs ++ [z]) := ((path_append _ _ _).mp hcons).2.2
      have hlong : Path next get (next x) ((as ++ x :: bs) ++ [z]) := by simpa using hx.2
      have hsame := hlong.unique_to hsuffix hzx (fun h => hzx (by simp [h]))
      have hlen := congrArg List.length hsame
      simp only [List.length_append, List.length_cons] at hlen
      omega
    · have he : x = z := by simpa using hmem
      exact hz (by simp [he])

lemma Path.congr {get' : L → Option A} {l : L} {xs : List A} (h : Path next get l xs)
    (hl : xs ≠ [] → get' l = get l) (hx : ∀ x ∈ xs.dropLast, get' (next x) = get (next x)) :
    Path next get' l xs := by
  induction xs generalizing l with
  | nil => trivial
  | cons x xs ih =>
    refine ⟨(hl (by simp)).trans h.1, ih h.2 ?_ ?_⟩
    · intro hne
      exact hx x (by simp [List.dropLast_cons_of_ne_nil hne])
    · intro y hy
      have hne : xs ≠ [] := by
        rintro rfl
        simp at hy
      exact hx y (by simp [List.dropLast_cons_of_ne_nil hne, hy])

lemma Chain.congr {get' : L → Option A} {l : L} {xs : List A} (h : Chain next get l xs)
    (hl : get' l = get l) (hx : ∀ x ∈ xs, get' (next x) = get (next x)) :
    Chain next get' l xs := by
  induction xs generalizing l with
  | nil => exact hl.trans h
  | cons x xs ih =>
    exact ⟨hl.trans h.1, ih h.2 (hx x (by simp)) (fun y hy => hx y (by simp [hy]))⟩

/-- The links of other nodes do not matter. -/
lemma Chain.congr_next {next' : A → L} {l : L} {xs : List A} (h : Chain next get l xs)
    (hx : ∀ x ∈ xs, next' x = next x) : Chain next' get l xs := by
  induction xs generalizing l with
  | nil => exact h
  | cons x xs ih =>
    refine ⟨h.1, ?_⟩
    rw [hx x (by simp)]
    exact ih h.2 fun y hy => hx y (by simp [hy])

section Updates

variable [DecidableEq L]

lemma Path.update_endLink (hinj : Function.Injective next) {l : L} (hfirst : ∀ a, next a ≠ l)
    {xs : List A} (hnodup : xs.Nodup) (h : Path next get l xs) (v : Option A) :
    Path next (Function.update get (endLink next l xs) v) l xs := by
  rcases List.eq_nil_or_concat xs with rfl | ⟨ys, y, rfl⟩
  · trivial
  · rw [List.concat_eq_append] at *
    apply h.congr
    · intro _
      rw [endLink_concat, Function.update_of_ne (hfirst y).symm]
    · intro x hx
      rw [List.dropLast_concat] at hx
      rw [endLink_concat, Function.update_of_ne]
      intro he
      obtain rfl := hinj he
      exact List.disjoint_of_nodup_append hnodup hx (by simp)

/-- After a node is linked into the end cell of a path, the node is reached through some of
the nodes of the path. -/
lemma Path.reach_update {l : L} {xs : List A} (h : Path next get l xs) (y : A) :
    ∃ ys, ys ⊆ xs ∧
      Path next (Function.update get (endLink next l xs) (some y)) l (ys ++ [y]) := by
  induction xs generalizing l with
  | nil => exact ⟨[], by simp, by simp⟩
  | cons x xs ih =>
    by_cases hl : l = endLink next l (x :: xs)
    · exact ⟨[], by simp, by simp [← hl]⟩
    · obtain ⟨ys, hsub, hpath⟩ := ih h.2
      refine ⟨x :: ys, List.cons_subset_cons x hsub, ?_, hpath⟩
      rw [Function.update_of_ne hl]
      exact h.1

lemma Chain.update_of_notMem (hinj : Function.Injective next) {l : L}
    (hfirst : ∀ a, next a ≠ l) {xs : List A} {y : A} (hy : y ∉ xs) (h : Chain next get l xs)
    (v : Option A) : Chain next (Function.update get (next y) v) l xs := by
  apply h.congr
  · rw [Function.update_of_ne (hfirst y).symm]
  · intro x hx
    rw [Function.update_of_ne]
    intro he
    exact hy (hinj he ▸ hx)

lemma Path.update_of_notMem (hinj : Function.Injective next) {l : L}
    (hfirst : ∀ a, next a ≠ l) {xs : List A} {y : A} (hy : y ∉ xs) (h : Path next get l xs)
    (v : Option A) : Path next (Function.update get (next y) v) l xs := by
  apply h.congr
  · intro _
    rw [Function.update_of_ne (hfirst y).symm]
  · intro x hx
    rw [Function.update_of_ne]
    intro he
    exact hy (hinj he ▸ List.dropLast_subset xs hx)

/-- Redirecting the end cell of the path `xs` to the chain `zs`, which shares no node
with it. -/
lemma Path.splice (hinj : Function.Injective next) {l : L} (hfirst : ∀ a, next a ≠ l)
    {xs zs : List A} (hx : Path next get l xs) (hnodup : (xs ++ zs).Nodup)
    {v : Option A} (hv : v = zs.head?)
    (hz : ∀ z zs', zs = z :: zs' → Chain next get (next z) zs') :
    Chain next (Function.update get (endLink next l xs) v) l (xs ++ zs) := by
  obtain ⟨hnx, hnz, hdis⟩ := List.nodup_append.mp hnodup
  refine (chain_append l xs zs).mpr ⟨hx.update_endLink hinj hfirst hnx v, ?_⟩
  cases zs with
  | nil => simp [hv]
  | cons z zs =>
    refine ⟨by simp [hv], ?_⟩
    -- the cells of `zs` are not the end cell, whose owner is the first cell or in `xs`
    have hne : ∀ y ∈ z :: zs, next y ≠ endLink next l xs := by
      intro y hy he
      have hend : endLink next l xs = l ∧ xs = [] ∨ ∃ x ∈ xs, endLink next l xs = next x :=
        endLink_mem l xs
      rcases hend with ⟨hl, -⟩ | ⟨x, hxs, hxe⟩
      · exact hfirst y (he.trans hl)
      · exact hdis x hxs y hy (hinj (hxe.symm.trans he.symm))
    apply (hz z zs rfl).congr
    · rw [Function.update_of_ne (hne z (by simp))]
    · intro y hy
      rw [Function.update_of_ne (hne y (by simp [hy]))]

/-- Making the end cell of the path `xs` a copy of a cell `m` that starts the chain
`ys`. With `m` the cell of the node after `xs` this unlinks that node. -/
lemma Path.joinChain (hinj : Function.Injective next) {l m : L} (hfirst : ∀ a, next a ≠ l)
    {xs ys : List A} (hx : Path next get l xs) (hy : Chain next get m ys)
    (hnodup : (xs ++ ys).Nodup) :
    Chain next (Function.update get (endLink next l xs) (get m)) l (xs ++ ys) := by
  apply hx.splice hinj hfirst hnodup hy.get_eq_head?
  rintro z zs rfl
  exact hy.2

/-- Linking the node `y` between the path `xs` and the chain `ys` which starts at the
cell `m`. -/
lemma Path.joinNode (hinj : Function.Injective next) {l m : L} (hfirst : ∀ a, next a ≠ l)
    {xs ys : List A} {y : A} (hx : Path next get l xs) (hy : Chain next get m ys)
    (hnodup : (xs ++ y :: ys).Nodup) :
    Chain next (Function.update (Function.update get (next y) (get m))
      (endLink next l xs) (some y)) l (xs ++ y :: ys) := by
  obtain ⟨hyx, -⟩ := List.nodup_cons.mp (List.nodup_middle.mp hnodup)
  rw [List.mem_append, not_or] at hyx
  apply (hx.update_of_notMem hinj hfirst hyx.1 (get m)).splice hinj hfirst hnodup rfl
  rintro z zs he
  obtain ⟨rfl, rfl⟩ := List.cons.inj he
  cases ys with
  | nil => simpa using hy
  | cons w ws =>
    refine ⟨by simpa using hy.1, hy.2.congr ?_ ?_⟩
    · rw [Function.update_of_ne]
      intro hw
      exact hyx.2 (by simp [← hinj hw])
    · intro x hxs
      rw [Function.update_of_ne]
      intro hw
      exact hyx.2 (by simp [← hinj hw, hxs])

end Updates

end StyLinux.Lib
