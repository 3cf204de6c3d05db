import StyLinux.Malloc.Client

/-!
# Statistics of the free list

`getAllocStatistics` of `vika4/malloc.c` and `vika5/malloc.c`. The sizes of blocks have 64 bits and
the numbers that are returned have 32. `vika4` keeps the largest size in a 64-bit variable until the
end, `vika5` in the 32-bit field itself, so that they disagree once a size does not fit.
-/

namespace StyLinux.Malloc

open Lib

variable {σ : Type} {h : Heap σ} {store : ℕ → ℕ} {sizes xs : List ℕ}

/-- The value modulo `2 ^ 32` that a `uint32_t` holds. -/
def wrap32 (n : ℕ) : ℕ := n % 2 ^ 32

structure MallocStat where
  nFree : ℕ
  avgFree : ℕ
  largestFree : ℕ
  deriving DecidableEq, Repr

/-- The variables of the loop over the free list. -/
@[ext]
structure Tally where
  nFree : ℕ
  totalFree : ℕ
  largestFree : ℕ
  deriving DecidableEq, Repr

/-- One iteration of the loop. `store` is what the variable for the largest size makes of a
`uint64_t`. -/
def Tally.add (store : ℕ → ℕ) (c : Tally) (size : ℕ) : Tally where
  nFree := wrap32 (c.nFree + 1)
  totalFree := wrap64 (c.totalFree + size)
  largestFree := if c.largestFree < size then store size else c.largestFree

def tallyLoop (store : ℕ → ℕ) (h : Heap σ) : ℕ → Tally → Option ℕ → Except Fault Tally
  | 0, _, _ => .error .outOfFuel
  | _ + 1, c, none => .ok c
  | fuel + 1, c, some current =>
    tallyLoop store h fuel (c.add store (h.size current)) (h.read (.next current))

def Vika4.getAllocStatistics (fuel : ℕ) (h : Heap σ) : Except Fault MallocStat := do
  let c ← tallyLoop id h fuel ⟨0, 0, 0⟩ h.firstFreeBlock
  pure {
    nFree := c.nFree
    avgFree := if 0 < c.nFree then wrap32 (c.totalFree / c.nFree) else 0
    largestFree := wrap32 c.largestFree }

def Vika5.getAllocStatistics (fuel : ℕ) (h : Heap σ) : Except Fault MallocStat := do
  let c ← tallyLoop wrap32 h fuel ⟨0, 0, 0⟩ h.firstFreeBlock
  pure {
    nFree := c.nFree
    avgFree := if 0 < c.nFree then wrap32 (c.totalFree / c.nFree) else 0
    largestFree := c.largestFree }

/-- The numbers that are to be returned for blocks of the given sizes. -/
def exactStat (sizes : List ℕ) : MallocStat where
  nFree := sizes.length
  avgFree := sizes.sum / sizes.length
  largestFree := sizes.max?.getD 0

/-- Both versions return the exact numbers for the free list `xs`. -/
structure StatisticsOk (h : Heap σ) (xs : List ℕ) : Prop where
  vika4 : Returns .outOfFuel (fun fuel => Vika4.getAllocStatistics fuel h)
    (.ok (exactStat (xs.map h.size)))
  vika5 : Returns .outOfFuel (fun fuel => Vika5.getAllocStatistics fuel h)
    (.ok (exactStat (xs.map h.size)))

/-! ### The loop -/

lemma wrap32_lt (n : ℕ) : wrap32 n < 2 ^ 32 := Nat.mod_lt _ (by norm_num)

lemma wrap32_of_lt {n : ℕ} (hn : n < 2 ^ 32) : wrap32 n = n := Nat.mod_eq_of_lt hn

lemma returns_tallyLoop {l : Link} (c : Tally) (hc : Chain Link.next h.read l xs) :
    Returns .outOfFuel (fun fuel => tallyLoop store h fuel c (h.read l))
      (.ok ((xs.map h.size).foldl (Tally.add store) c)) := by
  induction xs generalizing l c with
  | nil =>
    have hr : h.read l = none := hc
    refine (Returns.const _).succ rfl ?_
    intro fuel
    rw [hr, tallyLoop]
    rfl
  | cons x xs ih =>
    refine (ih (c.add store (h.size x)) hc.2).succ rfl ?_
    intro fuel
    rw [hc.1, tallyLoop]

lemma nFree_foldl {c : Tally} (hc : c.nFree < 2 ^ 32) :
    (sizes.foldl (Tally.add store) c).nFree = wrap32 (c.nFree + sizes.length) := by
  induction sizes generalizing c with
  | nil => exact (wrap32_of_lt hc).symm
  | cons size sizes ih =>
    have hnext := @ih (c.add store size) (wrap32_lt _)
    rw [List.foldl_cons, hnext, List.length_cons]
    simp only [Tally.add, wrap32]
    omega

lemma totalFree_foldl {c : Tally} (hsum : c.totalFree + sizes.sum < 2 ^ 64) :
    (sizes.foldl (Tally.add store) c).totalFree = c.totalFree + sizes.sum := by
  induction sizes generalizing c with
  | nil => rfl
  | cons size sizes ih =>
    rw [List.sum_cons] at hsum
    have hadd : (c.add store size).totalFree = c.totalFree + size := wrap64_of_lt (by omega)
    rw [List.foldl_cons, ih (by omega), hadd, List.sum_cons]
    omega

lemma largestFree_foldl {c : Tally} (hstore : ∀ size ∈ sizes, store size = size) :
    (sizes.foldl (Tally.add store) c).largestFree = sizes.foldl max c.largestFree := by
  induction sizes generalizing c with
  | nil => rfl
  | cons size sizes ih =>
    have hadd : (c.add store size).largestFree = max c.largestFree size := by
      simp only [Tally.add, hstore size (by simp)]
      split_ifs <;> omega
    rw [List.foldl_cons, ih (fun s hs => hstore s (by simp [hs])), hadd, List.foldl_cons]

/-- The loop with all its variables, if the sizes fit into the one for the largest. -/
lemma foldl_add (hstore : ∀ size ∈ sizes, store size = size) (hsum : sizes.sum < 2 ^ 64) :
    sizes.foldl (Tally.add store) ⟨0, 0, 0⟩ =
      ⟨wrap32 sizes.length, sizes.sum, sizes.foldl max 0⟩ := by
  ext
  · rw [nFree_foldl (by norm_num), Nat.zero_add]
  · rw [totalFree_foldl (by rwa [Nat.zero_add]), Nat.zero_add]
  · rw [largestFree_foldl hstore]

/-! ### The largest size -/

lemma max?_getD (sizes : List ℕ) : sizes.max?.getD 0 = sizes.foldl max 0 := by
  cases sizes with
  | nil => rfl
  | cons size sizes => rw [List.max?_cons', Option.getD_some, List.foldl_cons, Nat.zero_max]

lemma foldl_max_lt_iff {n a : ℕ} : sizes.foldl max a < n ↔ a < n ∧ ∀ size ∈ sizes, size < n := by
  induction sizes generalizing a with
  | nil => simp
  | cons size sizes ih => simp [ih, and_assoc]

/-- The average does not exceed the largest size. -/
lemma average_lt {n : ℕ} (hsizes : ∀ size ∈ sizes, size < n) (hne : sizes ≠ []) :
    sizes.sum / sizes.length < n := by
  have hlen : 0 < sizes.length := List.length_pos_iff.mpr hne
  have hle : sizes.sum ≤ sizes.length • (n - 1) := by
    apply List.sum_le_card_nsmul
    intro size hsize
    have hlt := hsizes size hsize
    omega
  obtain ⟨size, hsize⟩ := List.exists_mem_of_ne_nil sizes hne
  have hn : 0 < n := (Nat.zero_le size).trans_lt (hsizes size hsize)
  rw [Nat.div_lt_iff_lt_mul hlen, mul_comm]
  calc sizes.sum ≤ sizes.length * (n - 1) := hle
    _ < sizes.length * n := Nat.mul_lt_mul_of_pos_left (by omega) hlen

lemma exactStat_eq (hlen : sizes.length < 2 ^ 32) (hsizes : ∀ size ∈ sizes, size < 2 ^ 32) :
    exactStat sizes = ⟨wrap32 sizes.length,
      if 0 < wrap32 sizes.length then wrap32 (sizes.sum / wrap32 sizes.length) else 0,
      sizes.foldl max 0⟩ := by
  rw [wrap32_of_lt hlen, exactStat, max?_getD]
  cases sizes with
  | nil => rfl
  | cons size sizes =>
    have havg := average_lt hsizes (by simp)
    rw [if_pos (by simp), wrap32_of_lt havg]

/-! ### The statistics -/

lemma Vika4.returns_getAllocStatistics (hc : Chain Link.next h.read .first xs)
    (hsum : (xs.map h.size).sum < 2 ^ 64) :
    Returns .outOfFuel (fun fuel => getAllocStatistics fuel h) (.ok ⟨wrap32 (xs.map h.size).length,
      if 0 < wrap32 (xs.map h.size).length then
        wrap32 ((xs.map h.size).sum / wrap32 (xs.map h.size).length) else 0,
      wrap32 ((xs.map h.size).foldl max 0)⟩) := by
  have hloop := @returns_tallyLoop σ h id xs .first ⟨0, 0, 0⟩ hc
  rw [foldl_add (fun size _ => id_eq size) hsum] at hloop
  exact hloop.map _

lemma Vika5.returns_getAllocStatistics (hc : Chain Link.next h.read .first xs)
    (hsum : (xs.map h.size).sum < 2 ^ 64) (hsizes : ∀ size ∈ xs.map h.size, size < 2 ^ 32) :
    Returns .outOfFuel (fun fuel => getAllocStatistics fuel h) (.ok ⟨wrap32 (xs.map h.size).length,
      if 0 < wrap32 (xs.map h.size).length then
        wrap32 ((xs.map h.size).sum / wrap32 (xs.map h.size).length) else 0,
      (xs.map h.size).foldl max 0⟩) := by
  have hloop := @returns_tallyLoop σ h wrap32 xs .first ⟨0, 0, 0⟩ hc
  rw [foldl_add (fun size hsize => wrap32_of_lt (hsizes size hsize)) hsum] at hloop
  exact hloop.map _

/-- The number of blocks and the largest size are wrong in `vika4` as soon as they do not fit. -/
lemma Vika4.exact_iff (hc : Chain Link.next h.read .first xs)
    (hsum : (xs.map h.size).sum < 2 ^ 64) :
    Returns .outOfFuel (fun fuel => getAllocStatistics fuel h) (.ok (exactStat (xs.map h.size))) ↔
      xs.length < 2 ^ 32 ∧ ∀ size ∈ xs.map h.size, size < 2 ^ 32 := by
  have hret := returns_getAllocStatistics hc hsum
  constructor
  · intro hexact
    obtain ⟨fuel, hok⟩ := hexact.exists_eq
    have heq := Except.ok.inj (hret.eq_of_ok hok)
    obtain ⟨hlen, -, hlargest⟩ := MallocStat.mk.inj heq
    rw [max?_getD] at hlargest
    have hlt := wrap32_lt ((xs.map h.size).foldl max 0)
    rw [hlargest] at hlt
    rw [List.length_map] at hlen
    exact ⟨hlen ▸ wrap32_lt _, (foldl_max_lt_iff.mp hlt).2⟩
  · rintro ⟨hlen, hsizes⟩
    have hlargest : (xs.map h.size).foldl max 0 < 2 ^ 32 :=
      foldl_max_lt_iff.mpr ⟨by norm_num, hsizes⟩
    rw [exactStat_eq (by rwa [List.length_map]) hsizes]
    rwa [wrap32_of_lt hlargest] at hret

/-- Both versions return the exact numbers exactly if there are fewer than `2 ^ 32` free blocks and
each of them is smaller than `2 ^ 32` bytes. -/
theorem statisticsOk_iff (hc : Chain Link.next h.read .first xs)
    (hsum : (xs.map h.size).sum < 2 ^ 64) :
    StatisticsOk h xs ↔ xs.length < 2 ^ 32 ∧ ∀ x ∈ xs, h.size x < 2 ^ 32 := by
  rw [← List.forall_mem_map (P := fun size => size < 2 ^ 32)]
  constructor
  · exact fun hok => (Vika4.exact_iff hc hsum).mp hok.vika4
  · rintro ⟨hlen, hsizes⟩
    refine ⟨(Vika4.exact_iff hc hsum).mpr ⟨hlen, hsizes⟩, ?_⟩
    rw [exactStat_eq (by rwa [List.length_map]) hsizes]
    exact Vika5.returns_getAllocStatistics hc hsum hsizes

/-- Three free blocks of different sizes. -/
def gapsHeap : Heap Unit where
  heapStart := 4096
  heapSize := 640
  firstFreeBlock := some 4096
  mem := Function.update (Function.update (Function.update (fun _ => ⟨0, none⟩)
    4096 ⟨48, some 4224⟩) 4224 ⟨144, some 4640⟩) 4640 ⟨96, none⟩
  os := ()

theorem statistics_gapsHeap :
    Returns .outOfFuel (fun fuel => Vika4.getAllocStatistics fuel gapsHeap) (.ok ⟨3, 96, 144⟩) ∧
    Returns .outOfFuel (fun fuel => Vika5.getAllocStatistics fuel gapsHeap)
      (.ok ⟨3, 96, 144⟩) := by
  have hchain : Chain Link.next gapsHeap.read .first [4096, 4224, 4640] := ⟨rfl, rfl, rfl, rfl⟩
  have hsizes : [4096, 4224, 4640].map gapsHeap.size = [48, 144, 96] := rfl
  have hok : StatisticsOk gapsHeap [4096, 4224, 4640] := by
    refine (statisticsOk_iff hchain ?_).mpr ⟨by decide, ?_⟩
    · rw [hsizes]
      decide
    · rw [← List.forall_mem_map (P := fun size => size < 2 ^ 32), hsizes]
      decide
  obtain ⟨hvika4, hvika5⟩ := hok
  rw [hsizes] at hvika4 hvika5
  exact ⟨hvika4, hvika5⟩

/-- Two free blocks, the first one of which is larger than 4 GiB. -/
def largeHeap : Heap Unit where
  heapStart := 4096
  heapSize := 2 ^ 33
  firstFreeBlock := some 4096
  mem := Function.update (Function.update (fun _ => ⟨0, none⟩) 4096 ⟨2 ^ 32 + 16, some (2 ^ 33)⟩)
    (2 ^ 33) ⟨32, none⟩
  os := ()

/-- `vika4` returns 16 for the largest block, and `vika5` returns 32. -/
theorem not_statisticsOk_largeHeap :
    Chain Link.next largeHeap.read .first [4096, 2 ^ 33] ∧
    Vika4.getAllocStatistics 3 largeHeap = .ok ⟨2, 2 ^ 31 + 24, 16⟩ ∧
    Vika5.getAllocStatistics 3 largeHeap = .ok ⟨2, 2 ^ 31 + 24, 32⟩ ∧
    ¬StatisticsOk largeHeap [4096, 2 ^ 33] := by
  refine ⟨⟨rfl, rfl, rfl⟩, rfl, rfl, ?_⟩
  intro hok
  have hvika4 : Vika4.getAllocStatistics 3 largeHeap = .ok ⟨2, 2 ^ 31 + 24, 16⟩ := rfl
  have heq := hok.vika4.eq_of_ok hvika4
  exact absurd heq (by decide)

end StyLinux.Malloc
