import StyLinux.Lib.Tiling
import StyLinux.Malloc.Heap

/-!
# The layout of the heap

The abstract view of an allocator state: the heap interval is tiled by blocks, each of
which is on the free list, handed out, or lost (neither). `Laid h ts live` says that the
heap `h` represents the tiling `ts` and that the client holds the pointers `live`. The
lemmas of this file follow each edit of the free list on the tiling.
-/

namespace StyLinux.Malloc

open Lib

inductive Tag
  | free
  | live
  | lost
  deriving DecidableEq, Repr

abbrev Chunk := Tile Tag

def freeStarts (ts : List Chunk) : List ℕ := startsOf (fun t => t.tag = .free) ts

def liveStarts (ts : List Chunk) : List ℕ := startsOf (fun t => t.tag = .live) ts

def dataOf (a : ℕ) : ℕ := a + HEADER_SIZE

variable {σ : Type}

/-- The tiling `ts` gives the block boundaries that the headers in memory record. -/
structure Layout (h : Heap σ) (ts : List Chunk) (live : List ℕ) : Prop where
  tiles : Tiles h.heapStart ts (h.heapStart + h.heapSize)
  sizes : ∀ t ∈ ts, h.size t.lo = t.len
  aligned : ∀ t ∈ ts, 16 ∣ t.len
  live_perm : live.Perm ((liveStarts ts).map dataOf)
  room : h.heapStart + h.heapSize < 2 ^ 64
  grown : HEAP_SIZE ≤ h.heapSize

/-- The layout together with the free list, which runs through the free blocks in
address order. -/
structure Laid (h : Heap σ) (ts : List Chunk) (live : List ℕ) : Prop
    extends Layout h ts live where
  chain : Chain Link.next h.read .first (freeStarts ts)

def NoLost (ts : List Chunk) : Prop := ∀ t ∈ ts, t.tag ≠ .lost

/-! ### Free and live starts -/

@[simp] lemma freeStarts_nil : freeStarts [] = [] := rfl

@[simp] lemma liveStarts_nil : liveStarts [] = [] := rfl

@[simp] lemma freeStarts_append (ts us : List Chunk) :
    freeStarts (ts ++ us) = freeStarts ts ++ freeStarts us := startsOf_append _ ts us

@[simp] lemma liveStarts_append (ts us : List Chunk) :
    liveStarts (ts ++ us) = liveStarts ts ++ liveStarts us := startsOf_append _ ts us

@[simp] lemma freeStarts_cons (t : Chunk) (ts : List Chunk) :
    freeStarts (t :: ts) = (if t.tag = .free then [t.lo] else []) ++ freeStarts ts :=
  startsOf_cons _ t ts

@[simp] lemma liveStarts_cons (t : Chunk) (ts : List Chunk) :
    liveStarts (t :: ts) = (if t.tag = .live then [t.lo] else []) ++ liveStarts ts :=
  startsOf_cons _ t ts

lemma mem_freeStarts {a : ℕ} {ts : List Chunk} :
    a ∈ freeStarts ts ↔ ∃ t ∈ ts, t.tag = .free ∧ t.lo = a := mem_startsOf _

lemma mem_liveStarts {a : ℕ} {ts : List Chunk} :
    a ∈ liveStarts ts ↔ ∃ t ∈ ts, t.tag = .live ∧ t.lo = a := mem_startsOf _

namespace Layout

variable {h : Heap σ} {ts us vs : List Chunk} {t : Chunk} {live : List ℕ}

lemma bounds (hl : Layout h ts live) (ht : t ∈ ts) :
    h.heapStart ≤ t.lo ∧ t.lo + t.len ≤ h.heapStart + h.heapSize := hl.tiles.bounds ht

lemma lt_room (hl : Layout h ts live) (ht : t ∈ ts) : t.lo + t.len < 2 ^ 64 :=
  (hl.bounds ht).2.trans_lt hl.room

lemma header_le (hl : Layout h ts live) (ht : t ∈ ts) : HEADER_SIZE ≤ t.len := by
  have hpos := hl.tiles.pos ht
  have hdvd := hl.aligned t ht
  rw [HEADER_SIZE_eq]
  omega

lemma sub64_dataOf (hl : Layout h ts live) (ht : t ∈ ts) :
    sub64 (dataOf t.lo) HEADER_SIZE = t.lo := by
  have hroom := hl.lt_room ht
  have hhead := hl.header_le ht
  have hle : HEADER_SIZE ≤ dataOf t.lo := Nat.le_add_left _ _
  have hlt : dataOf t.lo < 2 ^ 64 := by
    unfold dataOf
    omega
  rw [sub64_of_le hle hlt]
  simp [dataOf]

lemma lt_end (hl : Layout h ts live) {a : ℕ} (ha : a ∈ freeStarts ts) :
    a < h.heapStart + h.heapSize := by
  obtain ⟨t, ht, -, rfl⟩ := mem_freeStarts.mp ha
  have hb := (hl.bounds ht).2
  have hpos := hl.tiles.pos ht
  omega

/-- The end of the heap can be the start of another free block. -/
lemma nodup_end (hl : Layout h ts live) :
    (freeStarts ts ++ [h.heapStart + h.heapSize]).Nodup := by
  rw [List.nodup_append_comm]
  exact List.nodup_cons.mpr
    ⟨fun ha => (hl.lt_end ha).false, hl.tiles.nodup_startsOf _⟩

lemma dvd_heapSize (hl : Layout h ts live) : 16 ∣ h.heapSize := by
  have hsum : ∀ (a b : ℕ) (us : List Chunk), Tiles a us b → (∀ t ∈ us, 16 ∣ t.len) →
      16 ∣ b - a := by
    intro a b us htiles hdvd
    induction us generalizing a with
    | nil =>
      rw [tiles_nil] at htiles
      simp [htiles]
    | cons t us ih =>
      obtain ⟨rfl, -, htail⟩ := htiles
      have hle := htail.le
      have hhead := hdvd t (by simp)
      have hrest := ih t.hi htail (fun s hs => hdvd s (by simp [hs]))
      simp only [Tile.hi] at *
      omega
  have h16 := hsum _ _ ts hl.tiles hl.aligned
  rwa [Nat.add_sub_cancel_left] at h16

lemma mem_live (hl : Layout h ts live) {p : ℕ} :
    p ∈ live ↔ ∃ t ∈ ts, t.tag = .live ∧ p = dataOf t.lo := by
  rw [hl.live_perm.mem_iff, List.mem_map]
  constructor
  · rintro ⟨a, ha, rfl⟩
    obtain ⟨t, ht, htag, rfl⟩ := mem_liveStarts.mp ha
    exact ⟨t, ht, htag, rfl⟩
  · rintro ⟨t, ht, htag, rfl⟩
    exact ⟨t.lo, mem_liveStarts.mpr ⟨t, ht, htag, rfl⟩, rfl⟩

lemma congr {h' : Heap σ} (hl : Layout h ts live) (hstart : h'.heapStart = h.heapStart)
    (hsize : h'.heapSize = h.heapSize) (hs : ∀ t ∈ ts, h'.size t.lo = h.size t.lo) :
    Layout h' ts live where
  tiles := by simpa [hstart, hsize] using hl.tiles
  sizes t ht := (hs t ht).trans (hl.sizes t ht)
  aligned := hl.aligned
  live_perm := hl.live_perm
  room := by simpa [hstart, hsize] using hl.room
  grown := by simpa [hsize] using hl.grown

end Layout

namespace Laid

variable {h : Heap σ} {ts : List Chunk} {live : List ℕ}

lemma withOs (hl : Laid h ts live) (os : σ) : Laid (h.withOs os) ts live :=
  ⟨hl.toLayout.congr rfl rfl (fun _ _ => rfl), by simpa using hl.chain⟩

lemma congr_mem {mem : ℕ → Block} (hl : Laid h ts live)
    (hmem : ∀ t ∈ ts, mem t.lo = h.mem t.lo) : Laid { h with mem } ts live := by
  refine ⟨hl.toLayout.congr rfl rfl ?_, hl.chain.congr rfl ?_⟩
  · intro t ht
    simp [Heap.size, hmem t ht]
  · intro a ha
    obtain ⟨t, ht, -, rfl⟩ := mem_freeStarts.mp ha
    simp [Heap.read, hmem t ht]

end Laid

/-! ### Handing out a block -/

/-- The tiles that an allocation of `n` bytes makes of a free tile. -/
def cut (t : Chunk) (n : ℕ) : List Chunk :=
  if t.len = n then [⟨t.lo, n, .live⟩]
  else [⟨t.lo, n, .live⟩, ⟨t.lo + n, t.len - n, .free⟩]

/-- `us'` is `us` with some of the free tiles turned into lost ones. -/
def Abandons (us us' : List Chunk) : Prop :=
  List.Forall₂ (fun t t' => t' = t ∨ t.tag = .free ∧ t' = { t with tag := .lost }) us us'

lemma Abandons.refl (us : List Chunk) : Abandons us us :=
  List.forall₂_same.mpr (fun _ _ => .inl rfl)

/-- All free tiles are turned into lost ones. -/
def abandon (us : List Chunk) : List Chunk :=
  us.map (fun t => if t.tag = .free then { t with tag := .lost } else t)

lemma abandons_abandon (us : List Chunk) : Abandons us (abandon us) := by
  unfold Abandons abandon
  rw [List.forall₂_map_right_iff, List.forall₂_same]
  intro t _
  by_cases h : t.tag = .free <;> simp [h]

@[simp] lemma freeStarts_abandon (us : List Chunk) : freeStarts (abandon us) = [] := by
  induction us with
  | nil => rfl
  | cons t us ih =>
    have h : abandon (t :: us) =
        (if t.tag = .free then { t with tag := .lost } else t) :: abandon us := rfl
    rw [h, freeStarts_cons, ih]
    by_cases ht : t.tag = .free <;> simp [ht]

namespace Abandons

variable {us us' : List Chunk} {a b : ℕ}

lemma tiles (h : Abandons us us') (ht : Tiles a us b) : Tiles a us' b := by
  induction h generalizing a with
  | nil => exact ht
  | cons hx _ ih =>
    obtain ⟨hlo, hpos, ht⟩ := ht
    rcases hx with rfl | ⟨-, rfl⟩
    · exact ⟨hlo, hpos, ih ht⟩
    · exact ⟨hlo, hpos, ih ht⟩

lemma liveStarts_eq (h : Abandons us us') : liveStarts us' = liveStarts us := by
  induction h with
  | nil => rfl
  | cons hx _ ih =>
    rcases hx with rfl | ⟨hf, rfl⟩
    · simp [ih]
    · simp [ih, hf]

lemma exists_of_mem (h : Abandons us us') {t' : Chunk} (ht : t' ∈ us') :
    ∃ t ∈ us, t.lo = t'.lo ∧ t.len = t'.len := by
  induction h with
  | nil => simp at ht
  | @cons x y xs ys hx _ ih =>
    rcases List.mem_cons.mp ht with rfl | ht
    · refine ⟨x, by simp, ?_⟩
      rcases hx with rfl | ⟨-, rfl⟩ <;> simp
    · obtain ⟨t, htm, he⟩ := ih ht
      exact ⟨t, by simp [htm], he⟩

end Abandons

lemma mem_cut {t s : Chunk} {n : ℕ} (hs : s ∈ cut t n) :
    s = ⟨t.lo, n, .live⟩ ∨ t.len ≠ n ∧ s = ⟨t.lo + n, t.len - n, .free⟩ := by
  unfold cut at hs
  split at hs
  · exact .inl (by simpa using hs)
  · rcases List.mem_cons.mp hs with hs | hs
    · exact .inl hs
    · exact .inr ⟨‹_›, by simpa using hs⟩

lemma tiles_cut {t : Chunk} {n : ℕ} (hn : 0 < n) (hle : n ≤ t.len) :
    Tiles t.lo (cut t n) t.hi := by
  unfold cut
  split
  · simp [Tile.hi, *]
  · refine ⟨rfl, hn, rfl, ?_, ?_⟩
    · simp only
      omega
    · simp only [tiles_nil, Tile.hi]
      omega

@[simp] lemma liveStarts_cut (t : Chunk) (n : ℕ) : liveStarts (cut t n) = [t.lo] := by
  unfold cut
  split <;> simp

def remainder (t : Chunk) (n : ℕ) : List ℕ := if t.len = n then [] else [t.lo + n]

@[simp] lemma freeStarts_cut (t : Chunk) (n : ℕ) : freeStarts (cut t n) = remainder t n := by
  unfold cut remainder
  split <;> simp

section Allocate

variable {h : Heap σ} {us us' vs : List Chunk} {t : Chunk} {live : List ℕ} {n : ℕ}
  {l : Link}

@[simp] lemma heapStart_allocateBlock (a : ℕ) :
    (allocateBlock h l a n).2.heapStart = h.heapStart := by
  unfold allocateBlock
  split <;> simp

@[simp] lemma heapSize_allocateBlock (a : ℕ) :
    (allocateBlock h l a n).2.heapSize = h.heapSize := by
  unfold allocateBlock
  split <;> simp

@[simp] lemma os_allocateBlock (a : ℕ) : (allocateBlock h l a n).2.os = h.os := by
  unfold allocateBlock
  split <;> simp

lemma allocateBlock_exact (hlen : h.size t.lo = t.len) (hn : t.len = n)
    (hroom : t.lo + t.len < 2 ^ 64) (hhead : HEADER_SIZE ≤ t.len) :
    allocateBlock h l t.lo n =
      (dataOf t.lo, (h.write l (h.read (.next t.lo))).write (.next t.lo) none) := by
  have hdata : wrap64 (t.lo + HEADER_SIZE) = dataOf t.lo := wrap64_of_lt (by omega)
  simp [allocateBlock, hlen, hn, hdata]

lemma allocateBlock_split (hlen : h.size t.lo = t.len) (hne : t.len ≠ n) (hle : n ≤ t.len)
    (hroom : t.lo + t.len < 2 ^ 64) (hhead : HEADER_SIZE ≤ t.len) :
    allocateBlock h l t.lo n =
      (dataOf t.lo, ((((h.setSize (t.lo + n) (t.len - n)).write (.next (t.lo + n))
        (h.read (.next t.lo))).write l (some (t.lo + n))).setSize t.lo n).write
          (.next t.lo) none) := by
  have hdata : wrap64 (t.lo + HEADER_SIZE) = dataOf t.lo := wrap64_of_lt (by omega)
  have hnew : wrap64 (t.lo + n) = t.lo + n := wrap64_of_lt (by omega)
  have hsub : sub64 t.len n = t.len - n := sub64_of_le hle (by omega)
  simp [allocateBlock, hlen, hne, hdata, hnew, hsub]

lemma size_allocateBlock (hlen : h.size t.lo = t.len) (hle : n ≤ t.len)
    (hroom : t.lo + t.len < 2 ^ 64) (hhead : HEADER_SIZE ≤ t.len) (a : ℕ) :
    (allocateBlock h l t.lo n).2.size a =
      if a = t.lo then n else if t.len ≠ n ∧ a = t.lo + n then t.len - n else h.size a := by
  by_cases hn : t.len = n
  · rw [allocateBlock_exact hlen hn hroom hhead]
    by_cases ha : a = t.lo
    · simp [ha, hlen, hn]
    · simp [ha, hn]
  · rw [allocateBlock_split hlen hn hle hroom hhead]
    by_cases ha : a = t.lo
    · simp [ha]
    · by_cases hb : a = t.lo + n <;> simp [ha, hb, hn, Function.update]

/-- The free list after handing out `n` bytes of the block `t`, when the link that is
patched ends a path through `xs` and the blocks after `t` are `ys`. -/
lemma chain_allocateBlock {xs ys : List ℕ} (hlen : h.size t.lo = t.len) (hle : n ≤ t.len)
    (hroom : t.lo + t.len < 2 ^ 64) (hhead : HEADER_SIZE ≤ t.len)
    (hx : Path Link.next h.read .first xs) (hy : Chain Link.next h.read (.next t.lo) ys)
    (hnd : (xs ++ remainder t n ++ ys).Nodup) (ht : t.lo ∉ xs ++ remainder t n ++ ys) :
    Chain Link.next (allocateBlock h (endLink Link.next .first xs) t.lo n).2.read .first
      (xs ++ remainder t n ++ ys) := by
  by_cases hn : t.len = n
  · rw [allocateBlock_exact hlen hn hroom hhead]
    simp only [remainder, hn, if_true, List.append_nil] at hnd ht ⊢
    have hjoin := hx.joinChain Link.next_injective Link.next_ne_first hy hnd
    simpa using hjoin.update_of_notMem Link.next_injective Link.next_ne_first ht none
  · rw [allocateBlock_split hlen hn hle hroom hhead]
    simp only [remainder, hn, if_false, List.append_assoc, List.singleton_append] at hnd ht ⊢
    have hjoin := hx.joinNode Link.next_injective Link.next_ne_first hy hnd
    simpa using hjoin.update_of_notMem Link.next_injective Link.next_ne_first ht none

lemma Abandons.tiles_cut (hl : Layout h (us ++ t :: vs) live) (hpos : 0 < n) (hle : n ≤ t.len)
    (hus : Abandons us us') :
    Tiles h.heapStart (us' ++ cut t n ++ vs) (h.heapStart + h.heapSize) := by
  obtain ⟨htu, -, htv⟩ := (tiles_middle _ _ us vs t).mp hl.tiles
  rw [List.append_assoc, tiles_append]
  refine ⟨t.lo, hus.tiles htu, ?_⟩
  rw [tiles_append]
  exact ⟨t.hi, Malloc.tiles_cut hpos hle, htv⟩

lemma Layout.sizes_allocateBlock (hl : Layout h (us ++ t :: vs) live) (hpos : 0 < n)
    (hle : n ≤ t.len) (hus : Abandons us us') :
    ∀ s ∈ us' ++ cut t n ++ vs, (Malloc.allocateBlock h l t.lo n).2.size s.lo = s.len := by
  have hmem : t ∈ us ++ t :: vs := by simp
  obtain ⟨htu, -, htv⟩ := (tiles_middle _ _ us vs t).mp hl.tiles
  intro s hs
  rw [size_allocateBlock (hl.sizes t hmem) hle (hl.lt_room hmem) (hl.header_le hmem)]
  simp only [List.mem_append] at hs
  rcases hs with (hs | hs) | hs
  · -- a tile in front of the block, perhaps abandoned
    obtain ⟨s₀, hs₀, hlo, hlen₀⟩ := hus.exists_of_mem hs
    have hbefore := (htu.bounds hs₀).2
    have hs₀pos := htu.pos hs₀
    have hs₀len := hl.sizes s₀ (by simp [hs₀])
    simp only [Tile.hi] at hbefore
    have hne : s.lo ≠ t.lo := by omega
    have hne' : ¬(t.len ≠ n ∧ s.lo = t.lo + n) := by omega
    rw [if_neg hne, if_neg hne', ← hlo, ← hlen₀, hs₀len]
  · rcases mem_cut hs with rfl | ⟨hne, rfl⟩
    · simp
    · have hne' : t.lo + n ≠ t.lo := by omega
      rw [if_neg hne', if_pos ⟨hne, rfl⟩]
  · have hafter := (htv.bounds hs).1
    simp only [Tile.hi] at hafter
    have hne : s.lo ≠ t.lo := by omega
    have hne' : ¬(t.len ≠ n ∧ s.lo = t.lo + n) := by omega
    rw [if_neg hne, if_neg hne']
    exact hl.sizes s (by simp [hs])

/-- The blocks after handing out `n` bytes of the free block `t`, whatever link is patched. -/
lemma Layout.allocateBlock (hl : Layout h (us ++ t :: vs) live) (ht : t.tag = .free)
    (hpos : 0 < n) (hdvd : 16 ∣ n) (hle : n ≤ t.len) (hus : Abandons us us') :
    Layout (Malloc.allocateBlock h l t.lo n).2 (us' ++ cut t n ++ vs) (dataOf t.lo :: live) := by
  constructor
  · simpa using hus.tiles_cut hl hpos hle
  · exact hl.sizes_allocateBlock hpos hle hus
  · intro s hs
    simp only [List.mem_append] at hs
    rcases hs with (hs | hs) | hs
    · obtain ⟨s₀, hs₀, -, hlen₀⟩ := hus.exists_of_mem hs
      exact hlen₀ ▸ hl.aligned s₀ (by simp [hs₀])
    · rcases mem_cut hs with rfl | ⟨hne, rfl⟩
      · exact hdvd
      · exact Nat.dvd_sub (hl.aligned t (by simp)) hdvd
    · exact hl.aligned s (by simp [hs])
  · have hlive := hl.live_perm
    simp only [liveStarts_append, liveStarts_cons, ht, reduceCtorEq, if_false, List.nil_append,
      liveStarts_cut, hus.liveStarts_eq, List.map_append, List.map_cons,
      List.append_assoc, List.singleton_append] at hlive ⊢
    exact (hlive.cons _).trans List.perm_middle.symm
  · simpa using hl.room
  · simpa using hl.grown

/-- Handing out the free block `t`. The free blocks before it stay on the list as far as
the patched link comes after them, and are lost otherwise. -/
theorem Laid.allocateBlock (hl : Laid h (us ++ t :: vs) live) (ht : t.tag = .free)
    (hpos : 0 < n) (hdvd : 16 ∣ n) (hle : n ≤ t.len) (hus : Abandons us us')
    (hpath : Path Link.next h.read .first (freeStarts us')) :
    (allocateBlock h (endLink Link.next .first (freeStarts us')) t.lo n).1 = dataOf t.lo ∧
    Laid (allocateBlock h (endLink Link.next .first (freeStarts us')) t.lo n).2
      (us' ++ cut t n ++ vs) (dataOf t.lo :: live) := by
  have hmem : t ∈ us ++ t :: vs := by simp
  have hlen : h.size t.lo = t.len := hl.sizes t hmem
  have hroom : t.lo + t.len < 2 ^ 64 := hl.lt_room hmem
  have hhead : HEADER_SIZE ≤ t.len := hl.header_le hmem
  have htiles := hus.tiles_cut hl.toLayout hpos hle
  have hstarts : freeStarts (us' ++ cut t n ++ vs) =
      freeStarts us' ++ remainder t n ++ freeStarts vs := by simp
  have hy : Chain Link.next h.read (.next t.lo) (freeStarts vs) := by
    have hc := hl.chain
    simp only [freeStarts_append, freeStarts_cons, ht, if_true, List.singleton_append] at hc
    exact ((chain_append _ _ _).mp hc).2.2
  have hnd : (freeStarts us' ++ remainder t n ++ freeStarts vs).Nodup := by
    rw [← hstarts]
    exact htiles.nodup_startsOf _
  have hnot : t.lo ∉ freeStarts us' ++ remainder t n ++ freeStarts vs := by
    rw [← hstarts]
    intro hin
    obtain ⟨s, hs, hfree, hslo⟩ := mem_freeStarts.mp hin
    have hcut : ⟨t.lo, n, .live⟩ ∈ us' ++ cut t n ++ vs := by
      unfold cut
      split <;> simp
    have he := htiles.eq_of_lo hs hcut hslo
    rw [he] at hfree
    exact absurd hfree (by simp)
  refine ⟨?_, hl.toLayout.allocateBlock ht hpos hdvd hle hus, ?_⟩
  · by_cases hn : t.len = n
    · rw [allocateBlock_exact hlen hn hroom hhead]
    · rw [allocateBlock_split hlen hn hle hroom hhead]
  · rw [hstarts]
    exact chain_allocateBlock hlen hle hroom hhead hpath hy hnd hnot

end Allocate

/-! ### Extending the heap -/

section Extend

variable {h : Heap σ} {ts : List Chunk} {live : List ℕ}

lemma returns_findInsertPos {newBlock : ℕ} {l : Link} {xs : List ℕ}
    (hp : Path Link.next h.read l xs) (hx : ∀ x ∈ xs, x < newBlock)
    (hend : ∀ y, h.read (endLink Link.next l xs) = some y → ¬y < newBlock) :
    Returns .outOfFuel (fun fuel => findInsertPos h newBlock fuel l)
      (.ok (endLink Link.next l xs)) := by
  induction xs generalizing l with
  | nil =>
    refine (Returns.const (.ok l)).succ rfl ?_
    intro fuel
    rw [findInsertPos]
    cases hr : h.read l with
    | none => rfl
    | some y => simp [hend y hr]
  | cons x xs ih =>
    refine (ih hp.2 (fun y hy => hx y (by simp [hy])) hend).succ rfl ?_
    intro fuel
    rw [findInsertPos, hp.1]
    simp [hx x (by simp)]

/-- A heap that has grown by a block at its end. -/
lemma Layout.append {h' : Heap σ} (hl : Layout h ts live) (hstart : h'.heapStart = h.heapStart)
    (hsize : h'.heapSize = h.heapSize + HEAP_SIZE)
    (hsizes : h'.size = Function.update h.size (h.heapStart + h.heapSize) HEAP_SIZE)
    (hroom : h.heapStart + (h.heapSize + HEAP_SIZE) < 2 ^ 64) :
    Layout h' (ts ++ [⟨h.heapStart + h.heapSize, HEAP_SIZE, .free⟩]) live := by
  constructor
  · have hpos : 0 < HEAP_SIZE := by simp [HEAP_SIZE]
    rw [hstart, hsize, tiles_append, ← Nat.add_assoc]
    exact ⟨h.heapStart + h.heapSize, hl.tiles, rfl, hpos, rfl⟩
  · intro s hs
    rw [hsizes]
    rcases List.mem_append.mp hs with hs | hs
    · have hb := (hl.bounds hs).2
      have hp := hl.tiles.pos hs
      have hne : s.lo ≠ h.heapStart + h.heapSize := by omega
      rw [Function.update_of_ne hne]
      exact hl.sizes s hs
    · obtain rfl := List.mem_singleton.mp hs
      simp
  · intro s hs
    rcases List.mem_append.mp hs with hs | hs
    · exact hl.aligned s hs
    · obtain rfl := List.mem_singleton.mp hs
      simp only [HEAP_SIZE]
      norm_num
  · simpa using hl.live_perm
  · rw [hstart, hsize]
    exact hroom
  · have hg := hl.grown
    omega

/-- A successful extension appends a free block of `HEAP_SIZE` bytes to the heap. -/
theorem Laid.addHeapBlock (hl : Laid h ts live)
    (hroom : h.heapStart + (h.heapSize + HEAP_SIZE) < 2 ^ 64) :
    ∃ h', Returns .outOfFuel (fun fuel => addHeapBlock fuel h) (.ok h') ∧
      Laid h' (ts ++ [⟨h.heapStart + h.heapSize, HEAP_SIZE, .free⟩]) live ∧
      h'.heapStart = h.heapStart ∧ h'.heapSize = h.heapSize + HEAP_SIZE ∧ h'.os = h.os := by
  let new := h.heapStart + h.heapSize
  let h₁ : Heap σ := { h with heapSize := h.heapSize + HEAP_SIZE }
  let h₂ := (h₁.setSize new HEAP_SIZE).write (.next new) none
  have hsize : wrap64 (h.heapSize + HEAP_SIZE) = h.heapSize + HEAP_SIZE :=
    wrap64_of_lt (by omega)
  have hnew : wrap64 (h.heapStart + h.heapSize) = new := wrap64_of_lt (by omega)
  have hlt : ∀ a ∈ freeStarts ts, a < new := fun a ha => hl.lt_end ha
  have hnot : new ∉ freeStarts ts := fun hin => (hlt new hin).false
  have hread : h₂.read = Function.update h.read (.next new) none := by
    have h₁read : h₁.read = h.read := by
      funext l
      cases l <;> rfl
    simp [h₂, h₁read]
  have hchain : Chain Link.next h₂.read .first (freeStarts ts) := by
    rw [hread]
    exact hl.chain.update_of_notMem Link.next_injective Link.next_ne_first hnot none
  obtain ⟨hpath, hend⟩ := (chain_iff_path _ _).mp hchain
  have hpos : Returns .outOfFuel (fun fuel => findInsertPos h₂ new fuel .first)
      (.ok (endLink Link.next .first (freeStarts ts))) := by
    apply returns_findInsertPos hpath hlt
    intro y hy
    exact absurd (hend.symm.trans hy) (by simp)
  let h₃ := (h₂.write (.next new) (h₂.read (endLink Link.next .first (freeStarts ts)))).write
    (endLink Link.next .first (freeStarts ts)) (some new)
  have hstart₃ : h₃.heapStart = h.heapStart := by simp [h₃, h₂, h₁]
  have hsize₃ : h₃.heapSize = h.heapSize + HEAP_SIZE := by simp [h₃, h₂, h₁]
  have hsizes₃ : h₃.size = Function.update h.size new HEAP_SIZE := by
    have h₁size : h₁.size = h.size := rfl
    simp only [h₃, h₂, Heap.size_write, Heap.size_setSize, h₁size]
  refine ⟨h₃, ?_, ⟨hl.toLayout.append hstart₃ hsize₃ hsizes₃ hroom, ?_⟩, hstart₃, hsize₃, ?_⟩
  · refine (hpos.map (fun l => (h₂.write (.next new) (h₂.read l)).write l (some new))).congr ?_
    intro fuel
    simp only [Malloc.addHeapBlock, hsize, hnew]
    rfl
  · have hnil : Chain Link.next h₂.read (endLink Link.next .first (freeStarts ts)) [] := hend
    have hjoin := hpath.joinNode Link.next_injective Link.next_ne_first hnil hl.nodup_end
    simpa [h₃] using hjoin
  · simp [h₃, h₂, h₁]

end Extend

end StyLinux.Malloc
