import Mathlib.Order.BourbakiWitt
import Mathlib.Order.CompletePartialOrder
import StyLinux.Lib.Run
import StyLinux.Malloc.Layout

/-!
# Clients of an allocator

A client calls the allocator, keeps the pointers it has not freed yet, and writes into the
data areas behind them. This file has the steps of a client for any of the allocators,
and the properties of a heap as a client or `dumpAllocator` sees it: they speak about
walks through memory and about the live pointers, not about tilings.
-/

namespace StyLinux.Malloc

open Lib

variable {S σ : Type}

/-- The interface of an allocator with global state `S`. -/
structure Allocator (S σ : Type) where
  heap : S → Heap σ
  setMem : S → (ℕ → Block) → S
  malloc : ℕ → ℕ → S → Except Fault (Option ℕ × S)
  free : ℕ → Option ℕ → S → Except Fault S

structure Config (S : Type) where
  state : S
  live : List ℕ

inductive Op
  | malloc (n : ℕ)
  | free (address : Option ℕ)
  | write
  deriving DecidableEq, Repr

def dataEnd (h : Heap σ) (p : ℕ) : ℕ := p - HEADER_SIZE + h.size (p - HEADER_SIZE)

/-- `mem` differs from the memory of `h` only where a header would overlap a live data
area. -/
def WritesData (h : Heap σ) (live : List ℕ) (mem : ℕ → Block) : Prop :=
  ∀ a, (∀ p ∈ live, a + HEADER_SIZE ≤ p ∨ dataEnd h p ≤ a) → mem a = h.mem a

/-- One action of a client. Only calls that return are steps. -/
inductive Step (M : Allocator S σ) : Config S → Op → Config S → Prop
  | malloc (c : Config S) (n : ℕ) (r : Option ℕ) (s : S) : n < 2 ^ 64 →
      (∃ fuel, M.malloc fuel n c.state = .ok (r, s)) →
      Step M c (.malloc n) ⟨s, r.toList ++ c.live⟩
  | freeNull (c : Config S) (s : S) : (∃ fuel, M.free fuel none c.state = .ok s) →
      Step M c (.free none) ⟨s, c.live⟩
  | free (c : Config S) (p : ℕ) (s : S) : p ∈ c.live →
      (∃ fuel, M.free fuel (some p) c.state = .ok s) →
      Step M c (.free (some p)) ⟨s, c.live.erase p⟩
  | write (c : Config S) (mem : ℕ → Block) : WritesData (M.heap c.state) c.live mem →
      Step M c .write ⟨M.setMem c.state mem, c.live⟩

section Properties

variable (h : Heap σ) (live : List ℕ)

/-- The walk by block size ends at the end of the heap, without a failed assertion, and
has visited `blocks`. -/
def Walks (blocks : List ℕ) : Prop :=
  Returns .outOfFuel (fun fuel => walkBlocks h fuel (some h.heapStart)) (.ok blocks)

def FreeList (free : List ℕ) : Prop :=
  Returns .outOfFuel (fun fuel => walkFree h fuel h.firstFreeBlock) (.ok free)

/-- The heap as it has to be after every call: the blocks of the walk have sizes that are
positive multiples of 16, the free list is in address order, and the blocks of the walk
are exactly the free ones and the ones with live data pointers. -/
def HeapOk : Prop :=
  ∃ blocks free, Walks h blocks ∧ (∀ b ∈ blocks, 0 < h.size b ∧ 16 ∣ h.size b) ∧
    FreeList h free ∧ free.Pairwise (· < ·) ∧ blocks.Nodup ∧
    blocks.Perm (free ++ live.map (· - HEADER_SIZE))

/-- The `n` bytes at `p` lie in the heap and meet no block header, no free block, and no
data area of another live pointer. -/
def Granted (p n : ℕ) : Prop :=
  h.heapStart ≤ p ∧ p + n ≤ h.heapStart + h.heapSize ∧
  ∃ blocks free, Walks h blocks ∧ FreeList h free ∧
    (∀ b ∈ blocks, Disjoint (Set.Ico p (p + n)) (Set.Ico b (b + HEADER_SIZE))) ∧
    (∀ b ∈ free, Disjoint (Set.Ico p (p + n)) (Set.Ico b (b + h.size b))) ∧
    ∀ q ∈ live, q ≠ p → Disjoint (Set.Ico p (p + n)) (Set.Ico q (dataEnd h q))

end Properties

/-! ### The properties of a laid out heap -/

variable {h : Heap σ} {ts us vs : List Chunk} {live : List ℕ}

/-- The walk by size goes from a tile to the next one, and ends behind the last one. -/
lemma getNextBlockBySize_tile {t : Chunk} (hroom : h.heapStart + h.heapSize < 2 ^ 64) {a : ℕ}
    (htiles : Tiles a (t :: us) (h.heapStart + h.heapSize)) (hlen : h.size t.lo = t.len) :
    getNextBlockBySize h t.lo = .ok (us.head?.map Tile.lo) := by
  obtain ⟨-, -, htail⟩ := htiles
  have hhi := htail.le
  have hstop : wrap64 (h.heapStart + h.heapSize) = h.heapStart + h.heapSize :=
    wrap64_of_lt hroom
  have hend : wrap64 (t.lo + h.size t.lo) = t.hi := by
    rw [hlen]
    exact wrap64_of_lt (hhi.trans_lt hroom)
  rw [getNextBlockBySize, hstop, hend, if_pos hhi]
  cases us with
  | nil =>
    rw [tiles_nil] at htail
    simp [htail]
  | cons u us =>
    obtain ⟨hulo, hupos, hu⟩ := htail
    have hle := hu.le
    have hne : t.hi ≠ h.heapStart + h.heapSize := by
      simp only [Tile.hi] at *
      omega
    simp [hne, hulo]

lemma returns_walkBlocks (hroom : h.heapStart + h.heapSize < 2 ^ 64) {a : ℕ}
    (htiles : Tiles a us (h.heapStart + h.heapSize)) (hsizes : ∀ t ∈ us, h.size t.lo = t.len) :
    Returns .outOfFuel (fun fuel => walkBlocks h fuel (us.head?.map Tile.lo))
      (.ok (us.map Tile.lo)) := by
  induction us generalizing a with
  | nil =>
    refine (Returns.const _).succ rfl ?_
    intro fuel
    rfl
  | cons t us ih =>
    have hnext := getNextBlockBySize_tile hroom htiles (hsizes t (by simp))
    have hi := ih htiles.2.2 (fun s hs => hsizes s (by simp [hs]))
    refine (hi.map (fun blocks => t.lo :: blocks)).succ rfl ?_
    intro fuel
    simp only [List.head?_cons, Option.map_some, walkBlocks, hnext]
    rfl

lemma returns_walkFree {l : Link} {xs : List ℕ} (hc : Chain Link.next h.read l xs) :
    Returns .outOfFuel (fun fuel => walkFree h fuel (h.read l)) (.ok xs) := by
  induction xs generalizing l with
  | nil =>
    have hr : h.read l = none := hc
    refine (Returns.const _).succ rfl ?_
    intro fuel
    rw [hr, walkFree]
  | cons x xs ih =>
    refine ((ih hc.2).map (fun blocks => x :: blocks)).succ rfl ?_
    intro fuel
    rw [hc.1, walkFree]

lemma NoLost.perm (hts : NoLost ts) :
    (ts.map Tile.lo).Perm (freeStarts ts ++ liveStarts ts) := by
  have hlive :
      ts.filter (fun t => !decide (t.tag = .free)) = ts.filter (fun t => t.tag = .live) := by
    apply List.filter_congr
    intro t ht
    have hne := hts t ht
    cases htag : t.tag <;> simp_all
  have hperm := (List.filter_append_perm (fun t : Chunk => decide (t.tag = .free)) ts).map Tile.lo
  rw [hlive, List.map_append] at hperm
  exact hperm.symm

namespace Laid

lemma head_lo (hl : Laid h ts live) : ts.head?.map Tile.lo = some h.heapStart := by
  cases ts with
  | nil =>
    have hnil := hl.tiles
    have hgrown := hl.grown
    rw [tiles_nil] at hnil
    rw [HEAP_SIZE_eq] at hgrown
    omega
  | cons t us => exact congrArg some hl.tiles.1

lemma walks (hl : Laid h ts live) : Walks h (ts.map Tile.lo) := by
  have hwalk := returns_walkBlocks hl.room hl.tiles hl.sizes
  rwa [hl.head_lo] at hwalk

lemma freeList (hl : Laid h ts live) : FreeList h (freeStarts ts) := returns_walkFree hl.chain

lemma freeList_unique (hl : Laid h ts live) {free : List ℕ} (hf : FreeList h free) :
    free = freeStarts ts := by
  obtain ⟨fuel, hok⟩ := hf.exists_eq
  exact (Except.ok.inj (hl.freeList.eq_of_ok hok)).symm

lemma live_map_sub (hl : Laid h ts live) :
    (live.map (· - HEADER_SIZE)).Perm (liveStarts ts) := by
  have hperm := hl.live_perm.map (· - HEADER_SIZE)
  rw [List.map_map] at hperm
  have hid : ((· - HEADER_SIZE) ∘ dataOf) = id := by
    funext a
    simp [dataOf]
  rwa [hid, List.map_id] at hperm

theorem heapOk (hl : Laid h ts live) (hts : NoLost ts) : HeapOk h live := by
  refine ⟨ts.map Tile.lo, freeStarts ts, hl.walks, ?_, hl.freeList,
    hl.tiles.pairwise_startsOf _, hl.tiles.nodup_lo, ?_⟩
  · intro b hb
    obtain ⟨t, ht, rfl⟩ := List.mem_map.mp hb
    rw [hl.sizes t ht]
    exact ⟨hl.tiles.pos ht, hl.aligned t ht⟩
  · exact hts.perm.trans (hl.live_map_sub.symm.append_left _)

lemma dataEnd_eq (hl : Laid h ts live) {t : Chunk} (ht : t ∈ ts) :
    dataEnd h (dataOf t.lo) = t.hi := by
  simp [dataEnd, dataOf, hl.sizes t ht, Tile.hi]

/-- A data pointer grants the bytes up to the end of its block. -/
theorem granted (hl : Laid h ts live) {t : Chunk} (ht : t ∈ ts) (htag : t.tag = .live) {n : ℕ}
    (hn : dataOf t.lo + n ≤ t.hi) : Granted h live (dataOf t.lo) n := by
  obtain ⟨hlo, hhi⟩ := hl.bounds ht
  have hdisjoint : ∀ a b, b ≤ dataOf t.lo ∨ t.hi ≤ a →
      Disjoint (Set.Ico (dataOf t.lo) (dataOf t.lo + n)) (Set.Ico a b) := by
    intro a b hab
    rw [Set.disjoint_left]
    rintro x ⟨h₁, h₂⟩ ⟨h₃, h₄⟩
    omega
  have hdata : t.lo + HEADER_SIZE = dataOf t.lo := rfl
  refine ⟨by omega, hn.trans hhi, ts.map Tile.lo, freeStarts ts, hl.walks, hl.freeList, ?_, ?_, ?_⟩
  · intro b hb
    obtain ⟨s, hs, rfl⟩ := List.mem_map.mp hb
    apply hdisjoint
    by_cases hst : s = t
    · subst hst
      exact .inl le_rfl
    · have hhead := hl.header_le hs
      rcases hl.tiles.apart hs ht hst with hap | hap
      · simp only [Tile.hi] at hap
        omega
      · exact .inr hap
  · intro b hb
    obtain ⟨s, hs, hfree, rfl⟩ := mem_freeStarts.mp hb
    rw [hl.sizes s hs]
    apply hdisjoint
    have hst : s ≠ t := by
      rintro rfl
      rw [htag] at hfree
      exact absurd hfree (by simp)
    rcases hl.tiles.apart hs ht hst with hap | hap
    · simp only [Tile.hi] at hap
      omega
    · exact .inr hap
  · intro q hq hne
    obtain ⟨s, hs, -, rfl⟩ := hl.mem_live.mp hq
    rw [hl.dataEnd_eq hs]
    apply hdisjoint
    have hst : s ≠ t := by
      rintro rfl
      exact hne rfl
    rcases hl.tiles.apart hs ht hst with hap | hap
    · omega
    · right
      simp only [dataOf]
      omega

/-- What a client writes into its data areas leaves the headers alone. -/
lemma mem_eq_of_writesData (hl : Laid h ts live) {mem : ℕ → Block} (hw : WritesData h live mem) :
    ∀ t ∈ ts, mem t.lo = h.mem t.lo := by
  intro t ht
  apply hw
  intro p hp
  obtain ⟨s, hs, -, rfl⟩ := hl.mem_live.mp hp
  rw [hl.dataEnd_eq hs]
  by_cases hst : t = s
  · subst hst
    exact .inl le_rfl
  · have hhead := hl.header_le ht
    rcases hl.tiles.apart ht hs hst with hap | hap
    · left
      simp only [Tile.hi, dataOf] at *
      omega
    · exact .inr hap

lemma writesData (hl : Laid h ts live) {mem : ℕ → Block} (hw : WritesData h live mem) :
    Laid { h with mem } ts live := hl.congr_mem (hl.mem_eq_of_writesData hw)

end Laid

/-- The heap after `initAllocator` is one free block. -/
theorem laid_initAllocator {allocHeap : AllocHeap σ} (hcont : Contiguous allocHeap)
    {mem : ℕ → Block} {os : σ} (hinit : initAllocator allocHeap mem os = .ok h) :
    Laid h [⟨h.heapStart, HEAP_SIZE, .free⟩] [] ∧ h.heapSize = HEAP_SIZE := by
  unfold initAllocator at hinit
  split at hinit
  · exact absurd hinit (by simp)
  · rename_i start os' hA
    have hroom := hcont.first _ _ _ hA
    simp only [Except.ok.injEq] at hinit
    subst hinit
    refine ⟨⟨⟨?_, ?_, ?_, ?_, ?_, ?_⟩, ?_⟩, ?_⟩
    · refine ⟨by simp, by simp [HEAP_SIZE], by simp [Tile.hi]⟩
    · intro t ht
      rw [List.mem_singleton.mp ht]
      simp
    · intro t ht
      rw [List.mem_singleton.mp ht]
      simp only [HEAP_SIZE]
      norm_num
    · simp
    · simpa using hroom
    · simp
    · simp [Heap.read]
    · simp

/-! ### A concrete heap source -/

/-- An `allocHeap` that starts the heap at address 4096 and extends it up to the end of
the address space. -/
def arena : AllocHeap Unit := fun currentHeap size _ =>
  match currentHeap with
  | none => (some 4096, ())
  | some start => if HEAP_SIZE ≤ size ∧ start + size < 2 ^ 64 then (some start, ()) else (none, ())

lemma arena_contiguous : Contiguous arena where
  first := by
    intro os p os' h
    simp only [arena, Prod.mk.injEq, Option.some.injEq, and_true] at h
    rw [HEAP_SIZE_eq]
    omega
  extend := by
    intro start size os p os' hroom h
    simp only [arena] at h
    split at h
    · rename_i hc
      unfold wrap64 at hc
      rw [HEAP_SIZE_eq] at hc ⊢
      omega
    · exact absurd h (by simp)

def arenaHeap : Heap Unit where
  heapStart := 4096
  heapSize := HEAP_SIZE
  firstFreeBlock := some 4096
  mem := Function.update (fun _ => ⟨0, none⟩) 4096 ⟨HEAP_SIZE, none⟩
  os := ()

lemma initAllocator_arena : initAllocator arena (fun _ => ⟨0, none⟩) () = .ok arenaHeap := by
  simp [initAllocator, arena, arenaHeap, Heap.setSize, Heap.write]

end StyLinux.Malloc
