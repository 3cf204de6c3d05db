import StyLinux.Malloc.SavesolCalls
import StyLinux.Malloc.Vika4Runs

/-!
# Returning memory to the second best-fit allocator

In every reachable state `my_free` gives a live block back to the free list, if there is a free
block. In a heap that is handed out completely it dereferences `NULL`.
-/

namespace StyLinux.Malloc

open Lib

variable {σ : Type} {allocHeap : AllocHeap σ} {h : Heap σ} {ts us vs : List Chunk} {t : Chunk}
  {live : List ℕ} {n : ℕ}

namespace Savesol

/-- The block is linked in front of the first free block. -/
lemma myFree_first (hl : Laid h (us ++ t :: vs) live) (ht : t.tag = .live)
    (hus : freeStarts us = []) {a : ℕ} (ha : h.firstFreeBlock = some a) (hlt : t.lo < a) :
    ∃ h', (∀ fuel, myFree fuel (some (dataOf t.lo)) h = .ok h') ∧
      Laid h' (release us t vs) (live.erase (dataOf t.lo)) ∧
      h'.heapStart = h.heapStart ∧ h'.heapSize = h.heapSize ∧ h'.os = h.os := by
  have hinsert := hl.insertFree ht
  have hblock := hl.sub64_dataOf (t := t) (by simp)
  have heq : insertFree h t.lo (freeStarts us).getLast? (freeStarts vs).head? =
      (h.write (.next t.lo) (some a)).write .first (some t.lo) := by
    rw [hus, List.getLast?_nil, insertFree, ha]
  have hmerged := hinsert.mergeNext (t := ⟨t.lo, t.len, .free⟩) rfl
  rw [release_eq, mergedBefore_of_nil hus]
  refine ⟨_, ?_, hmerged, by simp, by simp, by simp⟩
  intro fuel
  rw [myFree]
  simp only [hblock, ha, if_pos hlt]
  rw [← heq]
  exact mergeBlocks_next hinsert (t := ⟨t.lo, t.len, .free⟩) rfl

/-- The block is linked in behind the last free block before it. -/
lemma freeBehind_eq (hl : Laid h (us ++ t :: vs) live) (ht : t.tag = .live) {a : ℕ}
    (ha : (freeStarts us).getLast? = some a) :
    ∃ h', freeBehind h t.lo a = .ok h' ∧
      Laid h' (release us t vs) (live.erase (dataOf t.lo)) ∧
      h'.heapStart = h.heapStart ∧ h'.heapSize = h.heapSize ∧ h'.os = h.os := by
  have hinsert := hl.insertFree ht
  have hread : h.read (.next a) = (freeStarts vs).head? := by
    obtain ⟨xs, hxs⟩ := List.getLast?_eq_some_iff.mp ha
    have hchain := hl.chain
    have hstarts : freeStarts (us ++ t :: vs) = (xs ++ [a]) ++ freeStarts vs := by
      simp [ht, hxs]
    rw [hstarts] at hchain
    simpa using hchain.get_endLink
  have hne : a ≠ t.lo := by
    have hbelow : ∀ x ∈ freeStarts us, x < t.lo := hl.tiles.startsOf_split.1
    exact (hbelow a (List.mem_of_getLast? ha)).ne
  have heq : insertAfter h t.lo a =
      insertFree h t.lo (freeStarts us).getLast? (freeStarts vs).head? := by
    rw [insertAfter_eq hne, ha, hread]
  have hnext := hinsert.mergeNext (t := ⟨t.lo, t.len, .free⟩) rfl
  have htag : (mergedAfter ⟨t.lo, t.len, .free⟩ vs).1.tag = .free := tag_mergedAfter rfl
  obtain ⟨-, hprev⟩ := hnext.mergePrev htag
  rw [release_eq]
  refine ⟨_, ?_, hprev, by simp, by simp, by simp⟩
  have hlo : (mergedAfter ⟨t.lo, t.len, .free⟩ vs).1.lo = t.lo := lo_mergedAfter
  have hmerge := mergeBlocks_prev hnext htag ha
  rw [hlo] at hmerge ⊢
  rw [freeBehind]
  dsimp only
  rw [heq, mergeBlocks_next hinsert (t := ⟨t.lo, t.len, .free⟩) rfl, ok_bind]
  exact hmerge

/-- With a free block in the heap, `my_free` of a live pointer returns and releases the block. -/
theorem returns_myFree (hl : Laid h (us ++ t :: vs) live) (ht : t.tag = .live)
    (hfree : h.firstFreeBlock ≠ none) :
    ∃ h', Returns .outOfFuel (fun fuel => myFree fuel (some (dataOf t.lo)) h) (.ok h') ∧
      Laid h' (release us t vs) (live.erase (dataOf t.lo)) ∧
      h'.heapStart = h.heapStart ∧ h'.heapSize = h.heapSize ∧ h'.os = h.os := by
  obtain ⟨a, ha⟩ := Option.ne_none_iff_exists'.mp hfree
  have hblock := hl.sub64_dataOf (t := t) (by simp)
  have hbelow : ∀ x ∈ freeStarts us, x < t.lo := hl.tiles.startsOf_split.1
  have habove : ∀ x ∈ freeStarts vs, t.lo < x := hl.tiles.startsOf_split.2
  have hchain := hl.chain
  simp only [freeStarts_append, freeStarts_cons, ht, reduceCtorEq, if_false,
    List.nil_append] at hchain
  have hhead : h.firstFreeBlock = (freeStarts us ++ freeStarts vs).head? := hchain.get_eq_head?
  cases hus : freeStarts us with
  | nil =>
    rw [hus, ha, List.nil_append] at hhead
    have hlt : t.lo < a := habove a (List.mem_of_head? hhead.symm)
    obtain ⟨h', heq, hlaid, hframe⟩ := myFree_first hl ht hus ha hlt
    exact ⟨h', (Returns.const _).congr heq, hlaid, hframe⟩
  | cons x xs =>
    rw [hus, ha, List.cons_append, List.head?_cons, Option.some.injEq] at hhead
    subst hhead
    rw [hus] at hchain hbelow
    obtain ⟨b, hb⟩ : ∃ b, (a :: xs).getLast? = some b :=
      ⟨_, List.getLast?_eq_some_getLast (List.cons_ne_nil a xs)⟩
    have hloop := returns_insertLoop hchain.2 (fun y hy => hbelow y (by simp [hy])) habove hb
    obtain ⟨h', heq, hlaid, hframe⟩ := freeBehind_eq hl ht (hus ▸ hb)
    refine ⟨h', ?_, hlaid, hframe⟩
    refine (hloop.bind (g := fun b _ => freeBehind h t.lo b) (heq ▸ Returns.const _)).congr ?_
    intro fuel
    have hlt : ¬t.lo < a := (hbelow a (by simp)).not_gt
    rw [myFree]
    simp only [hblock, ha, if_neg hlt]

end Savesol

/-! ### The freed bytes -/

lemma mergedBefore_covers {a b : ℕ} (h : Tiles a (us ++ t :: vs) b) :
    (mergedBefore us t).2.lo ≤ t.lo ∧ (mergedBefore us t).2.hi = t.hi := by
  rcases List.eq_nil_or_concat' us with rfl | ⟨us₀, q, rfl⟩
  · exact ⟨le_rfl, rfl⟩
  · by_cases hq : q.tag = .free
    · obtain ⟨hus, -, -⟩ := (tiles_middle _ _ _ vs t).mp h
      obtain ⟨-, -, hqhi⟩ := (tiles_middle _ _ us₀ [] q).mp hus
      simp only [tiles_nil, Tile.hi] at hqhi
      rw [mergedBefore_concat_free hq]
      simp only [Tile.hi]
      omega
    · rw [mergedBefore_concat_used hq]
      exact ⟨le_rfl, rfl⟩

lemma le_hi_mergedAfter (t : Chunk) (vs : List Chunk) : t.hi ≤ (mergedAfter t vs).1.hi := by
  cases vs with
  | nil => exact le_rfl
  | cons r vs =>
    by_cases hr : r.tag = .free
    · simp only [mergedAfter, hr, if_true, Tile.hi]
      omega
    · simp only [mergedAfter, hr, if_false]
      exact le_rfl

/-- A released tile lies within a free one. -/
lemma exists_covers_release {a b : ℕ} (h : Tiles a (us ++ t :: vs) b) :
    ∃ s ∈ release us t vs, s.tag = .free ∧ s.lo ≤ t.lo ∧ t.hi ≤ s.hi := by
  have h' : Tiles a (us ++ ⟨t.lo, t.len, .free⟩ :: vs) b := by
    rw [tiles_middle] at h ⊢
    exact h
  obtain ⟨hlo, hhi⟩ := mergedBefore_covers h'
  refine ⟨_, List.mem_append_right _ (List.mem_cons_self ..),
    tag_mergedAfter (tag_mergedBefore rfl), ?_, ?_⟩
  · rw [lo_mergedAfter]
    exact hlo
  · have hafter := le_hi_mergedAfter (mergedBefore us ⟨t.lo, t.len, .free⟩).2 vs
    exact hhi.symm.le.trans hafter

/-- The bytes of the block of `p` in `h` lie within a block of the free list of `h'`. -/
def Covered (h h' : Heap σ) (p : ℕ) : Prop :=
  ∃ free, FreeList h' free ∧ ∃ b ∈ free,
    Set.Ico (p - HEADER_SIZE) (dataEnd h p) ⊆ Set.Ico b (b + h'.size b)

lemma Laid.covered {h' : Heap σ} {live' : List ℕ} (hl : Laid h (us ++ t :: vs) live)
    (hl' : Laid h' (release us t vs) live') : Covered h h' (dataOf t.lo) := by
  obtain ⟨s, hs, hfree, hlo, hhi⟩ := exists_covers_release hl.tiles
  refine ⟨_, hl'.freeList, s.lo, mem_freeStarts.mpr ⟨s, hs, hfree, rfl⟩, ?_⟩
  have hstart : dataOf t.lo - HEADER_SIZE = t.lo := Nat.add_sub_cancel _ _
  rw [hl.dataEnd_eq (by simp), hl'.sizes s hs, hstart]
  exact Set.Ico_subset_Ico hlo hhi

namespace Savesol

def allocator (allocHeap : AllocHeap σ) : Allocator (Heap σ) σ where
  heap := id
  setMem h mem := { h with mem }
  malloc := myMalloc allocHeap
  free := myFree

def initial (h : Heap σ) : Config (Heap σ) := ⟨h, []⟩

/-- The request is at most `HEAP_SIZE` bytes. -/
def Small (_ : Config (Heap σ)) : Op → Prop
  | .malloc n => n ≤ HEAP_SIZE
  | _ => True

lemma exists_myFree (hl : Laid h ts live) {p : ℕ} (hp : p ∈ live)
    (hfree : h.firstFreeBlock ≠ none) :
    ∃ us t vs h', ts = us ++ t :: vs ∧ p = dataOf t.lo ∧ t.tag = .live ∧
      Returns .outOfFuel (fun fuel => myFree fuel (some p) h) (.ok h') ∧
      Laid h' (release us t vs) (live.erase p) ∧
      h'.heapStart = h.heapStart ∧ h'.heapSize = h.heapSize ∧ h'.os = h.os := by
  obtain ⟨t, ht, htag, rfl⟩ := hl.mem_live.mp hp
  obtain ⟨us, vs, rfl⟩ := List.append_of_mem ht
  obtain ⟨h', hret, hrest⟩ := returns_myFree hl htag hfree
  exact ⟨us, t, vs, h', rfl, rfl, htag, hret, hrest⟩

lemma myFree_of_none (hfree : h.firstFreeBlock = none) (fuel p : ℕ) :
    myFree fuel (some p) h = .error .nullDeref := by
  simp only [myFree, hfree]

lemma Step.laid (hcont : Contiguous allocHeap) {c c' : Config (Heap σ)} {op : Op}
    (hc : ∃ ts, Laid c.state ts c.live) (hop : Small c op)
    (hstep : Step (allocator allocHeap) c op c') : ∃ ts, Laid c'.state ts c'.live := by
  obtain ⟨ts, hl⟩ := hc
  cases hstep with
  | malloc n r s _ hcall =>
    obtain ⟨fuel, hcall⟩ := hcall
    have hn : n ≤ HEAP_SIZE := hop
    have hwrap := add_32_le_of_le hn
    obtain ⟨r', h', ts', hret, hlaid, -⟩ := returns_myMalloc hl hcont hwrap
    obtain ⟨rfl, rfl⟩ := Prod.mk.inj (Except.ok.inj (hret.eq_of_ok hcall))
    exact ⟨ts', hlaid⟩
  | freeNull s hcall =>
    obtain ⟨fuel, hcall⟩ := hcall
    obtain rfl := Except.ok.inj hcall
    exact ⟨ts, hl⟩
  | free p s hp hcall =>
    obtain ⟨fuel, hcall⟩ := hcall
    have hfree : c.state.firstFreeBlock ≠ none := by
      intro hnone
      cases (myFree_of_none hnone fuel p).symm.trans hcall
    obtain ⟨us, t, vs, h', -, -, -, hret, hlaid, -⟩ := exists_myFree hl hp hfree
    obtain rfl := Except.ok.inj (hret.eq_of_ok hcall)
    exact ⟨_, hlaid⟩
  | write mem hw => exact ⟨ts, hl.writesData hw⟩

lemma laid_of_run (hcont : Contiguous allocHeap) {mem : ℕ → Block} {os : σ}
    (hinit : initAllocator allocHeap mem os = .ok h) {run : List (Op × Config (Heap σ))}
    (hrun : IsRun (Step (allocator allocHeap)) (initial h) run)
    (hsmall : StepsMeet Small (initial h) run) :
    ∃ ts, Laid (lastState (initial h) run).state ts (lastState (initial h) run).live := by
  have hstep : ∀ c op c', (∃ ts, Laid c.state ts c.live) → Small c op →
      Step (allocator allocHeap) c op c' → ∃ ts, Laid c'.state ts c'.live :=
    fun c op c' hc hop hstep => Step.laid hcont hc hop hstep
  have hstart : ∃ ts, Laid (initial h).state ts (initial h).live :=
    ⟨_, (laid_initAllocator hcont hinit).1⟩
  exact IsRun.invariant_last hstep hstart hrun hsmall

/-- In every reachable state `my_free` of a live pointer returns and puts the bytes back on the
free list exactly when the free list is not empty. -/
theorem covered_iff_firstFreeBlock (hcont : Contiguous allocHeap) {mem : ℕ → Block} {os : σ}
    (hinit : initAllocator allocHeap mem os = .ok h) {run : List (Op × Config (Heap σ))}
    (hrun : IsRun (Step (allocator allocHeap)) (initial h) run)
    (hsmall : StepsMeet Small (initial h) run) :
    let c := lastState (initial h) run
    ∀ p ∈ c.live, (∃ h', Returns .outOfFuel (fun fuel => myFree fuel (some p) c.state) (.ok h') ∧
      Covered c.state h' p) ↔ c.state.firstFreeBlock ≠ none := by
  intro c p hp
  obtain ⟨ts, hl⟩ := laid_of_run hcont hinit hrun hsmall
  constructor
  · rintro ⟨h', hret, -⟩ hnone
    obtain ⟨fuel, hcall⟩ := hret.exists_eq
    cases (myFree_of_none hnone fuel p).symm.trans hcall
  · intro hfree
    obtain ⟨us, t, vs, h', rfl, rfl, -, hret, hlaid, -⟩ := exists_myFree hl hp hfree
    exact ⟨h', hret, hl.covered hlaid⟩

def arenaServed : Heap Unit :=
  ((((arenaHeap.setSize 4096 128).setSize 4224 (HEAP_SIZE - 128)).write (.next 4224) none).write
    (.next 4096) ALLOCATED_BLOCK_MAGIC).write .first (some 4224)

def servedRun : List (Op × Config (Heap Unit)) := [(.malloc 100, ⟨arenaServed, [4112]⟩)]

lemma isRun_servedRun : IsRun (Step (allocator arena)) (initial arenaHeap) servedRun :=
  ⟨.malloc _ 100 (some 4112) arenaServed (by norm_num) ⟨3, rfl⟩, trivial⟩

theorem covered_servedRun : ∃ h',
    Returns .outOfFuel (fun fuel => myFree fuel (some 4112) arenaServed) (.ok h') ∧
      Covered arenaServed h' 4112 := by
  have hfree : arenaServed.firstFreeBlock ≠ none := by
    intro h
    cases h
  exact (covered_iff_firstFreeBlock arena_contiguous initAllocator_arena isRun_servedRun
    ⟨by norm_num [Small, HEAP_SIZE], trivial⟩ 4112 (by simp [servedRun])).mpr hfree

/-! ### A heap that is handed out completely -/

def arenaFull : Heap Unit :=
  (arenaHeap.write .first none).write (.next 4096) ALLOCATED_BLOCK_MAGIC

def fullRun : List (Op × Config (Heap Unit)) :=
  [(.malloc (HEAP_SIZE - 16), ⟨arenaFull, [4112]⟩)]

lemma isRun_fullRun : IsRun (Step (allocator arena)) (initial arenaHeap) fullRun := by
  refine ⟨.malloc _ (HEAP_SIZE - 16) (some 4112) arenaFull ?_ ⟨3, rfl⟩, trivial⟩
  norm_num [HEAP_SIZE]

/-- The block that fills the heap cannot be given back. -/
theorem not_covered_fullRun :
    initAllocator arena (fun _ => ⟨0, none⟩) () = .ok arenaHeap ∧
    IsRun (Step (allocator arena)) (initial arenaHeap) fullRun ∧
    StepsMeet Small (initial arenaHeap) fullRun ∧
    4112 ∈ (lastState (initial arenaHeap) fullRun).live ∧
    ∀ fuel, myFree fuel (some 4112) (lastState (initial arenaHeap) fullRun).state =
      .error .nullDeref := by
  refine ⟨initAllocator_arena, isRun_fullRun, ⟨by norm_num [Small, HEAP_SIZE], trivial⟩, ?_, ?_⟩
  · simp [fullRun]
  · exact fun fuel => myFree_of_none rfl fuel 4112

end Savesol

end StyLinux.Malloc
