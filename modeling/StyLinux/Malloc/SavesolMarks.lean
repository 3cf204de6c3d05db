import StyLinux.Malloc.SavesolRuns

/-!
# The mark in the header

In `savesolmalloc.c` the link of a block that is handed out holds `ALLOCATED_BLOCK_MAGIC`, by which
`dumpAllocator` tells the blocks apart. The mark is no multiple of 16, and no block of an aligned
heap starts there.
-/

namespace StyLinux.Malloc.Savesol

open Lib

variable {σ : Type} {allocHeap : AllocHeap σ} {h h' : Heap σ} {ts us vs : List Chunk} {t : Chunk}
  {live xs : List ℕ} {fuel a b n p : ℕ}

/-- The lines of the first part of the dump: a block, its size, and whether it is in use. -/
def dumpBlocks (h : Heap σ) : ℕ → Option ℕ → Except Fault (List (Tile Bool))
  | 0, _ => .error .outOfFuel
  | _ + 1, none => .ok []
  | fuel + 1, some current => do
    let next ← getNextBlockBySize h current
    let lines ← dumpBlocks h fuel next
    pure (⟨current, h.size current, h.read (.next current) = ALLOCATED_BLOCK_MAGIC⟩ :: lines)

/-- Both parts of the dump, the blocks found by size and the blocks of the free list. -/
def dumpAllocator (fuel : ℕ) (h : Heap σ) : Except Fault (List (Tile Bool) × List ℕ) := do
  let lines ← dumpBlocks h fuel (some h.heapStart)
  let free ← walkFree h fuel h.firstFreeBlock
  pure (lines, free)

/-- The blocks of the dump tile the heap. A block is in use exactly if its pointer is live, and
every other block is on the free list, which is in address order. -/
def DumpOk (h : Heap σ) (live : List ℕ) : Prop :=
  ∃ lines free, Returns .outOfFuel (fun fuel => dumpAllocator fuel h) (.ok (lines, free)) ∧
    Tiles h.heapStart lines (h.heapStart + h.heapSize) ∧
    (∀ x ∈ lines, x.len = h.size x.lo ∧ (x.tag = true ↔ x.lo + HEADER_SIZE ∈ live) ∧
      (h.read (.next x.lo) = ALLOCATED_BLOCK_MAGIC ↔ x.lo + HEADER_SIZE ∈ live)) ∧
    free.Pairwise (· < ·) ∧
    (lines.map Tile.lo).Perm (free ++ live.map (· - HEADER_SIZE))

/-! ### What freeing a block leaves alone -/

lemma read_mergeBlocks {b₁ : ℕ} {b₂ : Option ℕ} (hok : mergeBlocks h b₁ b₂ = .ok h')
    (ha : a ≠ b₁) : h'.read (.next a) = h.read (.next a) := by
  unfold mergeBlocks at hok
  split_ifs at hok
  · obtain rfl := Except.ok.inj hok
    rfl
  · cases b₂ with
    | none => cases hok
    | some b₂ =>
      obtain rfl := Except.ok.inj hok
      simp [ha]

lemma read_insertAfter {x : ℕ} (ha : a ≠ b) (hx : a ≠ x) :
    (insertAfter h b x).read (.next a) = h.read (.next a) := by
  unfold insertAfter
  split <;> simp [ha, hx]

/-- The block is inserted behind a block of the list. -/
lemma mem_of_insertLoop {x y : ℕ} (hc : Chain Link.next h.read (.next x) xs)
    (hok : insertLoop h b fuel x = .ok y) : y ∈ x :: xs := by
  induction fuel generalizing x xs with
  | zero => cases hok
  | succ fuel ih =>
    rw [insertLoop] at hok
    cases hr : h.read (.next x) with
    | none =>
      rw [hr] at hok
      obtain rfl := Except.ok.inj hok
      simp
    | some z =>
      simp only [hr] at hok
      split_ifs at hok
      · cases xs with
        | nil =>
          have hnone : h.read (.next x) = none := hc
          rw [hr] at hnone
          cases hnone
        | cons w xs =>
          obtain rfl : z = w := Option.some.inj (hr.symm.trans hc.1)
          exact List.mem_cons_of_mem x (ih hc.2 hok)
      · obtain rfl := Except.ok.inj hok
        simp

/-- Only the links of the block itself and of free blocks are written. -/
lemma read_myFree (hc : Chain Link.next h.read .first xs) (hok : myFree fuel (some p) h = .ok h')
    (ha : a ≠ sub64 p HEADER_SIZE) (hxs : a ∉ xs) : h'.read (.next a) = h.read (.next a) := by
  unfold myFree at hok
  cases hfirst : h.firstFreeBlock with
  | none =>
    simp only [hfirst] at hok
    cases hok
  | some x =>
    simp only [hfirst] at hok
    split_ifs at hok
    · rw [read_mergeBlocks hok ha]
      simp [ha]
    · obtain ⟨y, hloop, hbehind⟩ := bind_eq_ok.mp hok
      obtain ⟨h₁, hnext, hprev⟩ := bind_eq_ok.mp hbehind
      cases xs with
      | nil =>
        have hnone : h.firstFreeBlock = none := hc
        rw [hfirst] at hnone
        cases hnone
      | cons z xs =>
        obtain rfl : x = z := Option.some.inj (hfirst.symm.trans hc.1)
        have hy : a ≠ y := by
          rintro rfl
          exact hxs (mem_of_insertLoop hc.2 hloop)
        rw [read_mergeBlocks hprev hy, read_mergeBlocks hnext ha, read_insertAfter ha hy]

lemma marked_myFree (hl : Laid h (us ++ t :: vs) live) (hm : Marked h (us ++ t :: vs))
    (hok : myFree fuel (some (dataOf t.lo)) h = .ok h') : Marked h' (release us t vs) := by
  intro s hs hlive
  have hkept : s ∈ us ++ vs := by
    rcases mem_release hs with hfree | hs
    · cases hlive.symm.trans hfree
    · exact hs
  have hmem : s ∈ us ++ t :: vs := by
    rcases List.mem_append.mp hkept with hs | hs <;> simp [hs]
  have hne : s.lo ≠ t.lo := by
    intro he
    have hnd : (us ++ t :: vs).Nodup := hl.tiles.nodup_lo.of_map _
    obtain rfl := hl.tiles.eq_of_lo hmem (by simp) he
    exact (List.nodup_middle.mp hnd).notMem hkept
  have hfree := hl.notMem_freeStarts hmem hlive
  have hblock := hl.sub64_dataOf (t := t) (by simp)
  rw [read_myFree hl.chain hok (hblock.symm ▸ hne) hfree]
  exact hm s hmem hlive

/-! ### Runs -/

/-- The invariant: the heap is laid out, aligned and marked, and no block is lost. -/
def Sound (c : Config (Heap σ)) : Prop :=
  ∃ ts, Laid c.state ts c.live ∧ NoLost ts ∧ Marked c.state ts ∧ 16 ∣ c.state.heapStart

lemma Sound.step (hcont : Contiguous allocHeap) {c c' : Config (Heap σ)} {op : Op} (hc : Sound c)
    (hop : Small c op) (hstep : Step (allocator allocHeap) c op c') : Sound c' := by
  obtain ⟨ts, hl, hts, hm, halign⟩ := hc
  cases hstep with
  | malloc n r s _ hcall =>
    obtain ⟨fuel, hcall⟩ := hcall
    have hn : n ≤ HEAP_SIZE := hop
    have hwrap := add_32_le_of_le hn
    obtain ⟨r', h', ts', hret, hlaid, hkept⟩ := returns_myMalloc hl hcont hwrap
    obtain ⟨rfl, rfl⟩ := Prod.mk.inj (Except.ok.inj (hret.eq_of_ok hcall))
    exact ⟨ts', hlaid, hkept.noLost hts, hkept.marked hm, hkept.heapStart ▸ halign⟩
  | freeNull s hcall =>
    obtain ⟨fuel, hcall⟩ := hcall
    obtain rfl := Except.ok.inj hcall
    exact ⟨ts, hl, hts, hm, halign⟩
  | free p s hp hcall =>
    obtain ⟨fuel, hcall⟩ := hcall
    have hfree : c.state.firstFreeBlock ≠ none := by
      intro hnone
      cases (myFree_of_none hnone fuel p).symm.trans hcall
    obtain ⟨us, t, vs, h', rfl, rfl, -, hret, hlaid, hstart, -⟩ := exists_myFree hl hp hfree
    obtain rfl := Except.ok.inj (hret.eq_of_ok hcall)
    exact ⟨_, hlaid, hts.release, marked_myFree hl hm hcall, hstart ▸ halign⟩
  | write mem hw =>
    refine ⟨ts, hl.writesData hw, hts, ?_, halign⟩
    intro t ht hlive
    have hmem := hl.mem_eq_of_writesData hw t ht
    exact (congrArg Block.next hmem).trans (hm t ht hlive)

lemma sound_of_run (hcont : Contiguous allocHeap) {mem : ℕ → Block} {os : σ}
    (hinit : initAllocator allocHeap mem os = .ok h) (halign : 16 ∣ h.heapStart)
    {run : List (Op × Config (Heap σ))}
    (hrun : IsRun (Step (allocator allocHeap)) (initial h) run)
    (hsmall : StepsMeet Small (initial h) run) : Sound (lastState (initial h) run) := by
  have hstep : ∀ c op c', Sound c → Small c op → Step (allocator allocHeap) c op c' → Sound c' :=
    fun c op c' hc hop hstep => hc.step hcont hop hstep
  have hstart : Sound (initial h) := by
    refine ⟨_, (laid_initAllocator hcont hinit).1, by simp [NoLost], ?_, halign⟩
    intro t ht hlive
    rw [List.mem_singleton.mp ht] at hlive
    cases hlive
  exact IsRun.invariant_last hstep hstart hrun hsmall

/-! ### The dump -/

/-- The line of the dump for a tile. -/
def line (h : Heap σ) (t : Chunk) : Tile Bool :=
  ⟨t.lo, t.len, h.read (.next t.lo) = ALLOCATED_BLOCK_MAGIC⟩

lemma returns_dumpBlocks (hroom : h.heapStart + h.heapSize < 2 ^ 64)
    (htiles : Tiles a us (h.heapStart + h.heapSize))
    (hsizes : ∀ t ∈ us, h.size t.lo = t.len ∧ HEADER_SIZE ≤ t.len) :
    Returns .outOfFuel (fun fuel => dumpBlocks h fuel (us.head?.map Tile.lo))
      (.ok (us.map (line h))) := by
  induction us generalizing a with
  | nil =>
    refine (Returns.const _).succ rfl ?_
    intro fuel
    rfl
  | cons t us ih =>
    obtain ⟨hlen, hhead⟩ := hsizes t (by simp)
    have hhi := (htiles.bounds (t := t) (by simp)).2
    simp only [Tile.hi] at hhi
    have hnext : getNextBlockBySize h t.lo = .ok (us.head?.map Tile.lo) := by
      rw [getNextBlockBySize_eq (by omega) (by omega)]
      exact getNextBlockBySize_tile hroom htiles hlen
    have hi := ih htiles.2.2 (fun s hs => hsizes s (by simp [hs]))
    refine (hi.map (fun lines => line h t :: lines)).succ rfl ?_
    intro fuel
    simp only [List.head?_cons, Option.map_some, dumpBlocks, hnext, line, hlen]
    rfl

lemma returns_dumpAllocator (hl : Laid h ts live) :
    Returns .outOfFuel (fun fuel => dumpAllocator fuel h)
      (.ok (ts.map (line h), freeStarts ts)) := by
  have hlines := returns_dumpBlocks hl.room hl.tiles fun t ht => ⟨hl.sizes t ht, hl.header_le ht⟩
  rw [hl.head_lo] at hlines
  exact hlines.bind (g := fun lines fuel => walkFree h fuel h.firstFreeBlock >>= fun free =>
    pure (lines, free)) (hl.freeList.map _)

/-- A free block is linked to an aligned one or to none. -/
lemma read_next_ne_magic (hl : Laid h ts live) (halign : 16 ∣ h.heapStart) (ht : t ∈ ts)
    (hfree : t.tag = .free) : h.read (.next t.lo) ≠ ALLOCATED_BLOCK_MAGIC := by
  obtain ⟨us, vs, rfl⟩ := List.append_of_mem ht
  rw [hl.read_next hfree]
  intro hmagic
  obtain ⟨s, hs, -, hlo⟩ := mem_freeStarts.mp (List.mem_of_head? hmagic)
  have hdvd := hl.tiles.dvd_lo halign hl.aligned s (by simp [hs])
  rw [hlo] at hdvd
  exact absurd hdvd (by norm_num)

lemma magic_iff (hl : Laid h ts live) (hts : NoLost ts) (hm : Marked h ts)
    (halign : 16 ∣ h.heapStart) (ht : t ∈ ts) :
    h.read (.next t.lo) = ALLOCATED_BLOCK_MAGIC ↔ t.lo + HEADER_SIZE ∈ live := by
  cases htag : t.tag with
  | live => exact iff_of_true (hm t ht htag) (hl.mem_live.mpr ⟨t, ht, htag, rfl⟩)
  | lost => exact absurd htag (hts t ht)
  | free =>
    refine iff_of_false (read_next_ne_magic hl halign ht htag) ?_
    intro hin
    obtain ⟨s, hs, hlive, hdata⟩ := hl.mem_live.mp hin
    obtain rfl := hl.tiles.eq_of_lo ht hs (Nat.add_right_cancel hdata)
    cases htag.symm.trans hlive

lemma Sound.dumpOk {c : Config (Heap σ)} (hc : Sound c) : DumpOk c.state c.live := by
  obtain ⟨ts, hl, hts, hm, halign⟩ := hc
  refine ⟨_, _, returns_dumpAllocator hl, hl.tiles.map fun t _ => ⟨rfl, rfl⟩, ?_,
    hl.tiles.pairwise_startsOf _, ?_⟩
  · intro x hx
    obtain ⟨t, ht, rfl⟩ := List.mem_map.mp hx
    have hiff := magic_iff hl hts hm halign ht
    refine ⟨(hl.sizes t ht).symm, ?_, hiff⟩
    simpa [line] using hiff
  · have hstarts : (ts.map (line c.state)).map Tile.lo = ts.map Tile.lo := by
      rw [List.map_map]
      rfl
    rw [hstarts]
    exact hts.perm.trans (hl.live_map_sub.symm.append_left _)

/-- No assertion of the computation fails. -/
def AssertsHold {α : Type} (f : ℕ → Except Fault α) : Prop :=
  ∀ fuel, f fuel ≠ .error .assertFailed

lemma assertsHold_of_returns {α : Type} {f : ℕ → Except Fault α} {x : α}
    (hret : Returns .outOfFuel f (.ok x)) : AssertsHold f := hret.ne_error (by simp)

/-- After every call of a run from an aligned heap start the dump is right, and no assertion fails
in the dump, in a request of at most `HEAP_SIZE` bytes, or in freeing a live pointer while there is
a free block. -/
theorem dumpOk_of_run (hcont : Contiguous allocHeap) {mem : ℕ → Block} {os : σ}
    (hinit : initAllocator allocHeap mem os = .ok h) (halign : 16 ∣ h.heapStart)
    {run : List (Op × Config (Heap σ))}
    (hrun : IsRun (Step (allocator allocHeap)) (initial h) run)
    (hsmall : StepsMeet Small (initial h) run) :
    let c := lastState (initial h) run
    DumpOk c.state c.live ∧ AssertsHold (fun fuel => dumpAllocator fuel c.state) ∧
      (∀ n, n ≤ HEAP_SIZE → AssertsHold (fun fuel => myMalloc allocHeap fuel n c.state)) ∧
      ∀ p ∈ c.live, c.state.firstFreeBlock ≠ none →
        AssertsHold (fun fuel => myFree fuel (some p) c.state) := by
  intro c
  have hc : Sound c := sound_of_run hcont hinit halign hrun hsmall
  obtain ⟨ts, hl, -⟩ := id hc
  refine ⟨hc.dumpOk, assertsHold_of_returns (returns_dumpAllocator hl), ?_, ?_⟩
  · intro n hn
    have hwrap := add_32_le_of_le hn
    obtain ⟨r, h', ts', hret, -⟩ := returns_myMalloc hl hcont hwrap
    exact assertsHold_of_returns hret
  · intro p hp hfree
    obtain ⟨us, t, vs, h', -, -, -, hret, -⟩ := exists_myFree hl hp hfree
    exact assertsHold_of_returns hret

/-! ### A run that merges free blocks -/

def arenaTwo : Heap Unit :=
  ((((arenaServed.setSize 4224 224).setSize 4448 (HEAP_SIZE - 352)).write (.next 4448) none).write
    (.next 4224) ALLOCATED_BLOCK_MAGIC).write .first (some 4448)

def arenaThree : Heap Unit :=
  ((((arenaTwo.setSize 4448 320).setSize 4768 (HEAP_SIZE - 672)).write (.next 4768) none).write
    (.next 4448) ALLOCATED_BLOCK_MAGIC).write .first (some 4768)

/-- The first block is free again, in front of a live one. -/
def arenaReleased : Heap Unit :=
  (arenaThree.write (.next 4096) (some 4768)).write .first (some 4096)

/-- The first two blocks are free and one block. -/
def arenaMerged : Heap Unit :=
  (((arenaReleased.write (.next 4224) (some 4768)).write (.next 4096) (some 4224)).setSize 4096
    352).write (.next 4096) (some 4768)

def mergedRun : List (Op × Config (Heap Unit)) :=
  [(.malloc 100, ⟨arenaServed, [4112]⟩), (.malloc 200, ⟨arenaTwo, [4240, 4112]⟩),
    (.malloc 300, ⟨arenaThree, [4464, 4240, 4112]⟩),
    (.free (some 4112), ⟨arenaReleased, [4464, 4240]⟩),
    (.free (some 4240), ⟨arenaMerged, [4464]⟩)]

lemma isRun_mergedRun : IsRun (Step (allocator arena)) (initial arenaHeap) mergedRun := by
  refine ⟨isRun_servedRun.1, ?_, ?_, ?_, ?_, trivial⟩
  · exact .malloc ⟨arenaServed, [4112]⟩ 200 (some 4240) arenaTwo (by norm_num) ⟨3, rfl⟩
  · exact .malloc ⟨arenaTwo, [4240, 4112]⟩ 300 (some 4464) arenaThree (by norm_num) ⟨3, rfl⟩
  · exact .free ⟨arenaThree, [4464, 4240, 4112]⟩ 4112 arenaReleased (by simp) ⟨3, rfl⟩
  · exact .free ⟨arenaReleased, [4464, 4240]⟩ 4240 arenaMerged (by simp) ⟨3, rfl⟩

theorem dumpOk_mergedRun : DumpOk arenaMerged [4464] := by
  have halign : 16 ∣ arenaHeap.heapStart := by norm_num [arenaHeap]
  have hsmall : StepsMeet Small (initial arenaHeap) mergedRun := by
    simp [StepsMeet, mergedRun, Small, HEAP_SIZE]
  exact (dumpOk_of_run arena_contiguous initAllocator_arena halign isRun_mergedRun hsmall).1

end StyLinux.Malloc.Savesol
