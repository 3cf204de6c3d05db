import StyLinux.Malloc.BestFitRuns
import StyLinux.Malloc.SavesolRuns

/-!
# Agreement of the two best-fit allocators

A client that calls both allocators of `vika9` with the same requests, and names the blocks it
frees by their offsets, gets the same offsets from both. Both heaps are laid out by one tiling of
offsets, moved to where the heap starts.
-/

namespace StyLinux.Malloc

open Lib

variable {σ τ : Type}

/-! ### Tilings of offsets -/

/-- The tile of an offset in a heap that starts at `start`. -/
def place (start : ℕ) (t : Chunk) : Chunk := ⟨start + t.lo, t.len, t.tag⟩

section Place

variable {ts us vs : List Chunk} {t : Chunk} {start : ℕ}

@[simp] lemma lo_place : (place start t).lo = start + t.lo := rfl

@[simp] lemma len_place : (place start t).len = t.len := rfl

@[simp] lemma tag_place : (place start t).tag = t.tag := rfl

lemma map_place_eq {us' vs' : List Chunk} {t' : Chunk}
    (h : ts.map (place start) = us' ++ t' :: vs') :
    ∃ us t vs, ts = us ++ t :: vs ∧ us' = us.map (place start) ∧ t' = place start t ∧
      vs' = vs.map (place start) := by
  obtain ⟨us, ws, rfl, rfl, hws⟩ := List.map_eq_append_iff.mp h
  obtain ⟨t, vs, rfl, rfl, rfl⟩ := List.map_eq_cons_iff.mp hws
  exact ⟨us, t, vs, rfl, rfl, rfl, rfl⟩

lemma cut_place (n : ℕ) : cut (place start t) n = (cut t n).map (place start) := by
  unfold cut
  by_cases h : t.len = n
  · simp [h, place]
  · simp [h, place, Nat.add_assoc]

lemma map_cut_place (n : ℕ) :
    us.map (place start) ++ cut (place start t) n ++ vs.map (place start) =
      (us ++ cut t n ++ vs).map (place start) := by
  rw [cut_place, List.map_append, List.map_append]

lemma mergedBefore_place :
    mergedBefore (us.map (place start)) (place start t) =
      ((mergedBefore us t).1.map (place start), place start (mergedBefore us t).2) := by
  rcases List.eq_nil_or_concat' us with rfl | ⟨us, q, rfl⟩
  · rfl
  · rw [List.map_append, List.map_singleton]
    by_cases hq : q.tag = .free
    · rw [mergedBefore_concat_free hq, mergedBefore_concat_free (by simpa using hq)]
      rfl
    · rw [mergedBefore_concat_used hq, mergedBefore_concat_used (by simpa using hq),
        List.map_append, List.map_singleton]

lemma mergedAfter_place :
    mergedAfter (place start t) (vs.map (place start)) =
      (place start (mergedAfter t vs).1, (mergedAfter t vs).2.map (place start)) := by
  cases vs with
  | nil => rfl
  | cons r vs =>
    by_cases hr : r.tag = .free
    · simp [mergedAfter, hr, place]
    · simp [mergedAfter, hr]

lemma release_place :
    release (us.map (place start)) (place start t) (vs.map (place start)) =
      (release us t vs).map (place start) := by
  have hfree : (⟨(place start t).lo, (place start t).len, .free⟩ : Chunk) =
      place start ⟨t.lo, t.len, .free⟩ := rfl
  simp only [release, hfree, mergedBefore_place, mergedAfter_place, List.map_append,
    List.map_cons]

lemma freeStarts_place : freeStarts (ts.map (place start)) = (freeStarts ts).map (start + ·) := by
  induction ts with
  | nil => rfl
  | cons t ts ih => by_cases ht : t.tag = .free <;> simp [ih, ht]

lemma isBest_place {size : ℕ}
    (h : IsBest size (us.map (place start)) (place start t) (vs.map (place start))) :
    IsBest size us t vs := by
  refine ⟨h.free, h.le, ?_, ?_⟩
  · intro s hs
    exact h.before (place start s) (List.mem_map_of_mem hs)
  · intro s hs
    exact h.after (place start s) (List.mem_map_of_mem hs)

lemma noFit_place {n : ℕ} : NoFit n (ts.map (place start)) ↔ NoFit n ts := by
  simp [NoFit]

end Place

lemma IsBest.not_before {size : ℕ} {us us' vs vs' : List Chunk} {t t' : Chunk}
    (h : IsBest size us t vs) (h' : IsBest size us' t' vs') (ht : t ∈ us') : t' ∉ vs := by
  intro ht'
  have hlt := h'.before t ht h.free h.le
  have hle := h.after t' ht' h'.free h'.le
  omega

lemma IsBest.eq_nil_of_append {size : ℕ} {us vs vs' ws : List Chunk} {t t' : Chunk}
    (h : IsBest size us t vs) (h' : IsBest size (us ++ ws) t' vs')
    (hws : t :: vs = ws ++ t' :: vs') : ws = [] := by
  cases ws with
  | nil => rfl
  | cons w ws =>
    obtain ⟨rfl, rfl⟩ := List.cons.inj hws
    exact absurd (by simp) (h.not_before h' (by simp))

/-- There is one first smallest tile. -/
lemma IsBest.unique {size : ℕ} {us us' vs vs' : List Chunk} {t t' : Chunk}
    (h : IsBest size us t vs) (h' : IsBest size us' t' vs')
    (he : us ++ t :: vs = us' ++ t' :: vs') :
    us = us' ∧ t = t' ∧ vs = vs' := by
  rcases List.append_eq_append_iff.mp he with ⟨ws, rfl, hws⟩ | ⟨ws, rfl, hws⟩
  · obtain rfl := h.eq_nil_of_append h' hws
    obtain ⟨rfl, rfl⟩ := List.cons.inj hws
    simp
  · obtain rfl := h'.eq_nil_of_append h hws
    obtain ⟨rfl, rfl⟩ := List.cons.inj hws
    simp

/-! ### The two systems -/

/-- A request of a client that names blocks by the offsets of their data. -/
inductive Request
  | malloc (n : ℕ)
  | free (offset : ℕ)
  | write
  deriving DecidableEq, Repr

def Request.op (h : Heap σ) : Request → Op
  | .malloc n => .malloc n
  | .free offset => .free (some (h.heapStart + offset))
  | .write => .write

/-- Both allocators, `malloc.c` first and `savesolmalloc.c` second, answer the same request. -/
def Both (v : BestFit) (allocHeap : AllocHeap σ) (allocHeap' : AllocHeap τ)
    (c : Config (Heap σ) × Config (Heap τ)) (r : Request)
    (c' : Config (Heap σ) × Config (Heap τ)) : Prop :=
  Step (v.allocator allocHeap) c.1 (r.op c.1.state) c'.1 ∧
    Step (Savesol.allocator allocHeap') c.2 (r.op c.2.state) c'.2

def FindsBlock (h : Heap σ) (n : ℕ) : Prop :=
  ∃ free, FreeList h free ∧ ∃ b ∈ free, paddedSize n ≤ h.size b

/-- The request is not too large and finds a free block, or it does not free a block while the
free list is empty. -/
def Allowed (c : Config (Heap σ) × Config (Heap τ)) : Request → Prop
  | .malloc n => n ≤ HEAP_SIZE - 16 ∧ FindsBlock c.1.state n
  | .free _ => c.1.state.firstFreeBlock ≠ none
  | .write => True

/-- The free list has the blocks with the given offsets and sizes. -/
def FreeBlocks (h : Heap σ) (blocks : List (ℕ × ℕ)) : Prop :=
  ∃ free, FreeList h free ∧ blocks = free.map fun a => (a - h.heapStart, h.size a)

/-- Both heaps have the same free list, and the live pointers have the same offsets. -/
structure Agree (c : Config (Heap σ) × Config (Heap τ)) : Prop where
  free : ∃ blocks, FreeBlocks c.1.state blocks ∧ FreeBlocks c.2.state blocks
  live : c.1.live.map (· - c.1.state.heapStart) = c.2.live.map (· - c.2.state.heapStart)

/-! ### Heaps laid out by one tiling -/

/-- The heap is laid out by a tiling and live pointers given by their offsets. -/
structure Placed (c : Config (Heap σ)) (ts : List Chunk) (offsets : List ℕ) : Prop where
  laid : Laid c.state (ts.map (place c.state.heapStart)) c.live
  live : c.live = offsets.map (c.state.heapStart + ·)

def Mirrored (c : Config (Heap σ) × Config (Heap τ)) : Prop :=
  ∃ ts offsets, Placed c.1 ts offsets ∧ Placed c.2 ts offsets

section Placed

variable {allocHeap : AllocHeap σ} {c : Config (Heap σ)} {h' : Heap σ} {ts us vs : List Chunk}
  {t : Chunk} {offsets : List ℕ} {n : ℕ}

lemma Placed.freeBlocks (hp : Placed c ts offsets) :
    FreeBlocks c.state ((ts.filter fun t => t.tag = .free).map fun t => (t.lo, t.len)) := by
  refine ⟨_, hp.laid.freeList, ?_⟩
  have hstarts : freeStarts (ts.map (place c.state.heapStart)) =
      (ts.filter fun t => t.tag = .free).map fun t => c.state.heapStart + t.lo := by
    rw [freeStarts_place]
    simp [freeStarts, startsOf]
  rw [hstarts, List.map_map]
  apply List.map_congr_left
  intro t ht
  have hsize := hp.laid.sizes (place c.state.heapStart t)
    (List.mem_map_of_mem (List.mem_filter.mp ht).1)
  rw [lo_place, len_place] at hsize
  simp [hsize]

lemma Placed.offsets_eq (hp : Placed c ts offsets) :
    c.live.map (· - c.state.heapStart) = offsets := by
  rw [hp.live, List.map_map]
  have hid : ((· - c.state.heapStart) ∘ (c.state.heapStart + ·)) = id := by
    funext k
    simp
  rw [hid, List.map_id]

lemma Placed.findsBlock_iff (hp : Placed c ts offsets) :
    FindsBlock c.state n ↔ ¬NoFit n ts := by
  have hplace : NoFit n (ts.map (place c.state.heapStart)) ↔ NoFit n ts := noFit_place
  rw [← hplace]
  constructor
  · rintro ⟨free, hfree, b, hb, hle⟩ hno
    obtain ⟨fuel, hwalk⟩ := hfree.exists_eq
    obtain rfl := Except.ok.inj (hp.laid.freeList.eq_of_ok hwalk)
    obtain ⟨s, hs, htag, rfl⟩ := mem_freeStarts.mp hb
    have hlt := hno s hs htag
    rw [hp.laid.sizes s hs] at hle
    omega
  · intro hfit
    unfold NoFit at hfit
    push Not at hfit
    obtain ⟨s, hs, htag, hle⟩ := hfit
    refine ⟨_, hp.laid.freeList, s.lo, mem_freeStarts.mpr ⟨s, hs, htag, rfl⟩, ?_⟩
    rw [hp.laid.sizes s hs]
    exact hle

lemma Placed.firstFreeBlock_iff (hp : Placed c ts offsets) :
    c.state.firstFreeBlock ≠ none ↔ freeStarts ts ≠ [] := by
  rw [Heap.firstFreeBlock_eq_read, hp.laid.chain.get_eq_head?, freeStarts_place]
  simp

lemma dataOf_add (start k : ℕ) : dataOf (start + k) = start + dataOf k := Nat.add_assoc _ _ _

lemma Placed.served (hp : Placed c (us ++ t :: vs) offsets)
    (hlaid : Laid h' (us.map (place c.state.heapStart) ++ cut (place c.state.heapStart t) n ++
      vs.map (place c.state.heapStart)) (dataOf (place c.state.heapStart t).lo :: c.live))
    (hstart : h'.heapStart = c.state.heapStart) :
    Placed ⟨h', (c.state.heapStart + dataOf t.lo) :: c.live⟩ (us ++ cut t n ++ vs)
      (dataOf t.lo :: offsets) := by
  rw [map_cut_place, lo_place, dataOf_add] at hlaid
  constructor
  · rw [hstart]
    exact hlaid
  · rw [hstart, List.map_cons, hp.live]

lemma Placed.released (hp : Placed c (us ++ t :: vs) offsets)
    (hlaid : Laid h' (release (us.map (place c.state.heapStart)) (place c.state.heapStart t)
      (vs.map (place c.state.heapStart))) (c.live.erase (dataOf (place c.state.heapStart t).lo)))
    (hstart : h'.heapStart = c.state.heapStart) :
    Placed ⟨h', c.live.erase (c.state.heapStart + dataOf t.lo)⟩ (release us t vs)
      (offsets.erase (dataOf t.lo)) := by
  rw [release_place, lo_place, dataOf_add] at hlaid
  constructor
  · rw [hstart]
    exact hlaid
  · rw [hstart, hp.live, List.map_erase (add_right_injective _)]

/-- The best fit in a placed heap, in terms of the tiling of offsets. -/
lemma Placed.malloc (hp : Placed c ts offsets) (hfit : ¬NoFit n ts)
    {malloc : ℕ → Except Fault (Option ℕ × Heap σ)}
    (hserved : ∃ us t vs h', ts.map (place c.state.heapStart) = us ++ t :: vs ∧
      IsBest (paddedSize n) us t vs ∧
      Returns .outOfFuel malloc (.ok (some (dataOf t.lo), h')) ∧
      Laid h' (us ++ cut t (paddedSize n) ++ vs) (dataOf t.lo :: c.live) ∧
      h'.heapStart = c.state.heapStart ∧ h'.heapSize = c.state.heapSize ∧ h'.os = c.state.os) :
    ∃ us t vs h', ts = us ++ t :: vs ∧ IsBest (paddedSize n) us t vs ∧
      Returns .outOfFuel malloc (.ok (some (c.state.heapStart + dataOf t.lo), h')) ∧
      Placed ⟨h', (c.state.heapStart + dataOf t.lo) :: c.live⟩
        (us ++ cut t (paddedSize n) ++ vs) (dataOf t.lo :: offsets) := by
  obtain ⟨us', t', vs', h', hts, hbest, hret, hlaid, hstart, -⟩ := hserved
  obtain ⟨us, t, vs, rfl, rfl, rfl, rfl⟩ := map_place_eq hts
  rw [lo_place, dataOf_add] at hret
  exact ⟨us, t, vs, h', rfl, isBest_place hbest, hret, hp.served hlaid hstart⟩

end Placed

section Steps

variable {v : BestFit} {allocHeap : AllocHeap σ} {allocHeap' : AllocHeap τ}
  {c c' : Config (Heap σ) × Config (Heap τ)} {n : ℕ}

lemma Mirrored.agree (hm : Mirrored c) : Agree c := by
  obtain ⟨ts, offsets, hp, hp'⟩ := hm
  exact ⟨⟨_, hp.freeBlocks, hp'.freeBlocks⟩, hp.offsets_eq.trans hp'.offsets_eq.symm⟩

/-- Both allocators serve an allowed request with the same offset. -/
lemma Mirrored.malloc (hm : Mirrored c) (allocHeap : AllocHeap σ) (allocHeap' : AllocHeap τ)
    (hallowed : Allowed c (.malloc n)) :
    ∃ k h h', Returns .outOfFuel (fun fuel => Vika4.myMalloc allocHeap fuel n c.1.state)
        (.ok (some (c.1.state.heapStart + k), h)) ∧
      Returns .outOfFuel (fun fuel => Savesol.myMalloc allocHeap' fuel n c.2.state)
        (.ok (some (c.2.state.heapStart + k), h')) ∧
      Mirrored (⟨h, (c.1.state.heapStart + k) :: c.1.live⟩,
        ⟨h', (c.2.state.heapStart + k) :: c.2.live⟩) := by
  obtain ⟨ts, offsets, hp, hp'⟩ := hm
  obtain ⟨hn, hfind⟩ := hallowed
  rw [HEAP_SIZE_eq] at hn
  have hwrap : n + 32 ≤ 2 ^ 64 := by omega
  have hpadded : paddedSize n ≤ HEAP_SIZE := by
    rw [paddedSize_eq hwrap, HEAP_SIZE_eq]
    omega
  have hfit := hp.findsBlock_iff.mp hfind
  obtain ⟨us, t, vs, h, rfl, hbest, hret, hplaced⟩ := hp.malloc hfit
    (Vika4.returns_best allocHeap hp.laid hpadded (paddedSize_pos hwrap)
      (noFit_place.not.mpr hfit))
  obtain ⟨us', t', vs', h', hts, hbest', hret', hplaced'⟩ := hp'.malloc hfit
    (Savesol.returns_served allocHeap' hp'.laid hwrap (noFit_place.not.mpr hfit))
  obtain ⟨rfl, rfl, rfl⟩ := hbest.unique hbest' hts
  exact ⟨_, h, h', hret, hret', _, _, hplaced, hplaced'⟩

/-- Both allocators take back a block if there is a free one. -/
lemma Mirrored.free (hm : Mirrored c) {k : ℕ} (hk : c.1.state.heapStart + k ∈ c.1.live)
    (hallowed : Allowed c (.free k)) :
    ∃ h h', Returns .outOfFuel (fun fuel => Vika4.myFree fuel
        (some (c.1.state.heapStart + k)) c.1.state) (.ok h) ∧
      Returns .outOfFuel (fun fuel => Savesol.myFree fuel
        (some (c.2.state.heapStart + k)) c.2.state) (.ok h') ∧
      Mirrored (⟨h, c.1.live.erase (c.1.state.heapStart + k)⟩,
        ⟨h', c.2.live.erase (c.2.state.heapStart + k)⟩) := by
  obtain ⟨ts, offsets, hp, hp'⟩ := hm
  have hfree' := hp'.firstFreeBlock_iff.mpr (hp.firstFreeBlock_iff.mp hallowed)
  obtain ⟨s, hs, htag, hlo⟩ := hp.laid.mem_live.mp hk
  obtain ⟨t, ht, rfl⟩ := List.mem_map.mp hs
  obtain ⟨us, vs, rfl⟩ := List.append_of_mem ht
  rw [lo_place, dataOf_add, Nat.add_left_cancel_iff] at hlo
  subst hlo
  have hlaid := hp.laid
  have hlaid' := hp'.laid
  rw [List.map_append, List.map_cons] at hlaid hlaid'
  obtain ⟨h, hret, hreleased, hstart, -⟩ := hlaid.freeBlock htag
  obtain ⟨h', hret', hreleased', hstart', -⟩ := Savesol.returns_myFree hlaid' htag hfree'
  refine ⟨h, h', hret.map Prod.snd, hret', _, _, hp.released hreleased hstart,
    hp'.released hreleased' hstart'⟩

lemma Mirrored.step (hm : Mirrored c) {r : Request} (hallowed : Allowed c r)
    (hboth : Both v allocHeap allocHeap' c r c') : Mirrored c' := by
  obtain ⟨c₁, c₂⟩ := c'
  have hstep := BestFit.step hboth.1
  have hstep' := hboth.2
  dsimp only at hstep hstep'
  cases r with
  | malloc n =>
    obtain ⟨k, h, h', hret, hret', hmirrored⟩ := hm.malloc allocHeap allocHeap' hallowed
    cases hstep with
    | malloc _ _ _ _ hcall =>
      cases hstep' with
      | malloc _ _ _ _ hcall' =>
        obtain ⟨fuel, hcall⟩ := hcall
        obtain ⟨fuel', hcall'⟩ := hcall'
        obtain ⟨rfl, rfl⟩ := Prod.mk.inj (Except.ok.inj (hret.eq_of_ok hcall))
        obtain ⟨rfl, rfl⟩ := Prod.mk.inj (Except.ok.inj (hret'.eq_of_ok hcall'))
        exact hmirrored
  | free k =>
    cases hstep with
    | free _ _ hk hcall =>
      cases hstep' with
      | free _ _ hk' hcall' =>
        obtain ⟨h, h', hret, hret', hmirrored⟩ := hm.free hk hallowed
        obtain ⟨fuel, hcall⟩ := hcall
        obtain ⟨fuel', hcall'⟩ := hcall'
        obtain rfl := Except.ok.inj (hret.eq_of_ok hcall)
        obtain rfl := Except.ok.inj (hret'.eq_of_ok hcall')
        exact hmirrored
  | write =>
    obtain ⟨ts, offsets, hp, hp'⟩ := hm
    cases hstep with
    | write _ hw =>
      cases hstep' with
      | write _ hw' =>
        exact ⟨ts, offsets, ⟨hp.laid.writesData hw, hp.live⟩, ⟨hp'.laid.writesData hw', hp'.live⟩⟩

lemma mirrored_initAllocator (hcont : Contiguous allocHeap) (hcont' : Contiguous allocHeap')
    {mem mem' : ℕ → Block} {os : σ} {os' : τ} {h : Heap σ} {h' : Heap τ}
    (hinit : initAllocator allocHeap mem os = .ok h)
    (hinit' : initAllocator allocHeap' mem' os' = .ok h') : Mirrored (⟨h, []⟩, ⟨h', []⟩) := by
  refine ⟨[⟨0, HEAP_SIZE, .free⟩], [], ⟨?_, rfl⟩, ⟨?_, rfl⟩⟩
  · exact (laid_initAllocator hcont hinit).1
  · exact (laid_initAllocator hcont' hinit').1

/-- As long as the requests are allowed both allocators return, give out the same offsets and
have the same free list after every call. -/
theorem agree_of_run (hcont : Contiguous allocHeap) (hcont' : Contiguous allocHeap')
    {mem mem' : ℕ → Block} {os : σ} {os' : τ} {h : Heap σ} {h' : Heap τ}
    (hinit : initAllocator allocHeap mem os = .ok h)
    (hinit' : initAllocator allocHeap' mem' os' = .ok h')
    {run : List (Request × Config (Heap σ) × Config (Heap τ))}
    (hrun : IsRun (Both v allocHeap allocHeap') (⟨h, []⟩, ⟨h', []⟩) run)
    (hallowed : StepsMeet Allowed (⟨h, []⟩, ⟨h', []⟩) run) :
    let c := lastState (⟨h, []⟩, ⟨h', []⟩) run
    Agree c ∧
    (∀ n, Allowed c (.malloc n) → ∃ k s s',
      Ends (fun fuel => (v.allocator allocHeap).malloc fuel n c.1.state)
        (some (c.1.state.heapStart + k), s) ∧
      Returns .outOfFuel (fun fuel => Savesol.myMalloc allocHeap' fuel n c.2.state)
        (.ok (some (c.2.state.heapStart + k), s')) ∧
      Agree (⟨s, (c.1.state.heapStart + k) :: c.1.live⟩,
        ⟨s', (c.2.state.heapStart + k) :: c.2.live⟩)) ∧
    ∀ k, c.1.state.heapStart + k ∈ c.1.live → Allowed c (.free k) → ∃ s s',
      Returns .outOfFuel (fun fuel => (v.allocator allocHeap).free fuel
        (some (c.1.state.heapStart + k)) c.1.state) (.ok s) ∧
      Returns .outOfFuel (fun fuel => Savesol.myFree fuel (some (c.2.state.heapStart + k))
        c.2.state) (.ok s') ∧
      Agree (⟨s, c.1.live.erase (c.1.state.heapStart + k)⟩,
        ⟨s', c.2.live.erase (c.2.state.heapStart + k)⟩) := by
  intro c
  have hm : Mirrored c :=
    IsRun.invariant_last (fun _ _ _ hm hr hstep => hm.step hr hstep)
      (mirrored_initAllocator hcont hcont' hinit hinit') hrun hallowed
  refine ⟨hm.agree, ?_, ?_⟩
  · intro n hn
    obtain ⟨ts, offsets, hp, -⟩ := id hm
    have hwrap : n + 32 ≤ 2 ^ 64 := add_32_le_of_le (hn.1.trans (Nat.sub_le _ _))
    obtain ⟨k, s, s', hret, hret', hm'⟩ := hm.malloc allocHeap allocHeap' hn
    exact ⟨k, s, s', BestFit.ends_malloc v hp.laid hcont hwrap hret, hret', hm'.agree⟩
  · intro k hk hallowed
    obtain ⟨s, s', hret, hret', hm'⟩ := hm.free hk hallowed
    exact ⟨s, s', hret.congr fun fuel => BestFit.free_eq fuel _ _, hret', hm'.agree⟩

end Steps

lemma findsBlock_arenaHeap : FindsBlock arenaHeap 100 := by
  have hlaid := (laid_initAllocator arena_contiguous initAllocator_arena).1
  refine ⟨_, hlaid.freeList, arenaHeap.heapStart, by simp, ?_⟩
  rw [hlaid.sizes ⟨arenaHeap.heapStart, HEAP_SIZE, .free⟩ (by simp), paddedSize_eq (by norm_num)]
  norm_num [HEAP_SIZE]

theorem agree_servedRun :
    Agree (⟨Vika4.arenaServed, [4112]⟩, ⟨Savesol.arenaServed, [4112]⟩) ∧ ∃ s s',
      Returns .outOfFuel (fun fuel => (Vika9.allocator arena false).free fuel (some 4112)
        Vika4.arenaServed) (.ok s) ∧
      Returns .outOfFuel (fun fuel => Savesol.myFree fuel (some 4112) Savesol.arenaServed)
        (.ok s') ∧ Agree (⟨s, []⟩, ⟨s', []⟩) := by
  let run : List (Request × Config (Heap Unit) × Config (Heap Unit)) :=
    [(.malloc 100, ⟨Vika4.arenaServed, [4112]⟩, ⟨Savesol.arenaServed, [4112]⟩)]
  have hrun : IsRun (Both (.vika9 false) arena arena) (⟨arenaHeap, []⟩, ⟨arenaHeap, []⟩) run :=
    ⟨⟨BestFit.isRun_arenaRun.1, Savesol.isRun_servedRun.1⟩, trivial⟩
  have hallowed : StepsMeet Allowed (⟨arenaHeap, []⟩, ⟨arenaHeap, []⟩) run :=
    ⟨⟨by norm_num [HEAP_SIZE], findsBlock_arenaHeap⟩, trivial⟩
  have hfirst : Vika4.arenaServed.firstFreeBlock ≠ none := by
    intro h
    cases h
  obtain ⟨hagree, -, hfree⟩ := agree_of_run arena_contiguous arena_contiguous
    initAllocator_arena initAllocator_arena hrun hallowed
  exact ⟨hagree, hfree 16 (by simp [run, Vika4.arenaServed, arenaHeap]) hfirst⟩

end StyLinux.Malloc
