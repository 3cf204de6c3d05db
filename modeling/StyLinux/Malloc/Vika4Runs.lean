import StyLinux.Malloc.Client
import StyLinux.Malloc.Vika4

/-!
# Runs of the best-fit allocator

Every client of the `vika4` allocator keeps the heap laid out as long as no request makes
the padded size wrap around. From this invariant follow the shape of the heap after every
call, the exact condition under which returned memory is really granted, and the exact
condition under which `NULL` is returned soundly.
-/

namespace StyLinux.Malloc

open Lib

variable {S σ : Type} {allocHeap : AllocHeap σ} {h : Heap σ} {ts us vs : List Chunk}
  {live : List ℕ} {n : ℕ}

/-- The allocator is in a good state: the heap is laid out without lost blocks. -/
def Intact (h : Heap σ) (live : List ℕ) : Prop := ∃ ts, Laid h ts live ∧ NoLost ts

/-! ### Lost blocks -/

lemma noLost_append : NoLost (us ++ vs) ↔ NoLost us ∧ NoLost vs := by
  simp [NoLost, or_imp, forall_and]

lemma noLost_cons {t : Chunk} : NoLost (t :: ts) ↔ t.tag ≠ .lost ∧ NoLost ts := by
  simp [NoLost]

lemma noLost_cut (t : Chunk) (n : ℕ) : NoLost (cut t n) := by
  intro s hs
  rcases mem_cut hs with rfl | ⟨-, rfl⟩ <;> simp

lemma NoLost.release {t : Chunk} (hts : NoLost (us ++ t :: vs)) : NoLost (release us t vs) := by
  obtain ⟨hus, hvs⟩ := noLost_append.mp hts
  intro s hs
  rcases mem_release hs with hfree | hs
  · rw [hfree]
    simp
  · exact noLost_append.mpr ⟨hus, (noLost_cons.mp hvs).2⟩ s hs

/-! ### One call -/

lemma Outcome.laid {r : Option ℕ} {h' : Heap σ} (ho : Outcome allocHeap n h ts live r h')
    (hl : Laid h ts live) : ∃ ts', Laid h' ts' (r.toList ++ live) ∧ (NoLost ts → NoLost ts') := by
  cases ho with
  | tooLarge _ => exact ⟨ts, hl, id⟩
  | noMemory os _ _ _ => exact ⟨ts, hl.withOs os, id⟩
  | served us vs t h' _ he _ _ hlaid _ _ _ =>
    subst he
    refine ⟨_, hlaid, ?_⟩
    rw [noLost_append, noLost_append, noLost_append, noLost_cons]
    rintro ⟨hus, -, hvs⟩
    exact ⟨⟨hus, noLost_cut t _⟩, hvs⟩
  | extended p os h' _ _ _ hlaid _ _ _ =>
    exact ⟨_, hlaid, fun hts => noLost_append.mpr ⟨hts, noLost_cut _ _⟩⟩
  | refused p os h' _ _ _ hlaid _ _ _ =>
    exact ⟨_, hlaid, fun hts => noLost_append.mpr ⟨hts, by simp [NoLost, newChunk]⟩⟩

lemma Outcome.intact {r : Option ℕ} {h' : Heap σ} (ho : Outcome allocHeap n h ts live r h')
    (hl : Laid h ts live) (hts : NoLost ts) : Intact h' (r.toList ++ live) := by
  obtain ⟨ts', hlaid, hlost⟩ := ho.laid hl
  exact ⟨ts', hlaid, hlost hts⟩

lemma mem_cut_live (t : Chunk) (n : ℕ) : ⟨t.lo, n, .live⟩ ∈ cut t n := by
  unfold cut
  split <;> simp

lemma Outcome.granted {p : ℕ} {h' : Heap σ} (ho : Outcome allocHeap n h ts live (some p) h')
    (hn : n + 32 ≤ 2 ^ 64) : Granted h' (p :: live) p n := by
  have hle := le_paddedSize hn
  cases ho with
  | served us vs t h' _ _ _ _ hlaid _ _ _ =>
    have hmem : ⟨t.lo, paddedSize n, .live⟩ ∈ us ++ cut t (paddedSize n) ++ vs := by
      simp [mem_cut_live]
    refine hlaid.granted hmem rfl ?_
    simp only [dataOf, Tile.hi, HEADER_SIZE_eq]
    omega
  | extended p os h' _ _ _ hlaid _ _ _ =>
    have hmem : ⟨(newChunk h).lo, paddedSize n + 16, .live⟩ ∈
        ts ++ cut (newChunk h) (paddedSize n + 16) := by
      simp [mem_cut_live]
    refine hlaid.granted hmem rfl ?_
    simp only [dataOf, Tile.hi, HEADER_SIZE_eq]
    omega

namespace Vika4

def allocator (allocHeap : AllocHeap σ) : Allocator (Heap σ) σ where
  heap := id
  setMem h mem := { h with mem }
  malloc := myMalloc allocHeap
  free := myFree

def NoWrap (_ : Config (Heap σ)) : Op → Prop
  | .malloc n => n + 32 ≤ 2 ^ 64
  | _ => True

/-- The requests that are answered as they should be: those that do not wrap around, and
those that find no free block at all and no memory for an extension. -/
def RequestOk (allocHeap : AllocHeap σ) (h : Heap σ) (n : ℕ) : Prop :=
  n + 32 ≤ 2 ^ 64 ∨ h.firstFreeBlock = none ∧
    (allocHeap (some h.heapStart) (wrap64 (h.heapSize + HEAP_SIZE)) h.os).1 = none

/-- Every request of the step is answered as it should be. -/
def Answered (allocHeap : AllocHeap σ) (c : Config (Heap σ)) : Op → Prop
  | .malloc n => RequestOk allocHeap c.state n
  | _ => True

lemma returns_exhausted (hl : Laid h ts live) (hn : paddedSize n ≤ HEAP_SIZE)
    (hfirst : h.firstFreeBlock = none) {os : σ}
    (hA : allocHeap (some h.heapStart) (wrap64 (h.heapSize + HEAP_SIZE)) h.os = (none, os)) :
    Returns .outOfFuel (fun fuel => myMalloc allocHeap fuel n h) (.ok (none, h.withOs os)) := by
  have hnil : freeStarts ts = [] := by
    have hhead := hl.chain.get_eq_head?
    rw [← Heap.firstFreeBlock_eq_read, hfirst] at hhead
    exact List.head?_eq_none_iff.mp hhead.symm
  obtain ⟨selected, hsearch, hpicks⟩ := returns_bestFit (paddedSize n) hl.chain
  cases selected with
  | none => exact returns_noMemory hn hsearch hA
  | some selected =>
    obtain ⟨before, after, hxs, -⟩ := hpicks.selects
    rw [hnil] at hxs
    exact absurd hxs (by simp)

lemma returns_myFree (hl : Laid h ts live) {p : ℕ} (hp : p ∈ live) :
    ∃ us t vs h', ts = us ++ t :: vs ∧ t.tag = .live ∧ p = dataOf t.lo ∧
      Returns .outOfFuel (fun fuel => myFree fuel (some p) h) (.ok h') ∧
      Laid h' (release us t vs) (live.erase p) ∧
      h'.heapStart = h.heapStart ∧ h'.heapSize = h.heapSize ∧ h'.os = h.os := by
  obtain ⟨t, ht, htag, rfl⟩ := hl.mem_live.mp hp
  obtain ⟨us, vs, rfl⟩ := List.append_of_mem ht
  obtain ⟨h', hret, hlaid, hframe⟩ := hl.freeBlock htag
  exact ⟨us, t, vs, h', rfl, htag, rfl, hret.map Prod.snd, hlaid, hframe⟩

lemma Step.intact (hcont : Contiguous allocHeap) {c c' : Config (Heap σ)} {op : Op}
    (hc : Intact c.state c.live) (hop : Answered allocHeap c op)
    (hstep : Step (allocator allocHeap) c op c') : Intact c'.state c'.live := by
  obtain ⟨ts, hl, hts⟩ := hc
  cases hstep with
  | malloc n r s hn hcall =>
    obtain ⟨fuel, hcall⟩ := hcall
    rcases hop with hwrap | ⟨hfirst, hnone⟩
    · obtain ⟨r', h', hret, ho⟩ := myMalloc_outcome hl hcont hwrap
      obtain ⟨rfl, rfl⟩ := Prod.mk.inj (Except.ok.inj (hret.eq_of_ok hcall))
      exact ho.intact hl hts
    · by_cases hwrap : n + 32 ≤ 2 ^ 64
      · obtain ⟨r', h', hret, ho⟩ := myMalloc_outcome hl hcont hwrap
        obtain ⟨rfl, rfl⟩ := Prod.mk.inj (Except.ok.inj (hret.eq_of_ok hcall))
        exact ho.intact hl hts
      · cases hA : allocHeap (some c.state.heapStart) (wrap64 (c.state.heapSize + HEAP_SIZE))
            c.state.os with
        | mk p os =>
          rw [hA] at hnone
          obtain rfl : p = none := hnone
          have hsmall : paddedSize n ≤ HEAP_SIZE := by
            have := paddedSize_of_wrap (not_le.mp hwrap) hn
            rw [HEAP_SIZE_eq]
            omega
          have hret := returns_exhausted hl hsmall hfirst hA
          obtain ⟨rfl, rfl⟩ := Prod.mk.inj (Except.ok.inj (hret.eq_of_ok hcall))
          exact ⟨ts, hl.withOs os, hts⟩
  | freeNull s hcall =>
    obtain ⟨fuel, hcall⟩ := hcall
    obtain rfl := Except.ok.inj hcall
    exact ⟨ts, hl, hts⟩
  | free p s hp hcall =>
    obtain ⟨fuel, hcall⟩ := hcall
    obtain ⟨us, t, vs, h', rfl, -, rfl, hret, hlaid, -⟩ := returns_myFree hl hp
    obtain rfl := Except.ok.inj (hret.eq_of_ok hcall)
    exact ⟨_, hlaid, hts.release⟩
  | write mem hw => exact ⟨ts, hl.writesData hw, hts⟩

def initial (h : Heap σ) : Config (Heap σ) := ⟨h, []⟩

lemma intact_of_run (hcont : Contiguous allocHeap) {mem : ℕ → Block} {os : σ}
    (hinit : initAllocator allocHeap mem os = .ok h) {run : List (Op × Config (Heap σ))}
    (hrun : IsRun (Step (allocator allocHeap)) (initial h) run)
    (hreq : StepsMeet (Answered allocHeap) (initial h) run) :
    Intact (lastState (initial h) run).state (lastState (initial h) run).live := by
  have hstep : ∀ c op c', Intact c.state c.live → Answered allocHeap c op →
      Step (allocator allocHeap) c op c' → Intact c'.state c'.live := by
    intro c op c' hc hop hstep
    exact Step.intact hcont hc hop hstep
  have hstart : Intact (initial h).state (initial h).live :=
    ⟨_, (laid_initAllocator hcont hinit).1, by simp [NoLost]⟩
  exact IsRun.invariant_last hstep hstart hrun hreq

lemma noWrap_answered {c : Config (Heap σ)} {op : Op} (hop : NoWrap c op) :
    Answered allocHeap c op := by
  cases op with
  | malloc n => exact .inl hop
  | free _ => trivial
  | write => trivial

/-- After every call of a run whose requests do not wrap around, the walk by size and the
free list are well formed, the blocks are split between the free list and the live
pointers, and every further call returns. -/
theorem heapOk_of_run (hcont : Contiguous allocHeap) {mem : ℕ → Block} {os : σ}
    (hinit : initAllocator allocHeap mem os = .ok h) {run : List (Op × Config (Heap σ))}
    (hrun : IsRun (Step (allocator allocHeap)) (initial h) run)
    (hreq : StepsMeet NoWrap (initial h) run) :
    HeapOk (lastState (initial h) run).state (lastState (initial h) run).live ∧
    (∀ n, n + 32 ≤ 2 ^ 64 → ∃ r, Returns .outOfFuel
      (fun fuel => myMalloc allocHeap fuel n (lastState (initial h) run).state) (.ok r)) ∧
    ∀ address, (∀ p ∈ address, p ∈ (lastState (initial h) run).live) → ∃ s, Returns .outOfFuel
      (fun fuel => myFree fuel address (lastState (initial h) run).state) (.ok s) := by
  have hans : StepsMeet (Answered allocHeap) (initial h) run := by
    refine StepsMeet.imp ?_ hreq
    intro c op hop
    exact noWrap_answered hop
  obtain ⟨ts, hl, hts⟩ := intact_of_run hcont hinit hrun hans
  refine ⟨hl.heapOk hts, ?_, ?_⟩
  · intro n hn
    obtain ⟨r, h', hret, -⟩ := myMalloc_outcome hl hcont hn
    exact ⟨(r, h'), hret⟩
  · intro address haddress
    cases address with
    | none => exact ⟨_, Returns.const _⟩
    | some p =>
      obtain ⟨us, t, vs, h', -, -, -, hret, -⟩ := returns_myFree hl (haddress p rfl)
      exact ⟨h', hret⟩

def arenaServed : Heap Unit := (allocateBlock arenaHeap .first 4096 128).2

def arenaFreed : Heap Unit :=
  mergeNext (insertFree arenaServed 4096 none (some 4224)) 4096 (some 4224)

def arenaRun : List (Op × Config (Heap Unit)) :=
  [(.malloc 100, ⟨arenaServed, [4112]⟩), (.free (some 4112), ⟨arenaFreed, []⟩)]

lemma isRun_arenaRun : IsRun (Step (allocator arena)) (initial arenaHeap) arenaRun := by
  refine ⟨.malloc _ 100 (some 4112) arenaServed (by norm_num) ⟨3, rfl⟩, ?_, trivial⟩
  exact .free ⟨arenaServed, [4112]⟩ 4112 arenaFreed (by simp) ⟨3, rfl⟩

theorem heapOk_arenaRun : HeapOk arenaFreed [] :=
  (heapOk_of_run arena_contiguous initAllocator_arena isRun_arenaRun
    ⟨by norm_num [NoWrap], trivial, trivial⟩).1

/-- A request that wraps around cannot be granted: the bytes it asks for reach past every
heap. -/
lemma not_granted_of_wrap {h' : Heap σ} {p : ℕ} {live' : List ℕ} (hroom : h'.heapSize < 2 ^ 64)
    (hdvd : 16 ∣ h'.heapSize) (hp : h'.heapStart + HEADER_SIZE ≤ p) (hn : 2 ^ 64 < n + 32) :
    ¬Granted h' live' p n := by
  rintro ⟨-, hle, -⟩
  rw [HEADER_SIZE_eq] at hp
  omega

lemma selected_of_wrap (hl : Laid h ts live) (hle : paddedSize n ≤ HEAP_SIZE) {block : ℕ}
    {link : Link} (hsearch : Returns .outOfFuel (fun fuel => bestFit h (paddedSize n) fuel)
      (.ok (some (block, link))))
    (hsel : Selects h (paddedSize n) (freeStarts ts) (some (block, link))) :
    ∃ p h', Returns .outOfFuel (fun fuel => myMalloc allocHeap fuel n h) (.ok (some p, h')) ∧
      h'.heapSize < 2 ^ 64 ∧ 16 ∣ h'.heapSize ∧ h'.heapStart + HEADER_SIZE ≤ p := by
  have hroom := hl.room
  obtain ⟨us, t, vs, rfl, -, rfl, -, rfl⟩ := hl.selects_some hsel
  have hlt := hl.toLayout.lt_room (t := t) (by simp)
  have hhead := hl.toLayout.header_le (t := t) (by simp)
  have hlo := (hl.toLayout.bounds (t := t) (by simp)).1
  have hp : wrap64 (t.lo + HEADER_SIZE) = t.lo + HEADER_SIZE := wrap64_of_lt (by omega)
  refine ⟨_, _, returns_selected hle hsearch, ?_, ?_, ?_⟩
  · rw [heapSize_allocateBlock]
    omega
  · simpa using hl.toLayout.dvd_heapSize
  · rw [heapStart_allocateBlock]
    simp only [allocateBlock, hp]
    omega

/-- Every block has room for its header, so that a padded size of 16 bytes or less is refused by
the search only if the free list is empty. -/
lemma firstFreeBlock_of_wrap (hl : Laid h ts live) (hsmall : paddedSize n ≤ 16)
    (hnone : ∀ t ∈ ts, t.tag = .free → t.len < paddedSize n) : h.firstFreeBlock = none := by
  have hhead := hl.chain.get_eq_head?
  rw [← Heap.firstFreeBlock_eq_read] at hhead
  rw [hhead, List.head?_eq_none_iff, List.eq_nil_iff_forall_not_mem]
  intro a ha
  obtain ⟨t, ht, hfree, -⟩ := mem_freeStarts.mp ha
  have h₁ := hnone t ht hfree
  have h₂ := hl.toLayout.header_le ht
  rw [HEADER_SIZE_eq] at h₂
  omega

lemma extended_of_wrap (hl : Laid h ts live) (hcont : Contiguous allocHeap)
    (hsmall : paddedSize n ≤ 16) {p : ℕ} {os : σ}
    (hsearch : Returns .outOfFuel (fun fuel => bestFit h (paddedSize n) fuel) (.ok none))
    (hA : allocHeap (some h.heapStart) (wrap64 (h.heapSize + HEAP_SIZE)) h.os = (some p, os)) :
    ∃ p h', Returns .outOfFuel (fun fuel => myMalloc allocHeap fuel n h) (.ok (some p, h')) ∧
      h'.heapSize < 2 ^ 64 ∧ 16 ∣ h'.heapSize ∧ h'.heapStart + HEADER_SIZE ≤ p := by
  have hle : paddedSize n ≤ HEAP_SIZE := by
    rw [HEAP_SIZE_eq]
    omega
  obtain ⟨h₁, hext, hlaid, hstart, hsize, -⟩ := hl.extendHeap hcont hA
  have hagain := paddedSize_paddedSize hle
  have hbig : ¬NoFit (paddedSize n) (ts ++ [newChunk h]) :=
    not_noFit_newChunk (by rw [HEAP_SIZE_eq]; omega)
  have hle' : paddedSize (paddedSize n) ≤ HEAP_SIZE := by
    rw [hagain, HEAP_SIZE_eq]
    omega
  obtain ⟨us, t, vs, h', hts, -, -, hret, hlaid', hstart', hsize', -⟩ :=
    returns_served allocHeap hlaid hle' (by omega) hbig
  have hroom := hlaid'.room
  have ht : ⟨t.lo, paddedSize (paddedSize n), .live⟩ ∈
      us ++ cut t (paddedSize (paddedSize n)) ++ vs := by
    simp [mem_cut_live]
  have hlo : h'.heapStart ≤ t.lo := (hlaid'.toLayout.bounds ht).1
  refine ⟨dataOf t.lo, h', returns_extended hle hsearch hext hret, by omega,
    hlaid'.toLayout.dvd_heapSize, ?_⟩
  simp only [dataOf]
  omega

/-- A request that wraps around is answered with some pointer unless there is no memory at all. -/
lemma exists_of_wrap (hl : Laid h ts live) (hcont : Contiguous allocHeap) (hn : n < 2 ^ 64)
    (hwrap : 2 ^ 64 < n + 32) (hmem : ¬(h.firstFreeBlock = none ∧
      (allocHeap (some h.heapStart) (wrap64 (h.heapSize + HEAP_SIZE)) h.os).1 = none)) :
    ∃ p h', Returns .outOfFuel (fun fuel => myMalloc allocHeap fuel n h) (.ok (some p, h')) ∧
      h'.heapSize < 2 ^ 64 ∧ 16 ∣ h'.heapSize ∧ h'.heapStart + HEADER_SIZE ≤ p := by
  have hsmall := paddedSize_of_wrap hwrap hn
  have hle : paddedSize n ≤ HEAP_SIZE := by
    rw [HEAP_SIZE_eq]
    omega
  obtain ⟨selected, hsearch, hpicks⟩ := returns_bestFit (paddedSize n) hl.chain
  cases selected with
  | some selected => exact selected_of_wrap hl hle hsearch hpicks.selects
  | none =>
    have hnil := firstFreeBlock_of_wrap hl hsmall (hl.selects_none hpicks.selects)
    cases hA : allocHeap (some h.heapStart) (wrap64 (h.heapSize + HEAP_SIZE)) h.os with
    | mk p os =>
      cases p with
      | none => exact absurd ⟨hnil, by rw [hA]⟩ hmem
      | some p => exact extended_of_wrap hl hcont hsmall hsearch hA

/-- After a run whose requests were all answered, the memory that a request returns is
granted exactly when the request does not wrap around or cannot be served at all. -/
theorem granted_iff_requestOk (hcont : Contiguous allocHeap) {mem : ℕ → Block} {os : σ}
    (hinit : initAllocator allocHeap mem os = .ok h) {run : List (Op × Config (Heap σ))}
    (hrun : IsRun (Step (allocator allocHeap)) (initial h) run)
    (hreq : StepsMeet (Answered allocHeap) (initial h) run) (hn : n < 2 ^ 64) :
    (∀ p s, (∃ fuel, myMalloc allocHeap fuel n (lastState (initial h) run).state =
        .ok (some p, s)) → Granted s (p :: (lastState (initial h) run).live) p n) ↔
      RequestOk allocHeap (lastState (initial h) run).state n := by
  obtain ⟨ts, hl, hts⟩ := intact_of_run hcont hinit hrun hreq
  constructor
  · intro hgranted
    by_contra hbad
    rw [RequestOk, not_or, not_le] at hbad
    obtain ⟨hwrap, hmem⟩ := hbad
    obtain ⟨p, h', hret, hroom, hdvd, hp⟩ := exists_of_wrap hl hcont hn hwrap hmem
    exact not_granted_of_wrap hroom hdvd hp hwrap (hgranted p h' hret.exists_eq)
  · rintro (hwrap | ⟨hfirst, hnone⟩) p s ⟨fuel, hcall⟩
    · obtain ⟨r', h', hret, ho⟩ := myMalloc_outcome hl hcont hwrap
      obtain ⟨rfl, rfl⟩ := Prod.mk.inj (Except.ok.inj (hret.eq_of_ok hcall))
      exact ho.granted hwrap
    · cases hA : allocHeap (some (lastState (initial h) run).state.heapStart)
          (wrap64 ((lastState (initial h) run).state.heapSize + HEAP_SIZE))
          (lastState (initial h) run).state.os with
      | mk q os =>
        rw [hA] at hnone
        obtain rfl : q = none := hnone
        by_cases hle : paddedSize n ≤ HEAP_SIZE
        · have hret := returns_exhausted hl hle hfirst hA
          exact absurd (hret.eq_of_ok hcall) (by simp)
        · have hret : Returns .outOfFuel (fun fuel => myMalloc allocHeap fuel n
              (lastState (initial h) run).state) _ := returns_tooLarge (not_le.mp hle)
          exact absurd (hret.eq_of_ok hcall) (by simp)

theorem granted_arenaRun :
    (∀ p s, (∃ fuel, myMalloc arena fuel 200 arenaFreed = .ok (some p, s)) →
      Granted s [p] p 200) ↔ RequestOk arena arenaFreed 200 :=
  granted_iff_requestOk arena_contiguous initAllocator_arena isRun_arenaRun
    ⟨.inl (by norm_num), trivial, trivial⟩ (by norm_num)

/-- Right after `initAllocator` a request that wraps around is answered with the address of
a block without data. -/
theorem not_granted_arena :
    initAllocator arena (fun _ => ⟨0, none⟩) () = .ok arenaHeap ∧ ∃ p s,
      (∃ fuel, myMalloc arena fuel (2 ^ 64 - 16) arenaHeap = .ok (some p, s)) ∧
        ¬Granted s [p] p (2 ^ 64 - 16) := by
  refine ⟨initAllocator_arena, 4112, (allocateBlock arenaHeap .first 4096 0).2, ⟨3, rfl⟩, ?_⟩
  rintro ⟨-, hend, -⟩
  rw [heapStart_allocateBlock, heapSize_allocateBlock] at hend
  exact absurd hend (by decide)

end Vika4

end StyLinux.Malloc
