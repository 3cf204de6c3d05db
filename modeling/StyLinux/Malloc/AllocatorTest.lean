import Mathlib.Data.List.ReduceOption
import StyLinux.Lib.MutexProgress
import StyLinux.Malloc.Canonical
import StyLinux.Malloc.Vika9Threads

/-!
# Blocks that parallel loops allocate and free

`allocator_test` of `vika9/test-malloc.c`: after `initAllocator` the iterations of a first parallel
loop call `my_malloc`, and those of a second one call `my_free` with the pointers that the first
one has stored. The iterations of a loop are distributed to the threads of a team in some way, and
the loop ends when all of them have.
-/

namespace StyLinux.Malloc

open Lib
open scoped List

variable {σ : Type} {alloc : AllocHeap σ} {h h' : Heap σ} {ts : List Chunk} {live : List ℕ} {n : ℕ}

/-! ### What a request does to a heap without lost blocks -/

/-- There is a free block for requests that need `m` bytes together. -/
def Room (ts : List Chunk) (m : ℕ) : Prop := m = 0 ∨ ∃ t ∈ ts, t.tag = .free ∧ m ≤ t.len

/-- The blocks `ts'` are those of `ts` behind a request of `n` bytes with the result `r`. -/
structure Serves (n : ℕ) (r : Option ℕ) (h h' : Heap σ) (ts ts' : List Chunk) : Prop where
  noLost : NoLost ts'
  coalesced : Coalesced ts'
  live : ∀ t ∈ ts, t.tag = .live → t ∈ ts'
  block : ∀ p, r = some p → ∃ t ∈ ts', t.tag = .live ∧ dataOf t.lo = p ∧ paddedSize n ≤ t.len
  room : ∀ m, paddedSize n ≤ HEAP_SIZE → 0 < paddedSize n → Room ts (paddedSize n + m) →
    Room ts' m ∧ r ≠ none ∧ h'.heapSize = h.heapSize

lemma Room.not_noFit {m : ℕ} (hroom : Room ts (paddedSize n + m)) (hpos : 0 < paddedSize n) :
    ¬NoFit n ts := by
  intro hfit
  rcases hroom with h | ⟨t, ht, hfree, hle⟩
  · omega
  · have hlt := hfit t ht hfree
    omega

lemma Room.cut {us vs : List Chunk} {t : Chunk} {k m : ℕ} (hroom : Room (us ++ t :: vs) (k + m)) :
    Room (us ++ cut t k ++ vs) m := by
  rcases hroom with hzero | ⟨s, hs, hfree, hle⟩
  · exact .inl (by omega)
  by_cases hst : s = t
  · subst hst
    by_cases hlen : s.len = k
    · exact .inl (by omega)
    · refine .inr ⟨⟨s.lo + k, s.len - k, .free⟩, ?_, rfl, Nat.le_sub_of_add_le' hle⟩
      simp [Malloc.cut, hlen]
  · refine .inr ⟨s, ?_, hfree, (Nat.le_add_left m k).trans hle⟩
    simp only [List.mem_append, List.mem_cons, hst, false_or] at hs ⊢
    tauto

lemma Outcome.serves {r : Option ℕ} (ho : Outcome alloc n h ts live r h') (hl : Laid h ts live)
    (hlost : NoLost ts) (hts : Coalesced ts) (hne : paddedSize n ≠ HEAP_SIZE) :
    ∃ ts', Laid h' ts' (r.toList ++ live) ∧ Serves n r h h' ts ts' := by
  cases ho with
  | tooLarge hlarge =>
    refine ⟨ts, hl, hlost, hts, fun t ht _ => ht, by simp, ?_⟩
    exact fun m hle => absurd hlarge (not_lt.mpr hle)
  | noMemory os _ hfit _ =>
    refine ⟨ts, hl.withOs os, hlost, hts, fun t ht _ => ht, by simp, ?_⟩
    exact fun m _ hpos hroom => absurd hfit (hroom.not_noFit hpos)
  | served us vs t h' _ he htag hle hlaid _ hsize _ =>
    subst he
    obtain ⟨hus, hvs⟩ := noLost_append.mp hlost
    refine ⟨_, hlaid, ?_, hts.cut htag _, ?_, ?_, ?_⟩
    · exact noLost_append.mpr ⟨noLost_append.mpr ⟨hus, noLost_cut t _⟩, (noLost_cons.mp hvs).2⟩
    · intro s hs hlive
      have hst : s ≠ t := by
        rintro rfl
        cases hlive.symm.trans htag
      simp only [List.mem_append, List.mem_cons, hst, false_or] at hs ⊢
      tauto
    · rintro p ⟨⟩
      exact ⟨⟨t.lo, paddedSize n, .live⟩, by simp [mem_cut_live], rfl, rfl, le_rfl⟩
    · exact fun m _ _ hroom => ⟨hroom.cut, by simp, hsize⟩
  | extended p os h' hle hfit _ hlaid _ hsize _ =>
    refine ⟨_, hlaid, noLost_append.mpr ⟨hlost, noLost_cut _ _⟩, hts.extend _ _, ?_, ?_, ?_⟩
    · exact fun t ht _ => List.mem_append_left _ ht
    · rintro p ⟨⟩
      exact ⟨⟨(newChunk h).lo, paddedSize n + 16, .live⟩, by simp [mem_cut_live], rfl, rfl,
        Nat.le_add_right _ _⟩
    · exact fun m _ hpos hroom => absurd hfit (hroom.not_noFit hpos)
  | refused p os h' heq => exact absurd heq hne

lemma Laid.of_perm {live' : List ℕ} (hl : Laid h ts live) (hperm : live ~ live') :
    Laid h ts live' :=
  ⟨{ hl.toLayout with live_perm := hperm.symm.trans hl.live_perm }, hl.chain⟩

namespace Vika9

open Lib.Prog

variable {debug : Bool}

/-! ### One call after another -/

/-- The pointers that the calls have returned. -/
def pointers (results : List (ℕ × (Call × ℕ) × Option ℕ)) : List ℕ :=
  results.filterMap fun x => x.2.2

@[simp] lemma pointers_cons (x : ℕ × (Call × ℕ) × Option ℕ)
    (results : List (ℕ × (Call × ℕ) × Option ℕ)) :
    pointers (x :: results) = x.2.2.toList ++ pointers results := by
  cases hx : x.2.2 <;> simp [pointers, hx]

/-- The bytes that the requests take, with the headers. -/
def needs (requests : List ℕ) : ℕ := (requests.map paddedSize).sum

/-- Sizes that can be padded, and are not padded to exactly the size of an extension, which
`my_malloc` makes and then refuses to use. -/
def Usual (n : ℕ) : Prop := n + 32 ≤ 2 ^ 64 ∧ paddedSize n ≠ HEAP_SIZE

instance Usual.decidable (n : ℕ) : Decidable (Usual n) :=
  inferInstanceAs (Decidable (n + 32 ≤ 2 ^ 64 ∧ paddedSize n ≠ HEAP_SIZE))

/-- Requests one after another. -/
lemma requests_of_serial (hcont : Contiguous alloc) {requests : List ℕ}
    (hrequests : ∀ n ∈ requests, Usual n) {results : List (ℕ × (Call × ℕ) × Option ℕ)}
    (hcalls : results.map (fun x => x.2.1.1) = requests.map .malloc)
    (hserial : Serial alloc debug h results h') (hl : Laid h ts live) (hlost : NoLost ts)
    (hts : Coalesced ts) :
    ∃ ts', Laid h' ts' (pointers results ++ live) ∧ NoLost ts' ∧ Coalesced ts' ∧
      (∀ t ∈ ts, t.tag = .live → t ∈ ts') ∧
      (∀ x ∈ results, ∀ n p, x.2.1.1 = .malloc n → x.2.2 = some p →
        ∃ t ∈ ts', t.tag = .live ∧ dataOf t.lo = p ∧ p + n ≤ t.hi) ∧
      (∀ m, needs requests ≤ HEAP_SIZE → Room ts (needs requests + m) →
        Room ts' m ∧ (∀ x ∈ results, x.2.2 ≠ none) ∧ h'.heapSize = h.heapSize) := by
  induction requests generalizing results h ts live with
  | nil =>
    obtain rfl := List.map_eq_nil_iff.mp hcalls
    cases hserial
    exact ⟨ts, hl, hlost, hts, fun t ht _ => ht, by simp, by simp [needs]⟩
  | cons n requests ih =>
    obtain ⟨x, results, rfl, hx, htail⟩ := List.map_eq_cons_iff.mp hcalls
    obtain ⟨i, ⟨c, fuel⟩, r⟩ := x
    obtain rfl : c = .malloc n := hx
    obtain ⟨h₁, halone, hserial⟩ := hserial
    obtain ⟨⟨hn, hne⟩, hrequests⟩ := List.forall_mem_cons.mp hrequests
    obtain ⟨r', h₂, hret, ho⟩ := Vika4.myMalloc_outcome hl hcont hn
    cases hret.eq_of_ok (myMalloc_of_alone halone)
    obtain ⟨ts₁, hl₁, hserves⟩ := ho.serves hl hlost hts hne
    obtain ⟨ts', hl', hlost', hts', hlive, hblocks, hroom⟩ :=
      ih hrequests htail hserial hl₁ hserves.noLost hserves.coalesced
    refine ⟨ts', hl'.of_perm ?_, hlost', hts', ?_, ?_, ?_⟩
    · rw [pointers_cons, List.append_assoc]
      exact List.perm_append_comm_assoc _ _ _
    · exact fun t ht htag => hlive t (hserves.live t ht htag) htag
    · rw [List.forall_mem_cons]
      refine ⟨?_, hblocks⟩
      rintro n' p ⟨⟩ hp
      obtain ⟨t, ht, htag, rfl, hlen⟩ := hserves.block p hp
      refine ⟨t, hlive t ht htag, htag, rfl, ?_⟩
      have hle := le_paddedSize hn
      simp only [dataOf, Tile.hi, HEADER_SIZE_eq]
      omega
    · intro m hneeds hfree
      rw [needs, List.map_cons, List.sum_cons, ← needs] at hneeds hfree
      rw [add_assoc] at hfree
      obtain ⟨hleft, hr, hsize⟩ := hserves.room _ (by omega) (paddedSize_pos hn) hfree
      obtain ⟨hleft, hresults, hsize'⟩ := hroom m (by omega) hleft
      exact ⟨hleft, List.forall_mem_cons.mpr ⟨hr, hresults⟩, hsize'.trans hsize⟩

/-- The live pointers are freed one after another. -/
lemma frees_of_serial {addresses : List (Option ℕ)} (hlive : addresses.reduceOption ~ live)
    {results : List (ℕ × (Call × ℕ) × Option ℕ)}
    (hcalls : results.map (fun x => x.2.1.1) = addresses.map .free)
    (hserial : Serial alloc debug h results h') (hl : Laid h ts live) (hlost : NoLost ts)
    (hts : Coalesced ts) :
    ∃ ts', Laid h' ts' [] ∧ NoLost ts' ∧ Coalesced ts' ∧ h'.heapSize = h.heapSize := by
  induction addresses generalizing results h ts live with
  | nil =>
    obtain rfl := List.map_eq_nil_iff.mp hcalls
    obtain rfl := List.nil_perm.mp hlive
    cases hserial
    exact ⟨ts, hl, hlost, hts, rfl⟩
  | cons address addresses ih =>
    obtain ⟨x, results, rfl, hx, htail⟩ := List.map_eq_cons_iff.mp hcalls
    obtain ⟨i, ⟨c, fuel⟩, r⟩ := x
    obtain rfl : c = .free address := hx
    obtain ⟨h₁, halone, hserial⟩ := hserial
    simp only [code, alone_bind, alone_myFree, bind_assoc] at halone
    obtain ⟨h₂, hfree, halone⟩ := bind_eq_ok.mp halone
    cases halone
    cases address with
    | none =>
      cases hfree
      exact ih hlive htail hserial hl hlost hts
    | some p =>
      rw [List.reduceOption_cons_of_some] at hlive
      obtain ⟨hp, hlive⟩ := List.cons_perm_iff_perm_erase.mp hlive
      obtain ⟨ts₁, h₃, hret, hl₁, hlost₁, hts₁, -, -, hsize⟩ :=
        Vika4.returns_myFree_tidy hl hlost hts hp
      cases hret.eq_of_ok hfree
      obtain ⟨ts', hl', hlost', hts', hsize'⟩ := ih hlive htail hserial hl₁ hlost₁ hts₁
      exact ⟨ts', hl', hlost', hts', hsize'.trans hsize⟩

/-! ### All orders of the calls -/

def Call.freed : Call → Option ℕ
  | .free address => address
  | _ => none

/-- Calls that can be made in any order: requests whose sizes can be padded, dumps, and the freeing
of live pointers, each of them once. -/
structure Batch (live : List ℕ) (cs : List Call) : Prop where
  requests : ∀ n, .malloc n ∈ cs → n + 32 ≤ 2 ^ 64
  frees : cs.filterMap Call.freed <+~ live

variable {cs : List Call} {c : Call}

lemma Batch.proper (hb : Batch live cs) (hc : c ∈ cs) : Proper live c := by
  cases c with
  | malloc n => exact hb.requests n hc
  | free address =>
    rintro p rfl
    exact hb.frees.subset (List.mem_filterMap.mpr ⟨_, hc, rfl⟩)
  | dump => trivial

lemma Batch.erase (hb : Batch live cs) (hc : c ∈ cs) (p : Option ℕ) :
    Batch (liveAfter live c p) (cs.erase c) := by
  refine ⟨fun n hn => hb.requests n (List.mem_of_mem_erase hn), ?_⟩
  have hperm := (List.perm_cons_erase hc).filterMap Call.freed
  have hfrees := hperm.symm.subperm.trans hb.frees
  cases c with
  | malloc n => exact hfrees.trans (List.sublist_append_right _ _).subperm
  | free address =>
    cases address with
    | none => exact hfrees
    | some q =>
      have hq : Call.freed (.free (some q)) = some q := rfl
      have herase := hfrees.erase q
      rwa [List.filterMap_cons_some hq, List.erase_cons_head] at herase
  | dump => exact hfrees

/-- One bound on the iterations of their loops is enough for the calls of a batch. -/
lemma Batch.exists_allReturn (hcont : Contiguous alloc) (debug : Bool) (hl : Laid h ts live)
    (hb : Batch live cs) : ∃ k, ∀ fuel, k ≤ fuel →
      Threads.AllReturn (code debug) (Access.exec alloc) h (cs.map fun c => (c, fuel)) := by
  refine Threads.exists_allReturn (J := fun h cs => ∃ ts live, Laid h ts live ∧ Batch live cs) ?_
    ⟨ts, live, hl, hb⟩
  rintro h cs c ⟨ts, live, hl, hb⟩ hc
  obtain ⟨p, h', k, hk⟩ := returns_of_laid debug hcont hl (hb.proper hc)
  obtain ⟨ts', hl'⟩ := laid_of_call hcont hl (hb.proper hc) (hk k le_rfl)
  exact ⟨p, h', ⟨ts', _, hl', hb.erase hc p⟩, k, hk⟩

/-! ### Parallel loops -/

variable {ι : Type} [DecidableEq ι]

/-- The threads begin the iterations `cs` of a parallel loop, each of them once at most. -/
structure ParallelFor (alloc : AllocHeap σ) (debug : Bool) (h : Heap σ) (cs : List Call)
    (fuel : ℕ) (run : List (ThreadStep ι (Call × ℕ) × Threads ι σ)) : Prop where
  isRun : IsRun (Step alloc debug) (Threads.init h) run
  iterations : Threads.starts run <+~ cs.map fun c => (c, fuel)

/-- The loop has ended. -/
def Ended (h : Heap σ) (cs : List Call) (fuel : ℕ)
    (run : List (ThreadStep ι (Call × ℕ) × Threads ι σ)) : Prop :=
  (Threads.starts run ~ cs.map fun c => (c, fuel)) ∧
    ∀ t, (lastState (Threads.init h) run).running t = none

variable {run : List (ThreadStep ι (Call × ℕ) × Threads ι σ)} {fuel : ℕ}

/-- No iteration of a loop is stuck. -/
lemma Batch.lively [Finite ι] (hcont : Contiguous alloc) (debug : Bool) (hl : Laid h ts live)
    (hb : Batch live cs) : ∃ k, ∀ fuel, k ≤ fuel →
      ∀ run : List (ThreadStep ι (Call × ℕ) × Threads ι σ), ParallelFor alloc debug h cs fuel run →
      Threads.Lively (code debug) (Access.exec alloc) (lastState (Threads.init h) run) := by
  obtain ⟨k, hk⟩ := hb.exists_allReturn hcont debug hl
  refine ⟨k, fun fuel hfuel run hrun => ?_⟩
  have hreturn := (hk fuel hfuel).subperm hrun.iterations
  exact Threads.lively_of_run (outer_code debug) hrun.isRun hreturn

/-- A loop that has ended has made its calls in some order. -/
lemma Ended.serial {β : Type} {f : β → Call} {xs : List β} (hended : Ended h (xs.map f) fuel run)
    (hrun : ParallelFor alloc debug h (xs.map f) fuel run) :
    ∃ xs' results, xs' ~ xs ∧ results.map (fun x => x.2.1.1) = xs'.map f ∧
      results ~ (lastState (Threads.init h) run).returned ∧
      Serial alloc debug h results (lastState (Threads.init h) run).shared := by
  obtain ⟨results, hserial, hreturned, hcalls⟩ :=
    Threads.serial_of_rest (outer_code debug) hrun.isRun hended.2
  have hperm : results.map (fun x => x.2.1.1) ~ xs.map f := by
    simpa [Function.comp_def] using (hcalls.trans hended.1).map Prod.fst
  rw [← congrFun₂ (List.eq_map_comp_perm f)] at hperm
  obtain ⟨xs', hxs', hperm⟩ := hperm
  exact ⟨xs', results, hperm, hxs', hreturned, hserial⟩

/-! ### `allocator_test` -/

/-- The sizes that `allocator_test` requests. -/
def testRequests : List ℕ := (List.range 100).map fun i => 22 + (100 - i) * 3

lemma usual_testRequests : ∀ n ∈ testRequests, Usual n := by decide +kernel

example : needs testRequests ≤ HEAP_SIZE := by decide +kernel

/-- The first loop has stored pointers to separate memory areas of the requested sizes; if there
is memory for all requests, none of them is `NULL` and the heap has not been extended. -/
structure Allocated (requests : List ℕ) (s : Threads ι σ) : Prop where
  granted : ∀ x ∈ s.returned, ∀ n p, x.2.1.1 = .malloc n → x.2.2 = some p →
    Granted s.shared (pointers s.returned) p n
  all : needs requests ≤ HEAP_SIZE →
    (∀ x ∈ s.returned, x.2.2 ≠ none) ∧ s.shared.heapSize = HEAP_SIZE

/-- The free list is one block, the whole heap. -/
def AllFree (h : Heap σ) : Prop := FreeList h [h.heapStart] ∧ h.size h.heapStart = h.heapSize

lemma Ended.allocated (hcont : Contiguous alloc) {requests : List ℕ}
    (hended : Ended h (requests.map .malloc) fuel run)
    (hrun : ParallelFor alloc debug h (requests.map .malloc) fuel run)
    (hrequests : ∀ n ∈ requests, Usual n) (hl : Laid h [⟨h.heapStart, HEAP_SIZE, .free⟩] [])
    (hsize : h.heapSize = HEAP_SIZE) :
    Allocated requests (lastState (Threads.init h) run) ∧
      ∃ ts, Laid (lastState (Threads.init h) run).shared ts
        (pointers (lastState (Threads.init h) run).returned) ∧ NoLost ts ∧ Coalesced ts := by
  obtain ⟨requests', results, hperm, hcalls, hreturned, hserial⟩ := hended.serial hrun
  generalize lastState (Threads.init h) run = s at *
  obtain ⟨ts, hl', hlost, hts, -, hblocks, hroom⟩ := requests_of_serial hcont
    (fun n hn => hrequests n (hperm.subset hn)) hcalls hserial hl (by simp [NoLost])
    (.singleton _)
  rw [List.append_nil] at hl'
  have hpointers : pointers results ~ pointers s.returned := hreturned.filterMap _
  have hlaid := hl'.of_perm hpointers
  refine ⟨⟨?_, ?_⟩, ts, hlaid, hlost, hts⟩
  · intro x hx n p hn hp
    obtain ⟨t, ht, htag, rfl, hle⟩ := hblocks x (hreturned.symm.subset hx) n p hn hp
    exact hlaid.granted ht htag hle
  · intro hneeds
    have hsum : needs requests' = needs requests := (hperm.map paddedSize).sum_eq
    rw [← hsum] at hneeds
    obtain ⟨-, hnotNull, hsame⟩ :=
      hroom 0 hneeds (.inr ⟨_, List.mem_singleton_self _, rfl, hneeds⟩)
    exact ⟨fun x hx => hnotNull x (hreturned.symm.subset hx), hsame.trans hsize⟩

lemma Ended.allFree {addresses : List (Option ℕ)} (hended : Ended h (addresses.map .free) fuel run)
    (hrun : ParallelFor alloc debug h (addresses.map .free) fuel run)
    (hl : Laid h ts addresses.reduceOption) (hlost : NoLost ts) (hts : Coalesced ts) :
    AllFree (lastState (Threads.init h) run).shared ∧
      (lastState (Threads.init h) run).shared.heapSize = h.heapSize := by
  obtain ⟨addresses', results, hperm, hcalls, -, hserial⟩ := hended.serial hrun
  obtain ⟨ts', hl', hlost', hts', hsize⟩ :=
    frees_of_serial (hperm.filterMap id) hcalls hserial hl hlost hts
  obtain rfl := hl'.eq_singleton hlost' hts'
  exact ⟨⟨hl'.freeList, hl'.sizes _ (List.mem_singleton_self _)⟩, hsize⟩

/-- The pointers of the first loop, which the second one frees. -/
def frees (s : Threads ι σ) : List Call := (s.returned.map fun x => x.2.2).map .free

omit [DecidableEq ι] in
lemma reduceOption_returned (s : Threads ι σ) :
    (s.returned.map fun x => x.2.2).reduceOption = pointers s.returned := by
  rw [List.reduceOption, List.filterMap_map]
  rfl

/-- However the iterations of the two loops are distributed to threads and interleaved, the first
loop ends with separate areas, and after the second one the heap is one free block again. -/
theorem allocatorTest_of_ended (hcont : Contiguous alloc) {mem : ℕ → Block} {os : σ} {h₀ : Heap σ}
    (hinit : initAllocator alloc mem os = .ok h₀) {requests : List ℕ}
    (hrequests : ∀ n ∈ requests, Usual n)
    (hrun : ParallelFor alloc debug h₀ (requests.map .malloc) fuel run)
    (hended : Ended h₀ (requests.map .malloc) fuel run) :
    let s := lastState (Threads.init h₀) run
    Allocated requests s ∧ ∀ (fuel' : ℕ) (run' : List (ThreadStep ι (Call × ℕ) × Threads ι σ)),
      ParallelFor alloc debug s.shared (frees s) fuel' run' →
      Ended s.shared (frees s) fuel' run' →
      let s' := lastState (Threads.init s.shared) run'
      AllFree s'.shared ∧ s'.shared.heapSize = s.shared.heapSize := by
  obtain ⟨hl, hsize⟩ := laid_initAllocator hcont hinit
  obtain ⟨hallocated, ts, hlaid, hlost, hts⟩ := hended.allocated hcont hrun hrequests hl hsize
  refine ⟨hallocated, fun fuel' run' hrun' hended' => ?_⟩
  rw [← reduceOption_returned] at hlaid
  exact hended'.allFree hrun' hlaid hlost hts

/-- A loop of two iterations, the second of which finds the first one waiting for the mutex. -/
def mallocsRun : List (ThreadStep Bool (Call × ℕ) × Threads Bool Unit) :=
  runOf (Threads.next (code false) (Access.exec arena)) (Threads.init arenaHeap) <| List.flatten [
    [.start true (.malloc 100, 4), .start false (.malloc 200, 4), .lock false],
    List.replicate 15 (.access false),
    [.unlock false, .lock true, .ret false],
    List.replicate 15 (.access true),
    [.unlock true, .ret true]]

def mallocsEnd : Threads Bool Unit := lastState (Threads.init arenaHeap) mallocsRun

def freesRun : List (ThreadStep Bool (Call × ℕ) × Threads Bool Unit) :=
  runOf (Threads.next (code false) (Access.exec arena)) (Threads.init mallocsEnd.shared) <|
    List.flatten [
      [.start true (.free (some 4336), 4), .lock true, .start false (.free (some 4112), 4)],
      List.replicate 12 (.access true),
      [.unlock true, .lock false, .ret true],
      List.replicate 12 (.access false),
      [.unlock false, .ret false]]

def freesEnd : Threads Bool Unit := lastState (Threads.init mallocsEnd.shared) freesRun

lemma mallocsRun_ended :
    ParallelFor arena false arenaHeap ([100, 200].map .malloc) 4 mallocsRun ∧
      Ended arenaHeap ([100, 200].map .malloc) 4 mallocsRun := by
  have hstarts : Threads.starts mallocsRun = [100, 200].map fun n => (.malloc n, 4) := by
    decide +kernel
  refine ⟨⟨(isRun_runOf _ _ _).imp fun _ _ _ => Threads.step_of_next _ _, ?_⟩, ?_, ?_⟩
  · exact hstarts ▸ .refl _
  · exact hstarts ▸ .refl _
  · simp only [← Option.isNone_iff_eq_none]
    decide +kernel

lemma freesRun_ended :
    ParallelFor arena false mallocsEnd.shared (frees mallocsEnd) 4 freesRun ∧
      Ended mallocsEnd.shared (frees mallocsEnd) 4 freesRun := by
  have hstarts : Threads.starts freesRun ~ (frees mallocsEnd).map fun c => (c, 4) := by
    decide +kernel
  refine ⟨⟨(isRun_runOf _ _ _).imp fun _ _ _ => Threads.step_of_next _ _, ?_⟩, hstarts, ?_⟩
  · exact hstarts.subperm
  · simp only [← Option.isNone_iff_eq_none]
    decide +kernel

theorem allocatorTest_twoRequests : Allocated [100, 200] mallocsEnd ∧ AllFree freesEnd.shared := by
  obtain ⟨hrun, hended⟩ := mallocsRun_ended
  obtain ⟨hrun', hended'⟩ := freesRun_ended
  have husual : ∀ n ∈ [100, 200], Usual n := by decide
  obtain ⟨hallocated, hfree⟩ :=
    allocatorTest_of_ended arena_contiguous initAllocator_arena husual hrun hended
  exact ⟨hallocated, (hfree 4 freesRun hrun' hended').1⟩

/-- In neither of the two loops an iteration is ever stuck. -/
theorem allocatorTest_lively [Finite ι] (hcont : Contiguous alloc) {mem : ℕ → Block} {os : σ}
    {h₀ : Heap σ} (hinit : initAllocator alloc mem os = .ok h₀) {requests : List ℕ}
    (hrequests : ∀ n ∈ requests, Usual n) (debug : Bool) :
    ∃ k, ∀ fuel, k ≤ fuel → ∀ run : List (ThreadStep ι (Call × ℕ) × Threads ι σ),
      ParallelFor alloc debug h₀ (requests.map .malloc) fuel run →
      let s := lastState (Threads.init h₀) run
      Threads.Lively (code debug) (Access.exec alloc) s ∧
      (Ended h₀ (requests.map .malloc) fuel run → ∃ k', ∀ fuel', k' ≤ fuel' →
        ∀ run' : List (ThreadStep ι (Call × ℕ) × Threads ι σ),
          ParallelFor alloc debug s.shared (frees s) fuel' run' →
          Threads.Lively (code debug) (Access.exec alloc)
            (lastState (Threads.init s.shared) run')) := by
  obtain ⟨hl, hsize⟩ := laid_initAllocator hcont hinit
  have hmallocs : Batch [] (requests.map .malloc) := by
    refine ⟨?_, ?_⟩
    · intro n hn
      obtain ⟨n', hn', he⟩ := List.mem_map.mp hn
      cases he
      exact (hrequests n hn').1
    · rw [List.filterMap_map, List.filterMap_eq_nil_iff.mpr (by simp [Call.freed])]
  obtain ⟨k, hk⟩ := hmallocs.lively (ι := ι) hcont debug hl
  refine ⟨k, fun fuel hfuel run hrun => ⟨hk fuel hfuel run hrun, fun hended => ?_⟩⟩
  obtain ⟨-, ts, hlaid, -, -⟩ := hended.allocated hcont hrun hrequests hl hsize
  refine Batch.lively hcont debug hlaid ⟨by simp [frees], ?_⟩
  rw [frees, List.filterMap_map, ← reduceOption_returned]
  exact .refl _

theorem allocatorTest_lively_testRequests : ∃ k, ∀ fuel, k ≤ fuel →
    ∀ run : List (ThreadStep (Fin 4) (Call × ℕ) × Threads (Fin 4) Unit),
      ParallelFor arena false arenaHeap (testRequests.map .malloc) fuel run →
      Threads.Lively (code false) (Access.exec arena)
        (lastState (Threads.init arenaHeap) run) := by
  obtain ⟨k, hk⟩ := allocatorTest_lively (ι := Fin 4) arena_contiguous initAllocator_arena
    usual_testRequests false
  exact ⟨k, fun fuel hfuel run hrun => (hk fuel hfuel run hrun).1⟩

end Vika9

end StyLinux.Malloc
