import StyLinux.Lib.Mutex
import StyLinux.Malloc.Vika9Alone

/-!
# Threads that call the allocator

Every call of `vika9/malloc.c` makes its accesses within one critical section, on every path.
Hence any number of threads can call the allocator: only the owner of `alloc_mutex` accesses the
heap, and the calls have the effects and results of their execution one after another.
-/

namespace StyLinux.Malloc.Vika9

open Lib Lib.Prog

variable {σ ι : Type}

/-! ### The critical sections -/

lemma held_getNextBlockBySize (current : ℕ) : (getNextBlockBySize current).Held := by
  refine .bind (.perform _) fun start => .bind (.perform _) fun heapSize => ?_
  refine .bind (.perform _) fun size => ?_
  dsimp only
  split
  · exact .ret _
  · exact .fail _

lemma held_walkBlocks (fuel : ℕ) (current : Option ℕ) : (walkBlocks fuel current).Held := by
  induction fuel generalizing current with
  | zero => exact .fail _
  | succ fuel ih =>
    cases current with
    | none => exact .ret _
    | some current =>
      refine .bind (.perform _) fun _ => ?_
      exact .bind (held_getNextBlockBySize current) fun next => ih next

lemma held_walkFree (fuel : ℕ) (curr : Option ℕ) : (walkFree fuel curr).Held := by
  induction fuel generalizing curr with
  | zero => exact .fail _
  | succ fuel ih =>
    cases curr with
    | none => exact .ret _
    | some curr => exact .bind (.perform _) fun _ => .bind (.perform _) fun next => ih next

/-- The critical section of `dumpAllocator`. -/
lemma releases_dumpAllocator (fuel : ℕ) :
    ∃ p : Code Unit, dumpAllocator fuel = (mutexLock >>= fun _ => p) ∧ p.Releases := by
  refine ⟨_, rfl, ?_⟩
  refine .bind (.perform _) fun start => .bind (held_walkBlocks _ _) fun _ => ?_
  refine .bind (.perform _) fun first => .bind (held_walkFree _ _) fun _ => ?_
  exact .mutexUnlock _

lemma held_dumpIfDebug (debug : Bool) (fuel : ℕ) : (dumpIfDebug debug fuel).Held := by
  obtain ⟨p, hdump, hp⟩ := releases_dumpAllocator fuel
  unfold dumpIfDebug
  split
  · rw [hdump]
    exact hp.held.call
  · exact .ret _

lemma held_allocateBlock (updateNext : Link) (block newSize : ℕ) :
    (allocateBlock updateNext block newSize).Held := by
  have htake : (takeBlock updateNext block newSize).Held := by
    refine .bind (.perform _) fun blockSize => ?_
    split
    · exact .bind (.perform _) fun next => .perform _
    · refine .bind (.perform _) fun blockSize => .bind (.perform _) fun _ => ?_
      refine .bind (.perform _) fun next => .bind (.perform _) fun _ => ?_
      refine .bind (.perform _) fun _ => .bind (.perform _) fun _ => ?_
      exact .perform _
  exact htake.bind fun _ => .bind (.perform _) fun _ => .ret _

lemma held_updateBest (request : ℕ) (best : Option (ℕ × Link)) (prev : Option ℕ) (current : ℕ) :
    (updateBest request best prev current).Held := by
  refine .bind (.perform _) fun currentSize => ?_
  split
  · cases best with
    | none => exact .bind (.perform _) fun _ => .ret _
    | some best =>
      refine .bind (.perform _) fun currentSize => .bind (.perform _) fun bestSize => ?_
      split
      · exact .bind (.perform _) fun _ => .ret _
      · exact .ret _
  · exact .ret _

lemma held_fitLoop (request fuel : ℕ) (best : Option (ℕ × Link)) (prev current : Option ℕ) :
    (fitLoop request fuel best prev current).Held := by
  induction fuel generalizing best prev current with
  | zero => exact .fail _
  | succ fuel ih =>
    cases current with
    | none => exact .ret _
    | some current =>
      refine .bind (.perform _) fun _ => .bind (held_updateBest _ _ _ _) fun best => ?_
      exact .bind (.perform _) fun next => ih best (some current) next

lemma held_findInsertPos (newBlock fuel : ℕ) (insertPos : Link) :
    (findInsertPos newBlock fuel insertPos).Held := by
  induction fuel generalizing insertPos with
  | zero => exact .fail _
  | succ fuel ih =>
    refine .bind (.perform _) fun a => ?_
    split
    · exact .ret _
    · refine .bind (.perform _) fun a => ?_
      split
      · refine .bind (.perform _) fun a => ?_
        cases a with
        | none => exact .fail _
        | some a => exact ih (.next a)
      · exact .ret _

lemma held_addHeapBlock (fuel : ℕ) : (addHeapBlock fuel).Held := by
  refine .bind (.perform _) fun originalHeapSize => .bind (.perform _) fun size => ?_
  refine .bind (.perform _) fun _ => .bind (.perform _) fun start => ?_
  refine .bind (.perform _) fun _ => .bind (.perform _) fun _ => ?_
  refine .bind (held_findInsertPos _ _ _) fun insertPos => .bind (.perform _) fun next => ?_
  refine .bind (.perform _) fun _ => .bind (.perform _) fun _ => ?_
  exact .bind (.perform _) fun _ => .ret _

lemma releases_extendHeap {retry : Code (Option ℕ)} (hretry : retry.Held) (fuel : ℕ) :
    (extendHeap retry fuel).Releases := by
  refine .bind (.perform _) fun start => .bind (.perform _) fun size => ?_
  refine .bind (.perform _) fun newHeapStart => ?_
  cases newHeapStart with
  | none => exact .mutexUnlock _
  | some _ =>
    refine .bind (held_addHeapBlock fuel) fun _ => .bind hretry.call fun ptr => ?_
    exact .mutexUnlock _

lemma releases_afterSearch (debug : Bool) {retry : Code (Option ℕ)} (hretry : retry.Held)
    (request fuel : ℕ) (selected : Option (ℕ × Link)) :
    (afterSearch debug retry request fuel selected).Releases := by
  cases selected with
  | none => exact releases_extendHeap hretry fuel
  | some selected =>
    refine .bind (.perform _) fun _ => .bind (held_allocateBlock _ _ _) fun allocated => ?_
    refine .bind (held_dumpIfDebug _ _) fun _ => ?_
    exact .mutexUnlock _

/-- The critical section of `my_malloc`, given one of the recursive call. -/
lemma releases_myMalloc (debug : Bool) {fuel request : ℕ}
    (hretry : (myMalloc debug fuel request).Held) :
    (dumpIfDebug debug fuel >>= fun _ => Vika9.read .first >>= fun first =>
      fitLoop request fuel none none first >>= fun selected =>
      afterSearch debug (myMalloc debug fuel request) request fuel selected).Releases := by
  refine .bind (held_dumpIfDebug _ _) fun _ => .bind (.perform _) fun first => ?_
  exact .bind (held_fitLoop _ _ _ _ _) fun selected => releases_afterSearch _ hretry _ _ _

/-- `my_malloc` as a nested call. The recursive call of the retry may lock the mutex or return
before it does. -/
lemma held_myMalloc (debug : Bool) (fuel n : ℕ) : (myMalloc debug fuel n).Held := by
  induction fuel generalizing n with
  | zero => exact .fail _
  | succ fuel ih =>
    rw [myMalloc]
    split
    · exact .ret _
    · exact (releases_myMalloc debug (ih _)).held

lemma outer_myMalloc (debug : Bool) (fuel n : ℕ) : (myMalloc debug fuel n).Outer := by
  cases fuel with
  | zero => exact .fail _
  | succ fuel =>
    rw [myMalloc]
    split
    · exact .ret _
    · exact (releases_myMalloc debug (held_myMalloc _ _ _)).outer

lemma held_mergeBlocks (block1 block2 : ℕ) : (mergeBlocks block1 block2).Held := by
  refine .bind (.perform _) fun size1 => ?_
  split
  · refine .bind (.perform _) fun size1 => .bind (.perform _) fun size2 => ?_
    exact .bind (.perform _) fun _ => .bind (.perform _) fun next => .perform _
  · exact .ret _

lemma held_findFreePos (blockToFree fuel : ℕ) (prev current : Option ℕ) :
    (findFreePos blockToFree fuel prev current).Held := by
  induction fuel generalizing prev current with
  | zero => exact .fail _
  | succ fuel ih =>
    cases current with
    | none => exact .ret _
    | some current =>
      rw [findFreePos]
      split
      · exact .bind (.perform _) fun next => ih (some current) next
      · exact .ret _

lemma held_insertFree (blockToFree : ℕ) (prev current : Option ℕ) :
    (insertFree blockToFree prev current).Held := by
  cases prev with
  | none => exact .bind (.perform _) fun first => .bind (.perform _) fun _ => .perform _
  | some p => exact .bind (.perform _) fun _ => .perform _

lemma held_mergePrev (blockToFree : ℕ) (prev : Option ℕ) : (mergePrev blockToFree prev).Held := by
  cases prev with
  | none => exact .ret _
  | some p =>
    refine .bind (.perform _) fun prevSize => ?_
    split
    · exact .bind (held_mergeBlocks _ _) fun _ => .ret _
    · exact .ret _

lemma held_mergeNext (blockToFree : ℕ) (current : Option ℕ) :
    (mergeNext blockToFree current).Held := by
  cases current with
  | none => exact .ret _
  | some c =>
    refine .bind (.perform _) fun blockSize => ?_
    split
    · exact held_mergeBlocks _ _
    · exact .ret _

lemma outer_myFree (fuel : ℕ) (address : Option ℕ) : (myFree fuel address).Outer := by
  cases address with
  | none => exact .ret _
  | some address =>
    apply Releases.outer
    refine .bind (.perform _) fun _ => .bind (.perform _) fun first => ?_
    refine .bind (held_findFreePos _ _ _ _) fun position => ?_
    refine .bind (held_insertFree _ _ _) fun _ => .bind (held_mergePrev _ _) fun block => ?_
    exact .bind (held_mergeNext _ _) fun _ => .mutexUnlock _

lemma outer_code (debug : Bool) (c : Call × ℕ) : (code debug c).Outer := by
  obtain ⟨c, fuel⟩ := c
  cases c with
  | malloc n => exact outer_myMalloc debug fuel n
  | free address => exact (outer_myFree fuel address).bind_ret fun _ => none
  | dump =>
    obtain ⟨p, hdump, hp⟩ := releases_dumpAllocator fuel
    exact (hdump ▸ hp.outer : (dumpAllocator fuel).Outer).bind_ret fun _ => none

/-! ### Runs -/

/-- Threads that call the allocator. -/
abbrev Threads (ι σ : Type) :=
  Lib.Threads ι Access Access.Result Fault (Option ℕ) (Call × ℕ) (Heap σ)

variable [DecidableEq ι] (alloc : AllocHeap σ) (debug : Bool)

/-- One step of one thread. -/
def Step : Threads ι σ → ThreadStep ι (Call × ℕ) → Threads ι σ → Prop :=
  Lib.Threads.Step (code debug) (Access.exec alloc)

/-- The calls one after another, without other threads. -/
def Serial : Heap σ → List (ℕ × (Call × ℕ) × Option ℕ) → Heap σ → Prop :=
  Lib.Threads.Serial (code debug) (Access.exec alloc)

/-- All calls are proper, for a client that begins with the pointers `live` and ends with
`live'`. -/
def AllProper : List ℕ → List (ℕ × (Call × ℕ) × Option ℕ) → List ℕ → Prop
  | live, [], live' => live = live'
  | live, x :: results, live' =>
    Proper live x.2.1.1 ∧ AllProper (liveAfter live x.2.1.1 x.2.2) results live'

variable {alloc debug}

lemma laid_of_serial (hcont : Contiguous alloc) {h h' : Heap σ} {ts : List Chunk}
    {live live' : List ℕ} {results : List (ℕ × (Call × ℕ) × Option ℕ)} (hl : Laid h ts live)
    (hserial : Serial alloc debug h results h') (hproper : AllProper live results live') :
    ∃ ts', Laid h' ts' live' := by
  induction results generalizing h ts live with
  | nil =>
    cases hserial
    cases hproper
    exact ⟨ts, hl⟩
  | cons x results ih =>
    obtain ⟨h₁, hx, hserial⟩ := hserial
    obtain ⟨ts₁, hlaid⟩ := laid_of_call hcont hl hproper.1 hx
    exact ih hlaid hserial hproper.2

/-- Only the owner of the mutex is about to access the heap. -/
def OwnerOnly (s : Threads ι σ) : Prop :=
  ∀ t r x k, s.running t = some r → r.rest = .access x k → s.owner = some t

/-- Calls and nested calls are about to return with the depth of the mutex that they found, and
a thread between two calls does not own it. -/
def Balanced (s : Threads ι σ) : Prop :=
  (∀ t r k, s.running t = some r → r.rest = .leave k → r.entries.head? = some (s.held t)) ∧
  (∀ t r p, s.running t = some r → r.rest = .ret p → r.entries = [s.held t]) ∧
  ∀ t, s.running t = none → s.owner ≠ some t

variable (alloc debug)

/-- When the mutex is free, the heap is the one after the calls that have acquired it, in this
order, and the calls that have returned had the results that they have there. The calls that
never acquired it have the same result on every heap, and leave it as it is. -/
def InOrder (h₀ : Heap σ) (s : Threads ι σ) : Prop :=
  s.owner = none → ∃ results, results.map Threads.key = s.order ∧
    Serial alloc debug h₀ results s.shared ∧
    ∀ x ∈ s.returned, x ∈ results ∨ x.1 ∉ s.order.map Prod.fst ∧
      ∀ h, (code debug x.2.1).alone (Access.exec alloc) h = .ok (x.2.2, h)

/-- The call of the owner goes on as it does alone behind the calls that acquired the mutex
before it. If these calls and the call itself are proper, it returns when its loops are given
enough iterations. -/
def Returning (h₀ : Heap σ) (s : Threads ι σ) : Prop :=
  ∀ t r, s.running t = some r → s.owner = some t → ∃ results h,
    results.map Threads.key ++ [(r.id, r.call)] = s.order ∧ Serial alloc debug h₀ results h ∧
    r.rest.alone (Access.exec alloc) s.shared =
      (code debug r.call).alone (Access.exec alloc) h ∧
    ∀ live, Contiguous alloc → AllProper [] results live → Proper live r.call.1 →
      ∃ p h' k, ∀ fuel, k ≤ fuel →
        (code debug (r.call.1, fuel)).alone (Access.exec alloc) h = .ok (p, h')

variable {alloc debug}

/-- What holds in every state that threads reach after `initAllocator`. -/
theorem threads_of_run {mem : ℕ → Block} {os : σ} {h₀ : Heap σ}
    (hinit : initAllocator alloc mem os = .ok h₀)
    {run : List (ThreadStep ι (Call × ℕ) × Threads ι σ)}
    (hrun : IsRun (Step alloc debug) (Threads.init h₀) run) :
    OwnerOnly (lastState (Threads.init h₀) run) ∧ Balanced (lastState (Threads.init h₀) run) ∧
      InOrder alloc debug h₀ (lastState (Threads.init h₀) run) ∧
      Returning alloc debug h₀ (lastState (Threads.init h₀) run) := by
  have hs := Threads.guarded_of_run (outer_code debug) h₀ hrun
  refine ⟨hs.access, ⟨hs.leave, hs.ret, hs.idle⟩, hs.explains, ?_⟩
  intro t r hr hown
  obtain ⟨results, h, hserial, horder, halone⟩ := hs.current t r hr hown
  refine ⟨results, h, horder.symm, hserial, halone.symm, ?_⟩
  intro live hcont hall hc
  obtain ⟨ts, hl⟩ := laid_of_serial hcont (laid_initAllocator hcont hinit).1 hserial hall
  exact returns_of_laid debug hcont hl hc

/-- One thread allocates; the other one frees `NULL` meanwhile, begins a dump, and makes it when
the mutex is free again. -/
def twoThreads : List (ThreadStep Bool (Call × ℕ)) :=
  List.flatten [
    [.start true (.malloc 100, 3), .lock true, .access true, .start false (.free none, 0)],
    List.replicate 8 (.access true),
    [.ret false, .start false (.dump, 3)],
    List.replicate 6 (.access true),
    [.unlock true, .lock false, .access false, .ret true],
    List.replicate 11 (.access false),
    [.unlock false, .ret false]]

def twoThreadsRun : List (ThreadStep Bool (Call × ℕ) × Threads Bool Unit) :=
  runOf (Threads.next (code false) (Access.exec arena)) (Threads.init arenaHeap) twoThreads

lemma isRun_twoThreadsRun : IsRun (Step arena false) (Threads.init arenaHeap) twoThreadsRun :=
  (isRun_runOf _ _ _).imp fun _ _ _ => Threads.step_of_next _ _

/-- The calls of the run are a request of 100 bytes and then the dump. -/
theorem threads_twoThreadsRun :
    ∃ results, results.map Threads.key = [(0, .malloc 100, 3), (2, .dump, 3)] ∧
      Serial arena false arenaHeap results
        (lastState (Threads.init arenaHeap) twoThreadsRun).shared := by
  have hfree : (lastState (Threads.init arenaHeap) twoThreadsRun).owner = none := by
    decide +kernel
  have horder : (lastState (Threads.init arenaHeap) twoThreadsRun).order =
      [(0, .malloc 100, 3), (2, .dump, 3)] := by decide +kernel
  obtain ⟨-, -, hinorder, -⟩ := threads_of_run initAllocator_arena isRun_twoThreadsRun
  obtain ⟨results, hkeys, hserial, -⟩ := hinorder hfree
  exact ⟨results, hkeys.trans horder, hserial⟩

example : (lastState (Threads.init arenaHeap) twoThreadsRun).returned =
    [(1, (.free none, 0), none), (0, (.malloc 100, 3), some 4112), (2, (.dump, 3), none)] := by
  decide +kernel

end StyLinux.Malloc.Vika9
