import StyLinux.Malloc.Vika4Runs
import StyLinux.Malloc.Vika9

/-!
# Calls of the allocator without other threads

Executed alone, the programs of `vika9/malloc.c` do to the heap what the functions of
`vika4/malloc.c` do, and a dump leaves the heap as it is.
-/

namespace StyLinux.Malloc.Vika9

open Lib Lib.Prog

variable {σ : Type} {alloc : AllocHeap σ} {h : Heap σ}

@[simp] lemma alone_heapStart : heapStart.alone (Access.exec alloc) h = .ok (h.heapStart, h) := rfl

@[simp] lemma alone_heapSize : heapSize.alone (Access.exec alloc) h = .ok (h.heapSize, h) := rfl

@[simp] lemma alone_read (l : Link) :
    (Vika9.read l).alone (Access.exec alloc) h = .ok (h.read l, h) := rfl

@[simp] lemma alone_write (l : Link) (v : Option ℕ) :
    (write l v).alone (Access.exec alloc) h = .ok ((), h.write l v) := rfl

@[simp] lemma alone_size (a : ℕ) :
    (size a).alone (Access.exec alloc) h = .ok (h.size a, h) := rfl

@[simp] lemma alone_setSize (a n : ℕ) :
    (setSize a n).alone (Access.exec alloc) h = .ok ((), h.setSize a n) := rfl

lemma alone_allocateBlock (l : Link) (block n : ℕ) :
    (allocateBlock l block n).alone (Access.exec alloc) h =
      .ok (Malloc.allocateBlock h l block n) := by
  unfold allocateBlock takeBlock Malloc.allocateBlock
  simp only [alone_bind, alone_size, ok_bind]
  split
  · simp [alone_bind, ok_bind]
  · simp [alone_bind, ok_bind]

lemma alone_updateBest (n : ℕ) (best : Option (ℕ × Link)) (prev : Option ℕ) (current : ℕ) :
    (updateBest n best prev current).alone (Access.exec alloc) h =
      .ok (Malloc.updateBest (fun new old => new < old) h n best prev current, h) := by
  unfold updateBest Malloc.updateBest
  simp only [alone_bind, alone_size, ok_bind]
  split
  · cases best with
    | none => rfl
    | some best =>
      simp only [alone_bind, alone_size, ok_bind, decide_eq_true_eq]
      split
      · rfl
      · rfl
  · rfl

lemma alone_fitLoop (n fuel : ℕ) (best : Option (ℕ × Link)) (prev current : Option ℕ) :
    (fitLoop n fuel best prev current).alone (Access.exec alloc) h =
      Malloc.fitLoop (fun new old => new < old) h n fuel best prev current >>= fun r =>
        .ok (r, h) := by
  induction fuel generalizing best prev current with
  | zero => rfl
  | succ fuel ih =>
    cases current with
    | none => rfl
    | some current =>
      simp only [fitLoop, alone_bind, alone_size, alone_updateBest, alone_read, ok_bind, ih]
      rfl

lemma alone_findInsertPos (newBlock fuel : ℕ) (l : Link) :
    (findInsertPos newBlock fuel l).alone (Access.exec alloc) h =
      Malloc.findInsertPos h newBlock fuel l >>= fun l => .ok (l, h) := by
  induction fuel generalizing l with
  | zero => rfl
  | succ fuel ih =>
    simp only [findInsertPos, Malloc.findInsertPos, alone_bind, alone_read, ok_bind]
    cases hread : h.read l with
    | none => rfl
    | some a =>
      by_cases ha : a < newBlock
      · simp [ha, hread, alone_bind, ok_bind, ih]
      · simp [ha, hread, alone_bind, ok_bind]

lemma alone_addHeapBlock (fuel : ℕ) :
    (addHeapBlock fuel).alone (Access.exec alloc) h =
      Malloc.addHeapBlock fuel h >>= fun h => .ok ((), h) := by
  unfold addHeapBlock Malloc.addHeapBlock heapSize setHeapSize heapStart setSize write
  simp only [alone_perform_bind, Access.exec]
  rw [alone_bind, alone_findInsertPos, bind_assoc, bind_assoc]
  refine congrArg _ (funext fun insertPos => ?_)
  rw [ok_bind, pure_bind]
  rfl

/-! ### `my_free` -/

lemma alone_mergeBlocks (block1 block2 : ℕ) :
    (mergeBlocks block1 block2).alone (Access.exec alloc) h =
      .ok ((), Malloc.mergeBlocks h block1 block2) := by
  unfold mergeBlocks Malloc.mergeBlocks
  simp only [alone_bind, alone_size, ok_bind]
  split
  · simp [alone_bind, ok_bind]
  · rfl

lemma alone_findFreePos (b fuel : ℕ) (prev current : Option ℕ) :
    (findFreePos b fuel prev current).alone (Access.exec alloc) h =
      Malloc.findFreePos h b fuel prev current >>= fun r => .ok (r, h) := by
  induction fuel generalizing prev current with
  | zero => rfl
  | succ fuel ih =>
    cases current with
    | none => rfl
    | some current =>
      unfold findFreePos Malloc.findFreePos
      split
      · simp only [alone_bind, alone_read, ok_bind, ih]
      · rfl

lemma alone_insertFree (b : ℕ) (prev current : Option ℕ) :
    (insertFree b prev current).alone (Access.exec alloc) h =
      .ok ((), Malloc.insertFree h b prev current) := by
  cases prev with
  | none => rfl
  | some p => rfl

lemma alone_mergePrev (b : ℕ) (prev : Option ℕ) :
    (mergePrev b prev).alone (Access.exec alloc) h = .ok (Malloc.mergePrev h b prev) := by
  cases prev with
  | none => rfl
  | some p =>
    simp only [mergePrev, Malloc.mergePrev, alone_bind, alone_size, ok_bind]
    split
    · simp [alone_bind, alone_mergeBlocks, ok_bind]
    · rfl

lemma alone_mergeNext (b : ℕ) (current : Option ℕ) :
    (mergeNext b current).alone (Access.exec alloc) h =
      .ok ((), Malloc.mergeNext h b current) := by
  cases current with
  | none => rfl
  | some c =>
    simp only [mergeNext, Malloc.mergeNext, alone_bind, alone_size, ok_bind]
    split
    · exact alone_mergeBlocks b c
    · rfl

theorem alone_myFree (fuel : ℕ) (address : Option ℕ) :
    (myFree fuel address).alone (Access.exec alloc) h =
      Vika4.myFree fuel address h >>= fun h => .ok ((), h) := by
  cases address with
  | none => rfl
  | some address =>
    simp only [myFree, Vika4.myFree, Malloc.freeBlock, alone_bind, alone_mutexLock, alone_size,
      alone_read, alone_findFreePos, alone_insertFree, alone_mergePrev, alone_mergeNext,
      alone_mutexUnlock, alone_pure, ok_bind, bind_assoc]
    rfl

/-! ### `dumpAllocator` -/

lemma alone_getNextBlockBySize (current : ℕ) :
    (getNextBlockBySize current).alone (Access.exec alloc) h =
      Malloc.getNextBlockBySize h current >>= fun next => .ok (next, h) := by
  unfold getNextBlockBySize Malloc.getNextBlockBySize
  simp only [alone_bind, alone_heapStart, alone_heapSize, alone_size, ok_bind]
  split
  · rfl
  · rfl

lemma alone_walkBlocks (fuel : ℕ) (current : Option ℕ) :
    (walkBlocks fuel current).alone (Access.exec alloc) h =
      Malloc.walkBlocks h fuel current >>= fun _ => .ok ((), h) := by
  induction fuel generalizing current with
  | zero => rfl
  | succ fuel ih =>
    cases current with
    | none => rfl
    | some current =>
      simp only [walkBlocks, Malloc.walkBlocks, alone_bind, alone_size, alone_getNextBlockBySize,
        ok_bind, bind_assoc, ih]
      rfl

lemma alone_walkFree (fuel : ℕ) (curr : Option ℕ) :
    (walkFree fuel curr).alone (Access.exec alloc) h =
      Malloc.walkFree h fuel curr >>= fun _ => .ok ((), h) := by
  induction fuel generalizing curr with
  | zero => rfl
  | succ fuel ih =>
    cases curr with
    | none => rfl
    | some curr =>
      simp only [walkFree, Malloc.walkFree, alone_bind, alone_size, alone_read, ok_bind,
        bind_assoc, ih]
      rfl

theorem alone_dumpAllocator (fuel : ℕ) :
    (dumpAllocator fuel).alone (Access.exec alloc) h =
      Malloc.walkBlocks h fuel (some h.heapStart) >>= fun _ =>
        Malloc.walkFree h fuel h.firstFreeBlock >>= fun _ => .ok ((), h) := by
  simp only [dumpAllocator, alone_bind, alone_mutexLock, alone_heapStart, alone_walkBlocks,
    alone_read, alone_walkFree, alone_mutexUnlock, ok_bind, bind_assoc]
  rfl

/-! ### `my_malloc` -/

/-- The dump behind `if (debug)` ends, and leaves the heap as it is. -/
def Dumps (alloc : AllocHeap σ) (debug : Bool) (fuel : ℕ) (h : Heap σ) : Prop :=
  (dumpIfDebug debug fuel).alone (Access.exec alloc) h = .ok ((), h)

variable {debug : Bool} {fuel n : ℕ}

lemma dumps_false : Dumps alloc false fuel h := rfl

lemma alone_extendHeap (retry : Code (Option ℕ)) (fuel : ℕ) :
    (extendHeap retry fuel).alone (Access.exec alloc) h =
      Malloc.extendHeap alloc fuel h >>= fun x =>
        if x.1 then retry.alone (Access.exec alloc) x.2 else pure (none, x.2) := by
  unfold extendHeap Malloc.extendHeap heapStart heapSize allocHeap
  simp only [alone_perform_bind, Access.exec]
  cases alloc (some h.heapStart) (wrap64 (h.heapSize + HEAP_SIZE)) h.os with
  | mk p os =>
    cases p with
    | none => rfl
    | some p =>
      dsimp only
      rw [alone_bind, alone_addHeapBlock]
      cases Malloc.addHeapBlock fuel (h.withOs os) with
      | error e => rfl
      | ok h' =>
        simp only [ok_bind]
        rw [alone_bind, alone_call, pure_bind, if_pos rfl]
        cases retry.alone (Access.exec alloc) h' with
        | error e => rfl
        | ok x => rfl

lemma alone_myMalloc_eq (hn : ¬HEAP_SIZE < paddedSize n) :
    (myMalloc debug (fuel + 1) n).alone (Access.exec alloc) h =
      (dumpIfDebug debug fuel).alone (Access.exec alloc) h >>= fun x =>
        bestFit x.2 (paddedSize n) fuel >>= fun selected =>
          (afterSearch debug (myMalloc debug fuel (paddedSize n)) (paddedSize n) fuel
            selected).alone (Access.exec alloc) x.2 := by
  rw [myMalloc, if_neg hn, alone_bind, alone_mutexLock, ok_bind, alone_bind]
  refine congrArg _ (funext fun x => ?_)
  rw [alone_bind, alone_read, ok_bind, alone_bind, alone_fitLoop, bind_assoc]
  rfl

lemma alone_selected (retry : Code (Option ℕ)) (block : ℕ) (link : Link) :
    (afterSearch debug retry n fuel (some (block, link))).alone (Access.exec alloc) h =
      (dumpIfDebug debug fuel).alone (Access.exec alloc) (Malloc.allocateBlock h link block n).2 >>=
        fun x => .ok (some (Malloc.allocateBlock h link block n).1, x.2) := by
  simp only [afterSearch]
  rw [alone_bind, alone_size, ok_bind, alone_bind, alone_allocateBlock, ok_bind, alone_bind]
  rfl

/-- One level of the recursion of `my_malloc`. -/
lemma alone_myMalloc_succ (hbefore : Dumps alloc debug fuel h)
    (hafter : ∀ block link, bestFit h (paddedSize n) fuel = .ok (some (block, link)) →
      Dumps alloc debug fuel (Malloc.allocateBlock h link block (paddedSize n)).2)
    (hretry : ∀ h', Malloc.extendHeap alloc fuel h = .ok (true, h') →
      bestFit h (paddedSize n) fuel = .ok none →
      (myMalloc debug fuel (paddedSize n)).alone (Access.exec alloc) h' =
        Vika4.myMalloc alloc fuel (paddedSize n) h') :
    (myMalloc debug (fuel + 1) n).alone (Access.exec alloc) h =
      Vika4.myMalloc alloc (fuel + 1) n h := by
  by_cases hn : HEAP_SIZE < paddedSize n
  · rw [myMalloc, Vika4.myMalloc, if_pos hn, if_pos hn]
    rfl
  rw [alone_myMalloc_eq hn, hbefore, ok_bind, Vika4.myMalloc, if_neg hn]
  cases hsearch : bestFit h (paddedSize n) fuel with
  | error e => rfl
  | ok selected =>
    rw [ok_bind, ok_bind]
    cases selected with
    | none =>
      rw [afterSearch, alone_extendHeap, Malloc.afterSearch]
      cases hext : Malloc.extendHeap alloc fuel h with
      | error e => rfl
      | ok x =>
        obtain ⟨extended, h'⟩ := x
        rw [ok_bind, ok_bind]
        cases extended with
        | false => rfl
        | true => exact hretry h' hext hsearch
    | some selected =>
      obtain ⟨block, link⟩ := selected
      rw [alone_selected, hafter block link hsearch, ok_bind]
      rfl

/-- Without debugging, `my_malloc` is the one of `vika4`. -/
theorem alone_myMalloc : (myMalloc false fuel n).alone (Access.exec alloc) h =
    Vika4.myMalloc alloc fuel n h := by
  induction fuel generalizing n h with
  | zero => rfl
  | succ fuel ih =>
    exact alone_myMalloc_succ dumps_false (fun _ _ _ => dumps_false) fun _ _ _ => ih

lemma eq_of_alone_dumpIfDebug {x : Unit × Heap σ}
    (hok : (dumpIfDebug debug fuel).alone (Access.exec alloc) h = .ok x) : x = ((), h) := by
  unfold dumpIfDebug at hok
  split at hok
  · rw [alone_call, alone_dumpAllocator] at hok
    obtain ⟨blocks, -, hok⟩ := bind_eq_ok.mp hok
    obtain ⟨free, -, hok⟩ := bind_eq_ok.mp hok
    cases hok
    rfl
  · cases hok
    rfl

/-- A call that returns does the same without the dumps. -/
theorem myMalloc_of_alone {r : Option ℕ × Heap σ}
    (hok : (myMalloc debug fuel n).alone (Access.exec alloc) h = .ok r) :
    Vika4.myMalloc alloc fuel n h = .ok r := by
  induction fuel generalizing n h with
  | zero => cases hok
  | succ fuel ih =>
    by_cases hn : HEAP_SIZE < paddedSize n
    · rw [myMalloc, if_pos hn] at hok
      rw [Vika4.myMalloc, if_pos hn]
      exact hok
    rw [alone_myMalloc_eq hn] at hok
    obtain ⟨x, hdump, hok⟩ := bind_eq_ok.mp hok
    cases eq_of_alone_dumpIfDebug hdump
    obtain ⟨selected, hsearch, hok⟩ := bind_eq_ok.mp hok
    rw [Vika4.myMalloc, if_neg hn, hsearch, ok_bind]
    cases selected with
    | none =>
      rw [afterSearch, alone_extendHeap] at hok
      obtain ⟨⟨extended, h'⟩, hext, hok⟩ := bind_eq_ok.mp hok
      rw [Malloc.afterSearch, hext, ok_bind]
      cases extended with
      | false => exact hok
      | true => exact ih hok
    | some selected =>
      obtain ⟨block, link⟩ := selected
      rw [alone_selected] at hok
      obtain ⟨x, hdump, hok⟩ := bind_eq_ok.mp hok
      cases eq_of_alone_dumpIfDebug hdump
      exact hok

/-! ### Calls on a laid out heap -/

variable {ts : List Chunk} {live : List ℕ}

lemma dumps_of_laid (hl : Laid h ts live) (alloc : AllocHeap σ) (debug : Bool) :
    ∃ k, ∀ fuel, k ≤ fuel → Dumps alloc debug fuel h := by
  obtain ⟨k, hk⟩ := hl.walks.eventually
  obtain ⟨l, hfree⟩ := hl.freeList.eventually
  refine ⟨max k l, ?_⟩
  intro fuel hfuel
  have hwalk : Malloc.walkBlocks h fuel (some h.heapStart) = .ok (ts.map Tile.lo) :=
    hk fuel (by omega)
  have hlist : Malloc.walkFree h fuel h.firstFreeBlock = .ok (freeStarts ts) :=
    hfree fuel (by omega)
  unfold Dumps dumpIfDebug
  split
  · rw [alone_call, alone_dumpAllocator, hwalk, ok_bind, hlist, ok_bind]
  · rfl

lemma alone_tooLarge (hn : HEAP_SIZE < paddedSize n) :
    (myMalloc debug fuel n).alone (Access.exec alloc) h = Vika4.myMalloc alloc fuel n h := by
  cases fuel with
  | zero => rfl
  | succ fuel =>
    rw [myMalloc, Vika4.myMalloc]
    simp only [hn, if_true]
    rfl

/-- A request that finds a block. -/
lemma alone_served (hl : Laid h ts live) (hpos : 0 < paddedSize n) (hfit : ¬NoFit n ts) :
    ∃ k, ∀ fuel, k ≤ fuel →
      (myMalloc debug fuel n).alone (Access.exec alloc) h = Vika4.myMalloc alloc fuel n h := by
  obtain ⟨selected, hsearch, hpicks⟩ := returns_bestFit (paddedSize n) hl.chain
  cases selected with
  | none => exact absurd (hl.selects_none hpicks.selects) hfit
  | some selected =>
    obtain ⟨block, link⟩ := selected
    obtain ⟨us, t, vs, rfl, hbest, rfl, rfl⟩ := hl.picks_best hpicks
    obtain ⟨k, hk⟩ := dumps_of_laid hl alloc debug
    obtain ⟨l, hafter⟩ :=
      dumps_of_laid (hl.serve hbest.free hpos (dvd_paddedSize n) hbest.le).2 alloc debug
    refine ⟨max k l + 1, ?_⟩
    intro fuel hfuel
    obtain ⟨fuel, rfl⟩ : ∃ m, fuel = m + 1 := ⟨fuel - 1, by omega⟩
    refine alone_myMalloc_succ (hk fuel (by omega)) ?_ ?_
    · intro block link hok
      cases hsearch.eq_of_ok hok
      exact hafter fuel (by omega)
    · intro h' _ hok
      cases hsearch.eq_of_ok hok

/-- The retry behind an extension of the heap. -/
lemma alone_retry (debug : Bool) (hl : Laid h ts live) (hcont : Contiguous alloc)
    (hn : paddedSize n ≤ HEAP_SIZE) :
    ∃ k, ∀ fuel, k ≤ fuel → ∀ h', Malloc.extendHeap alloc fuel h = .ok (true, h') →
      (myMalloc debug fuel (paddedSize n)).alone (Access.exec alloc) h' =
        Vika4.myMalloc alloc fuel (paddedSize n) h' := by
  cases hA : alloc (some h.heapStart) (wrap64 (h.heapSize + HEAP_SIZE)) h.os with
  | mk p os =>
    cases p with
    | none =>
      refine ⟨0, ?_⟩
      intro fuel _ h' hok
      cases (returns_extendHeap_none hA).eq_of_ok hok
    | some p =>
      obtain ⟨h₁, hext, hlaid, -⟩ := hl.extendHeap hcont hA
      have hagain := paddedSize_paddedSize hn
      have hsame : ∃ k, ∀ fuel, k ≤ fuel →
          (myMalloc debug fuel (paddedSize n)).alone (Access.exec alloc) h₁ =
            Vika4.myMalloc alloc fuel (paddedSize n) h₁ := by
        by_cases hmax : HEAP_SIZE < paddedSize n + 16
        · exact ⟨0, fun _ _ => alone_tooLarge (hagain ▸ hmax)⟩
        · exact alone_served hlaid (by omega) (not_noFit_newChunk (not_lt.mp hmax))
      obtain ⟨k, hk⟩ := hsame
      refine ⟨k, ?_⟩
      intro fuel hfuel h' hok
      cases hext.eq_of_ok hok
      exact hk fuel hfuel

/-- On a laid out heap the dumps do not change what a request does. -/
lemma alone_myMalloc_laid (debug : Bool) (hl : Laid h ts live) (hcont : Contiguous alloc)
    (hn : n + 32 ≤ 2 ^ 64) :
    ∃ k, ∀ fuel, k ≤ fuel →
      (myMalloc debug fuel n).alone (Access.exec alloc) h = Vika4.myMalloc alloc fuel n h := by
  by_cases hlarge : HEAP_SIZE < paddedSize n
  · exact ⟨0, fun _ _ => alone_tooLarge hlarge⟩
  by_cases hfit : NoFit n ts
  · obtain ⟨k, hdumps⟩ := dumps_of_laid hl alloc debug
    obtain ⟨l, hretry⟩ := alone_retry debug hl hcont (not_lt.mp hlarge)
    refine ⟨max k l + 1, ?_⟩
    intro fuel hfuel
    obtain ⟨fuel, rfl⟩ : ∃ m, fuel = m + 1 := ⟨fuel - 1, by omega⟩
    refine alone_myMalloc_succ (hdumps fuel (by omega)) ?_ ?_
    · intro block link hok
      obtain ⟨selected, hsearch, hpicks⟩ := returns_bestFit (paddedSize n) hl.chain
      cases hsearch.eq_of_ok hok
      obtain ⟨us, t, vs, rfl, hbest, -, -⟩ := hl.picks_best hpicks
      exact absurd (hfit t (by simp) hbest.free) (not_lt.mpr hbest.le)
    · exact fun h' hext _ => hretry fuel (by omega) h' hext
  · exact alone_served hl (paddedSize_pos hn) hfit

/-- Every request returns, in one of the ways of `Outcome`, with or without dumps. -/
theorem myMalloc_outcome (debug : Bool) (hl : Laid h ts live) (hcont : Contiguous alloc)
    (hn : n + 32 ≤ 2 ^ 64) :
    ∃ r h', Outcome alloc n h ts live r h' ∧ ∃ k, ∀ fuel, k ≤ fuel →
      (myMalloc debug fuel n).alone (Access.exec alloc) h = .ok (r, h') := by
  obtain ⟨r, h', hret, ho⟩ := Vika4.myMalloc_outcome hl hcont hn
  obtain ⟨k, hk⟩ := hret.eventually
  obtain ⟨l, hsame⟩ := alone_myMalloc_laid debug hl hcont hn
  refine ⟨r, h', ho, max k l, ?_⟩
  intro fuel hfuel
  rw [hsame fuel (by omega)]
  exact hk fuel (by omega)

/-! ### Proper calls -/

/-- The size of the request can be padded, or the pointer is live. -/
def Proper (live : List ℕ) : Call → Prop
  | .malloc n => n + 32 ≤ 2 ^ 64
  | .free address => ∀ p, address = some p → p ∈ live
  | .dump => True

def liveAfter (live : List ℕ) : Call → Option ℕ → List ℕ
  | .malloc _, p => p.toList ++ live
  | .free (some p), _ => live.erase p
  | _, _ => live

variable {h' : Heap σ} {c : Call}

/-- A proper call that returns leaves a laid out heap. -/
theorem laid_of_call (hcont : Contiguous alloc) (hl : Laid h ts live) (hc : Proper live c)
    {fuel : ℕ} {p : Option ℕ}
    (hok : (code debug (c, fuel)).alone (Access.exec alloc) h = .ok (p, h')) :
    ∃ ts', Laid h' ts' (liveAfter live c p) := by
  cases c with
  | malloc n =>
    obtain ⟨r, h₁, hret, ho⟩ := Vika4.myMalloc_outcome hl hcont hc
    cases hret.eq_of_ok (myMalloc_of_alone hok)
    obtain ⟨ts', hlaid, -⟩ := ho.laid hl
    exact ⟨ts', hlaid⟩
  | free address =>
    simp only [code, alone_bind, alone_myFree, bind_assoc] at hok
    obtain ⟨h₁, hfree, hok⟩ := bind_eq_ok.mp hok
    cases hok
    cases address with
    | none =>
      cases hfree
      exact ⟨ts, hl⟩
    | some p =>
      obtain ⟨us, t, vs, h', -, -, -, hret, hlaid, -⟩ := Vika4.returns_myFree hl (hc p rfl)
      cases hret.eq_of_ok hfree
      exact ⟨_, hlaid⟩
  | dump =>
    simp only [code, alone_bind, alone_dumpAllocator, bind_assoc] at hok
    obtain ⟨blocks, -, hok⟩ := bind_eq_ok.mp hok
    obtain ⟨free, -, hok⟩ := bind_eq_ok.mp hok
    cases hok
    exact ⟨ts, hl⟩

/-- A proper call on a laid out heap returns. -/
theorem returns_of_laid (debug : Bool) (hcont : Contiguous alloc) (hl : Laid h ts live)
    (hc : Proper live c) :
    ∃ p h' k, ∀ fuel, k ≤ fuel →
      (code debug (c, fuel)).alone (Access.exec alloc) h = .ok (p, h') := by
  cases c with
  | malloc n =>
    obtain ⟨r, h', -, k, hk⟩ := myMalloc_outcome debug hl hcont hc
    exact ⟨r, h', k, hk⟩
  | free address =>
    have hfree : ∃ h', Returns .outOfFuel (fun fuel => Vika4.myFree fuel address h) (.ok h') := by
      cases address with
      | none => exact ⟨h, .const _⟩
      | some p =>
        obtain ⟨us, t, vs, h', -, -, -, hret, -⟩ := Vika4.returns_myFree hl (hc p rfl)
        exact ⟨h', hret⟩
    obtain ⟨h', hret⟩ := hfree
    obtain ⟨k, hk⟩ := hret.eventually
    refine ⟨none, h', k, ?_⟩
    intro fuel hfuel
    have hok : Vika4.myFree fuel address h = .ok h' := hk fuel hfuel
    simp only [code, alone_bind, alone_myFree, bind_assoc, hok]
    rfl
  | dump =>
    obtain ⟨k, hk⟩ := dumps_of_laid hl alloc true
    refine ⟨none, h, k, ?_⟩
    intro fuel hfuel
    have hok : (call (dumpAllocator fuel)).alone (Access.exec alloc) h = .ok ((), h) :=
      hk fuel hfuel
    rw [alone_call] at hok
    simp only [code, alone_bind, hok]
    rfl

end StyLinux.Malloc.Vika9
