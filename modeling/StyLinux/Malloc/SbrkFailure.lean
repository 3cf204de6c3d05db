import StyLinux.Malloc.Recorded
import StyLinux.Malloc.Sbrk

/-!
# No memory from `sbrk`

When `sbrk` fails it returns `(void *)-1` and leaves the break where it was. `allocHeap` compares
the result with `NULL`, takes the failure for a success, and `my_malloc` goes on with a block that
lies behind the break.
-/

namespace StyLinux.Malloc

open Lib

variable {S ω : Type} {sbrk : ℤ → ω → ℕ × ω} {h h' : Heap (Sbrk ω)} {fuel n : ℕ} {r : Option ℕ}

/-- `(void *)-1`. -/
def SBRK_FAILED : ℕ := 2 ^ 64 - 1

/-- The call of `allocHeap` with which `my_malloc` extends the heap. -/
def requestHeap (sbrk : ℤ → ω → ℕ × ω) (h : Heap (Sbrk ω)) : Option ℕ × Sbrk ω :=
  sbrkHeap sbrk (some h.heapStart) (wrap64 (h.heapSize + HEAP_SIZE)) h.os

/-- The system call that this makes fails. -/
def SbrkFails (sbrk : ℤ → ω → ℕ × ω) (h : Heap (Sbrk ω)) : Prop :=
  sbrk (toSigned (sub64 (wrap64 (h.heapSize + HEAP_SIZE)) h.os.heapSize)) h.os.kernel =
    (SBRK_FAILED, h.os.kernel)

/-- A request for which there is no memory is turned down, and nothing has changed. -/
structure FailureHandled (M : Allocator S (Sbrk ω)) (sbrk : ℤ → ω → ℕ × ω) (s : S) (n : ℕ) :
    Prop where
  reported : (requestHeap sbrk (M.heap s)).1 = none
  static : (requestHeap sbrk (M.heap s)).2.heapSize = (M.heap s).os.heapSize
  turnedDown : ∀ fuel r s', M.malloc fuel n s = .ok (r, s') →
    r = none ∧ (∀ free, FreeList (M.heap s) free → FreeList (M.heap s') free) ∧
      (M.heap s').heapSize = (M.heap s).heapSize

/-- What happens instead: the heap counts as extended, and unless the padded size is as large as
an extension a pointer is returned. -/
structure FailureTaken (M : Allocator S (Sbrk ω)) (sbrk : ℤ → ω → ℕ × ω) (s : S) (n : ℕ) :
    Prop where
  reported : (requestHeap sbrk (M.heap s)).1 = some (M.heap s).heapStart
  static : (requestHeap sbrk (M.heap s)).2.heapSize =
    wrap64 ((M.heap s).os.heapSize + wrap64 ((M.heap s).heapSize + HEAP_SIZE))
  goesOn : ∀ fuel r s', M.malloc fuel n s = .ok (r, s') →
    (r = none ↔ paddedSize n = HEAP_SIZE) ∧
      (M.heap s').heapSize = wrap64 ((M.heap s).heapSize + HEAP_SIZE)

lemma requestHeap_of_fails (hfails : SbrkFails sbrk h) : requestHeap sbrk h =
    (some h.heapStart,
      ⟨wrap64 (h.os.heapSize + wrap64 (h.heapSize + HEAP_SIZE)), h.os.kernel⟩) := by
  have hne : SBRK_FAILED ≠ 0 := by decide
  unfold SbrkFails at hfails
  simp only [requestHeap, sbrkHeap, hfails, hne, if_false]

lemma FailureTaken.not_handled {M : Allocator S (Sbrk ω)} {s : S} (ht : FailureTaken M sbrk s n) :
    ¬FailureHandled M sbrk s n := by
  intro hh
  have hnone := ht.reported.symm.trans hh.reported
  exact absurd hnone (by simp)

/-! ### The retry -/

lemma extendHeap_of_fails {extended : Bool} (hfails : SbrkFails sbrk h)
    (hok : extendHeap (sbrkHeap sbrk) fuel h = .ok (extended, h')) :
    extended = true ∧ Reaches h' ∧ h'.heapSize = wrap64 (h.heapSize + HEAP_SIZE) := by
  have hreq := requestHeap_of_fails hfails
  rcases extendHeap_cases hok with ⟨-, hnone, -⟩ | ⟨htrue, hreach⟩
  · unfold requestHeap at hreq
    rw [Exhausted, hreq] at hnone
    cases hnone
  · refine ⟨htrue, hreach, ?_⟩
    unfold extendHeap at hok
    unfold requestHeap at hreq
    rw [hreq] at hok
    obtain ⟨h₁, hadd, hpair⟩ := bind_eq_ok.mp hok
    obtain ⟨-, rfl⟩ := Prod.mk.inj (Except.ok.inj hpair)
    obtain ⟨-, hsize, -⟩ := addHeapBlock_bounds hadd
    rwa [Heap.heapSize_withOs] at hsize

/-- The size of the retry is a multiple of 16, so that it is too large only if it is as large as
an extension. -/
lemma retry_tooLarge_iff (hn : paddedSize n ≤ HEAP_SIZE) :
    HEAP_SIZE < paddedSize (paddedSize n) ↔ paddedSize n = HEAP_SIZE := by
  constructor
  · intro hlarge
    by_contra hne
    exact absurd (paddedSize_retry hn hne) (not_le.mpr hlarge)
  · intro heq
    rw [paddedSize_paddedSize hn]
    omega

lemma Vika4.retry_of_reaches (hreach : Reaches h)
    (hcall : Vika4.myMalloc (sbrkHeap sbrk) fuel n h = .ok (r, h')) :
    (r = none ↔ HEAP_SIZE < paddedSize n) ∧ h'.heapSize = h.heapSize := by
  cases fuel with
  | zero => cases hcall
  | succ fuel =>
    cases Vika4.myMalloc_returned hcall with
    | tooLarge hlarge => exact ⟨iff_of_true rfl hlarge, rfl⟩
    | selected block link hsmall _ =>
      exact ⟨iff_of_false (by simp) (not_lt.mpr hsmall), by simp⟩
    | refused _ hsmall hsearch _ => exact absurd hsearch (bestFit_reaches hreach hsmall)
    | retried _ _ _ hsmall hsearch _ _ => exact absurd hsearch (bestFit_reaches hreach hsmall)

lemma Vika4.goesOn (hn : paddedSize n ≤ HEAP_SIZE) (hneeds : ¬Fits h (paddedSize n))
    (hfails : SbrkFails sbrk h) (hcall : Vika4.myMalloc (sbrkHeap sbrk) fuel n h = .ok (r, h')) :
    (r = none ↔ paddedSize n = HEAP_SIZE) ∧
      h'.heapSize = wrap64 (h.heapSize + HEAP_SIZE) := by
  cases fuel with
  | zero => cases hcall
  | succ fuel =>
    cases Vika4.myMalloc_returned hcall with
    | tooLarge hlarge => exact absurd hlarge (not_lt.mpr hn)
    | selected _ _ _ hsearch => exact absurd ⟨_, bestFit_listed hsearch⟩ hneeds
    | refused _ _ _ hext =>
      have hfalse := (extendHeap_of_fails hfails hext).1
      cases hfalse
    | retried h₁ _ _ _ _ hext hretry =>
      obtain ⟨-, hreach, hsize⟩ := extendHeap_of_fails hfails hext
      obtain ⟨hnone, hkept⟩ := Vika4.retry_of_reaches hreach hretry
      exact ⟨hnone.trans (retry_tooLarge_iff hn), hkept.trans hsize⟩

namespace Vika5

variable {s s' : State (Sbrk ω)}

lemma retry_of_reaches (hreach : Reaches s.toHeap)
    (hcursor : s.allocationStrategy = .nextFit → s.nextFitCursor = s.firstFreeBlock)
    (hcall : myMalloc (sbrkHeap sbrk) fuel n s = .ok (r, s')) :
    (r = none ↔ HEAP_SIZE < paddedSize n) ∧ s'.heapSize = s.heapSize := by
  cases fuel with
  | zero => cases hcall
  | succ fuel =>
    cases myMalloc_returned hcall with
    | tooLarge hlarge => exact ⟨iff_of_true rfl hlarge, rfl⟩
    | selected block link s₀ hsmall _ =>
      exact ⟨iff_of_false (by simp) (not_lt.mpr hsmall), by simp [State.update]⟩
    | refused _ _ hsmall hsearch _ =>
      exact absurd hsearch (selectBlock_reaches hreach hsmall hcursor)
    | retried _ _ _ _ hsmall hsearch _ _ =>
      exact absurd hsearch (selectBlock_reaches hreach hsmall hcursor)

lemma goesOn (hn : paddedSize n ≤ HEAP_SIZE) (hneeds : ¬Finds s (paddedSize n))
    (hfails : SbrkFails sbrk s.toHeap)
    (hcall : myMalloc (sbrkHeap sbrk) fuel n s = .ok (r, s')) :
    (r = none ↔ paddedSize n = HEAP_SIZE) ∧
      s'.heapSize = wrap64 (s.heapSize + HEAP_SIZE) := by
  cases fuel with
  | zero => cases hcall
  | succ fuel =>
    cases myMalloc_returned hcall with
    | tooLarge hlarge => exact absurd hlarge (not_lt.mpr hn)
    | selected _ _ _ _ hsearch => exact absurd ⟨_, selectBlock_some hsearch⟩ hneeds
    | refused _ _ _ _ hext =>
      have hfalse := (extendHeap_of_fails hfails hext).1
      cases hfalse
    | retried s₀ h₁ _ _ _ hsearch hext hretry =>
      obtain ⟨-, hreach, hsize⟩ := extendHeap_of_fails hfails hext
      obtain ⟨hnone, hkept⟩ := retry_of_reaches hreach (cursor_update s₀ h₁ _) hretry
      exact ⟨hnone.trans (retry_tooLarge_iff hn), hkept.trans hsize⟩

end Vika5

lemma BestFit.failureTaken (v : BestFit) (hn : paddedSize n ≤ HEAP_SIZE)
    (hneeds : ¬Fits h (paddedSize n)) (hfails : SbrkFails sbrk h) :
    FailureTaken (v.allocator (sbrkHeap sbrk)) sbrk h n := by
  have hheap : ∀ h, (v.allocator (sbrkHeap sbrk)).heap h = h := by
    intro h
    cases v <;> rfl
  have hreq := requestHeap_of_fails hfails
  refine ⟨?_, ?_, ?_⟩
  · rw [hheap, hreq]
  · rw [hheap, hreq]
  · intro fuel r h' hcall
    rw [hheap, hheap]
    exact Vika4.goesOn hn hneeds hfails (BestFit.malloc_eq hcall)

lemma Vika5.failureTaken {s : Vika5.State (Sbrk ω)} (hn : paddedSize n ≤ HEAP_SIZE)
    (hneeds : ¬Vika5.Finds s (paddedSize n)) (hfails : SbrkFails sbrk s.toHeap) :
    FailureTaken (Vika5.allocator (sbrkHeap sbrk)) sbrk s n where
  reported := congrArg Prod.fst (requestHeap_of_fails hfails)
  static := congrArg (fun x => x.2.heapSize) (requestHeap_of_fails hfails)
  goesOn _ _ _ hcall := Vika5.goesOn hn hneeds hfails hcall

/-- In no state does an allocator handle a failure of `sbrk` when it has to extend the heap. -/
theorem not_failureHandled :
    (∀ (v : BestFit) (h : Heap (Sbrk ω)) (n : ℕ), paddedSize n ≤ HEAP_SIZE →
      ¬Fits h (paddedSize n) → SbrkFails sbrk h →
      FailureTaken (v.allocator (sbrkHeap sbrk)) sbrk h n ∧
        ¬FailureHandled (v.allocator (sbrkHeap sbrk)) sbrk h n) ∧
    ∀ (s : Vika5.State (Sbrk ω)) (n : ℕ), paddedSize n ≤ HEAP_SIZE →
      ¬Vika5.Finds s (paddedSize n) → SbrkFails sbrk s.toHeap →
      FailureTaken (Vika5.allocator (sbrkHeap sbrk)) sbrk s n ∧
        ¬FailureHandled (Vika5.allocator (sbrkHeap sbrk)) sbrk s n := by
  constructor
  · intro v h n hn hneeds hfails
    have htaken := v.failureTaken hn hneeds hfails
    exact ⟨htaken, htaken.not_handled⟩
  · intro s n hn hneeds hfails
    have htaken := Vika5.failureTaken hn hneeds hfails
    exact ⟨htaken, htaken.not_handled⟩

/-! ### A limit for the break -/

/-- An `sbrk` that fails instead of moving the break beyond `limit`. -/
def limitedBreak (limit d brk : ℤ) : ℕ × ℤ :=
  if brk + d ≤ limit then (brk.toNat, brk + d) else (SBRK_FAILED, brk)

/-- There is room for the first `HEAP_SIZE` bytes only. -/
def smallBreak : ℤ → ℤ → ℕ × ℤ := limitedBreak (4096 + HEAP_SIZE)

lemma initAllocator_smallBreak :
    initAllocator (sbrkHeap smallBreak) (fun _ => ⟨0, none⟩) ⟨0, 4096⟩ = .ok sbrkArena := by
  have hsize : toSigned HEAP_SIZE = HEAP_SIZE := by
    simp [toSigned, HEAP_SIZE_eq]
  simp [initAllocator, sbrkHeap, smallBreak, limitedBreak, sbrkArena, Heap.setSize, Heap.write,
    hsize]

def sbrkFull : Heap (Sbrk ℤ) := (allocateBlock sbrkArena .first 4096 HEAP_SIZE).2

lemma isRun_sbrkFull : IsRun (Step (Vika4.allocator (sbrkHeap smallBreak)))
    (Vika4.initial sbrkArena) [(.malloc (HEAP_SIZE - 16), ⟨sbrkFull, [4112]⟩)] :=
  ⟨.malloc _ _ (some 4112) _ (by decide) ⟨3, rfl⟩, trivial⟩

lemma sbrkFails_sbrkFull : SbrkFails smallBreak sbrkFull := by
  unfold SbrkFails
  decide

def sbrkFullState : Vika5.State (Sbrk ℤ) where
  toHeap := sbrkFull
  allocationStrategy := .bestFit
  nextFitCursor := none

theorem failureTaken_sbrkFull :
    FailureTaken (Vika4.allocator (sbrkHeap smallBreak)) smallBreak sbrkFull 100 ∧
    FailureTaken (Vika5.allocator (sbrkHeap smallBreak)) smallBreak sbrkFullState 100 := by
  have hboth := @not_failureHandled ℤ smallBreak
  have hneeds : ¬Fits sbrkFull (paddedSize 100) := not_fits_of_empty rfl
  constructor
  · exact (hboth.1 .vika4 sbrkFull 100 (by decide) hneeds sbrkFails_sbrkFull).1
  · exact (hboth.2 sbrkFullState 100 (by decide) hneeds sbrkFails_sbrkFull).1

/-- When the break is at its limit, `allocHeap` returns the heap instead of `NULL`. -/
theorem not_failureHandled_sbrkFull :
    initAllocator (sbrkHeap smallBreak) (fun _ => ⟨0, none⟩) ⟨0, 4096⟩ = .ok sbrkArena ∧
    IsRun (Step (Vika4.allocator (sbrkHeap smallBreak))) (Vika4.initial sbrkArena)
      [(.malloc (HEAP_SIZE - 16), ⟨sbrkFull, [4112]⟩)] ∧
    SbrkFails smallBreak sbrkFull ∧ ¬Fits sbrkFull (paddedSize 100) ∧
    (requestHeap smallBreak sbrkFull).1 = some 4096 ∧
    ¬FailureHandled (Vika4.allocator (sbrkHeap smallBreak)) smallBreak sbrkFull 100 := by
  have hneeds : ¬Fits sbrkFull (paddedSize 100) := not_fits_of_empty rfl
  have htaken := BestFit.vika4.failureTaken (by decide) hneeds sbrkFails_sbrkFull
  exact ⟨initAllocator_smallBreak, isRun_sbrkFull, sbrkFails_sbrkFull, hneeds, htaken.reported,
    htaken.not_handled⟩

end StyLinux.Malloc
