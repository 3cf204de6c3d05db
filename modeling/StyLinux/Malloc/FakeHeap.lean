import StyLinux.Malloc.Sbrk

/-!
# The heap without `sbrk`

`allocHeap` as it is compiled without `USE_REAL_SBRK`: it obtains ten times the requested size from
`malloc` at the first call, and grants extensions as long as they fit. A client of the allocator
cannot tell it from memory that the kernel adds behind the heap.
-/

namespace StyLinux.Malloc

open Lib

/-- The static variable of `allocHeap` and the state behind `malloc`. -/
structure Fake (ω : Type) where
  heapSize : ℕ
  libc : ω

variable {ω : Type}

/-- `allocHeap(currentHeap, size)` over `malloc`. -/
def fakeHeap (malloc : ℕ → ω → Option ℕ × ω) : AllocHeap (Fake ω) := fun currentHeap size s =>
  match currentHeap with
  | none =>
    match malloc (wrap64 (10 * size)) s.libc with
    | (none, libc) => (none, ⟨s.heapSize, libc⟩)
    | (some newHeap, libc) => (some newHeap, ⟨wrap64 (10 * size), libc⟩)
  | some start => if size ≤ s.heapSize then (some start, s) else (none, s)

lemma fakeHeap_some (malloc : ℕ → ω → Option ℕ × ω) (start size : ℕ) (s : Fake ω) :
    fakeHeap malloc (some start) size s =
      if size ≤ s.heapSize then (some start, s) else (none, s) := rfl

/-- `fakeHeap` for extensions of a heap at `start` in an area that has been obtained. -/
def fakeHeapAt (malloc : ℕ → ω → Option ℕ × ω) (start : ℕ) : AllocHeap (Fake ω) :=
  fun currentHeap size s =>
    if currentHeap = none ∨
        currentHeap = some start ∧ s.heapSize = 10 * HEAP_SIZE ∧ HEAP_SIZE ≤ size then
      fakeHeap malloc currentHeap size s
    else (none, s)

/-- The heap begins at `start` and consists of some of ten parts. -/
structure InArea (start : ℕ) (h : Heap (Fake ω)) : Prop where
  start : h.heapStart = start
  area : h.os.heapSize = 10 * HEAP_SIZE
  parts : ∃ k, 0 < k ∧ k ≤ 10 ∧ h.heapSize = k * HEAP_SIZE

variable {malloc : ℕ → ω → Option ℕ × ω} {start fuel n : ℕ} {h h' : Heap (Fake ω)}

lemma contiguous_fakeHeapAt (hmalloc : ∀ n s p s', malloc n s = (some p, s') → p + n < 2 ^ 64)
    (hroom : start + 10 * HEAP_SIZE < 2 ^ 64) : Contiguous (fakeHeapAt malloc start) := by
  constructor
  · intro os p os' hok
    have hten : wrap64 (10 * HEAP_SIZE) = 10 * HEAP_SIZE := wrap64_mul_HEAP_SIZE (by norm_num)
    simp only [fakeHeapAt, true_or, if_true, fakeHeap, hten] at hok
    cases hm : malloc (10 * HEAP_SIZE) os.libc with
    | mk q libc =>
      rw [hm] at hok
      cases q with
      | none => cases hok
      | some q =>
        cases hok
        have hlt := hmalloc _ _ _ _ hm
        omega
  · intro s size os p os' hlt hok
    unfold fakeHeapAt at hok
    split at hok
    · rename_i hcond
      simp only [reduceCtorEq, false_or, Option.some.injEq] at hcond
      obtain ⟨rfl, harea, hge⟩ := hcond
      simp only [fakeHeap, harea] at hok
      split at hok
      · rename_i hle
        by_cases hwrap : size + HEAP_SIZE < 2 ^ 64
        · rw [wrap64_of_lt hwrap] at hle
          omega
        · -- a size that wraps around is less than `HEAP_SIZE`
          have hmod : wrap64 (size + HEAP_SIZE) = size + HEAP_SIZE - 2 ^ 64 := by
            unfold wrap64
            rw [HEAP_SIZE_eq] at hwrap ⊢
            omega
          omega
      · cases hok
    · cases hok

/-! ### The states of the fake heap -/

lemma InArea.congr (hh : InArea start h) (hstart : h'.heapStart = h.heapStart)
    (hsize : h'.heapSize = h.heapSize) (hos : h'.os = h.os) : InArea start h' :=
  ⟨hstart.trans hh.start, hos ▸ hh.area, hsize ▸ hh.parts⟩

lemma extendHeap_congr {σ : Type} {h : Heap σ} {A B : AllocHeap σ}
    (hsame : A (some h.heapStart) (wrap64 (h.heapSize + HEAP_SIZE)) h.os =
      B (some h.heapStart) (wrap64 (h.heapSize + HEAP_SIZE)) h.os) :
    extendHeap A fuel h = extendHeap B fuel h := by
  unfold extendHeap
  rw [hsame]

/-- Requests make use of `allocHeap` in the states `I` only. -/
lemma Vika4.myMalloc_congr {σ : Type} {A B : AllocHeap σ} {I : Heap σ → Prop}
    (hsame : ∀ h, I h → A (some h.heapStart) (wrap64 (h.heapSize + HEAP_SIZE)) h.os =
      B (some h.heapStart) (wrap64 (h.heapSize + HEAP_SIZE)) h.os)
    (hkeep : ∀ fuel h h', I h → extendHeap B fuel h = .ok (true, h') → I h') {h : Heap σ}
    (hh : I h) : Vika4.myMalloc A fuel n h = Vika4.myMalloc B fuel n h := by
  induction fuel generalizing n h with
  | zero => rfl
  | succ fuel ih =>
    simp only [Vika4.myMalloc]
    split
    · rfl
    · refine congrArg _ (funext fun selected => ?_)
      cases selected with
      | some selected => rfl
      | none =>
        simp only [Malloc.afterSearch, extendHeap_congr (hsame h hh)]
        cases hext : extendHeap B fuel h with
        | error e => rfl
        | ok x =>
          obtain ⟨extended, h'⟩ := x
          cases extended with
          | false => rfl
          | true => exact ih (hkeep fuel h h' hh hext)

lemma extendHeap_inv {σ : Type} {A : AllocHeap σ} {h h' : Heap σ} {extended : Bool}
    (hok : extendHeap A fuel h = .ok (extended, h')) :
    (∃ os, A (some h.heapStart) (wrap64 (h.heapSize + HEAP_SIZE)) h.os = (none, os) ∧
      h' = h.withOs os) ∨
    ∃ p os, A (some h.heapStart) (wrap64 (h.heapSize + HEAP_SIZE)) h.os = (some p, os) ∧
      addHeapBlock fuel (h.withOs os) = .ok h' := by
  unfold extendHeap at hok
  cases hA : A (some h.heapStart) (wrap64 (h.heapSize + HEAP_SIZE)) h.os with
  | mk p os =>
    rw [hA] at hok
    cases p with
    | none =>
      cases hok
      exact .inl ⟨os, rfl, rfl⟩
    | some p =>
      obtain ⟨h₁, hadd, hpair⟩ := bind_eq_ok.mp hok
      cases hpair
      exact .inr ⟨p, os, rfl, hadd⟩

/-- The answer to the request for one more part. -/
lemma InArea.request (hh : InArea start h) (malloc : ℕ → ω → Option ℕ × ω) :
    ∃ k, 0 < k ∧ k ≤ 10 ∧ h.heapSize = k * HEAP_SIZE ∧
    wrap64 (h.heapSize + HEAP_SIZE) = (k + 1) * HEAP_SIZE ∧
    fakeHeap malloc (some h.heapStart) (wrap64 (h.heapSize + HEAP_SIZE)) h.os =
      if k < 10 then (some h.heapStart, h.os) else (none, h.os) := by
  obtain ⟨-, harea, k, hpos, hle, hsize⟩ := hh
  have hnext : wrap64 (h.heapSize + HEAP_SIZE) = (k + 1) * HEAP_SIZE := by
    rw [hsize, ← add_one_mul, wrap64_mul_HEAP_SIZE (by omega)]
  refine ⟨k, hpos, hle, hsize, hnext, ?_⟩
  rw [fakeHeap_some, hnext, harea]
  by_cases hk : k < 10
  · rw [if_pos hk, if_pos (Nat.mul_le_mul_right _ hk)]
  · have hover : ¬(k + 1) * HEAP_SIZE ≤ 10 * HEAP_SIZE := by
      rw [HEAP_SIZE_eq]
      omega
    rw [if_neg hk, if_neg hover]

lemma InArea.request_eq (hh : InArea start h) :
    fakeHeapAt malloc start (some h.heapStart) (wrap64 (h.heapSize + HEAP_SIZE)) h.os =
      fakeHeap malloc (some h.heapStart) (wrap64 (h.heapSize + HEAP_SIZE)) h.os := by
  obtain ⟨k, -, -, -, hnext, -⟩ := hh.request malloc
  have hge : HEAP_SIZE ≤ wrap64 (h.heapSize + HEAP_SIZE) := by
    rw [hnext]
    exact Nat.le_mul_of_pos_left _ k.succ_pos
  exact if_pos (.inr ⟨congrArg some hh.start, hh.area, hge⟩)

/-- An extension that is granted is one part, and there is none behind ten parts. -/
lemma InArea.extend (hh : InArea start h) {extended : Bool}
    (hok : extendHeap (fakeHeap malloc) fuel h = .ok (extended, h')) : InArea start h' := by
  obtain ⟨k, -, -, -, hnext, hrequest⟩ := hh.request malloc
  rcases extendHeap_inv hok with ⟨os, hA, rfl⟩ | ⟨p, os, hA, hadd⟩
  · rw [hrequest] at hA
    split at hA
    · cases hA
    · cases hA
      exact hh.congr rfl rfl rfl
  · rw [hrequest] at hA
    split at hA
    · rename_i hk
      cases hA
      obtain ⟨hstart', hsize', hos'⟩ := addHeapBlock_bounds hadd
      refine ⟨hstart'.trans hh.start, ?_, k + 1, k.succ_pos, hk, ?_⟩
      · rw [hos', Heap.os_withOs, hh.area]
      · rw [hsize', Heap.heapSize_withOs, hnext]
    · cases hA

lemma InArea.step (hh : InArea start h) {e : HeapEvent}
    (hstep : EventStep (fakeHeap malloc) h e h') : InArea start h' := by
  cases hstep with
  | extend fuel _ _ hok => exact hh.extend hok
  | refuse fuel _ _ hok => exact hh.extend hok
  | other _ _ hstart hsize hos => exact hh.congr hstart hsize hos

lemma InArea.traced (hh : InArea start h) (htraced : Traced (fakeHeap malloc) h h') :
    InArea start h' := by
  obtain ⟨run, hrun, rfl⟩ := htraced
  exact hrun.invariant (fun _ _ _ hs => hs.step) hh

/-- In these states `my_malloc` does the same with both. -/
lemma InArea.myMalloc_eq (hh : InArea start h) :
    Vika4.myMalloc (fakeHeapAt malloc start) fuel n h =
      Vika4.myMalloc (fakeHeap malloc) fuel n h :=
  Vika4.myMalloc_congr (fun _ => InArea.request_eq) (fun _ _ _ hs => hs.extend) hh

/-! ### Runs of clients -/

lemma InArea.client {c c' : Config (Heap (Fake ω))} {op : Op} (hh : InArea start c.state)
    (hstep : Step (Vika4.allocator (fakeHeap malloc)) c op c') :
    Step (Vika4.allocator (fakeHeapAt malloc start)) c op c' ∧ InArea start c'.state := by
  cases hstep with
  | malloc n r s hn hcall =>
    obtain ⟨fuel, hcall⟩ := hcall
    exact ⟨.malloc c n r s hn ⟨fuel, hh.myMalloc_eq.trans hcall⟩,
      hh.traced (Vika4.myMalloc_traced hcall)⟩
  | freeNull s hcall =>
    refine ⟨.freeNull c s hcall, ?_⟩
    obtain ⟨fuel, hcall⟩ := hcall
    cases hcall
    exact hh
  | free p s hp hcall =>
    refine ⟨.free c p s hp hcall, ?_⟩
    obtain ⟨fuel, hcall⟩ := hcall
    obtain ⟨⟨b, h'⟩, hfree, hpair⟩ := bind_eq_ok.mp hcall
    cases hpair
    have htraced : Traced (fakeHeap malloc) c.state _ := freeBlock_traced hfree
    exact hh.traced htraced
  | write mem hw => exact ⟨.write c mem hw, hh.congr rfl rfl rfl⟩

lemma isRun_fakeHeapAt {c : Config (Heap (Fake ω))} {run : List (Op × Config (Heap (Fake ω)))}
    (hh : InArea start c.state) (hrun : IsRun (Step (Vika4.allocator (fakeHeap malloc))) c run) :
    IsRun (Step (Vika4.allocator (fakeHeapAt malloc start))) c run ∧
      InArea start (lastState c run).state := by
  induction run generalizing c with
  | nil => exact ⟨trivial, hh⟩
  | cons x run ih =>
    obtain ⟨hstep, hnext⟩ := hh.client hrun.1
    obtain ⟨hrest, hlast⟩ := ih hnext hrun.2
    exact ⟨⟨hstep, hrest⟩, hlast⟩

lemma inArea_initAllocator {mem : ℕ → Block} {libc : ω}
    (hinit : initAllocator (fakeHeap malloc) mem ⟨0, libc⟩ = .ok h) :
    (malloc (10 * HEAP_SIZE) libc).1 = some h.heapStart ∧ InArea h.heapStart h ∧
      initAllocator (fakeHeapAt malloc h.heapStart) mem ⟨0, libc⟩ = .ok h := by
  have hten : wrap64 (10 * HEAP_SIZE) = 10 * HEAP_SIZE := wrap64_mul_HEAP_SIZE (by norm_num)
  have hsame : ∀ s, initAllocator (fakeHeapAt malloc s) mem ⟨0, libc⟩ =
      initAllocator (fakeHeap malloc) mem ⟨0, libc⟩ := fun _ => rfl
  rw [hsame]
  refine and_assoc.mp ⟨?_, hinit⟩
  unfold initAllocator at hinit
  simp only [fakeHeap, hten] at hinit
  cases hm : malloc (10 * HEAP_SIZE) libc with
  | mk q libc' =>
    rw [hm] at hinit
    cases q with
    | none => cases hinit
    | some q =>
      cases hinit
      exact ⟨rfl, rfl, rfl, 1, by norm_num, by norm_num, (one_mul _).symm⟩

/-- The answer to a request. -/
lemma InArea.answer (hh : InArea start h) (hcont : Contiguous (fakeHeapAt malloc start))
    {ts : List Chunk} {live : List ℕ} (hl : Laid h ts live) (hn : n + 32 ≤ 2 ^ 64) :
    ∃ r h', Returns .outOfFuel (fun fuel => Vika4.myMalloc (fakeHeap malloc) fuel n h)
      (.ok (r, h')) ∧ (r = none → HEAP_SIZE ≤ paddedSize n ∨ h.heapSize = 10 * HEAP_SIZE) := by
  obtain ⟨r, h', hret, ho⟩ := Vika4.myMalloc_outcome hl hcont hn
  simp only [hh.myMalloc_eq] at hret
  refine ⟨r, h', hret, ?_⟩
  intro hnone
  cases ho with
  | tooLarge hlarge => exact .inl hlarge.le
  | noMemory os _ _ hA =>
    right
    obtain ⟨k, -, hle, hsize, -, hrequest⟩ := hh.request malloc
    rw [hh.request_eq, hrequest] at hA
    split at hA
    · cases hA
    · have hk : k = 10 := by omega
      rw [hsize, hk]
  | served _ _ _ _ _ _ _ _ _ _ _ _ => cases hnone
  | extended _ _ _ _ _ _ _ _ _ _ => cases hnone
  | refused _ _ _ heq _ _ _ _ _ _ => exact .inl heq.ge

/-- The client of the fake heap finds the allocator in order after every call. The heap stays in
the area that `malloc` has given, and `my_malloc` returns `NULL` only for large requests, or when
the area is used up. -/
theorem fakeHeap_of_run (hmalloc : ∀ n s p s', malloc n s = (some p, s') → p + n < 2 ^ 64)
    {mem : ℕ → Block} {libc : ω} (hinit : initAllocator (fakeHeap malloc) mem ⟨0, libc⟩ = .ok h)
    {run : List (Op × Config (Heap (Fake ω)))}
    (hrun : IsRun (Step (Vika4.allocator (fakeHeap malloc))) (Vika4.initial h) run)
    (hreq : StepsMeet Vika4.NoWrap (Vika4.initial h) run) :
    HeapOk (lastState (Vika4.initial h) run).state (lastState (Vika4.initial h) run).live ∧
      (malloc (10 * HEAP_SIZE) libc).1 = some (lastState (Vika4.initial h) run).state.heapStart ∧
      (lastState (Vika4.initial h) run).state.heapSize ≤ 10 * HEAP_SIZE ∧
      ∀ n, n + 32 ≤ 2 ^ 64 → ∃ r h', Returns .outOfFuel
        (fun fuel => Vika4.myMalloc (fakeHeap malloc) fuel n
          (lastState (Vika4.initial h) run).state) (.ok (r, h')) ∧
        (r = none → HEAP_SIZE ≤ paddedSize n ∨
          (lastState (Vika4.initial h) run).state.heapSize = 10 * HEAP_SIZE) := by
  obtain ⟨hgiven, hh, hinit'⟩ := inArea_initAllocator hinit
  have hcont : Contiguous (fakeHeapAt malloc h.heapStart) :=
    contiguous_fakeHeapAt hmalloc (hmalloc _ _ _ _ (Prod.ext hgiven rfl))
  obtain ⟨hrun', hlast⟩ := isRun_fakeHeapAt (c := Vika4.initial h) hh hrun
  obtain ⟨ts, hl, hts⟩ := Vika4.intact_of_run hcont hinit' hrun'
    (hreq.imp fun _ _ => Vika4.noWrap_answered)
  refine ⟨hl.heapOk hts, ?_, ?_, fun n hn => hlast.answer hcont hl hn⟩
  · rw [hlast.start]
    exact hgiven
  · obtain ⟨k, -, hle, hsize⟩ := hlast.parts
    rw [hsize]
    exact Nat.mul_le_mul_right _ hle

/-- A `malloc` that gives memory at 4096 once. -/
def oneArea (n : ℕ) (given : Bool) : Option ℕ × Bool :=
  if given ∨ 2 ^ 63 ≤ n then (none, given) else (some 4096, true)

def fakeArena : Heap (Fake Bool) where
  heapStart := 4096
  heapSize := HEAP_SIZE
  firstFreeBlock := some 4096
  mem := Function.update (fun _ => ⟨0, none⟩) 4096 ⟨HEAP_SIZE, none⟩
  os := ⟨10 * HEAP_SIZE, true⟩

lemma initAllocator_fakeArena :
    initAllocator (fakeHeap oneArea) (fun _ => ⟨0, none⟩) ⟨0, false⟩ = .ok fakeArena := by
  have hten : wrap64 (10 * HEAP_SIZE) = 10 * HEAP_SIZE := wrap64_mul_HEAP_SIZE (by norm_num)
  have hgive : oneArea (10 * HEAP_SIZE) false = (some 4096, true) := by
    norm_num [oneArea, HEAP_SIZE_eq]
  simp [initAllocator, fakeHeap, fakeArena, hten, hgive, Heap.setSize, Heap.write]

def fakeServed : Heap (Fake Bool) := (allocateBlock fakeArena .first 4096 128).2

theorem fakeHeap_fakeServed : HeapOk fakeServed [4112] ∧ fakeServed.heapSize ≤ 10 * HEAP_SIZE := by
  have hmalloc : ∀ n s p s', oneArea n s = (some p, s') → p + n < 2 ^ 64 := by
    intro n s p s' hok
    unfold oneArea at hok
    split at hok
    · cases hok
    · rename_i hfree
      cases hok
      omega
  have hrun : IsRun (Step (Vika4.allocator (fakeHeap oneArea))) (Vika4.initial fakeArena)
      [(.malloc 100, ⟨fakeServed, [4112]⟩)] :=
    ⟨.malloc _ 100 (some 4112) fakeServed (by norm_num) ⟨3, rfl⟩, trivial⟩
  obtain ⟨hok, -, hle, -⟩ := fakeHeap_of_run hmalloc initAllocator_fakeArena hrun
    ⟨by norm_num [Vika4.NoWrap], trivial⟩
  exact ⟨hok, hle⟩

end StyLinux.Malloc
