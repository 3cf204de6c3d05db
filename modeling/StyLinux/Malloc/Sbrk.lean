import StyLinux.Malloc.NullResult

/-!
# The program break

`allocHeap` as it is compiled with `USE_REAL_SBRK`: the static variable `heapSize` is to
hold the size obtained so far, and an extension moves the program break by the difference
to the new size. After an extension the code adds the new size to `heapSize` instead of
storing it, so that the second extension obtains nothing and later ones give memory back.
-/

namespace StyLinux.Malloc

open Lib

/-- The value of a `uint64_t` that is converted to `intptr_t`. -/
def toSigned (n : ℕ) : ℤ := if n < 2 ^ 63 then n else (n : ℤ) - 2 ^ 64

/-- The static variable of `allocHeap` and the state of the kernel behind `sbrk`. -/
structure Sbrk (ω : Type) where
  heapSize : ℕ
  kernel : ω

/-- `allocHeap(currentHeap, size)` over a system call `sbrk`, which returns an address and
the next state of the kernel. -/
def sbrkHeap {ω : Type} (sbrk : ℤ → ω → ℕ × ω) : AllocHeap (Sbrk ω) := fun currentHeap size s =>
  match currentHeap with
  | none =>
    let (newHeap, kernel) := sbrk (toSigned size) s.kernel
    if newHeap = 0 then (none, ⟨s.heapSize, kernel⟩) else (some newHeap, ⟨size, kernel⟩)
  | some start =>
    let (newstart, kernel) := sbrk (toSigned (sub64 size s.heapSize)) s.kernel
    if newstart = 0 then (none, ⟨s.heapSize, kernel⟩)
    else (some start, ⟨wrap64 (s.heapSize + size), kernel⟩)

/-- An `sbrk` that always succeeds: it moves the break and returns the previous one. -/
def moveBreak (d : ℤ) (brk : ℤ) : ℕ × ℤ := (brk.toNat, brk + d)

/-! ### What the calls of an allocator do to the heap bounds -/

/-- A successful extension of the heap, an attempt for which `allocHeap` returned `NULL`, or
any other work on the blocks. -/
inductive HeapEvent
  | extend
  | refuse
  | other
  deriving DecidableEq, Repr

section Events

variable {σ : Type} {allocHeap : AllocHeap σ} {h h' h'' : Heap σ}

inductive EventStep (allocHeap : AllocHeap σ) : Heap σ → HeapEvent → Heap σ → Prop
  | extend (fuel : ℕ) (h h' : Heap σ) : extendHeap allocHeap fuel h = .ok (true, h') →
      EventStep allocHeap h .extend h'
  | refuse (fuel : ℕ) (h h' : Heap σ) : extendHeap allocHeap fuel h = .ok (false, h') →
      EventStep allocHeap h .refuse h'
  | other (h h' : Heap σ) : h'.heapStart = h.heapStart → h'.heapSize = h.heapSize →
      h'.os = h.os → EventStep allocHeap h .other h'

/-- Some events lead from the first heap to the second one. -/
def Traced (allocHeap : AllocHeap σ) (h h' : Heap σ) : Prop :=
  ∃ run, IsRun (EventStep allocHeap) h run ∧ lastState h run = h'

lemma Traced.refl (h : Heap σ) : Traced allocHeap h h := ⟨[], trivial, rfl⟩

lemma Traced.cons {e : HeapEvent} (hstep : EventStep allocHeap h e h')
    (hrest : Traced allocHeap h' h'') : Traced allocHeap h h'' := by
  obtain ⟨run, hrun, hlast⟩ := hrest
  exact ⟨(e, h') :: run, ⟨hstep, hrun⟩, hlast⟩

lemma Traced.single {e : HeapEvent} (hstep : EventStep allocHeap h e h') :
    Traced allocHeap h h' := Traced.cons hstep (Traced.refl h')

lemma eventStep_allocateBlock (l : Link) (a n : ℕ) :
    EventStep allocHeap h .other (allocateBlock h l a n).2 :=
  .other _ _ (by simp) (by simp) (by simp)

/-- Every call of `my_malloc` in `vika4` is a sequence of such events, in any state. -/
theorem Vika4.myMalloc_traced {fuel n : ℕ} {r : Option ℕ}
    (hcall : Vika4.myMalloc allocHeap fuel n h = .ok (r, h')) : Traced allocHeap h h' := by
  induction fuel generalizing n h with
  | zero => exact absurd hcall (by simp [Vika4.myMalloc])
  | succ fuel ih =>
    cases Vika4.myMalloc_returned hcall with
    | tooLarge _ => exact Traced.refl _
    | selected block link _ _ => exact Traced.single (eventStep_allocateBlock _ _ _)
    | refused h' _ _ hext => exact Traced.single (.refuse fuel h h' hext)
    | retried h₁ r h' _ _ hext hretry => exact Traced.cons (.extend fuel h h₁ hext) (ih hretry)

/-- Every call of `my_malloc` in `vika5` is a sequence of such events, in any state. -/
theorem Vika5.myMalloc_traced {fuel n : ℕ} {r : Option ℕ} {s s' : Vika5.State σ}
    (hcall : Vika5.myMalloc allocHeap fuel n s = .ok (r, s')) :
    Traced allocHeap s.toHeap s'.toHeap := by
  induction fuel generalizing n s with
  | zero => exact absurd hcall (by simp [Vika5.myMalloc])
  | succ fuel ih =>
    cases Vika5.myMalloc_returned hcall with
    | tooLarge _ => exact Traced.refl _
    | selected block link s₀ _ _ => exact Traced.single (eventStep_allocateBlock _ _ _)
    | refused s₀ h' _ _ hext => exact Traced.single (.refuse fuel _ h' hext)
    | retried s₀ h₁ r s' _ _ hext hretry => exact Traced.cons (.extend fuel _ h₁ hext) (ih hretry)

/-- `my_free` does not touch the heap bounds. -/
theorem freeBlock_traced {fuel address b : ℕ} (hcall : freeBlock fuel address h = .ok (b, h')) :
    Traced allocHeap h h' := by
  obtain ⟨⟨prev, current⟩, -, hpair⟩ := bind_eq_ok.mp hcall
  let merged := mergePrev (insertFree h (sub64 address HEADER_SIZE) prev current)
    (sub64 address HEADER_SIZE) prev
  have he : mergeNext merged.2 merged.1 current = h' := (Prod.mk.inj (Except.ok.inj hpair)).2
  rw [← he]
  exact Traced.single (.other _ _ (by simp [merged]) (by simp [merged]) (by simp [merged]))

end Events

/-! ### The break of the real heap -/

section Break

variable {h h' : Heap (Sbrk ℤ)}

lemma wrap64_mul_HEAP_SIZE {k : ℕ} (hk : k ≤ 11) : wrap64 (k * HEAP_SIZE) = k * HEAP_SIZE := by
  apply wrap64_of_lt
  rw [HEAP_SIZE_eq]
  omega

lemma toSigned_sub64 {k l : ℕ} (hkl : l ≤ k) (hk : k ≤ 8) :
    toSigned (sub64 (k * HEAP_SIZE) (l * HEAP_SIZE)) = ((k - l : ℕ) : ℤ) * HEAP_SIZE := by
  have hle : l * HEAP_SIZE ≤ k * HEAP_SIZE := Nat.mul_le_mul_right _ hkl
  have hlt : k * HEAP_SIZE < 2 ^ 63 := by
    rw [HEAP_SIZE_eq]
    omega
  rw [sub64_of_le hle (by omega), ← Nat.sub_mul]
  have hdiff : (k - l) * HEAP_SIZE < 2 ^ 63 := by
    rw [Nat.sub_mul]
    omega
  rw [toSigned, if_pos hdiff]
  push_cast
  rfl

/-- The break is at or above the end of the heap, and has not been lowered. -/
def BreakOk (h : Heap (Sbrk ℤ)) (_ : HeapEvent) (h' : Heap (Sbrk ℤ)) : Prop :=
  (h'.heapStart + h'.heapSize : ℤ) ≤ h'.os.kernel ∧ h.os.kernel ≤ h'.os.kernel

def Fresh (h : Heap (Sbrk ℤ)) : Prop :=
  0 < h.heapStart ∧ h.heapSize = HEAP_SIZE ∧ h.os = ⟨HEAP_SIZE, h.heapStart + HEAP_SIZE⟩

def Extended (h : Heap (Sbrk ℤ)) : Prop :=
  0 < h.heapStart ∧ h.heapSize = 2 * HEAP_SIZE ∧
    h.os = ⟨3 * HEAP_SIZE, h.heapStart + 2 * HEAP_SIZE⟩

lemma addHeapBlock_bounds {σ : Type} {h h' : Heap σ} {fuel : ℕ}
    (hok : addHeapBlock fuel h = .ok h') :
    h'.heapStart = h.heapStart ∧ h'.heapSize = wrap64 (h.heapSize + HEAP_SIZE) ∧ h'.os = h.os := by
  obtain ⟨l, -, hwrite⟩ := bind_eq_ok.mp hok
  rw [← Except.ok.inj hwrite]
  refine ⟨?_, ?_, ?_⟩
  · rw [Heap.heapStart_write, Heap.heapStart_write, Heap.heapStart_write, Heap.heapStart_setSize]
  · rw [Heap.heapSize_write, Heap.heapSize_write, Heap.heapSize_write, Heap.heapSize_setSize]
  · rw [Heap.os_write, Heap.os_write, Heap.os_write, Heap.os_setSize]

lemma extendHeap_sbrk {fuel : ℕ} {extended : Bool} (hpos : h.os.kernel.toNat ≠ 0)
    (hok : extendHeap (sbrkHeap moveBreak) fuel h = .ok (extended, h')) :
    extended = true ∧ h'.heapStart = h.heapStart ∧
      h'.heapSize = wrap64 (h.heapSize + HEAP_SIZE) ∧
      h'.os = ⟨wrap64 (h.os.heapSize + wrap64 (h.heapSize + HEAP_SIZE)),
        h.os.kernel + toSigned (sub64 (wrap64 (h.heapSize + HEAP_SIZE)) h.os.heapSize)⟩ := by
  have hA : sbrkHeap moveBreak (some h.heapStart) (wrap64 (h.heapSize + HEAP_SIZE)) h.os =
      (some h.heapStart, ⟨wrap64 (h.os.heapSize + wrap64 (h.heapSize + HEAP_SIZE)),
        h.os.kernel + toSigned (sub64 (wrap64 (h.heapSize + HEAP_SIZE)) h.os.heapSize)⟩) := by
    simp [sbrkHeap, moveBreak, hpos]
  unfold extendHeap at hok
  rw [hA] at hok
  obtain ⟨h₁, hadd, hpair⟩ := bind_eq_ok.mp hok
  obtain ⟨rfl, rfl⟩ := Prod.mk.inj (Except.ok.inj hpair)
  obtain ⟨hstart, hsize, hos⟩ := addHeapBlock_bounds hadd
  rw [Heap.heapStart_withOs] at hstart
  rw [Heap.heapSize_withOs] at hsize
  rw [Heap.os_withOs] at hos
  exact ⟨rfl, hstart, hsize, hos⟩

lemma Fresh.step {e : HeapEvent} (hh : Fresh h) (hstep : EventStep (sbrkHeap moveBreak) h e h') :
    BreakOk h e h' ∧ (e = .other ∧ Fresh h' ∨ e = .extend ∧ Extended h') := by
  obtain ⟨hpos, hsize, hos⟩ := hh
  have hbrk : h.os.kernel.toNat ≠ 0 := by
    rw [hos]
    simp only
    omega
  have hext : ∀ {fuel : ℕ} {extended : Bool},
      extendHeap (sbrkHeap moveBreak) fuel h = .ok (extended, h') →
      extended = true ∧ Extended h' ∧ BreakOk h e h' := by
    intro fuel extended hok
    obtain ⟨htrue, hstart', hsize', hos'⟩ := extendHeap_sbrk hbrk hok
    have htwo : wrap64 (h.heapSize + HEAP_SIZE) = 2 * HEAP_SIZE := by
      rw [hsize, ← two_mul, wrap64_mul_HEAP_SIZE (by norm_num)]
    have hsum : HEAP_SIZE + 2 * HEAP_SIZE = 3 * HEAP_SIZE := by ring
    have hthree : wrap64 (HEAP_SIZE + 2 * HEAP_SIZE) = 3 * HEAP_SIZE := by
      rw [hsum, wrap64_mul_HEAP_SIZE (by norm_num)]
    have hmove : toSigned (sub64 (2 * HEAP_SIZE) HEAP_SIZE) = HEAP_SIZE := by
      have hdiff := @toSigned_sub64 2 1 (by norm_num) (by norm_num)
      rw [one_mul] at hdiff
      simpa using hdiff
    rw [htwo] at hsize' hos'
    rw [hos] at hos'
    simp only [hmove, hthree] at hos'
    refine ⟨htrue, ⟨by omega, hsize', ?_⟩, ?_, ?_⟩
    · have hbrk' : (h.heapStart : ℤ) + HEAP_SIZE + HEAP_SIZE = h.heapStart + 2 * HEAP_SIZE := by
        ring
      rw [hos', hstart', hbrk']
    · rw [hos', hstart', hsize']
      simp only
      omega
    · rw [hos', hos]
      simp only
      omega
  cases hstep with
  | extend fuel _ _ hok =>
    obtain ⟨-, hextended, hbreak⟩ := hext hok
    exact ⟨hbreak, .inr ⟨rfl, hextended⟩⟩
  | refuse fuel _ _ hok => exact absurd (hext hok).1 (by simp)
  | other _ _ hstart' hsize' hos' =>
    have hfresh : Fresh h' := by
      refine ⟨by omega, hsize'.trans hsize, ?_⟩
      rw [hos', hstart', hos]
    refine ⟨⟨?_, ?_⟩, .inl ⟨rfl, hfresh⟩⟩
    · rw [hos', hstart', hsize', hos, hsize]
    · rw [hos']

lemma Extended.step {e : HeapEvent} (hh : Extended h)
    (hstep : EventStep (sbrkHeap moveBreak) h e h') :
    e = .other ∧ Extended h' ∧ BreakOk h e h' ∨ e = .extend ∧ ¬BreakOk h e h' := by
  obtain ⟨hpos, hsize, hos⟩ := hh
  have hbrk : h.os.kernel.toNat ≠ 0 := by
    rw [hos]
    simp only
    omega
  have hext : ∀ {fuel : ℕ} {extended : Bool},
      extendHeap (sbrkHeap moveBreak) fuel h = .ok (extended, h') →
      extended = true ∧ ¬BreakOk h e h' := by
    intro fuel extended hok
    obtain ⟨htrue, hstart', hsize', hos'⟩ := extendHeap_sbrk hbrk hok
    refine ⟨htrue, ?_⟩
    have hsum : 2 * HEAP_SIZE + HEAP_SIZE = 3 * HEAP_SIZE := by ring
    have hthree : wrap64 (h.heapSize + HEAP_SIZE) = 3 * HEAP_SIZE := by
      rw [hsize, hsum, wrap64_mul_HEAP_SIZE (by norm_num)]
    have hmove : toSigned (sub64 (3 * HEAP_SIZE) (3 * HEAP_SIZE)) = 0 := by
      rw [toSigned_sub64 le_rfl (by norm_num)]
      simp
    rw [hthree] at hsize' hos'
    rw [hos] at hos'
    simp only [hmove] at hos'
    rintro ⟨hend, -⟩
    rw [hos', hstart', hsize', HEAP_SIZE_eq] at hend
    simp only at hend
    omega
  cases hstep with
  | extend fuel _ _ hok => exact .inr ⟨rfl, (hext hok).2⟩
  | refuse fuel _ _ hok => exact absurd (hext hok).1 (by simp)
  | other _ _ hstart' hsize' hos' =>
    left
    refine ⟨rfl, ⟨by omega, hsize'.trans hsize, ?_⟩, ?_, ?_⟩
    · rw [hos', hstart', hos]
    · rw [hos', hstart', hsize', hos, hsize]
      simp only
      omega
    · rw [hos']

lemma fresh_initAllocator {mem : ℕ → Block} {brk : ℤ}
    (hinit : initAllocator (sbrkHeap moveBreak) mem ⟨0, brk⟩ = .ok h) : Fresh h := by
  have hsize : toSigned HEAP_SIZE = HEAP_SIZE := by
    simp [toSigned, HEAP_SIZE_eq]
  unfold initAllocator at hinit
  by_cases hbrk : brk.toNat = 0
  · simp [sbrkHeap, moveBreak, hbrk] at hinit
  · simp only [sbrkHeap, moveBreak, hbrk, hsize, if_false] at hinit
    rw [← Except.ok.inj hinit]
    refine ⟨by simpa using hbrk, by simp, ?_⟩
    simp only [Heap.os_write, Heap.os_setSize, Heap.heapStart_write, Heap.heapStart_setSize]
    congr 1
    omega

def extensions {σ : Type} (run : List (HeapEvent × Heap σ)) : ℕ :=
  run.countP (fun x => x.1 = .extend)

lemma Extended.run {run : List (HeapEvent × Heap (Sbrk ℤ))} (hh : Extended h)
    (hrun : IsRun (EventStep (sbrkHeap moveBreak)) h run) :
    IsRun BreakOk h run ↔ extensions run = 0 := by
  induction run generalizing h with
  | nil => simp [extensions]
  | cons x run ih =>
    obtain ⟨e, h'⟩ := x
    rcases hh.step hrun.1 with ⟨rfl, hext, hbreak⟩ | ⟨rfl, hbreak⟩
    · rw [isRun_cons, ih hext hrun.2]
      simp [extensions, hbreak]
    · simp [extensions, hbreak]

lemma Fresh.run {run : List (HeapEvent × Heap (Sbrk ℤ))} (hh : Fresh h)
    (hrun : IsRun (EventStep (sbrkHeap moveBreak)) h run) :
    IsRun BreakOk h run ↔ extensions run ≤ 1 := by
  induction run generalizing h with
  | nil => simp [extensions]
  | cons x run ih =>
    obtain ⟨e, h'⟩ := x
    obtain ⟨hbreak, ⟨rfl, hfresh⟩ | ⟨rfl, hext⟩⟩ := hh.step hrun.1
    · rw [isRun_cons, ih hfresh hrun.2]
      simp [extensions, hbreak]
    · rw [isRun_cons, hext.run hrun.2]
      simp [extensions, hbreak]

/-- After `initAllocator`, the break stays at or above the end of the heap and is never
lowered exactly as long as the heap is extended at most once. -/
theorem breakOk_iff_extensions_le_one {mem : ℕ → Block} {brk : ℤ}
    (hinit : initAllocator (sbrkHeap moveBreak) mem ⟨0, brk⟩ = .ok h)
    {run : List (HeapEvent × Heap (Sbrk ℤ))}
    (hrun : IsRun (EventStep (sbrkHeap moveBreak)) h run) :
    IsRun BreakOk h run ↔ extensions run ≤ 1 :=
  (fresh_initAllocator hinit).run hrun

end Break

def sbrkArena : Heap (Sbrk ℤ) where
  heapStart := 4096
  heapSize := HEAP_SIZE
  firstFreeBlock := some 4096
  mem := Function.update (fun _ => ⟨0, none⟩) 4096 ⟨HEAP_SIZE, none⟩
  os := ⟨HEAP_SIZE, 4096 + HEAP_SIZE⟩

lemma initAllocator_sbrkArena :
    initAllocator (sbrkHeap moveBreak) (fun _ => ⟨0, none⟩) ⟨0, 4096⟩ = .ok sbrkArena := by
  have hsize : toSigned HEAP_SIZE = HEAP_SIZE := by
    simp [toSigned, HEAP_SIZE_eq]
  simp [initAllocator, sbrkHeap, moveBreak, sbrkArena, Heap.setSize, Heap.write, hsize]

def sbrkExtended (h : Heap (Sbrk ℤ)) : Heap (Sbrk ℤ) :=
  match extendHeap (sbrkHeap moveBreak) 5 h with
  | .ok (_, h') => h'
  | .error _ => h

def sbrkRun : List (HeapEvent × Heap (Sbrk ℤ)) :=
  [(.extend, sbrkExtended sbrkArena), (.extend, sbrkExtended (sbrkExtended sbrkArena))]

lemma isRun_sbrkRun : IsRun (EventStep (sbrkHeap moveBreak)) sbrkArena sbrkRun :=
  ⟨.extend 5 _ _ rfl, .extend 5 _ _ rfl, trivial⟩

theorem breakOk_sbrkRun : IsRun BreakOk sbrkArena sbrkRun ↔ extensions sbrkRun ≤ 1 :=
  breakOk_iff_extensions_le_one initAllocator_sbrkArena isRun_sbrkRun

/-- After the second extension the heap ends above the break. -/
theorem not_breakOk_sbrkRun :
    initAllocator (sbrkHeap moveBreak) (fun _ => ⟨0, none⟩) ⟨0, 4096⟩ = .ok sbrkArena ∧
    IsRun (EventStep (sbrkHeap moveBreak)) sbrkArena sbrkRun ∧
      ¬IsRun BreakOk sbrkArena sbrkRun := by
  refine ⟨initAllocator_sbrkArena, isRun_sbrkRun, ?_⟩
  rw [(fresh_initAllocator initAllocator_sbrkArena).run isRun_sbrkRun]
  simp [extensions, sbrkRun]

end StyLinux.Malloc
