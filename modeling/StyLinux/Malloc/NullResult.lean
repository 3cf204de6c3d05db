import StyLinux.Malloc.Vika5Runs

/-!
# Requests that return `NULL`

A `NULL` of `my_malloc` should mean that the request is too large or that `allocHeap` gave
no memory, and should leave the heap as it was. The retry after an extension passes the
padded size, and this size is padded once more before it is compared with `HEAP_SIZE`. In
every state whatsoever the retry finds the new block as long as it is not too large.
-/

namespace StyLinux.Malloc

open Lib

variable {S σ : Type} {allocHeap : AllocHeap σ} {h : Heap σ} {n size : ℕ}

/-- The free list, the block headers and the bounds of the heap are the same. -/
def Unchanged (h h' : Heap σ) : Prop :=
  h'.heapStart = h.heapStart ∧ h'.heapSize = h.heapSize ∧
    h'.firstFreeBlock = h.firstFreeBlock ∧ h'.mem = h.mem

def Exhausted (allocHeap : AllocHeap σ) (h : Heap σ) : Prop :=
  (allocHeap (some h.heapStart) (wrap64 (h.heapSize + HEAP_SIZE)) h.os).1 = none

/-- A request returns `NULL` only if it is too large or there is no memory, and then leaves
the heap unchanged. -/
def NullSound (M : Allocator S σ) (allocHeap : AllocHeap σ) (s : S) (n : ℕ) : Prop :=
  ∀ s', (∃ fuel, M.malloc fuel n s = .ok (none, s')) →
    (HEAP_SIZE < paddedSize n ∨ Exhausted allocHeap (M.heap s)) ∧ Unchanged (M.heap s) (M.heap s')

def HasLarge (h : Heap σ) : Prop := ∃ free, FreeList h free ∧ ∃ b ∈ free, HEAP_SIZE ≤ h.size b

/-- The requests that are not padded to `HEAP_SIZE`, those that find a block of that size,
and those that find no memory. -/
def NotAtLimit (allocHeap : AllocHeap σ) (h : Heap σ) (n : ℕ) : Prop :=
  paddedSize n ≠ HEAP_SIZE ∨ HasLarge h ∨ Exhausted allocHeap h

/-! ### Searching for a block that is on the list -/

/-- From `_firstFreeBlock` a block of `HEAP_SIZE` bytes is reached. -/
def Reaches (h : Heap σ) : Prop :=
  ∃ xs new, Path Link.next h.read .first (xs ++ [new]) ∧ new ∉ xs ∧ h.size new = HEAP_SIZE

lemma findInsertPos_path {newBlock fuel : ℕ} {l l' : Link}
    (hok : findInsertPos h newBlock fuel l = .ok l') :
    ∃ xs, Path Link.next h.read l xs ∧ l' = endLink Link.next l xs ∧ ∀ x ∈ xs, x < newBlock := by
  induction fuel generalizing l with
  | zero => exact absurd hok (by simp [findInsertPos])
  | succ fuel ih =>
    unfold findInsertPos at hok
    cases hr : h.read l with
    | none =>
      rw [hr] at hok
      exact ⟨[], trivial, (Except.ok.inj hok).symm, by simp⟩
    | some a =>
      simp only [hr] at hok
      by_cases ha : a < newBlock
      · rw [if_pos ha] at hok
        obtain ⟨xs, hpath, hend, hlt⟩ := ih hok
        exact ⟨a :: xs, ⟨hr, hpath⟩, hend, by simpa [ha] using hlt⟩
      · rw [if_neg ha] at hok
        exact ⟨[], trivial, (Except.ok.inj hok).symm, by simp⟩

lemma path_insert {xs : List ℕ} {new : ℕ} (hpath : Path Link.next h.read .first xs)
    (hnot : new ∉ xs) (v : Option ℕ) :
    ∃ ys, ys ⊆ xs ∧ Path Link.next ((h.write (.next new) v).write
      (endLink Link.next .first xs) (some new)).read .first (ys ++ [new]) := by
  have hkept : Path Link.next (h.write (.next new) v).read .first xs := by
    rw [Heap.read_write]
    exact hpath.update_of_notMem Link.next_injective Link.next_ne_first hnot v
  obtain ⟨ys, hsub, hreach⟩ := hkept.reach_update new
  refine ⟨ys, hsub, ?_⟩
  rw [Heap.read_write]
  exact hreach

/-- Wherever the links lead, the new block is on the list after an extension. -/
lemma reaches_addHeapBlock {fuel : ℕ} {h' : Heap σ} (hok : addHeapBlock fuel h = .ok h') :
    Reaches h' := by
  obtain ⟨l, hpos, hwrite⟩ := bind_eq_ok.mp hok
  obtain ⟨xs, hpath, rfl, hlt⟩ := findInsertPos_path hpos
  have hnot : wrap64 (h.heapStart + h.heapSize) ∉ xs := fun hin => lt_irrefl _ (hlt _ hin)
  obtain ⟨ys, hsub, hreach⟩ := path_insert hpath hnot _
  rw [← Except.ok.inj hwrite]
  exact ⟨ys, _, hreach, fun hin => hnot (hsub hin), by simp⟩

lemma updateBest_ne_none {improves : ℕ → ℕ → Bool} {best : Option (ℕ × Link)} {prev : Option ℕ}
    {current : ℕ} (hfound : best ≠ none ∨ size ≤ h.size current) :
    updateBest improves h size best prev current ≠ none := by
  cases best with
  | none =>
    have hfit : size ≤ h.size current := by simpa using hfound
    simp [updateBest, hfit]
  | some best =>
    obtain ⟨block, link⟩ := best
    simp only [updateBest]
    split_ifs <;> simp

lemma fitLoop_ne_none {improves : ℕ → ℕ → Bool} {fuel : ℕ} {best : Option (ℕ × Link)}
    {prev current : Option ℕ} (hbest : best ≠ none) :
    fitLoop improves h size fuel best prev current ≠ .ok none := by
  induction fuel generalizing best prev current with
  | zero => simp [fitLoop]
  | succ fuel ih =>
    cases current with
    | none => simpa [fitLoop] using hbest
    | some current =>
      rw [fitLoop]
      exact ih (updateBest_ne_none (.inl hbest))

lemma fitLoop_reaches {improves : ℕ → ℕ → Bool} {new : ℕ} (hnew : size ≤ h.size new) {l : Link}
    {xs : List ℕ} (hp : Path Link.next h.read l (xs ++ [new])) {fuel : ℕ}
    {best : Option (ℕ × Link)} {prev : Option ℕ} :
    fitLoop improves h size fuel best prev (h.read l) ≠ .ok none := by
  induction xs generalizing l fuel best prev with
  | nil =>
    cases fuel with
    | zero => simp [fitLoop]
    | succ fuel =>
      rw [hp.1, fitLoop]
      exact fitLoop_ne_none (updateBest_ne_none (.inr hnew))
  | cons x xs ih =>
    cases fuel with
    | zero => simp [fitLoop]
    | succ fuel =>
      rw [hp.1, fitLoop]
      exact ih hp.2

lemma firstFitLoop_reaches {new : ℕ} (hnew : size ≤ h.size new) {l : Link} {xs : List ℕ}
    (hp : Path Link.next h.read l (xs ++ [new])) {fuel : ℕ} {prev : Option ℕ} :
    firstFitLoop h size fuel prev (h.read l) ≠ .ok none := by
  induction xs generalizing l fuel prev with
  | nil =>
    cases fuel with
    | zero => simp [firstFitLoop]
    | succ fuel =>
      rw [hp.1, firstFitLoop, if_pos hnew]
      simp
  | cons x xs ih =>
    cases fuel with
    | zero => simp [firstFitLoop]
    | succ fuel =>
      rw [hp.1, firstFitLoop]
      split_ifs
      · simp
      · exact ih hp.2

/-- Next-fit from the head of the list, which is not met again before the block. -/
lemma nextFitLoop_reaches {start new fuel : ℕ} {xs : List ℕ} (hnew : size ≤ h.size new)
    (hp : Path Link.next h.read .first (xs ++ [new])) (hnot : new ∉ xs)
    (hstart : h.firstFreeBlock = some start) :
    Vika5.nextFitLoop h size (some start) fuel (some start) none ≠ .ok none := by
  obtain ⟨x, ys, hxs⟩ : ∃ x ys, xs ++ [new] = x :: ys :=
    List.exists_cons_of_ne_nil (by simp)
  have hnodup := hp.nodup_to hnot
  have hmem : new ∈ x :: ys := hxs ▸ List.mem_append_right xs (by simp)
  rw [hxs] at hp hnodup
  obtain rfl : start = x := Option.some.inj (hstart.symm.trans hp.1)
  obtain ⟨e, hvisits⟩ := Vika5.visits_of_tail hp.2
  have hapart : ∀ y ∈ ys, some y ≠ some start := by
    rintro y hy he
    obtain rfl := Option.some.inj he
    exact (List.nodup_cons.mp hnodup).1 hy
  rcases @Vika5.nextFitLoop_visits σ h size (some start) start ys e none hvisits hapart with
    ⟨before, y, after, -, -, -, hret⟩ | ⟨hsmall, -⟩
  · intro hnone
    exact absurd (hret.eq_of_ok hnone) (by simp)
  · have hlt := hsmall new hmem
    omega

/-! ### Every state -/

lemma unchanged_refl (h : Heap σ) : Unchanged h h := ⟨rfl, rfl, rfl, rfl⟩

lemma unchanged_withOs (h : Heap σ) (os : σ) : Unchanged h (h.withOs os) := ⟨rfl, rfl, rfl, rfl⟩

lemma paddedSize_retry (hn : paddedSize n ≤ HEAP_SIZE) (hne : paddedSize n ≠ HEAP_SIZE) :
    paddedSize (paddedSize n) ≤ HEAP_SIZE := by
  have hdvd := dvd_paddedSize n
  rw [paddedSize_paddedSize hn]
  rw [HEAP_SIZE_eq] at *
  omega

lemma extendHeap_cases {fuel : ℕ} {extended : Bool} {h' : Heap σ}
    (hok : extendHeap allocHeap fuel h = .ok (extended, h')) :
    extended = false ∧ Exhausted allocHeap h ∧ Unchanged h h' ∨
    extended = true ∧ Reaches h' := by
  unfold extendHeap at hok
  cases hA : allocHeap (some h.heapStart) (wrap64 (h.heapSize + HEAP_SIZE)) h.os with
  | mk p os =>
    rw [hA] at hok
    cases p with
    | none =>
      obtain ⟨rfl, rfl⟩ := Prod.mk.inj (Except.ok.inj hok)
      exact .inl ⟨rfl, by simp [Exhausted, hA], unchanged_withOs h os⟩
    | some p =>
      obtain ⟨h₁, hadd, hpair⟩ := bind_eq_ok.mp hok
      obtain ⟨rfl, rfl⟩ := Prod.mk.inj (Except.ok.inj hpair)
      exact .inr ⟨rfl, reaches_addHeapBlock hadd⟩

lemma bestFit_reaches {fuel : ℕ} (hreach : Reaches h) (hsize : size ≤ HEAP_SIZE) :
    bestFit h size fuel ≠ .ok none := by
  obtain ⟨xs, new, hpath, -, hnew⟩ := hreach
  exact fitLoop_reaches (by omega) hpath

namespace Vika4

/-- The ways in which a call can return, in any state. -/
inductive Returned (allocHeap : AllocHeap σ) (n : ℕ) (h : Heap σ) (fuel : ℕ) :
    Option ℕ → Heap σ → Prop
  | tooLarge : HEAP_SIZE < paddedSize n → Returned allocHeap n h fuel none h
  | selected (block : ℕ) (link : Link) : paddedSize n ≤ HEAP_SIZE →
      bestFit h (paddedSize n) fuel = .ok (some (block, link)) →
      Returned allocHeap n h fuel (some (allocateBlock h link block (paddedSize n)).1)
        (allocateBlock h link block (paddedSize n)).2
  | refused (h' : Heap σ) : paddedSize n ≤ HEAP_SIZE →
      bestFit h (paddedSize n) fuel = .ok none → extendHeap allocHeap fuel h = .ok (false, h') →
      Returned allocHeap n h fuel none h'
  | retried (h₁ : Heap σ) (r : Option ℕ) (h' : Heap σ) : paddedSize n ≤ HEAP_SIZE →
      bestFit h (paddedSize n) fuel = .ok none → extendHeap allocHeap fuel h = .ok (true, h₁) →
      myMalloc allocHeap fuel (paddedSize n) h₁ = .ok (r, h') → Returned allocHeap n h fuel r h'

lemma myMalloc_returned {fuel : ℕ} {r : Option ℕ} {h' : Heap σ}
    (hcall : myMalloc allocHeap (fuel + 1) n h = .ok (r, h')) :
    Returned allocHeap n h fuel r h' := by
  by_cases hlarge : HEAP_SIZE < paddedSize n
  · simp only [myMalloc, hlarge, if_true] at hcall
    obtain ⟨rfl, rfl⟩ := Prod.mk.inj (Except.ok.inj hcall)
    exact .tooLarge hlarge
  · simp only [myMalloc, hlarge, if_false] at hcall
    have hsmall := not_lt.mp hlarge
    obtain ⟨selected, hsearch, hafter⟩ := bind_eq_ok.mp hcall
    cases selected with
    | some selected =>
      obtain ⟨rfl, rfl⟩ := Prod.mk.inj (Except.ok.inj hafter)
      exact .selected _ _ hsmall hsearch
    | none =>
      obtain ⟨⟨extended, h₁⟩, hext, hrest⟩ := bind_eq_ok.mp hafter
      cases extended with
      | true => exact .retried h₁ r h' hsmall hsearch hext hrest
      | false =>
        obtain ⟨rfl, rfl⟩ := Prod.mk.inj (Except.ok.inj hrest)
        exact .refused h₁ hsmall hsearch hext

lemma myMalloc_none {fuel : ℕ} {h' : Heap σ}
    (hcall : myMalloc allocHeap fuel n h = .ok (none, h')) :
    HEAP_SIZE < paddedSize n ∧ h' = h ∨
    paddedSize n ≤ HEAP_SIZE ∧ ∃ fuel', bestFit h (paddedSize n) fuel' = .ok none ∧
      (Exhausted allocHeap h ∧ Unchanged h h' ∨ ∃ h₁, Reaches h₁ ∧
        myMalloc allocHeap fuel' (paddedSize n) h₁ = .ok (none, h')) := by
  cases fuel with
  | zero => exact absurd hcall (by simp [myMalloc])
  | succ fuel =>
    cases myMalloc_returned hcall with
    | tooLarge hlarge => exact .inl ⟨hlarge, rfl⟩
    | refused _ hsmall hsearch hext =>
      rcases extendHeap_cases hext with ⟨-, hnone, hsame⟩ | ⟨htrue, -⟩
      · exact .inr ⟨hsmall, fuel, hsearch, .inl ⟨hnone, hsame⟩⟩
      · cases htrue
    | retried h₁ _ _ hsmall hsearch hext hretry =>
      rcases extendHeap_cases hext with ⟨hfalse, -, -⟩ | ⟨-, hreach⟩
      · cases hfalse
      · exact .inr ⟨hsmall, fuel, hsearch, .inr ⟨h₁, hreach, hretry⟩⟩

theorem nullSound_of_ne (allocHeap : AllocHeap σ) (h : Heap σ) (hne : paddedSize n ≠ HEAP_SIZE) :
    NullSound (allocator allocHeap) allocHeap h n := by
  rintro h' ⟨fuel, hcall⟩
  rcases myMalloc_none hcall with ⟨hlarge, rfl⟩ | ⟨hsmall, fuel', -, hcase⟩
  · exact ⟨.inl hlarge, unchanged_refl _⟩
  rcases hcase with ⟨hnone, hsame⟩ | ⟨h₁, hreach, hretry⟩
  · exact ⟨.inr hnone, hsame⟩
  · have hagain := paddedSize_retry hsmall hne
    rcases myMalloc_none hretry with ⟨hlarge, -⟩ | ⟨-, fuel'', hsearch, -⟩
    · exact absurd hagain (not_le.mpr hlarge)
    · exact absurd hsearch (bestFit_reaches hreach hagain)

end Vika4

namespace Vika5

variable {s : State σ}

lemma selectBlock_heap {fuel : ℕ} {selected : Option (ℕ × Link)} {s₁ : State σ}
    (hok : selectBlock s size fuel = .ok (selected, s₁)) :
    s₁.toHeap = s.toHeap ∧ s₁.allocationStrategy = s.allocationStrategy := by
  unfold selectBlock at hok
  split at hok <;> obtain ⟨r, -, hpair⟩ := bind_eq_ok.mp hok <;>
    obtain ⟨-, rfl⟩ := Prod.mk.inj (Except.ok.inj hpair) <;> simp [*]

lemma selectBlock_reaches {fuel : ℕ} {s₁ : State σ} (hreach : Reaches s.toHeap)
    (hsize : size ≤ HEAP_SIZE)
    (hcursor : s.allocationStrategy = .nextFit → s.nextFitCursor = s.firstFreeBlock) :
    selectBlock s size fuel ≠ .ok (none, s₁) := by
  obtain ⟨xs, new, hpath, hnot, hnew⟩ := hreach
  have hfit : size ≤ s.size new := by omega
  intro hok
  unfold selectBlock at hok
  split at hok
  · obtain ⟨r, hsearch, hpair⟩ := bind_eq_ok.mp hok
    obtain ⟨rfl, -⟩ := Prod.mk.inj (Except.ok.inj hpair)
    exact fitLoop_reaches hfit hpath hsearch
  · obtain ⟨r, hsearch, hpair⟩ := bind_eq_ok.mp hok
    obtain ⟨rfl, -⟩ := Prod.mk.inj (Except.ok.inj hpair)
    exact firstFitLoop_reaches hfit hpath hsearch
  · obtain ⟨r, hsearch, hpair⟩ := bind_eq_ok.mp hok
    obtain ⟨rfl, -⟩ := Prod.mk.inj (Except.ok.inj hpair)
    have hstart : startCursor s = s.firstFreeBlock := by
      unfold startCursor
      rw [hcursor ‹_›]
      cases s.firstFreeBlock <;> rfl
    obtain ⟨x, ys, hxs⟩ : ∃ x ys, xs ++ [new] = x :: ys :=
      List.exists_cons_of_ne_nil (by simp)
    have hfirst : s.firstFreeBlock = some x := by
      rw [hxs] at hpath
      exact hpath.1
    rw [nextFit, hstart, hfirst] at hsearch
    exact nextFitLoop_reaches hfit hpath hnot hfirst hsearch
  · obtain ⟨r, hsearch, hpair⟩ := bind_eq_ok.mp hok
    obtain ⟨rfl, -⟩ := Prod.mk.inj (Except.ok.inj hpair)
    exact fitLoop_reaches hfit hpath hsearch

lemma cursor_update (s : State σ) (h : Heap σ) (cursor : Option ℕ)
    (hstrategy : (s.update h cursor).allocationStrategy = .nextFit) :
    (s.update h cursor).nextFitCursor = cursor := by
  have hnf : s.allocationStrategy = .nextFit := hstrategy
  simp [State.update, hnf]

/-- The ways in which a call can return, in any state. The search may have set the cursor. -/
inductive Returned (allocHeap : AllocHeap σ) (n : ℕ) (s : State σ) (fuel : ℕ) :
    Option ℕ → State σ → Prop
  | tooLarge : HEAP_SIZE < paddedSize n → Returned allocHeap n s fuel none s
  | selected (block : ℕ) (link : Link) (s₀ : State σ) : paddedSize n ≤ HEAP_SIZE →
      selectBlock s (paddedSize n) fuel = .ok (some (block, link), s₀) →
      Returned allocHeap n s fuel (some (allocateBlock s.toHeap link block (paddedSize n)).1)
        (s₀.update (allocateBlock s.toHeap link block (paddedSize n)).2
          (cursorAfter (allocateBlock s.toHeap link block (paddedSize n)).2 link))
  | refused (s₀ : State σ) (h' : Heap σ) : paddedSize n ≤ HEAP_SIZE →
      selectBlock s (paddedSize n) fuel = .ok (none, s₀) →
      extendHeap allocHeap fuel s.toHeap = .ok (false, h') →
      Returned allocHeap n s fuel none { s₀ with toHeap := h' }
  | retried (s₀ : State σ) (h₁ : Heap σ) (r : Option ℕ) (s' : State σ) :
      paddedSize n ≤ HEAP_SIZE → selectBlock s (paddedSize n) fuel = .ok (none, s₀) →
      extendHeap allocHeap fuel s.toHeap = .ok (true, h₁) →
      myMalloc allocHeap fuel (paddedSize n) (s₀.update h₁ h₁.firstFreeBlock) = .ok (r, s') →
      Returned allocHeap n s fuel r s'

lemma myMalloc_returned {fuel : ℕ} {r : Option ℕ} {s' : State σ}
    (hcall : myMalloc allocHeap (fuel + 1) n s = .ok (r, s')) :
    Returned allocHeap n s fuel r s' := by
  by_cases hlarge : HEAP_SIZE < paddedSize n
  · simp only [myMalloc, hlarge, if_true] at hcall
    obtain ⟨rfl, rfl⟩ := Prod.mk.inj (Except.ok.inj hcall)
    exact .tooLarge hlarge
  · simp only [myMalloc, hlarge, if_false] at hcall
    have hsmall := not_lt.mp hlarge
    obtain ⟨⟨selected, s₀⟩, hsearch, hafter⟩ := bind_eq_ok.mp hcall
    obtain ⟨hheap, -⟩ := selectBlock_heap hsearch
    simp only [afterSelect, hheap] at hafter
    cases selected with
    | some selected =>
      obtain ⟨rfl, rfl⟩ := Prod.mk.inj (Except.ok.inj hafter)
      exact .selected _ _ s₀ hsmall hsearch
    | none =>
      obtain ⟨⟨extended, h₁⟩, hext, hrest⟩ := bind_eq_ok.mp hafter
      cases extended with
      | true => exact .retried s₀ h₁ r s' hsmall hsearch hext hrest
      | false =>
        obtain ⟨rfl, rfl⟩ := Prod.mk.inj (Except.ok.inj hrest)
        exact .refused s₀ h₁ hsmall hsearch hext

lemma myMalloc_none {fuel : ℕ} {s' : State σ}
    (hcall : myMalloc allocHeap fuel n s = .ok (none, s')) :
    HEAP_SIZE < paddedSize n ∧ s' = s ∨
    paddedSize n ≤ HEAP_SIZE ∧ ∃ fuel' s₀, selectBlock s (paddedSize n) fuel' = .ok (none, s₀) ∧
      (Exhausted allocHeap s.toHeap ∧ Unchanged s.toHeap s'.toHeap ∨ ∃ h₁, Reaches h₁ ∧
        myMalloc allocHeap fuel' (paddedSize n) (s₀.update h₁ h₁.firstFreeBlock) =
          .ok (none, s')) := by
  cases fuel with
  | zero => exact absurd hcall (by simp [myMalloc])
  | succ fuel =>
    cases myMalloc_returned hcall with
    | tooLarge hlarge => exact .inl ⟨hlarge, rfl⟩
    | refused s₀ h₁ hsmall hsearch hext =>
      rcases extendHeap_cases hext with ⟨-, hnone, hsame⟩ | ⟨htrue, -⟩
      · exact .inr ⟨hsmall, fuel, s₀, hsearch, .inl ⟨hnone, hsame⟩⟩
      · cases htrue
    | retried s₀ h₁ _ _ hsmall hsearch hext hretry =>
      rcases extendHeap_cases hext with ⟨hfalse, -, -⟩ | ⟨-, hreach⟩
      · cases hfalse
      · exact .inr ⟨hsmall, fuel, s₀, hsearch, .inr ⟨h₁, hreach, hretry⟩⟩

theorem nullSound_of_ne (allocHeap : AllocHeap σ) (s : State σ)
    (hne : paddedSize n ≠ HEAP_SIZE) : NullSound (allocator allocHeap) allocHeap s n := by
  rintro s' ⟨fuel, hcall⟩
  rcases myMalloc_none hcall with ⟨hlarge, rfl⟩ | ⟨hsmall, fuel', s₀, -, hcase⟩
  · exact ⟨.inl hlarge, unchanged_refl _⟩
  rcases hcase with ⟨hnone, hsame⟩ | ⟨h₁, hreach, hretry⟩
  · exact ⟨.inr hnone, hsame⟩
  · have hagain := paddedSize_retry hsmall hne
    rcases myMalloc_none hretry with ⟨hlarge, -⟩ | ⟨-, fuel'', s₁, hsearch, -⟩
    · exact absurd hagain (not_le.mpr hlarge)
    · exact absurd hsearch (selectBlock_reaches hreach hagain (cursor_update s₀ h₁ _))

end Vika5

/-! ### Reachable states -/

lemma Outcome.ne_none {ts : List Chunk} {live : List ℕ} {r : Option ℕ} {h' : Heap σ}
    (ho : Outcome allocHeap n h ts live r h') (hsmall : paddedSize n ≤ HEAP_SIZE)
    (hfit : ¬NoFit n ts) : r ≠ none := by
  cases ho with
  | tooLarge hlarge => exact absurd hsmall (not_le.mpr hlarge)
  | noMemory _ _ hno _ => exact absurd hno hfit
  | refused _ _ _ _ hno _ _ _ _ _ => exact absurd hno hfit
  | served => simp
  | extended => simp

/-- A request that is padded to `HEAP_SIZE`, finds no block and extends the heap returns
`NULL` with the heap extended. -/
lemma Outcome.grown {ts : List Chunk} {live : List ℕ} {r : Option ℕ} {h' : Heap σ}
    (ho : Outcome allocHeap n h ts live r h') (hn : paddedSize n = HEAP_SIZE) (hfit : NoFit n ts)
    (hmem : ¬Exhausted allocHeap h) : r = none ∧ h'.heapSize = h.heapSize + HEAP_SIZE := by
  cases ho with
  | tooLarge hlarge => exact absurd hn hlarge.ne'
  | noMemory _ _ _ hA => exact absurd (by simp [Exhausted, hA]) hmem
  | served us vs t _ _ hts ht hle _ _ _ _ =>
    subst hts
    have := hfit t (by simp) ht
    omega
  | extended _ _ _ hle _ _ _ _ _ _ => omega
  | refused _ _ _ _ _ _ _ _ hsize _ => exact ⟨rfl, hsize⟩

lemma Outcome.unchanged {ts : List Chunk} {live : List ℕ} {h' : Heap σ}
    (ho : Outcome allocHeap n h ts live none h') (hmem : Exhausted allocHeap h) :
    Unchanged h h' := by
  cases ho with
  | tooLarge _ => exact unchanged_refl h
  | noMemory os _ _ _ => exact unchanged_withOs h os
  | refused p _ _ _ _ hA _ _ _ _ => exact absurd hmem (by simp [Exhausted, hA])

lemma hasLarge_iff {ts : List Chunk} {live : List ℕ} (hl : Laid h ts live)
    (hn : paddedSize n = HEAP_SIZE) : HasLarge h ↔ ¬NoFit n ts := by
  have hne : ¬NoFit n ts ↔ ∃ t ∈ ts, t.tag = .free ∧ HEAP_SIZE ≤ t.len := by
    simp [NoFit, hn]
  rw [hne]
  constructor
  · rintro ⟨free, hfree, b, hb, hle⟩
    rw [hl.freeList_unique hfree] at hb
    obtain ⟨t, ht, htag, rfl⟩ := mem_freeStarts.mp hb
    exact ⟨t, ht, htag, hl.sizes t ht ▸ hle⟩
  · rintro ⟨t, ht, htag, hle⟩
    refine ⟨_, hl.freeList, t.lo, mem_freeStarts.mpr ⟨t, ht, htag, rfl⟩, ?_⟩
    rw [hl.sizes t ht]
    exact hle

lemma Outcome.nullSound_iff {M : Allocator S σ} {s s' : S} {ts : List Chunk} {live : List ℕ}
    {r : Option ℕ} (hl : Laid (M.heap s) ts live)
    (hret : Returns .outOfFuel (fun fuel => M.malloc fuel n s) (.ok (r, s')))
    (ho : Outcome allocHeap n (M.heap s) ts live r (M.heap s')) (hn : paddedSize n = HEAP_SIZE) :
    NullSound M allocHeap s n ↔ HasLarge (M.heap s) ∨ Exhausted allocHeap (M.heap s) := by
  rw [hasLarge_iff hl hn]
  constructor
  · intro hsound
    by_contra hbad
    rw [not_or, not_not] at hbad
    obtain ⟨rfl, hsize⟩ := ho.grown hn hbad.1 hbad.2
    have hsame := (hsound s' hret.exists_eq).2.2.1
    rw [hsize, HEAP_SIZE_eq] at hsame
    omega
  · rintro hcase s₁ ⟨fuel, hcall⟩
    obtain ⟨rfl, rfl⟩ := Prod.mk.inj (Except.ok.inj (hret.eq_of_ok hcall))
    by_cases hfit : NoFit n ts
    · have hmem : Exhausted allocHeap (M.heap s) := hcase.resolve_left (not_not.mpr hfit)
      exact ⟨.inr hmem, ho.unchanged hmem⟩
    · exact absurd rfl (ho.ne_none hn.le hfit)

lemma nullSound_of_some {M : Allocator S σ} {s s' : S} {p : ℕ}
    (hret : Returns .outOfFuel (fun fuel => M.malloc fuel n s) (.ok (some p, s'))) :
    NullSound M allocHeap s n := by
  rintro s₁ ⟨fuel, hcall⟩
  exact absurd (hret.eq_of_ok hcall) (by simp)

lemma Vika4.nullSound_iff (hcont : Contiguous allocHeap) {live : List ℕ} (hc : Intact h live)
    (hn : n + 32 ≤ 2 ^ 64) :
    NullSound (allocator allocHeap) allocHeap h n ↔ NotAtLimit allocHeap h n := by
  by_cases heq : paddedSize n = HEAP_SIZE
  · obtain ⟨ts, hl, -⟩ := hc
    obtain ⟨r, h', hret, ho⟩ := myMalloc_outcome hl hcont hn
    have hiff := Outcome.nullSound_iff (M := allocator allocHeap) (s := h) hl hret ho heq
    rw [hiff]
    simp [NotAtLimit, heq, allocator]
  · simp [NotAtLimit, heq, nullSound_of_ne]

namespace Vika5

lemma exists_large_of_not_headKept {s : State σ} (hkept : ¬HeadKept s size) :
    ∃ x, s.firstFreeBlock = some x ∧ size ≤ s.size x := by
  simp only [HeadKept] at hkept
  push Not at hkept
  obtain ⟨-, c, -, -, -, -, x, hx, hle⟩ := hkept
  exact ⟨x, hx, hle⟩

lemma nullSound_iff (hcont : Contiguous allocHeap) {c : Config (State σ)} (hc : Sound c)
    (hn : n + 32 ≤ 2 ^ 64) :
    NullSound (allocator allocHeap) allocHeap c.state n ↔
      NotAtLimit allocHeap c.state.toHeap n ∨ Stuck c.state := by
  by_cases heq : paddedSize n = HEAP_SIZE
  · obtain ⟨⟨ts, hl⟩, hcursor⟩ := hc
    by_cases hstuck : Stuck c.state
    · rcases returns_selectBlock hl hcursor (paddedSize n) with ⟨-, hsearch⟩ | ⟨hgo, -⟩
      · have hret := @returns_stuck σ c.state allocHeap n heq.le hsearch
        refine ⟨fun _ => .inr hstuck, fun _ => ?_⟩
        rintro s₁ ⟨fuel, hcall⟩
        exact absurd (hret.eq_of_ok hcall) (by simp)
      · exact absurd hstuck hgo
    · obtain ⟨r, s', hret, hcall, -⟩ := myMalloc_call hl hcursor hcont hn heq.le hstuck
      have hlimit : NotAtLimit allocHeap c.state.toHeap n ∨ Stuck c.state ↔
          HasLarge c.state.toHeap ∨ Exhausted allocHeap c.state.toHeap := by
        simp [NotAtLimit, heq, hstuck]
      rw [hlimit]
      cases hcall with
      | sound r s' _ _ ho _ =>
        exact Outcome.nullSound_iff (M := allocator allocHeap) (s := c.state) hl hret ho heq
      | atCursor us vs t s' hts ht _ hle _ _ _ =>
        subst hts
        have hlarge : HasLarge c.state.toHeap := by
          rw [hasLarge_iff hl heq]
          intro hno
          have := hno t (by simp) ht
          omega
        exact ⟨fun _ => .inl hlarge, fun _ => nullSound_of_some hret⟩
      | atHead x s' hnot _ _ =>
        obtain ⟨x, hx, hle⟩ := exists_large_of_not_headKept hnot
        have hlarge : HasLarge c.state.toHeap :=
          ⟨_, hl.freeList, x, mem_of_firstFreeBlock hl.chain x hx, heq ▸ hle⟩
        exact ⟨fun _ => .inl hlarge, fun _ => nullSound_of_some hret⟩
  · simp [NotAtLimit, heq, nullSound_of_ne]

end Vika5

end StyLinux.Malloc
