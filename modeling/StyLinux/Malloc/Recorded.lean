import StyLinux.Malloc.BestFitRuns
import StyLinux.Malloc.NullResult

/-!
# The size in the header

The header of an allocated block should record the size of the request, rounded up, with the
header. A request that finds no block extends the heap and is made again with the size that is
already padded, so that the size in the header is too large by at least 16 bytes then. This holds
in every state whatsoever.
-/

namespace StyLinux.Malloc

open Lib

variable {σ : Type} {allocHeap : AllocHeap σ} {h h' : Heap σ} {n size fuel p : ℕ}

/-- The header of the block at `p` records the size for a request of `n` bytes. -/
def Recorded (h : Heap σ) (p n : ℕ) : Prop :=
  h.size (sub64 p HEADER_SIZE) = HEADER_SIZE + (n + 15) / 16 * 16

/-- Following the free list from its head one comes to the block. -/
def Listed (h : Heap σ) (a : ℕ) : Prop := ∃ xs, Path Link.next h.read .first (xs ++ [a])

/-- A block on the free list is large enough. -/
def Fits (h : Heap σ) (size : ℕ) : Prop := ∃ a, Listed h a ∧ size ≤ h.size a

/-- The pointers in memory are 64 bits wide. -/
def PointersOk (h : Heap σ) : Prop := ∀ l a, h.read l = some a → a < 2 ^ 64

lemma Listed.lt {a : ℕ} (ha : Listed h a) (hp : PointersOk h) : a < 2 ^ 64 := by
  obtain ⟨xs, hpath⟩ := ha
  exact hp _ a ((path_append _ _ _).mp hpath).2.1

lemma not_fits_of_empty (hempty : h.firstFreeBlock = none) : ¬Fits h size := by
  rintro ⟨a, ⟨xs, hpath⟩, -⟩
  cases xs with
  | nil => exact absurd (hempty.symm.trans hpath.1) (by simp)
  | cons x xs => exact absurd (hempty.symm.trans hpath.1) (by simp)

/-! ### Searches of the whole list -/

lemma listed_of_path {xs : List ℕ} (hpath : Path Link.next h.read .first xs) {a : ℕ}
    (ha : h.read (endLink Link.next .first xs) = some a) : Listed h a :=
  ⟨xs, (path_append _ _ _).mpr ⟨hpath, ha, trivial⟩⟩

lemma updateBest_listed {improves : ℕ → ℕ → Bool} {best : Option (ℕ × Link)} {prev : Option ℕ}
    {current : ℕ} (hcurrent : Listed h current)
    (hbest : ∀ b, best = some b → Listed h b.1 ∧ size ≤ h.size b.1) (b : ℕ × Link)
    (hb : updateBest improves h size best prev current = some b) :
    Listed h b.1 ∧ size ≤ h.size b.1 := by
  unfold updateBest at hb
  split at hb
  · rename_i hfit
    cases best with
    | none =>
      obtain rfl := Option.some.inj hb
      exact ⟨hcurrent, hfit⟩
    | some best =>
      simp only at hb
      split at hb
      · obtain rfl := Option.some.inj hb
        exact ⟨hcurrent, hfit⟩
      · exact hbest b hb
  · exact hbest b hb

lemma fitLoop_listed {improves : ℕ → ℕ → Bool} {best : Option (ℕ × Link)} {prev : Option ℕ}
    {xs : List ℕ} (hpath : Path Link.next h.read .first xs)
    (hbest : ∀ b, best = some b → Listed h b.1 ∧ size ≤ h.size b.1) {b : ℕ × Link}
    (hok : fitLoop improves h size fuel best prev (h.read (endLink Link.next .first xs)) =
      .ok (some b)) : Listed h b.1 ∧ size ≤ h.size b.1 := by
  induction fuel generalizing best prev xs with
  | zero => cases hok
  | succ fuel ih =>
    cases hr : h.read (endLink Link.next .first xs) with
    | none =>
      rw [hr, fitLoop] at hok
      exact hbest b (Except.ok.inj hok)
    | some a =>
      rw [hr, fitLoop] at hok
      have hpath' : Path Link.next h.read .first (xs ++ [a]) :=
        (path_append _ _ _).mpr ⟨hpath, hr, trivial⟩
      have hnext : endLink Link.next .first (xs ++ [a]) = .next a := endLink_concat _ _ _
      rw [← hnext] at hok
      exact ih hpath' (updateBest_listed (listed_of_path hpath hr) hbest) hok

lemma firstFitLoop_listed {prev : Option ℕ} {xs : List ℕ}
    (hpath : Path Link.next h.read .first xs) {b : ℕ × Link}
    (hok : firstFitLoop h size fuel prev (h.read (endLink Link.next .first xs)) = .ok (some b)) :
    Listed h b.1 ∧ size ≤ h.size b.1 := by
  induction fuel generalizing prev xs with
  | zero => cases hok
  | succ fuel ih =>
    cases hr : h.read (endLink Link.next .first xs) with
    | none =>
      rw [hr, firstFitLoop] at hok
      cases hok
    | some a =>
      rw [hr, firstFitLoop] at hok
      split at hok
      · rename_i hfit
        obtain rfl := Option.some.inj (Except.ok.inj hok)
        exact ⟨listed_of_path hpath hr, hfit⟩
      · have hpath' : Path Link.next h.read .first (xs ++ [a]) :=
          (path_append _ _ _).mpr ⟨hpath, hr, trivial⟩
        have hnext : endLink Link.next .first (xs ++ [a]) = .next a := endLink_concat _ _ _
        rw [← hnext] at hok
        exact ih hpath' hok

/-! ### The block that is taken -/

lemma size_allocateBlock_self (h : Heap σ) (l : Link) (a n : ℕ) :
    (allocateBlock h l a n).2.size a = n := by
  by_cases hn : h.size a = n
  · simp [allocateBlock, hn]
  · simp [allocateBlock, hn]

/-- The header of a block that has been taken is found again from the data pointer. -/
lemma size_of_allocateBlock {l : Link} {a : ℕ} (ha : a < 2 ^ 64) (n : ℕ) :
    (allocateBlock h l a n).2.size (sub64 (allocateBlock h l a n).1 HEADER_SIZE) = n := by
  have hheader : sub64 (allocateBlock h l a n).1 HEADER_SIZE = a := by
    simp only [allocateBlock, sub64, wrap64, HEADER_SIZE_eq]
    omega
  rw [hheader, size_allocateBlock_self]

namespace PointersOk

lemma write (hp : PointersOk h) (l : Link) {v : Option ℕ} (hv : ∀ a, v = some a → a < 2 ^ 64) :
    PointersOk (h.write l v) := by
  intro m a ha
  rw [Heap.read_write] at ha
  by_cases hm : m = l
  · rw [hm, Function.update_self] at ha
    exact hv a ha
  · rw [Function.update_of_ne hm] at ha
    exact hp m a ha

lemma congr (hp : PointersOk h) (hread : h'.read = h.read) : PointersOk h' := by
  intro l a ha
  rw [hread] at ha
  exact hp l a ha

lemma setSize (hp : PointersOk h) (a n : ℕ) : PointersOk (h.setSize a n) :=
  hp.congr (h.read_setSize a n)

lemma setHeapSize (hp : PointersOk h) (n : ℕ) : PointersOk { h with heapSize := n } :=
  hp.congr (h.read_setHeapSize n)

/-- A block is linked into the list behind the link `l`. -/
lemma insert (hp : PointersOk h) {a : ℕ} (ha : a < 2 ^ 64) (l : Link) :
    PointersOk ((h.write (.next a) (h.read l)).write l (some a)) := by
  refine (hp.write (.next a) fun b => hp l b).write l ?_
  intro b hb
  obtain rfl := Option.some.inj hb
  exact ha

lemma addHeapBlock (hp : PointersOk h) (hok : Malloc.addHeapBlock fuel h = .ok h') :
    PointersOk h' := by
  obtain ⟨l, -, hwrite⟩ := bind_eq_ok.mp hok
  rw [← Except.ok.inj hwrite]
  apply insert
  · apply write
    · apply setSize
      exact hp.setHeapSize _
    · intro a ha
      cases ha
  · exact wrap64_lt _

lemma extendHeap (hp : PointersOk h) (hok : Malloc.extendHeap allocHeap fuel h = .ok (true, h')) :
    PointersOk h' := by
  unfold Malloc.extendHeap at hok
  cases hA : allocHeap (some h.heapStart) (wrap64 (h.heapSize + HEAP_SIZE)) h.os with
  | mk p os =>
    rw [hA] at hok
    cases p with
    | none => cases hok
    | some p =>
      obtain ⟨h₁, hadd, hpair⟩ := bind_eq_ok.mp hok
      obtain ⟨-, rfl⟩ := Prod.mk.inj (Except.ok.inj hpair)
      exact (hp.congr (h.read_withOs os)).addHeapBlock hadd

end PointersOk

/-! ### The best-fit allocators -/

/-- The size in the header is the padded one if the search finds a block, and larger otherwise. -/
def Measured (found : Prop) (h : Heap σ) (p size : ℕ) : Prop :=
  found ∧ h.size (sub64 p HEADER_SIZE) = size ∨ ¬found ∧ size < h.size (sub64 p HEADER_SIZE)

lemma Measured.le {found : Prop} (hm : Measured found h p size) :
    size ≤ h.size (sub64 p HEADER_SIZE) := by
  rcases hm with ⟨-, he⟩ | ⟨-, hlt⟩
  · exact he.ge
  · exact hlt.le

lemma Measured.recorded_iff {found : Prop} (hm : Measured found h p (paddedSize n))
    (hn : n ≤ HEAP_SIZE) : Recorded h p n ↔ found := by
  have hpadded : paddedSize n = HEADER_SIZE + (n + 15) / 16 * 16 := by
    rw [HEAP_SIZE_eq] at hn
    exact paddedSize_eq (by omega)
  unfold Recorded
  rw [← hpadded]
  rcases hm with ⟨hfound, he⟩ | ⟨hnot, hlt⟩
  · exact iff_of_true he hfound
  · exact iff_of_false hlt.ne' hnot

lemma bestFit_listed {b : ℕ × Link} (hok : bestFit h size fuel = .ok (some b)) :
    Listed h b.1 ∧ size ≤ h.size b.1 := by
  have hpath : Path Link.next h.read .first [] := trivial
  exact fitLoop_listed hpath (by simp) hok

lemma Vika4.measured (hp : PointersOk h)
    (hcall : Vika4.myMalloc allocHeap fuel n h = .ok (some p, h')) :
    Measured (Fits h (paddedSize n)) h' p (paddedSize n) := by
  induction fuel generalizing n h with
  | zero => cases hcall
  | succ fuel ih =>
    cases Vika4.myMalloc_returned hcall with
    | selected _ _ _ hsearch =>
      have hbest := bestFit_listed hsearch
      exact .inl ⟨⟨_, hbest⟩, size_of_allocateBlock (hbest.1.lt hp) _⟩
    | retried h₁ _ _ hsmall hsearch hext hrest =>
      have hretry := (ih (hp.extendHeap hext) hrest).le
      rw [paddedSize_paddedSize hsmall] at hretry
      refine .inr ⟨?_, by omega⟩
      rintro ⟨a, ⟨xs, hpath⟩, hfit⟩
      exact fitLoop_reaches hfit hpath hsearch

/-! ### The allocator with selectable strategies -/

namespace Vika5

variable {s s' : State σ}

/-- Next-fit, on its way round from the cursor, comes to the block. -/
def Visited (s : State σ) (a : ℕ) : Prop :=
  ∃ c xs e, startCursor s = some c ∧ Visits s.toHeap (c :: xs) e ∧ (∀ y ∈ xs, y ≠ c) ∧ a ∈ c :: xs

/-- The search of the strategy in force comes to the block if it takes none before. -/
def Examined (s : State σ) (a : ℕ) : Prop :=
  match s.allocationStrategy with
  | .nextFit => Visited s a
  | _ => Listed s.toHeap a

/-- The search of the strategy in force finds a block that is large enough. -/
def Finds (s : State σ) (size : ℕ) : Prop := ∃ a, Examined s a ∧ size ≤ s.size a

/-- The pointers in memory and the cursor are 64 bits wide. -/
structure PointersOk (s : State σ) : Prop where
  heap : Malloc.PointersOk s.toHeap
  cursor : ∀ c, s.nextFitCursor = some c → c < 2 ^ 64

lemma PointersOk.startCursor (hp : PointersOk s) (c : ℕ) (hc : Vika5.startCursor s = some c) :
    c < 2 ^ 64 := by
  unfold Vika5.startCursor at hc
  split at hc
  · exact hp.heap .first c hc
  · rename_i cursor hcursor
    obtain rfl := Option.some.inj hc
    exact hp.cursor cursor hcursor

lemma nextCyclic_lt (hp : Malloc.PointersOk h) {a b : ℕ} (hb : nextCyclic h a = some b) :
    b < 2 ^ 64 := by
  unfold nextCyclic at hb
  split at hb
  · exact hp .first b hb
  · rename_i next hnext
    obtain rfl := Option.some.inj hb
    exact hp (.next a) next hnext

lemma visits_lt (hp : Malloc.PointersOk h) {c : ℕ} {xs : List ℕ} {e : Option ℕ}
    (hv : Visits h (c :: xs) e) (hc : c < 2 ^ 64) : ∀ y ∈ c :: xs, y < 2 ^ 64 := by
  induction xs generalizing c with
  | nil => simpa using hc
  | cons x xs ih =>
    intro y hy
    rcases List.mem_cons.mp hy with rfl | hy
    · exact hc
    · exact ih hv.2 (nextCyclic_lt hp hv.1) y hy

/-- A block that the loop of next-fit selects was visited. -/
lemma nextFitLoop_visited {c x : ℕ} {prev : Option ℕ} {b : ℕ × Link}
    (hok : nextFitLoop h size (some c) fuel (some x) prev = .ok (some b)) :
    ∃ xs e, Visits h (x :: xs) e ∧ (∀ y ∈ xs, y ≠ c) ∧ b.1 ∈ x :: xs ∧ size ≤ h.size b.1 := by
  induction fuel generalizing x prev with
  | zero => cases hok
  | succ fuel ih =>
    rw [nextFitLoop] at hok
    split at hok
    · rename_i hfit
      obtain rfl := Option.some.inj (Except.ok.inj hok)
      exact ⟨[], nextCyclic h x, rfl, by simp, by simp, hfit⟩
    · split at hok
      · cases hok
      · rename_i hne
        cases hnext : nextCyclic h x with
        | none =>
          rw [hnext] at hok
          cases fuel with
          | zero => cases hok
          | succ fuel => cases hok
        | some y =>
          rw [hnext] at hok hne
          obtain ⟨xs, e, hvisits, hapart, hmem, hfit⟩ := ih hok
          refine ⟨y :: xs, e, ⟨hnext, hvisits⟩, ?_, List.mem_cons_of_mem x hmem, hfit⟩
          intro z hz
          rcases List.mem_cons.mp hz with rfl | hz
          · exact fun he => hne (congrArg some he)
          · exact hapart z hz

lemma examined_of_ne (hstrategy : s.allocationStrategy ≠ .nextFit) (a : ℕ) :
    Examined s a ↔ Listed s.toHeap a := by
  unfold Examined
  split
  · exact absurd ‹_› hstrategy
  · rfl

lemma examined_of_eq (hstrategy : s.allocationStrategy = .nextFit) (a : ℕ) :
    Examined s a ↔ Visited s a := by
  unfold Examined
  rw [hstrategy]

lemma Visited.lt (hp : PointersOk s) {a : ℕ} (ha : Visited s a) : a < 2 ^ 64 := by
  obtain ⟨c, xs, e, hc, hvisits, -, hmem⟩ := ha
  exact visits_lt hp.heap hvisits (hp.startCursor c hc) a hmem

lemma Examined.lt (hp : PointersOk s) {a : ℕ} (ha : Examined s a) : a < 2 ^ 64 := by
  by_cases hstrategy : s.allocationStrategy = .nextFit
  · exact ((examined_of_eq hstrategy a).mp ha).lt hp
  · exact ((examined_of_ne hstrategy a).mp ha).lt hp.heap

lemma nextFit_visited {b : ℕ × Link} (hok : nextFit s size fuel = .ok (some b)) :
    Visited s b.1 ∧ size ≤ s.size b.1 := by
  unfold nextFit at hok
  cases hc : startCursor s with
  | none =>
    rw [hc] at hok
    cases fuel with
    | zero => cases hok
    | succ fuel => cases hok
  | some c =>
    rw [hc] at hok
    obtain ⟨xs, e, hvisits, hapart, hmem, hfit⟩ := nextFitLoop_visited hok
    exact ⟨⟨c, xs, e, hc, hvisits, hapart, hmem⟩, hfit⟩

lemma not_nextFit_none {a : ℕ} (ha : Visited s a) (hfit : size ≤ s.size a) :
    nextFit s size fuel ≠ .ok none := by
  obtain ⟨c, xs, e, hc, hvisits, hapart, hmem⟩ := ha
  have hstart : ∀ y ∈ xs, some y ≠ some c := fun y hy he => hapart y hy (Option.some.inj he)
  unfold nextFit
  rw [hc]
  rcases @nextFitLoop_visits σ s.toHeap size (some c) c xs e none hvisits hstart with
    ⟨before, y, after, -, -, -, hret⟩ | ⟨hsmall, -⟩
  · intro hnone
    exact absurd (hret.eq_of_ok hnone) (by simp)
  · exact absurd (hsmall a hmem) (not_lt.mpr hfit)

/-- A block that is selected was examined and is large enough. -/
lemma selectBlock_some {b : ℕ × Link} (hok : selectBlock s size fuel = .ok (some b, s')) :
    Examined s b.1 ∧ size ≤ s.size b.1 := by
  have hpath : Path Link.next s.read .first [] := trivial
  unfold selectBlock at hok
  unfold Examined
  split at hok <;> obtain ⟨r, hsearch, hpair⟩ := bind_eq_ok.mp hok <;>
    obtain ⟨rfl, -⟩ := Prod.mk.inj (Except.ok.inj hpair)
  · simp only [*]
    exact fitLoop_listed hpath (by simp) hsearch
  · simp only [*]
    exact firstFitLoop_listed hpath hsearch
  · simp only [*]
    exact nextFit_visited hsearch
  · simp only [*]
    exact fitLoop_listed hpath (by simp) hsearch

/-- A search that selects nothing has examined no block that is large enough. -/
lemma selectBlock_none (hok : selectBlock s size fuel = .ok (none, s')) : ¬Finds s size := by
  rintro ⟨a, ha, hfit⟩
  unfold selectBlock at hok
  unfold Examined at ha
  split at hok <;> obtain ⟨r, hsearch, hpair⟩ := bind_eq_ok.mp hok <;>
    obtain ⟨rfl, -⟩ := Prod.mk.inj (Except.ok.inj hpair) <;> simp only [*] at ha
  · obtain ⟨xs, hpath⟩ := ha
    exact fitLoop_reaches hfit hpath hsearch
  · obtain ⟨xs, hpath⟩ := ha
    exact firstFitLoop_reaches hfit hpath hsearch
  · exact not_nextFit_none ha hfit hsearch
  · obtain ⟨xs, hpath⟩ := ha
    exact fitLoop_reaches hfit hpath hsearch

lemma PointersOk.selectBlock {selected : Option (ℕ × Link)} (hp : PointersOk s)
    (hok : Vika5.selectBlock s size fuel = .ok (selected, s')) : PointersOk s' := by
  unfold Vika5.selectBlock at hok
  split at hok <;> obtain ⟨r, -, hpair⟩ := bind_eq_ok.mp hok <;>
    obtain ⟨-, rfl⟩ := Prod.mk.inj (Except.ok.inj hpair)
  · exact hp
  · exact hp
  · exact ⟨hp.heap, hp.startCursor⟩
  · exact hp

lemma PointersOk.update {cursor : Option ℕ} (hp : PointersOk s) (hp' : Malloc.PointersOk h)
    (hcursor : ∀ c, cursor = some c → c < 2 ^ 64) : PointersOk (s.update h cursor) := by
  refine ⟨hp', ?_⟩
  unfold State.update
  split_ifs
  · exact hcursor
  · exact hp.cursor

lemma measured (hp : PointersOk s)
    (hcall : myMalloc allocHeap fuel n s = .ok (some p, s')) :
    Measured (Finds s (paddedSize n)) s'.toHeap p (paddedSize n) := by
  induction fuel generalizing n s with
  | zero => cases hcall
  | succ fuel ih =>
    cases myMalloc_returned hcall with
    | selected _ _ _ _ hsearch =>
      obtain ⟨hexamined, hfit⟩ := selectBlock_some hsearch
      exact .inl ⟨⟨_, hexamined, hfit⟩, size_of_allocateBlock (hexamined.lt hp) _⟩
    | retried s₀ h₁ _ _ hsmall hsearch hext hrest =>
      have hp₀ := hp.selectBlock hsearch
      have hp₁ := hp.heap.extendHeap hext
      have hretry := (ih (hp₀.update hp₁ fun c => hp₁ .first c) hrest).le
      rw [paddedSize_paddedSize hsmall] at hretry
      exact .inr ⟨selectBlock_none hsearch, by omega⟩

end Vika5

/-- In every state, a call that returns a pointer records the size of its request exactly if its
search examines a block that is large enough, so that the heap is not extended. -/
theorem recorded_iff_finds :
    (∀ (v : BestFit) (h h' : Heap σ) (fuel n p : ℕ), PointersOk h → n ≤ HEAP_SIZE →
      (v.allocator allocHeap).malloc fuel n h = .ok (some p, h') →
      (Recorded h' p n ↔ Fits h (paddedSize n))) ∧
    ∀ (s s' : Vika5.State σ) (fuel n p : ℕ), Vika5.PointersOk s → n ≤ HEAP_SIZE →
      (Vika5.allocator allocHeap).malloc fuel n s = .ok (some p, s') →
      (Recorded s'.toHeap p n ↔ Vika5.Finds s (paddedSize n)) := by
  constructor
  · intro v h h' fuel n p hp hn hcall
    exact (Vika4.measured hp (BestFit.malloc_eq hcall)).recorded_iff hn
  · intro s s' fuel n p hp hn hcall
    exact (Vika5.measured hp hcall).recorded_iff hn

lemma pointersOk_arenaHeap : PointersOk arenaHeap := by
  intro l a ha
  cases l with
  | first =>
    obtain rfl : 4096 = a := Option.some.inj ha
    norm_num
  | next b =>
    have hnone : arenaHeap.read (.next b) = none := by
      by_cases hb : b = 4096 <;> simp [arenaHeap, Heap.read, Function.update, hb]
    rw [hnone] at ha
    cases ha

theorem recorded_arenaServed :
    (Recorded Vika4.arenaServed 4112 100 ↔ Fits arenaHeap 128) ∧
    (Recorded (Vika5.afterMalloc Vika5.arenaState 100).toHeap 4112 100 ↔
      Vika5.Finds Vika5.arenaState 128) := by
  have hboth := @recorded_iff_finds Unit arena
  constructor
  · exact hboth.1 .vika4 arenaHeap _ 3 100 4112 pointersOk_arenaHeap (by decide) rfl
  · exact hboth.2 Vika5.arenaState _ 5 100 4112 ⟨pointersOk_arenaHeap, by simp [Vika5.arenaState]⟩
      (by decide) rfl

/-- The whole heap after `initAllocator` is handed out. -/
def fullHeap : Heap Unit := (allocateBlock arenaHeap .first 4096 HEAP_SIZE).2

lemma step_fullHeap : Step (Vika4.allocator arena) (Vika4.initial arenaHeap)
    (.malloc (HEAP_SIZE - 16)) ⟨fullHeap, [4112]⟩ :=
  .malloc _ _ (some 4112) _ (by decide) ⟨3, rfl⟩

/-- A request of 100 bytes that extends the heap gets a block with a header of 144 bytes. -/
theorem not_recorded_fullHeap :
    ∃ h' p, initAllocator arena (fun _ => ⟨0, none⟩) () = .ok arenaHeap ∧
      IsRun (Step (Vika4.allocator arena)) (Vika4.initial arenaHeap)
        [(.malloc (HEAP_SIZE - 16), ⟨fullHeap, [4112]⟩), (.malloc 100, ⟨h', [p, 4112]⟩)] ∧
      h'.size (sub64 p HEADER_SIZE) = 144 ∧ ¬Recorded h' p 100 := by
  have hrun : IsRun (Step (Vika4.allocator arena)) (Vika4.initial arenaHeap)
      [(.malloc (HEAP_SIZE - 16), ⟨fullHeap, [4112]⟩)] := ⟨step_fullHeap, trivial⟩
  have hintact : Intact fullHeap [4112] :=
    Vika4.intact_of_run arena_contiguous initAllocator_arena hrun ⟨.inl (by decide), trivial⟩
  obtain ⟨ts, hl, -⟩ := hintact
  obtain ⟨r, h', hret, ho⟩ := Vika4.myMalloc_outcome (n := 100) hl arena_contiguous (by norm_num)
  cases ho with
  | tooLarge hlarge => exact absurd hlarge (by decide)
  | noMemory os _ _ hA =>
    have hmem : (arena (some 4096) (wrap64 (HEAP_SIZE + HEAP_SIZE)) ()).1 = none :=
      congrArg Prod.fst hA
    exact absurd hmem (by decide)
  | served us vs t _ _ hts ht _ _ _ _ _ =>
    have hfree : t.lo ∈ freeStarts ts := mem_freeStarts.mpr ⟨t, by simp [hts], ht, rfl⟩
    have hnone : (freeStarts ts).head? = none := hl.chain.get_eq_head?.symm
    rw [List.head?_eq_none_iff.mp hnone] at hfree
    exact absurd hfree (by simp)
  | extended _ _ _ _ _ _ hlaid _ _ _ =>
    have hsize := hlaid.sizes _ (List.mem_append_right ts (mem_cut_live (newChunk fullHeap) _))
    have hheader : sub64 (dataOf (newChunk fullHeap).lo) HEADER_SIZE = (newChunk fullHeap).lo := by
      decide
    rw [← hheader] at hsize
    refine ⟨h', _, initAllocator_arena, ⟨step_fullHeap, ?_, trivial⟩, hsize, ?_⟩
    · exact .malloc _ 100 (some _) _ (by norm_num) hret.exists_eq
    · unfold Recorded
      rw [hsize]
      decide
  | refused _ _ _ heq _ _ _ _ _ _ => exact absurd heq (by decide)

end StyLinux.Malloc
