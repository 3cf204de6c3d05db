import StyLinux.Malloc.Release
import StyLinux.Malloc.Search

/-!
# The allocator with selectable strategies

`vika5/malloc.c` selects the free block by one of four strategies. Next-fit starts at a
cursor that is left behind by earlier calls. Its loop begins without a previous block, so
that a block selected at the cursor is unlinked through `_firstFreeBlock`, and after the
end of the list it goes on at the first block with the last one as the previous block.
-/

namespace StyLinux.Malloc.Vika5

open Lib

inductive AllocType
  | bestFit
  | firstFit
  | nextFit
  | worstFit
  deriving DecidableEq, Repr

def AllocType.ofInt? : ℤ → Option AllocType
  | 0 => some .bestFit
  | 1 => some .firstFit
  | 2 => some .nextFit
  | 3 => some .worstFit
  | _ => none

/-- The global variables of `vika5/malloc.c`. -/
structure State (σ : Type) extends Heap σ where
  allocationStrategy : AllocType
  nextFitCursor : Option ℕ

variable {σ : Type}

/-- The block at which the next-fit loop goes on: the next one, or the first one after the
end of the list. -/
def nextCyclic (h : Heap σ) (current : ℕ) : Option ℕ :=
  match h.read (.next current) with
  | none => h.firstFreeBlock
  | some next => some next

/-- The loop of `ALLOC_NEXTFIT`, which dereferences `current` before any test. -/
def nextFitLoop (h : Heap σ) (size : ℕ) (start : Option ℕ) :
    ℕ → Option ℕ → Option ℕ → Except Fault (Option (ℕ × Link))
  | 0, _, _ => .error .outOfFuel
  | _ + 1, none, _ => .error .nullDeref
  | fuel + 1, some current, prev =>
    if size ≤ h.size current then .ok (some (current, linkOf prev))
    else if nextCyclic h current = start then .ok none
    else nextFitLoop h size start fuel (nextCyclic h current) (some current)

def startCursor (s : State σ) : Option ℕ :=
  match s.nextFitCursor with
  | none => s.firstFreeBlock
  | some cursor => some cursor

def nextFit (s : State σ) (size fuel : ℕ) : Except Fault (Option (ℕ × Link)) :=
  nextFitLoop s.toHeap size (startCursor s) fuel (startCursor s) none

/-- The `switch` of `my_malloc`, which also sets a cursor that was `NULL`. -/
def selectBlock (s : State σ) (size fuel : ℕ) :
    Except Fault (Option (ℕ × Link) × State σ) :=
  match s.allocationStrategy with
  | .bestFit => do
    let selected ← bestFit s.toHeap size fuel
    pure (selected, s)
  | .firstFit => do
    let selected ← firstFit s.toHeap size fuel
    pure (selected, s)
  | .nextFit => do
    let selected ← nextFit s size fuel
    pure (selected, { s with nextFitCursor := startCursor s })
  | .worstFit => do
    let selected ← worstFit s.toHeap size fuel
    pure (selected, s)

/-- `s` with another heap, and with another cursor if next-fit is in force. -/
def State.update (s : State σ) (h : Heap σ) (cursor : Option ℕ) : State σ :=
  { s with
    toHeap := h
    nextFitCursor := if s.allocationStrategy = .nextFit then cursor else s.nextFitCursor }

/-- The next-fit cursor after a block was unlinked through `link`. -/
def cursorAfter (h : Heap σ) (link : Link) : Option ℕ :=
  match h.read link with
  | none => h.firstFreeBlock
  | some next => some next

/-- The part of `my_malloc` behind the search, with the recursive call as `retry`. -/
def afterSelect (allocHeap : AllocHeap σ)
    (retry : ℕ → State σ → Except Fault (Option ℕ × State σ)) (size : ℕ)
    (selected : Option (ℕ × Link)) (s : State σ) (fuel : ℕ) :
    Except Fault (Option ℕ × State σ) :=
  match selected with
  | some (block, link) =>
    let (ret, h) := allocateBlock s.toHeap link block size
    .ok (some ret, s.update h (cursorAfter h link))
  | none => do
    let (extended, h) ← extendHeap allocHeap fuel s.toHeap
    if extended then retry size (s.update h h.firstFreeBlock)
    else pure (none, { s with toHeap := h })

def myMalloc (allocHeap : AllocHeap σ) : ℕ → ℕ → State σ → Except Fault (Option ℕ × State σ)
  | 0, _, _ => .error .outOfFuel
  | fuel + 1, size, s =>
    let size := paddedSize size
    if HEAP_SIZE < size then .ok (none, s)
    else do
      let (selected, s) ← selectBlock s size fuel
      afterSelect allocHeap (myMalloc allocHeap fuel) size selected s fuel

def myFree (fuel : ℕ) (address : Option ℕ) (s : State σ) : Except Fault (State σ) :=
  match address with
  | none => .ok s
  | some address => do
    let (blockToFree, h) ← freeBlock fuel address s.toHeap
    pure (s.update h (some blockToFree))

/-- `setAllocationStrategy(type)`; an unknown type falls back to best-fit. -/
def setAllocationStrategy (type : ℤ) (s : State σ) : State σ :=
  match AllocType.ofInt? type with
  | some .nextFit =>
    { s with allocationStrategy := .nextFit, nextFitCursor := s.firstFreeBlock }
  | some strategy => { s with allocationStrategy := strategy }
  | none => { s with allocationStrategy := .bestFit }

/-- `initAllocator()`, with the initial values of the static variables. -/
def initState (allocHeap : AllocHeap σ) (mem : ℕ → Block) (os : σ) : Except Fault (State σ) := do
  let h ← initAllocator allocHeap mem os
  pure { toHeap := h, allocationStrategy := .bestFit, nextFitCursor := none }

/-! ### The next-fit walk -/

section Walk

variable {h : Heap σ} {size : ℕ} {start : Option ℕ}

/-- The next-fit loop visits the blocks of the list one after the other and then goes on
at `e`. -/
def Visits (h : Heap σ) : List ℕ → Option ℕ → Prop
  | [], _ => True
  | [x], e => nextCyclic h x = e
  | x :: y :: xs, e => nextCyclic h x = some y ∧ Visits h (y :: xs) e

lemma visits_of_chain {x : ℕ} {xs : List ℕ} (hc : Chain Link.next h.read (.next x) xs) :
    Visits h (x :: xs) h.firstFreeBlock := by
  induction xs generalizing x with
  | nil =>
    have hr : h.read (.next x) = none := hc
    simp [Visits, nextCyclic, hr]
  | cons y xs ih =>
    refine ⟨?_, ih hc.2⟩
    simp [nextCyclic, hc.1]

lemma visits_of_path {x c : ℕ} {xs : List ℕ} (hp : Path Link.next h.read (.next x) xs)
    (hend : h.read (endLink Link.next (.next x) xs) = some c) :
    Visits h (x :: xs) (some c) := by
  induction xs generalizing x with
  | nil =>
    have hr : h.read (.next x) = some c := hend
    simp [Visits, nextCyclic, hr]
  | cons y xs ih =>
    refine ⟨?_, ih hp.2 hend⟩
    simp [nextCyclic, hp.1]

lemma visits_of_tail {x : ℕ} {xs : List ℕ} (hp : Path Link.next h.read (.next x) xs) :
    ∃ e, Visits h (x :: xs) e := by
  induction xs generalizing x with
  | nil => exact ⟨nextCyclic h x, rfl⟩
  | cons y xs ih =>
    obtain ⟨e, hv⟩ := ih hp.2
    refine ⟨e, ?_, hv⟩
    simp [nextCyclic, hp.1]

lemma nextFitLoop_visits {x : ℕ} {xs : List ℕ} {e : Option ℕ} (prev : Option ℕ)
    (hv : Visits h (x :: xs) e) (hstart : ∀ y ∈ xs, some y ≠ start) :
    (∃ before y after, x :: xs = before ++ y :: after ∧ (∀ z ∈ before, h.size z < size) ∧
      size ≤ h.size y ∧
      Returns .outOfFuel (fun fuel => nextFitLoop h size start fuel (some x) prev)
        (.ok (some (y, linkOf (before.getLast?.or prev))))) ∨
    (∀ y ∈ x :: xs, h.size y < size) ∧
      ∀ r, Returns .outOfFuel (fun fuel => if e = start then .ok none
          else nextFitLoop h size start fuel e (x :: xs).getLast?) r →
        Returns .outOfFuel (fun fuel => nextFitLoop h size start fuel (some x) prev) r := by
  induction xs generalizing x prev with
  | nil =>
    by_cases hx : size ≤ h.size x
    · left
      refine ⟨[], x, [], rfl, by simp, hx, (Returns.const _).succ rfl ?_⟩
      intro fuel
      simp [nextFitLoop, hx]
    · right
      refine ⟨by simpa using hx, ?_⟩
      intro r hr
      have he : nextCyclic h x = e := hv
      refine hr.succ rfl ?_
      intro fuel
      simp only [nextFitLoop, if_neg hx, he, List.getLast?_singleton]
  | cons y xs ih =>
    by_cases hx : size ≤ h.size x
    · left
      refine ⟨[], x, y :: xs, rfl, by simp, hx, (Returns.const _).succ rfl ?_⟩
      intro fuel
      simp [nextFitLoop, hx]
    · have hne : some y ≠ start := hstart y (by simp)
      have hunfold : ∀ fuel, nextFitLoop h size start (fuel + 1) (some x) prev =
          nextFitLoop h size start fuel (some y) (some x) := by
        intro fuel
        simp only [nextFitLoop, if_neg hx, hv.1, if_neg hne]
      rcases ih (some x) hv.2 (fun z hz => hstart z (by simp [hz])) with
        ⟨before, z, after, hxs, hsmall, hz, hret⟩ | ⟨hsmall, hret⟩
      · left
        refine ⟨x :: before, z, after, by simp [hxs], ?_, hz, ?_⟩
        · intro w hw
          rcases List.mem_cons.mp hw with rfl | hw
          · omega
          · exact hsmall w hw
        · have hlast : (x :: before).getLast?.or prev = before.getLast?.or (some x) := by
            rw [List.getLast?_cons]
            cases before.getLast? <;> rfl
          rw [hlast]
          exact hret.succ rfl hunfold
      · right
        refine ⟨?_, ?_⟩
        · intro w hw
          rcases List.mem_cons.mp hw with rfl | hw
          · omega
          · exact hsmall w hw
        · intro r hr
          refine (hret r ?_).succ rfl hunfold
          have hlast : (x :: y :: xs).getLast? = (y :: xs).getLast? := by
            simp [List.getLast?_cons]
          rwa [hlast] at hr

end Walk

/-- The possible results of a next-fit search with the cursor at `c`, for a free list that
runs through `xs`, `c` and `ys`. Only the first two leave the list in order. -/
inductive NextFitResult (h : Heap σ) (size : ℕ) (xs : List ℕ) (c : ℕ) (ys : List ℕ) :
    Option (ℕ × Link) → Prop
  | nothing : (∀ x ∈ xs ++ c :: ys, h.size x < size) → NextFitResult h size xs c ys none
  | linked (block : ℕ) (link : Link) :
      Selects h size (xs ++ c :: ys) (some (block, link)) →
      xs = [] ∨ h.size c < size ∧
        ((∃ y ∈ ys, size ≤ h.size y) ∨ ∃ x xs', xs = x :: xs' ∧ h.size x < size) →
      NextFitResult h size xs c ys (some (block, link))
  | atCursor : size ≤ h.size c → xs ≠ [] → NextFitResult h size xs c ys (some (c, .first))
  | atHead (x last : ℕ) (xs' : List ℕ) : xs = x :: xs' → size ≤ h.size x →
      (∀ y ∈ c :: ys, h.size y < size) →
      NextFitResult h size xs c ys (some (x, .next last))

lemma selects_behind {h : Heap σ} {size y : ℕ} {xs before after : List ℕ} (hy : size ≤ h.size y)
    (hne : before ≠ []) :
    Selects h size (xs ++ before ++ y :: after) (some (y, linkOf (before.getLast?.or none))) := by
  refine ⟨xs ++ before, after, rfl, ?_, hy⟩
  rw [Option.or_none, ← linkOf_getLast?, List.getLast?_append_of_ne_nil _ hne]

section Rounds

variable {h : Heap σ} {size c y : ℕ} {xs ys before after : List ℕ}

/-- The search finds a block between the cursor and the end of the list. -/
lemma NextFitResult.of_firstRound (hys : c :: ys = before ++ y :: after)
    (hsmall : ∀ z ∈ before, h.size z < size) (hy : size ≤ h.size y) :
    NextFitResult h size xs c ys (some (y, linkOf (before.getLast?.or none))) := by
  cases before with
  | nil =>
    obtain ⟨rfl, rfl⟩ := List.cons.inj hys
    by_cases hxs : xs = []
    · subst hxs
      exact .linked _ _ ⟨[], _, rfl, rfl, hy⟩ (.inl rfl)
    · exact .atCursor hy hxs
  | cons b before =>
    obtain ⟨rfl, rfl⟩ := List.cons.inj hys
    have hsel := @selects_behind σ h size y xs (c :: before) after hy (by simp)
    rw [List.append_assoc] at hsel
    exact .linked _ _ hsel (.inr ⟨hsmall c (by simp), .inl ⟨y, by simp, hy⟩⟩)

/-- The search goes round and finds a block between the head of the list and the cursor. -/
lemma NextFitResult.of_secondRound {x : ℕ} (hxs : x :: xs = before ++ y :: after)
    (hsmall : ∀ z ∈ c :: ys, h.size z < size) (hsmall' : ∀ z ∈ before, h.size z < size)
    (hy : size ≤ h.size y) :
    NextFitResult h size (x :: xs) c ys
      (some (y, linkOf (before.getLast?.or (c :: ys).getLast?))) := by
  cases before with
  | nil =>
    obtain ⟨rfl, rfl⟩ := List.cons.inj hxs
    obtain ⟨last, hlast⟩ : ∃ last, (c :: ys).getLast? = some last :=
      ⟨_, List.getLast?_eq_some_getLast (by simp)⟩
    rw [hlast]
    exact .atHead x last xs rfl hy hsmall
  | cons b before =>
    obtain ⟨rfl, rfl⟩ := List.cons.inj hxs
    have hsel := @selects_behind σ h size y [] (x :: before) (after ++ c :: ys) hy (by simp)
    have hlast : ((x :: before).getLast?.or (c :: ys).getLast?) =
        (x :: before).getLast?.or none := by
      rw [List.getLast?_cons]
      rfl
    rw [hlast]
    refine .linked _ _ (by simpa using hsel) (.inr ⟨hsmall c (by simp), .inr ?_⟩)
    exact ⟨x, before ++ y :: after, rfl, hsmall' x (by simp)⟩

end Rounds

/-- The search starts at `c`, goes on at the head of the list, and ends before `c`. -/
lemma returns_nextFitLoop {h : Heap σ} {c : ℕ} {xs ys : List ℕ} (size : ℕ)
    (hc : Chain Link.next h.read .first (xs ++ c :: ys)) (hnd : (xs ++ c :: ys).Nodup) :
    ∃ r, Returns .outOfFuel (fun fuel => nextFitLoop h size (some c) fuel (some c) none) (.ok r) ∧
      NextFitResult h size xs c ys r := by
  obtain ⟨hpath, hcread, hctail⟩ := (chain_append _ _ _).mp hc
  obtain ⟨-, hndc, hdis⟩ := List.nodup_append.mp hnd
  have hfirst : h.firstFreeBlock = (xs ++ c :: ys).head? := hc.get_eq_head?
  have hstart : ∀ y ∈ ys, some y ≠ some c := by
    rintro y hy he
    obtain rfl := Option.some.inj he
    exact (List.nodup_cons.mp hndc).1 hy
  have hfirstRound := @nextFitLoop_visits σ h size (some c) c ys _ none (visits_of_chain hctail)
    hstart
  rcases hfirstRound with ⟨before, y, after, hys, hsmall, hy, hret⟩ | ⟨hsmall, hret⟩
  · exact ⟨_, hret, .of_firstRound hys hsmall hy⟩
  · cases xs with
    | nil =>
      have hcircled : h.firstFreeBlock = some c := hfirst
      refine ⟨none, hret _ ((Returns.const _).congr ?_), .nothing hsmall⟩
      intro fuel
      rw [if_pos hcircled]
    | cons x xs =>
      have hhead : h.firstFreeBlock = some x := hfirst
      have hne : h.firstFreeBlock ≠ some c := by
        rw [hhead]
        intro he
        exact hdis x (by simp) c (by simp) (Option.some.inj he)
      have hend : h.read (endLink Link.next (.next x) xs) = some c := hcread
      have hstart' : ∀ y ∈ xs, some y ≠ some c := by
        rintro y hy he
        exact hdis y (by simp [hy]) c (by simp) (Option.some.inj he)
      have hsecondRound := @nextFitLoop_visits σ h size (some c) x xs _ (c :: ys).getLast?
        (visits_of_path hpath.2 hend) hstart'
      have hgo : ∀ r, Returns .outOfFuel (fun fuel => nextFitLoop h size (some c) fuel (some x)
          (c :: ys).getLast?) r →
          Returns .outOfFuel (fun fuel => nextFitLoop h size (some c) fuel (some c) none) r := by
        intro r hr
        apply hret r
        refine hr.congr ?_
        intro fuel
        rw [if_neg hne, hhead]
      rcases hsecondRound with ⟨before, y, after, hxs, hsmall', hy, hret'⟩ | ⟨hsmall', hret'⟩
      · exact ⟨_, hgo _ hret', .of_secondRound hxs hsmall hsmall' hy⟩
      · refine ⟨none, hgo _ (hret' _ ((Returns.const _).congr ?_)), .nothing ?_⟩
        · intro fuel
          rw [if_pos rfl]
        · intro z hz
          rcases List.mem_append.mp hz with hz | hz
          · exact hsmall' z hz
          · exact hsmall z hz

end StyLinux.Malloc.Vika5
