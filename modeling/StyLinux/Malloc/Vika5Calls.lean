import StyLinux.Malloc.Client
import StyLinux.Malloc.Vika4
import StyLinux.Malloc.Vika5

/-!
# One call of the allocator with selectable strategies

The link that `my_malloc` patches is the one that points to the selected block unless
next-fit is in force and the cursor is not at the head of the list: then a block selected
at the cursor is unlinked through `_firstFreeBlock`, and the head, if it is selected after
the search went round, is unlinked through the last block. `CursorLinked` and `HeadKept`
say that the first and the second of these do not happen.
-/

namespace StyLinux.Malloc.Vika5

open Lib

variable {σ : Type}

/-- `b` comes behind `c` on the free list. -/
def Behind (h : Heap σ) (c b : ℕ) : Prop :=
  ∃ blocks, Returns .outOfFuel (fun fuel => walkFree h fuel (h.read (.next c))) (.ok blocks) ∧
    b ∈ blocks

/-- The block at the cursor of next-fit is the head of the list or too small. -/
def CursorLinked (s : State σ) (size : ℕ) : Prop :=
  s.allocationStrategy = .nextFit → ∀ c, s.nextFitCursor = some c →
    s.firstFreeBlock = some c ∨ s.size c < size

/-- Next-fit starts at the head of the list, or finds a block before it comes back to the
head, or the head is too small. -/
def HeadKept (s : State σ) (size : ℕ) : Prop :=
  s.allocationStrategy = .nextFit → ∀ c, s.nextFitCursor = some c →
    s.firstFreeBlock = some c ∨ size ≤ s.size c ∨
    (∃ b, Behind s.toHeap c b ∧ size ≤ s.size b) ∨ ∀ x, s.firstFreeBlock = some x → s.size x < size

/-- The search of next-fit starts with a `NULL` block. -/
def Stuck (s : State σ) : Prop := s.allocationStrategy = .nextFit ∧ s.firstFreeBlock = none

/-- While next-fit is in force, its cursor is `NULL` or on the free list. -/
def CursorOk (s : State σ) : Prop :=
  s.allocationStrategy = .nextFit → ∀ c, s.nextFitCursor = some c →
    ∀ xs, Chain Link.next s.read .first xs → c ∈ xs

def State.started (s : State σ) : State σ :=
  match s.allocationStrategy with
  | .nextFit => { s with nextFitCursor := startCursor s }
  | _ => s

@[simp] lemma State.toHeap_update (s : State σ) (h : Heap σ) (cursor : Option ℕ) :
    (s.update h cursor).toHeap = h := rfl

@[simp] lemma State.allocationStrategy_update (s : State σ) (h : Heap σ) (cursor : Option ℕ) :
    (s.update h cursor).allocationStrategy = s.allocationStrategy := rfl

@[simp] lemma State.toHeap_started (s : State σ) : s.started.toHeap = s.toHeap := by
  unfold started
  split <;> rfl

@[simp] lemma State.allocationStrategy_started (s : State σ) :
    s.started.allocationStrategy = s.allocationStrategy := by
  unfold started
  split <;> simp [*]

/-! ### Cursors on the list -/

lemma cursorOk_update (s : State σ) {h : Heap σ} {cursor : Option ℕ} {xs : List ℕ}
    (hc : Chain Link.next h.read .first xs) (hcursor : ∀ c, cursor = some c → c ∈ xs) :
    CursorOk (s.update h cursor) := by
  intro hnext c hs ys hys
  have hnf : s.allocationStrategy = .nextFit := hnext
  have he : cursor = some c := by
    rw [← hs]
    simp [State.update, hnf]
  have hsame : ys = xs := Chain.unique hys hc
  rw [hsame]
  exact hcursor c he

lemma mem_of_firstFreeBlock {h : Heap σ} {xs : List ℕ} (hc : Chain Link.next h.read .first xs)
    (c : ℕ) (hfirst : h.firstFreeBlock = some c) : c ∈ xs := by
  have hhead : h.firstFreeBlock = xs.head? := hc.get_eq_head?
  exact List.mem_of_mem_head? (hhead.symm.trans hfirst)

/-- The cursor that `my_malloc` leaves behind, when the patched link is on the list. -/
lemma cursorOk_afterSelect (s : State σ) {h : Heap σ} {xs ys : List ℕ}
    (hc : Chain Link.next h.read .first (xs ++ ys)) :
    CursorOk (s.update h (cursorAfter h (endLink Link.next .first xs))) := by
  apply cursorOk_update s hc
  intro c hcursor
  unfold cursorAfter at hcursor
  have hlink := hc.get_endLink
  cases hr : h.read (endLink Link.next .first xs) with
  | none =>
    rw [hr] at hcursor
    exact mem_of_firstFreeBlock hc c hcursor
  | some next =>
    rw [hr] at hcursor hlink
    obtain rfl := Option.some.inj hcursor
    exact List.mem_append_right xs (List.mem_of_mem_head? hlink.symm)

/-! ### The search -/

/-- The possible results of the search in a heap laid out as `ts`. -/
inductive Selection (s : State σ) (ts : List Chunk) (size : ℕ) : Option (ℕ × Link) → Prop
  | sound (r : Option (ℕ × Link)) : Selects s.toHeap size (freeStarts ts) r →
      CursorLinked s size → HeadKept s size → Selection s ts size r
  | atCursor (us vs : List Chunk) (t : Chunk) : ts = us ++ t :: vs → t.tag = .free →
      freeStarts us ≠ [] → size ≤ t.len → ¬CursorLinked s size → HeadKept s size →
      Selection s ts size (some (t.lo, .first))
  | atHead (x last : ℕ) : s.firstFreeBlock = some x → ¬HeadKept s size →
      Selection s ts size (some (x, .next last))

variable {s : State σ} {ts : List Chunk} {live : List ℕ} {size : ℕ}

lemma Selection.of_selects {r : Option (ℕ × Link)} (hs : Selects s.toHeap size (freeStarts ts) r)
    (hcursor : s.allocationStrategy = .nextFit → ∀ c, s.nextFitCursor = some c →
      s.firstFreeBlock = some c) : Selection s ts size r :=
  .sound r hs (fun hnf c hc => .inl (hcursor hnf c hc)) (fun hnf c hc => .inl (hcursor hnf c hc))

lemma behind_iff {h : Heap σ} {c b : ℕ} {ys : List ℕ} (hc : Chain Link.next h.read (.next c) ys) :
    Behind h c b ↔ b ∈ ys := by
  have hwalk := returns_walkFree hc
  constructor
  · rintro ⟨blocks, hret, hb⟩
    obtain ⟨fuel, hok⟩ := hret.exists_eq
    obtain rfl := Except.ok.inj (hwalk.eq_of_ok hok)
    exact hb
  · intro hb
    exact ⟨ys, hwalk, hb⟩

lemma NextFitResult.selection (hl : Laid s.toHeap ts live)
    (hnf : s.allocationStrategy = .nextFit) {c : ℕ} (hcursor : s.nextFitCursor = some c)
    {xs ys : List ℕ} (hxs : freeStarts ts = xs ++ c :: ys) {r : Option (ℕ × Link)}
    (hr : NextFitResult s.toHeap size xs c ys r) : Selection s ts size r := by
  have hchain := hl.chain
  rw [hxs] at hchain
  have hnd : (xs ++ c :: ys).Nodup := hxs ▸ hl.tiles.nodup_startsOf _
  have hbehind : ∀ b, Behind s.toHeap c b ↔ b ∈ ys :=
    fun b => behind_iff ((chain_append _ _ _).mp hchain).2.2
  have hfirst : s.firstFreeBlock = (xs ++ c :: ys).head? := hchain.get_eq_head?
  have heq : ∀ {P : ℕ → Prop}, (∀ c', s.nextFitCursor = some c' → P c') ↔ P c := by
    intro P
    constructor
    · intro h
      exact h c hcursor
    · intro h c' hc'
      obtain rfl := Option.some.inj (hcursor.symm.trans hc')
      exact h
  have hlinked : CursorLinked s size ↔ s.firstFreeBlock = some c ∨ s.size c < size := by
    simp [CursorLinked, hnf, heq]
  have hkept : HeadKept s size ↔ s.firstFreeBlock = some c ∨ size ≤ s.size c ∨
      (∃ b ∈ ys, size ≤ s.size b) ∨ ∀ x, s.firstFreeBlock = some x → s.size x < size := by
    simp [HeadKept, hnf, heq, hbehind]
  cases hr with
  | nothing hsmall =>
    have hc : s.size c < size := hsmall c (by simp)
    refine .sound none (hxs ▸ hsmall) (hlinked.mpr (.inr hc)) (hkept.mpr (.inr (.inr (.inr ?_))))
    intro x hx
    exact hsmall x (List.mem_of_mem_head? (hfirst.symm.trans hx))
  | linked block link hsel hcase =>
    rw [← hxs] at hsel
    rcases hcase with rfl | ⟨hsmall, hcase⟩
    · exact .sound _ hsel (hlinked.mpr (.inl hfirst)) (hkept.mpr (.inl hfirst))
    · refine .sound _ hsel (hlinked.mpr (.inr hsmall)) (hkept.mpr (.inr (.inr ?_)))
      rcases hcase with hy | ⟨x, xs', rfl, hx⟩
      · exact .inl hy
      · right
        intro x' hx'
        obtain rfl : x = x' := Option.some.inj (hfirst.symm.trans hx')
        exact hx
  | atCursor hfit hne =>
    obtain ⟨us, t, vs, rfl, ht, rfl, rfl, rfl⟩ := startsOf_eq_append_cons hxs
    have hlen : s.size t.lo = t.len := hl.sizes t (by simp)
    refine .atCursor us vs t rfl ht hne (hlen ▸ hfit) ?_ (hkept.mpr (.inr (.inl hfit)))
    rw [hlinked, not_or, not_lt]
    refine ⟨?_, hfit⟩
    obtain ⟨x, xs', hx⟩ := List.exists_cons_of_ne_nil hne
    have hx' : startsOf (fun t => t.tag = .free) us = x :: xs' := hx
    rw [hfirst, hx']
    intro he
    obtain rfl : x = t.lo := Option.some.inj he
    rw [hx'] at hnd
    simp at hnd
  | atHead x last xs' he hfit hsmall =>
    subst he
    have hne : x ≠ c := by
      rintro rfl
      simp at hnd
    refine .atHead x last hfirst ?_
    rw [hkept]
    have hc : s.size c < size := hsmall c (by simp)
    have hx : s.firstFreeBlock = some x := hfirst
    rw [hx]
    rintro (he | hle | ⟨b, hb, hle⟩ | hall)
    · exact hne (Option.some.inj he)
    · omega
    · have hb' := hsmall b (by simp [hb])
      exact absurd hle (not_le.mpr hb')
    · have hx' := hall x rfl
      exact absurd hfit (not_le.mpr hx')

lemma selectBlock_nextFit (hstrategy : s.allocationStrategy = .nextFit) (size fuel : ℕ) :
    selectBlock s size fuel = nextFit s size fuel >>= fun r => pure (r, s.started) := by
  unfold selectBlock State.started
  rw [hstrategy]

/-- Next-fit with the start of its search on the list. -/
lemma returns_selectBlock_from (hl : Laid s.toHeap ts live)
    (hstrategy : s.allocationStrategy = .nextFit) (size : ℕ) {xs ys : List ℕ} {c : ℕ}
    (hxs : freeStarts ts = xs ++ c :: ys) (hc : startCursor s = some c) :
    ∃ r, Returns .outOfFuel (fun fuel => selectBlock s size fuel) (.ok (r, s.started)) ∧
      NextFitResult s.toHeap size xs c ys r := by
  have hchain := hl.chain
  rw [hxs] at hchain
  obtain ⟨r, hret, hresult⟩ := returns_nextFitLoop size hchain (hxs ▸ hl.tiles.nodup_startsOf _)
  refine ⟨r, ?_, hresult⟩
  apply (hret.map (fun r => (r, s.started))).congr
  intro fuel
  rw [selectBlock_nextFit hstrategy, nextFit, hc]

lemma returns_selectBlock_nextFit (hl : Laid s.toHeap ts live) (hcursor : CursorOk s)
    (hstrategy : s.allocationStrategy = .nextFit) (size : ℕ) :
    Stuck s ∧ Returns .outOfFuel (fun fuel => selectBlock s size fuel) (.error .nullDeref) ∨
    ¬Stuck s ∧ ∃ r, Returns .outOfFuel (fun fuel => selectBlock s size fuel) (.ok (r, s.started)) ∧
      Selection s ts size r := by
  have hfirst : s.firstFreeBlock = (freeStarts ts).head? := hl.chain.get_eq_head?
  cases hnull : s.nextFitCursor with
  | some c =>
    have hmem : c ∈ freeStarts ts := hcursor hstrategy c hnull _ hl.chain
    obtain ⟨xs, ys, hxs⟩ := List.append_of_mem hmem
    obtain ⟨r, hret, hresult⟩ := returns_selectBlock_from hl hstrategy size hxs
      (by simp [startCursor, hnull])
    refine .inr ⟨?_, r, hret, hresult.selection hl hstrategy hnull hxs⟩
    rintro ⟨-, hnone⟩
    rw [hfirst, hxs] at hnone
    simp at hnone
  | none =>
    have hstart : startCursor s = s.firstFreeBlock := by simp [startCursor, hnull]
    cases hxs : freeStarts ts with
    | nil =>
      rw [hxs] at hfirst
      refine .inl ⟨⟨hstrategy, hfirst⟩, ?_⟩
      have hloop : Returns .outOfFuel (fun fuel => nextFit s size fuel) (.error .nullDeref) := by
        refine (Returns.const _).succ rfl ?_
        intro fuel
        have hnone : startCursor s = none := hstart.trans hfirst
        simp [nextFit, nextFitLoop, hnone]
      exact (hloop.bind_error (g := fun r _ => pure (r, s.started))).congr
        (selectBlock_nextFit hstrategy size)
    | cons c ys =>
      rw [hxs] at hfirst
      have hhead : freeStarts ts = [] ++ c :: ys := hxs
      obtain ⟨r, hret, hresult⟩ := returns_selectBlock_from hl hstrategy size hhead
        (hstart.trans hfirst)
      refine .inr ⟨by simp [Stuck, hfirst], r, hret, ?_⟩
      refine .of_selects ?_ (by simp [hnull])
      cases hresult with
      | nothing hsmall => exact hxs ▸ hsmall
      | linked block link hsel _ => exact hxs ▸ hsel
      | atCursor _ hne => exact absurd rfl hne
      | atHead x last xs' he _ _ => exact absurd he (by simp)

/-- The search dereferences `NULL` when next-fit meets an empty list, and ends otherwise. -/
lemma returns_selectBlock (hl : Laid s.toHeap ts live) (hcursor : CursorOk s) (size : ℕ) :
    Stuck s ∧ Returns .outOfFuel (fun fuel => selectBlock s size fuel) (.error .nullDeref) ∨
    ¬Stuck s ∧ ∃ r, Returns .outOfFuel (fun fuel => selectBlock s size fuel) (.ok (r, s.started)) ∧
      Selection s ts size r := by
  cases hstrategy : s.allocationStrategy with
  | bestFit =>
    obtain ⟨r, hret, hpicks⟩ := returns_bestFit size hl.chain
    refine .inr ⟨by simp [Stuck, hstrategy], r, ?_,
      .of_selects hpicks.selects (by simp [hstrategy])⟩
    simpa [selectBlock, State.started, hstrategy] using hret.map (fun r => (r, s))
  | firstFit =>
    obtain ⟨r, hret, hpicks⟩ := returns_firstFit size hl.chain
    refine .inr ⟨by simp [Stuck, hstrategy], r, ?_,
      .of_selects hpicks.selects (by simp [hstrategy])⟩
    simpa [selectBlock, State.started, hstrategy] using hret.map (fun r => (r, s))
  | worstFit =>
    obtain ⟨r, hret, hpicks⟩ := returns_worstFit size hl.chain
    refine .inr ⟨by simp [Stuck, hstrategy], r, ?_,
      .of_selects hpicks.selects (by simp [hstrategy])⟩
    simpa [selectBlock, State.started, hstrategy] using hret.map (fun r => (r, s))
  | nextFit => exact returns_selectBlock_nextFit hl hcursor hstrategy size

/-! ### The call -/

lemma fst_allocateBlock (h : Heap σ) (l : Link) (a n : ℕ) :
    (allocateBlock h l a n).1 = wrap64 (a + HEADER_SIZE) := rfl

lemma firstFreeBlock_allocateBlock (h : Heap σ) (b a n : ℕ) :
    (allocateBlock h (.next b) a n).2.firstFreeBlock = h.firstFreeBlock := by
  unfold allocateBlock
  split <;> rfl

lemma read_allocateBlock_self (h : Heap σ) (l : Link) (a n : ℕ) :
    (allocateBlock h l a n).2.read (.next a) = none := by
  simp [allocateBlock]

/-- The ways in which a request that is not too large can end. -/
inductive Call (allocHeap : AllocHeap σ) (n : ℕ) (s : State σ) (ts : List Chunk) (live : List ℕ) :
    Option ℕ → State σ → Prop
  | sound (r : Option ℕ) (s' : State σ) : CursorLinked s (paddedSize n) →
      HeadKept s (paddedSize n) → Outcome allocHeap n s.toHeap ts live r s'.toHeap → CursorOk s' →
      Call allocHeap n s ts live r s'
  | atCursor (us vs : List Chunk) (t : Chunk) (s' : State σ) : ts = us ++ t :: vs →
      t.tag = .free → freeStarts us ≠ [] → paddedSize n ≤ t.len →
      ¬CursorLinked s (paddedSize n) → HeadKept s (paddedSize n) →
      Laid s'.toHeap (abandon us ++ cut t (paddedSize n) ++ vs) (dataOf t.lo :: live) →
      CursorOk s' → Call allocHeap n s ts live (some (dataOf t.lo)) s'
  | atHead (x : ℕ) (s' : State σ) : ¬HeadKept s (paddedSize n) → s'.firstFreeBlock = some x →
      s'.read (.next x) = none → Call allocHeap n s ts live (some (dataOf x)) s'

section Call

variable {allocHeap : AllocHeap σ} {n : ℕ}

lemma CursorOk.started (hcursor : CursorOk s) (os : σ) :
    CursorOk { s.started with toHeap := s.withOs os } := by
  intro hnf c hc xs hxs
  have hnf' : s.allocationStrategy = .nextFit := by simpa using hnf
  have hchain : Chain Link.next s.read .first xs := by simpa using hxs
  have hstart : startCursor s = some c := by simpa [State.started, hnf'] using hc
  unfold startCursor at hstart
  cases hnull : s.nextFitCursor with
  | none =>
    rw [hnull] at hstart
    exact mem_of_firstFreeBlock hchain c hstart
  | some c' =>
    rw [hnull] at hstart
    obtain rfl := Option.some.inj hstart
    exact hcursor hnf' c' hnull xs hchain

lemma returns_tooLarge (hn : HEAP_SIZE < paddedSize n) :
    Returns .outOfFuel (fun fuel => myMalloc allocHeap fuel n s) (.ok (none, s)) := by
  refine (Returns.const _).succ rfl ?_
  intro fuel
  simp only [myMalloc, hn, if_true]

lemma returns_stuck (hn : paddedSize n ≤ HEAP_SIZE)
    (hsearch : Returns .outOfFuel (fun fuel => selectBlock s (paddedSize n) fuel)
      (.error .nullDeref)) :
    Returns .outOfFuel (fun fuel => myMalloc allocHeap fuel n s) (.error .nullDeref) := by
  refine (hsearch.bind_error (g := fun x fuel => afterSelect allocHeap
    (myMalloc allocHeap fuel) (paddedSize n) x.1 x.2 fuel)).succ rfl ?_
  intro fuel
  simp only [myMalloc, not_lt.mpr hn, if_false]

lemma returns_myMalloc {selected : Option (ℕ × Link)} {r : Except Fault (Option ℕ × State σ)}
    (hn : paddedSize n ≤ HEAP_SIZE)
    (hsearch : Returns .outOfFuel (fun fuel => selectBlock s (paddedSize n) fuel)
      (.ok (selected, s.started)))
    (hafter : Returns .outOfFuel (fun fuel => afterSelect allocHeap (myMalloc allocHeap fuel)
      (paddedSize n) selected s.started fuel) r) :
    Returns .outOfFuel (fun fuel => myMalloc allocHeap fuel n s) r := by
  have hbind := hsearch.bind (g := fun x fuel => afterSelect allocHeap
    (myMalloc allocHeap fuel) (paddedSize n) x.1 x.2 fuel) hafter
  refine hbind.succ rfl ?_
  intro fuel
  simp only [myMalloc, not_lt.mpr hn, if_false]

lemma returns_selected (hn : paddedSize n ≤ HEAP_SIZE) {block : ℕ} {link : Link}
    (hsearch : Returns .outOfFuel (fun fuel => selectBlock s (paddedSize n) fuel)
      (.ok (some (block, link), s.started))) {p : ℕ} {h : Heap σ}
    (hh : allocateBlock s.toHeap link block (paddedSize n) = (p, h)) :
    Returns .outOfFuel (fun fuel => myMalloc allocHeap fuel n s)
      (.ok (some p, s.started.update h (cursorAfter h link))) := by
  apply returns_myMalloc hn hsearch
  refine (Returns.const _).congr ?_
  intro fuel
  simp only [afterSelect, State.toHeap_started, hh]

lemma returns_noMemory (hn : paddedSize n ≤ HEAP_SIZE) {os : σ}
    (hsearch : Returns .outOfFuel (fun fuel => selectBlock s (paddedSize n) fuel)
      (.ok (none, s.started)))
    (hA : allocHeap (some s.heapStart) (wrap64 (s.heapSize + HEAP_SIZE)) s.os = (none, os)) :
    Returns .outOfFuel (fun fuel => myMalloc allocHeap fuel n s)
      (.ok (none, { s.started with toHeap := s.withOs os })) := by
  apply returns_myMalloc hn hsearch
  refine (Returns.bind (returns_extendHeap_none hA) (g := fun x fuel =>
    if x.1 then myMalloc allocHeap fuel (paddedSize n) (s.started.update x.2 x.2.firstFreeBlock)
    else pure (none, { s.started with toHeap := x.2 })) (Returns.const _)).congr ?_
  intro fuel
  simp only [afterSelect, State.toHeap_started]

lemma returns_extended (hn : paddedSize n ≤ HEAP_SIZE) {h : Heap σ}
    {r : Except Fault (Option ℕ × State σ)}
    (hsearch : Returns .outOfFuel (fun fuel => selectBlock s (paddedSize n) fuel)
      (.ok (none, s.started)))
    (hext : Returns .outOfFuel (fun fuel => extendHeap allocHeap fuel s.toHeap) (.ok (true, h)))
    (hretry : Returns .outOfFuel (fun fuel => myMalloc allocHeap fuel (paddedSize n)
      (s.started.update h h.firstFreeBlock)) r) :
    Returns .outOfFuel (fun fuel => myMalloc allocHeap fuel n s) r := by
  apply returns_myMalloc hn hsearch
  refine (hext.bind (g := fun x fuel =>
    if x.1 then myMalloc allocHeap fuel (paddedSize n) (s.started.update x.2 x.2.firstFreeBlock)
    else pure (none, { s.started with toHeap := x.2 })) hretry).congr ?_
  intro fuel
  simp only [afterSelect, State.toHeap_started]

lemma returns_handOut (allocHeap : AllocHeap σ) {us us' vs : List Chunk} {t : Chunk}
    (hl : Laid s.toHeap (us ++ t :: vs) live) (ht : t.tag = .free) (hn : paddedSize n ≤ HEAP_SIZE)
    (hpos : 0 < paddedSize n) (hle : paddedSize n ≤ t.len) (hus : Abandons us us')
    (hpath : Path Link.next s.read .first (freeStarts us'))
    (hsearch : Returns .outOfFuel (fun fuel => selectBlock s (paddedSize n) fuel)
      (.ok (some (t.lo, endLink Link.next .first (freeStarts us')), s.started))) :
    ∃ s', Returns .outOfFuel (fun fuel => myMalloc allocHeap fuel n s)
        (.ok (some (dataOf t.lo), s')) ∧
      Laid s'.toHeap (us' ++ cut t (paddedSize n) ++ vs) (dataOf t.lo :: live) ∧ CursorOk s' ∧
      s'.allocationStrategy = s.allocationStrategy ∧ s'.heapStart = s.heapStart ∧
      s'.heapSize = s.heapSize ∧ s'.os = s.os := by
  obtain ⟨hp, hlaid⟩ := hl.allocateBlock ht hpos (dvd_paddedSize n) hle hus hpath
  have hchain := hlaid.chain
  rw [List.append_assoc, freeStarts_append] at hchain
  have hcursor := cursorOk_afterSelect s.started hchain
  refine ⟨_, ?_, hlaid, hcursor, by simp, by simp, by simp, by simp⟩
  rw [← hp]
  exact returns_selected hn hsearch rfl

lemma returns_served (allocHeap : AllocHeap σ) (hl : Laid s.toHeap ts live) (hcursor : CursorOk s)
    (hgo : ¬Stuck s) (hlinked : CursorLinked s (paddedSize n)) (hkept : HeadKept s (paddedSize n))
    (hn : paddedSize n ≤ HEAP_SIZE) (hpos : 0 < paddedSize n) (hfit : ¬NoFit n ts) :
    ∃ us t vs s', ts = us ++ t :: vs ∧ t.tag = .free ∧ paddedSize n ≤ t.len ∧
      Returns .outOfFuel (fun fuel => myMalloc allocHeap fuel n s)
        (.ok (some (dataOf t.lo), s')) ∧
      Laid s'.toHeap (us ++ cut t (paddedSize n) ++ vs) (dataOf t.lo :: live) ∧ CursorOk s' ∧
      s'.allocationStrategy = s.allocationStrategy ∧ s'.heapStart = s.heapStart ∧
      s'.heapSize = s.heapSize ∧ s'.os = s.os := by
  rcases returns_selectBlock hl hcursor (paddedSize n) with ⟨hstuck, -⟩ | ⟨-, r, hsearch, hsel⟩
  · exact absurd hstuck hgo
  cases hsel with
  | sound r hsel _ _ =>
    cases r with
    | none => exact absurd (hl.selects_none hsel) hfit
    | some selected =>
      obtain ⟨block, link⟩ := selected
      obtain ⟨us, t, vs, rfl, ht, rfl, hle, rfl⟩ := hl.selects_some hsel
      have hchain := hl.chain
      rw [freeStarts_append] at hchain
      obtain ⟨s', hret, hrest⟩ := returns_handOut allocHeap hl ht hn hpos hle (Abandons.refl us)
        ((chain_append _ _ _).mp hchain).1 hsearch
      exact ⟨us, t, vs, s', rfl, ht, hle, hret, hrest⟩
  | atCursor us vs t _ _ _ _ hnot _ => exact absurd hlinked hnot
  | atHead x last _ hnot => exact absurd hkept hnot

lemma returns_retry (hl : Laid s.toHeap ts live) (hn : paddedSize n ≤ HEAP_SIZE)
    (hcont : Contiguous allocHeap) (hfit : NoFit n ts)
    (hsearch : Returns .outOfFuel (fun fuel => selectBlock s (paddedSize n) fuel)
      (.ok (none, s.started))) {p : ℕ} {os : σ}
    (hA : allocHeap (some s.heapStart) (wrap64 (s.heapSize + HEAP_SIZE)) s.os = (some p, os)) :
    ∃ r s', Returns .outOfFuel (fun fuel => myMalloc allocHeap fuel n s) (.ok (r, s')) ∧
      Outcome allocHeap n s.toHeap ts live r s'.toHeap ∧ CursorOk s' ∧
      s'.allocationStrategy = s.allocationStrategy := by
  obtain ⟨h, hext, hlaid, hstart, hsize, hos⟩ := hl.extendHeap hcont hA
  have hcursor : CursorOk (s.started.update h h.firstFreeBlock) :=
    cursorOk_update s.started hlaid.chain (mem_of_firstFreeBlock hlaid.chain)
  have hagain := paddedSize_paddedSize hn
  by_cases hmax : paddedSize n + 16 ≤ HEAP_SIZE
  · have hhead : (s.started.update h h.firstFreeBlock).allocationStrategy = .nextFit →
        ∀ c, (s.started.update h h.firstFreeBlock).nextFitCursor = some c →
          h.firstFreeBlock = some c := by
      intro hnf c hc
      have hnf' : s.allocationStrategy = .nextFit := by simpa using hnf
      simpa [State.update, hnf'] using hc
    have hgo : ¬Stuck (s.started.update h h.firstFreeBlock) := by
      rintro ⟨-, hnone⟩
      have hhead := hlaid.chain.get_eq_head?
      rw [← Heap.firstFreeBlock_eq_read, show h.firstFreeBlock = none from hnone] at hhead
      simp [newChunk] at hhead
    obtain ⟨us, t, vs, s', hts, ht, hle, hret, hlaid', hcursor', hstrategy, hstart', hsize',
        hos'⟩ :=
      returns_served allocHeap hlaid hcursor hgo (fun hnf c hc => .inl (hhead hnf c hc))
        (fun hnf c hc => .inl (hhead hnf c hc)) (hagain ▸ hmax) (by omega)
        (not_noFit_newChunk hmax)
    have hnew : t ∉ ts := by
      intro hin
      have := hfit t hin ht
      omega
    obtain ⟨rfl, rfl, rfl⟩ := concat_eq_middle hts hnew
    rw [hagain, List.append_nil] at hlaid'
    refine ⟨_, s', returns_extended hn hsearch hext hret, ?_, hcursor', by simpa using hstrategy⟩
    exact .extended p os s'.toHeap hmax hfit hA hlaid' (hstart'.trans hstart) (hsize'.trans hsize)
      (hos'.trans hos)
  · have heq : paddedSize n = HEAP_SIZE := by
      have hdvd := dvd_paddedSize n
      rw [HEAP_SIZE_eq] at *
      omega
    have hlarge : HEAP_SIZE < paddedSize (paddedSize n) := by omega
    refine ⟨none, _, returns_extended hn hsearch hext (returns_tooLarge hlarge), ?_, hcursor,
      by simp⟩
    exact .refused p os h heq hfit hA hlaid hstart hsize hos

/-- Every request returns unless next-fit is stuck. -/
theorem myMalloc_call (hl : Laid s.toHeap ts live) (hcursor : CursorOk s)
    (hcont : Contiguous allocHeap) (hn : n + 32 ≤ 2 ^ 64) (hsmall : paddedSize n ≤ HEAP_SIZE)
    (hgo : ¬Stuck s) :
    ∃ r s', Returns .outOfFuel (fun fuel => myMalloc allocHeap fuel n s) (.ok (r, s')) ∧
      Call allocHeap n s ts live r s' ∧ s'.allocationStrategy = s.allocationStrategy := by
  rcases returns_selectBlock hl hcursor (paddedSize n) with ⟨hstuck, -⟩ | ⟨-, r, hsearch, hsel⟩
  · exact absurd hstuck hgo
  cases hsel with
  | sound r hsel hlinked hkept =>
    cases r with
    | some selected =>
      have hfit : ¬NoFit n ts := by
        obtain ⟨block, link⟩ := selected
        obtain ⟨us, t, vs, rfl, ht, -, hle, -⟩ := hl.selects_some hsel
        intro hno
        have := hno t (by simp) ht
        omega
      obtain ⟨us, t, vs, s', rfl, ht, hle, hret, hlaid, hcursor', hstrategy, hstart, hsize, hos⟩ :=
        returns_served allocHeap hl hcursor hgo hlinked hkept hsmall (paddedSize_pos hn) hfit
      exact ⟨_, s', hret, .sound _ s' hlinked hkept (.served us vs t s'.toHeap hsmall rfl ht hle
        hlaid hstart hsize hos) hcursor', hstrategy⟩
    | none =>
      have hfit : NoFit n ts := hl.selects_none hsel
      cases hA : allocHeap (some s.heapStart) (wrap64 (s.heapSize + HEAP_SIZE)) s.os with
      | mk p os =>
        cases p with
        | none =>
          refine ⟨none, _, returns_noMemory hsmall hsearch hA, .sound _ _ hlinked hkept ?_
            (hcursor.started os), by simp⟩
          exact .noMemory os hsmall hfit hA
        | some p =>
          obtain ⟨r, s', hret, ho, hcursor', hstrategy⟩ :=
            returns_retry hl hsmall hcont hfit hsearch hA
          exact ⟨r, s', hret, .sound r s' hlinked hkept ho hcursor', hstrategy⟩
  | atCursor us vs t hts ht hne hle hnot hkept =>
    subst hts
    have hnil : Link.first = endLink Link.next .first (freeStarts (abandon us)) := by simp
    rw [hnil] at hsearch
    obtain ⟨s', hret, hlaid, hcursor', hstrategy, -⟩ := returns_handOut allocHeap hl ht hsmall
      (paddedSize_pos hn) hle (abandons_abandon us) (by simp) hsearch
    exact ⟨_, s', hret, .atCursor us vs t s' rfl ht hne hle hnot hkept hlaid hcursor', hstrategy⟩
  | atHead x last hx hnot =>
    obtain ⟨t, ht, -, rfl⟩ := mem_freeStarts.mp (mem_of_firstFreeBlock hl.chain x hx)
    have hroom := hl.toLayout.lt_room ht
    have hhead := hl.toLayout.header_le ht
    have hp : wrap64 (t.lo + HEADER_SIZE) = dataOf t.lo := wrap64_of_lt (by omega)
    have hret := @returns_selected σ s allocHeap n hsmall _ _ hsearch _ _ Prod.mk.eta.symm
    refine ⟨_, _, hret, ?_, by simp⟩
    rw [fst_allocateBlock, hp]
    refine .atHead t.lo _ hnot ?_ ?_
    · exact (firstFreeBlock_allocateBlock _ _ _ _).trans hx
    · exact read_allocateBlock_self _ _ _ _

end Call

end StyLinux.Malloc.Vika5
