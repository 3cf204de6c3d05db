import StyLinux.Malloc.Vika4Runs
import StyLinux.Malloc.Vika5Calls

/-!
# Runs of the allocator with selectable strategies

A client of the `vika5` allocator also switches the strategy. As long as no search of
next-fit takes the head after going round, the heap stays laid out, possibly with lost
blocks; blocks get lost exactly when next-fit selects a block at a cursor behind the head.
-/

namespace StyLinux.Malloc.Vika5

open Lib

variable {σ : Type} {allocHeap : AllocHeap σ}

def allocator (allocHeap : AllocHeap σ) : Allocator (State σ) σ where
  heap := State.toHeap
  setMem s mem := { s with mem }
  malloc := myMalloc allocHeap
  free := myFree

inductive Action
  | client (op : Op)
  | setStrategy (type : ℤ)
  deriving DecidableEq, Repr

/-- One action of a client that also sets the strategy. -/
inductive StrategyStep (allocHeap : AllocHeap σ) :
    Config (State σ) → Action → Config (State σ) → Prop
  | client (c c' : Config (State σ)) (op : Op) : Step (allocator allocHeap) c op c' →
      StrategyStep allocHeap c (.client op) c'
  | setStrategy (c : Config (State σ)) (type : ℤ) :
      StrategyStep allocHeap c (.setStrategy type) ⟨setAllocationStrategy type c.state, c.live⟩

def NoWrap (_ : Config (State σ)) : Action → Prop
  | .client (.malloc n) => n + 32 ≤ 2 ^ 64
  | _ => True

def SearchMeets (C : State σ → ℕ → Prop) (c : Config (State σ)) : Action → Prop
  | .client (.malloc n) => paddedSize n ≤ HEAP_SIZE → C c.state (paddedSize n)
  | _ => True

def LinkIntact : Config (State σ) → Action → Prop :=
  SearchMeets (fun s size => CursorLinked s size ∧ HeadKept s size)

/-- The list from `_firstFreeBlock` is in address order, no block is twice on it or handed
out, or both, and every byte of the heap belongs to exactly one block that is on it or
handed out. -/
def NothingLost (h : Heap σ) (live : List ℕ) : Prop :=
  ∃ free, FreeList h free ∧ free.Pairwise (· < ·) ∧
    (free ++ live.map (· - HEADER_SIZE)).Nodup ∧
    ∀ x, h.heapStart ≤ x → x < h.heapStart + h.heapSize →
      ∃! b, b ∈ free ++ live.map (· - HEADER_SIZE) ∧ b ≤ x ∧ x < b + h.size b

section Lost

variable {h : Heap σ} {ts : List Chunk} {live : List ℕ}

lemma mem_blocks (hl : Laid h ts live) {b : ℕ} :
    b ∈ freeStarts ts ++ live.map (· - HEADER_SIZE) ↔ ∃ t ∈ ts, t.tag ≠ .lost ∧ t.lo = b := by
  rw [List.mem_append, hl.live_map_sub.mem_iff, mem_freeStarts, mem_liveStarts]
  constructor
  · rintro (⟨t, ht, htag, rfl⟩ | ⟨t, ht, htag, rfl⟩)
    · exact ⟨t, ht, by simp [htag], rfl⟩
    · exact ⟨t, ht, by simp [htag], rfl⟩
  · rintro ⟨t, ht, htag, rfl⟩
    cases hcase : t.tag with
    | free => exact .inl ⟨t, ht, hcase, rfl⟩
    | live => exact .inr ⟨t, ht, hcase, rfl⟩
    | lost => exact absurd hcase htag

lemma covers_iff (hl : Laid h ts live) {t : Chunk} (ht : t ∈ ts) (x : ℕ) :
    t.lo ≤ x ∧ x < t.lo + h.size t.lo ↔ t.Covers x := by
  rw [hl.sizes t ht]
  rfl

theorem nothingLost_of_laid (hl : Laid h ts live) (hts : NoLost ts) : NothingLost h live := by
  refine ⟨freeStarts ts, hl.freeList, hl.tiles.pairwise_startsOf _, ?_, ?_⟩
  · have hperm := hts.perm.trans (hl.live_map_sub.symm.append_left _)
    exact hperm.nodup_iff.mp hl.tiles.nodup_lo
  · intro x hstart hend
    obtain ⟨t, ht, hcovers⟩ := hl.tiles.cover hstart hend
    refine ⟨t.lo,
      ⟨(mem_blocks hl).mpr ⟨t, ht, hts t ht, rfl⟩, (covers_iff hl ht x).mpr hcovers⟩, ?_⟩
    rintro b ⟨hb, hcovers'⟩
    obtain ⟨s, hs, -, rfl⟩ := (mem_blocks hl).mp hb
    rw [hl.tiles.covers_unique hs ht ((covers_iff hl hs x).mp hcovers') hcovers]

/-- A lost block is neither on the list nor handed out. -/
theorem not_nothingLost_of_lost (hl : Laid h ts live) {t : Chunk} (ht : t ∈ ts)
    (htag : t.tag = .lost) : ¬NothingLost h live := by
  rintro ⟨free, hfree, -, -, hcover⟩
  have hpos := hl.tiles.pos ht
  obtain ⟨hlo, hhi⟩ := hl.bounds ht
  obtain ⟨b, ⟨hb, hcovers⟩, -⟩ := hcover t.lo hlo (by omega)
  rw [hl.freeList_unique hfree] at hb
  obtain ⟨s, hs, hne, rfl⟩ := (mem_blocks hl).mp hb
  have hself : t.Covers t.lo := ⟨le_rfl, Nat.lt_add_of_pos_right hpos⟩
  obtain rfl := hl.tiles.covers_unique hs ht ((covers_iff hl hs _).mp hcovers) hself
  exact hne htag

/-- A block that is handed out may not be the head of the list. -/
theorem not_nothingLost_of_head {x : ℕ} (hfirst : h.firstFreeBlock = some x)
    (hnext : h.read (.next x) = none) : ¬NothingLost h (dataOf x :: live) := by
  rintro ⟨free, hfree, -, hnodup, -⟩
  have hchain : Chain Link.next h.read .first [x] := ⟨hfirst, hnext⟩
  obtain ⟨fuel, hok⟩ := hfree.exists_eq
  obtain rfl := Except.ok.inj ((returns_walkFree hchain).eq_of_ok hok)
  simp [dataOf] at hnodup

end Lost

/-! ### One step -/

/-- The heap is laid out, possibly with lost blocks, and the cursor is in order. -/
def Sound (c : Config (State σ)) : Prop :=
  (∃ ts, Laid c.state.toHeap ts c.live) ∧ CursorOk c.state

/-- The heap is laid out without lost blocks, and the cursor is in order. -/
def Whole (c : Config (State σ)) : Prop := Intact c.state.toHeap c.live ∧ CursorOk c.state

section Step

variable {s : State σ} {ts us vs : List Chunk} {t : Chunk} {live : List ℕ}

lemma cursorOk_setAllocationStrategy (type : ℤ) (s : State σ) :
    CursorOk (setAllocationStrategy type s) := by
  unfold setAllocationStrategy
  split
  · intro _ c hc xs hxs
    exact mem_of_firstFreeBlock hxs c hc
  · rename_i hne heq
    intro hnf
    exact absurd hnf hne
  · intro hnf
    exact absurd hnf (by simp)

lemma malloc_cases (hcont : Contiguous allocHeap) (hl : Laid s.toHeap ts live)
    (hcursor : CursorOk s) {n : ℕ} (hn : n + 32 ≤ 2 ^ 64) {r : Option ℕ} {s' : State σ}
    (hcall : ∃ fuel, myMalloc allocHeap fuel n s = .ok (r, s')) :
    HEAP_SIZE < paddedSize n ∧ r = none ∧ s' = s ∨
    paddedSize n ≤ HEAP_SIZE ∧ Call allocHeap n s ts live r s' := by
  obtain ⟨fuel, hcall⟩ := hcall
  by_cases hlarge : HEAP_SIZE < paddedSize n
  · have hret := @returns_tooLarge σ s allocHeap n hlarge
    obtain ⟨rfl, rfl⟩ := Prod.mk.inj (Except.ok.inj (hret.eq_of_ok hcall))
    exact .inl ⟨hlarge, rfl, rfl⟩
  · have hsmall : paddedSize n ≤ HEAP_SIZE := not_lt.mp hlarge
    rcases returns_selectBlock hl hcursor (paddedSize n) with ⟨-, hsearch⟩ | ⟨hgo, -⟩
    · have hret := @returns_stuck σ s allocHeap n hsmall hsearch
      exact absurd (hret.eq_of_ok hcall) (by simp)
    · obtain ⟨r', s₁, hret, hc, -⟩ := myMalloc_call hl hcursor hcont hn hsmall hgo
      obtain ⟨rfl, rfl⟩ := Prod.mk.inj (Except.ok.inj (hret.eq_of_ok hcall))
      exact .inr ⟨hsmall, hc⟩

lemma returns_myFree (hl : Laid s.toHeap ts live) {p : ℕ} (hp : p ∈ live) :
    ∃ us t vs s', ts = us ++ t :: vs ∧
      Returns .outOfFuel (fun fuel => myFree fuel (some p) s) (.ok s') ∧
      Laid s'.toHeap (release us t vs) (live.erase p) ∧ CursorOk s' := by
  obtain ⟨t, ht, htag, rfl⟩ := hl.mem_live.mp hp
  obtain ⟨us, vs, rfl⟩ := List.append_of_mem ht
  obtain ⟨h', hret, hlaid, -⟩ := hl.freeBlock htag
  refine ⟨us, t, vs, _, rfl, hret.map (fun x => s.update x.2 (some x.1)), hlaid, ?_⟩
  apply cursorOk_update s hlaid.chain
  intro c hc
  obtain rfl := Option.some.inj hc
  have hfree : (mergedAfter (mergedBefore us ⟨t.lo, t.len, .free⟩).2 vs).1.tag = .free :=
    tag_mergedAfter (tag_mergedBefore rfl)
  rw [mem_freeStarts]
  exact ⟨_, by simp [release], hfree, lo_mergedAfter⟩

lemma abandon_lost (hus : freeStarts us ≠ []) : ∃ t ∈ abandon us, t.tag = .lost := by
  obtain ⟨x, xs, hx⟩ := List.exists_cons_of_ne_nil hus
  obtain ⟨t, ht, hfree, -⟩ := mem_freeStarts.mp (hx ▸ List.mem_cons_self : x ∈ freeStarts us)
  refine ⟨{ t with tag := .lost }, List.mem_map.mpr ⟨t, ht, by simp [hfree]⟩, rfl⟩

/-- A step whose search does not take the head after going round keeps the heap laid out.
It loses blocks exactly if it unlinks the block at the cursor through another link. -/
lemma step_laid (hcont : Contiguous allocHeap) {c c' : Config (State σ)} {a : Action}
    (hl : Laid c.state.toHeap ts c.live) (hcursor : CursorOk c.state) (hwrap : NoWrap c a)
    (hkept : SearchMeets HeadKept c a) (hstep : StrategyStep allocHeap c a c') :
    ∃ ts', Laid c'.state.toHeap ts' c'.live ∧ CursorOk c'.state ∧
      (LinkIntact c a → NoLost ts → NoLost ts') ∧
      (¬LinkIntact c a → ∃ t ∈ ts', t.tag = .lost) := by
  cases hstep with
  | setStrategy type =>
    have hheap : (setAllocationStrategy type c.state).toHeap = c.state.toHeap := by
      unfold setAllocationStrategy
      split <;> rfl
    refine ⟨ts, hheap ▸ hl, cursorOk_setAllocationStrategy type c.state, fun _ => id, ?_⟩
    intro hnot
    exact absurd trivial hnot
  | client _ op hstep =>
    cases hstep with
    | malloc n r s hn hcall =>
      rcases malloc_cases hcont hl hcursor hwrap hcall with
        ⟨hlarge, rfl, rfl⟩ | ⟨hsmall, hcall⟩
      · have hintact : LinkIntact c (.client (.malloc n)) := by
          intro hle
          exact absurd hle (not_le.mpr hlarge)
        exact ⟨ts, hl, hcursor, fun _ => id, fun hnot => absurd hintact hnot⟩
      · cases hcall with
        | sound r s hlinked hkept' ho hcursor' =>
          obtain ⟨ts', hlaid, hlost⟩ := ho.laid hl
          refine ⟨ts', hlaid, hcursor', fun _ => hlost, ?_⟩
          intro hnot
          exact absurd (fun _ => ⟨hlinked, hkept'⟩) hnot
        | atCursor us vs t s hts ht hne _ hnot hkept' hlaid hcursor' =>
          refine ⟨_, hlaid, hcursor', fun hintact => absurd (hintact hsmall).1 hnot, ?_⟩
          intro _
          obtain ⟨u, hu, hlost⟩ := abandon_lost hne
          exact ⟨u, by simp [hu], hlost⟩
        | atHead x s hnot _ _ => exact absurd (hkept hsmall) hnot
    | freeNull s hcall =>
      obtain ⟨fuel, hcall⟩ := hcall
      obtain rfl := Except.ok.inj hcall
      exact ⟨ts, hl, hcursor, fun _ => id, fun hnot => absurd trivial hnot⟩
    | free p s hp hcall =>
      obtain ⟨fuel, hcall⟩ := hcall
      obtain ⟨us, t, vs, s', rfl, hret, hlaid, hcursor'⟩ := returns_myFree hl hp
      obtain rfl := Except.ok.inj (hret.eq_of_ok hcall)
      exact ⟨_, hlaid, hcursor', fun _ => NoLost.release, fun hnot => absurd trivial hnot⟩
    | write mem hw =>
      have hlaid := hl.writesData hw
      refine ⟨ts, hlaid, ?_, fun _ => id, fun hnot => absurd trivial hnot⟩
      intro hnf x hx xs hxs
      have hsame : xs = freeStarts ts := Chain.unique hxs hlaid.chain
      rw [hsame]
      exact hcursor hnf x hx _ hl.chain

/-- A step whose search takes the head after going round leaves the head on the list. -/
lemma step_atHead (hcont : Contiguous allocHeap) {c c' : Config (State σ)} {a : Action}
    (hl : Laid c.state.toHeap ts c.live) (hcursor : CursorOk c.state) (hwrap : NoWrap c a)
    (hkept : ¬SearchMeets HeadKept c a) (hstep : StrategyStep allocHeap c a c') :
    ¬NothingLost c'.state.toHeap c'.live := by
  cases hstep with
  | setStrategy type => exact absurd trivial hkept
  | client _ op hstep =>
    cases hstep with
    | malloc n r s hn hcall =>
      obtain ⟨hsmall, hhead⟩ := Classical.not_imp.mp hkept
      rcases malloc_cases hcont hl hcursor hwrap hcall with ⟨hlarge, -, -⟩ | ⟨-, hcall⟩
      · exact absurd hsmall (not_le.mpr hlarge)
      · cases hcall with
        | sound r s _ hkept' _ _ => exact absurd hkept' hhead
        | atCursor us vs t s _ _ _ _ _ hkept' _ _ => exact absurd hkept' hhead
        | atHead x s _ hfirst hnext => exact not_nothingLost_of_head hfirst hnext
    | freeNull s _ => exact absurd trivial hkept
    | free p s _ _ => exact absurd trivial hkept
    | write mem _ => exact absurd trivial hkept

end Step

/-! ### Runs -/

section Runs

variable {s : State σ} {mem : ℕ → Block} {os : σ} {run : List (Action × Config (State σ))}

def initial (s : State σ) : Config (State σ) := ⟨s, []⟩

lemma laid_initState (hcont : Contiguous allocHeap) (hinit : initState allocHeap mem os = .ok s) :
    Laid s.toHeap [⟨s.heapStart, HEAP_SIZE, .free⟩] [] ∧ s.allocationStrategy = .bestFit := by
  unfold initState at hinit
  cases hh : initAllocator allocHeap mem os with
  | error e =>
    rw [hh] at hinit
    exact absurd hinit (by simp [Bind.bind, Except.bind])
  | ok h =>
    rw [hh] at hinit
    obtain rfl := Except.ok.inj hinit
    exact ⟨(laid_initAllocator hcont hh).1, rfl⟩

lemma whole_initial (hcont : Contiguous allocHeap) (hinit : initState allocHeap mem os = .ok s) :
    Whole (initial s) := by
  obtain ⟨hl, hstrategy⟩ := laid_initState hcont hinit
  refine ⟨⟨_, hl, by simp [NoLost]⟩, ?_⟩
  intro hnf
  have hnf' : s.allocationStrategy = .nextFit := hnf
  exact absurd (hstrategy.symm.trans hnf') (by simp)

/-- In a run of requests that do not wrap around, nothing is lost and nothing is given twice
exactly if every search finds the link that points to the selected block. -/
theorem nothingLost_iff_linkIntact (hcont : Contiguous allocHeap)
    (hinit : initState allocHeap mem os = .ok s)
    (hrun : IsRun (StrategyStep allocHeap) (initial s) run)
    (hreq : StepsMeet NoWrap (initial s) run) :
    (∀ x ∈ run, NothingLost x.2.state.toHeap x.2.live) ↔
      StepsMeet LinkIntact (initial s) run := by
  have hgood : ∀ c a c', Whole c → NoWrap c a → LinkIntact c a → StrategyStep allocHeap c a c' →
      Whole c' ∧ NothingLost c'.state.toHeap c'.live := by
    rintro c a c' ⟨⟨ts, hl, hts⟩, hcursor⟩ hwrap hlink hstep
    have hkept : SearchMeets HeadKept c a := by
      cases a with
      | setStrategy type => trivial
      | client op =>
        cases op with
        | malloc n => exact fun hle => (hlink hle).2
        | free address => trivial
        | write => trivial
    obtain ⟨ts', hl', hcursor', hlost, -⟩ := step_laid hcont hl hcursor hwrap hkept hstep
    exact ⟨⟨⟨ts', hl', hlost hlink hts⟩, hcursor'⟩, nothingLost_of_laid hl' (hlost hlink hts)⟩
  have hbad : ∀ c a c', Whole c → NoWrap c a → ¬LinkIntact c a → StrategyStep allocHeap c a c' →
      ¬NothingLost c'.state.toHeap c'.live := by
    rintro c a c' ⟨⟨ts, hl, hts⟩, hcursor⟩ hwrap hlink hstep
    by_cases hkept : SearchMeets HeadKept c a
    · obtain ⟨ts', hl', -, -, hlost⟩ := step_laid hcont hl hcursor hwrap hkept hstep
      obtain ⟨t, ht, htag⟩ := hlost hlink
      exact not_nothingLost_of_lost hl' ht htag
    · exact step_atHead hcont hl hcursor hwrap hkept hstep
  exact IsRun.forall_iff_stepsMeet hgood hbad (whole_initial hcont hinit) hrun hreq

end Runs

/-! ### A run that loses a block -/

def arenaState : State Unit where
  toHeap := arenaHeap
  allocationStrategy := .bestFit
  nextFitCursor := none

lemma initState_arena : initState arena (fun _ => ⟨0, none⟩) () = .ok arenaState := by
  rw [initState, initAllocator_arena]
  rfl

def afterMalloc (s : State Unit) (n : ℕ) : State Unit :=
  match myMalloc arena 5 n s with
  | .ok (_, s') => s'
  | .error _ => s

def afterFree (s : State Unit) (p : ℕ) : State Unit :=
  match myFree 5 (some p) s with
  | .ok s' => s'
  | .error _ => s

def nextFitState : State Unit := setAllocationStrategy 2 arenaState

/-- Two small blocks are handed out and the first one is given back. -/
def holedState : State Unit := afterFree (afterMalloc (afterMalloc nextFitState 16) 16) 4112

/-- A request that passes over the first block, and one that is served at the cursor. -/
def lossState : State Unit := afterMalloc (afterMalloc holedState 100) 16

def lossRun : List (Action × Config (State Unit)) :=
  [(.setStrategy 2, ⟨nextFitState, []⟩),
    (.client (.malloc 16), ⟨afterMalloc nextFitState 16, [4112]⟩),
    (.client (.malloc 16), ⟨afterMalloc (afterMalloc nextFitState 16) 16, [4144, 4112]⟩),
    (.client (.free (some 4112)), ⟨holedState, [4144]⟩),
    (.client (.malloc 100), ⟨afterMalloc holedState 100, [4176, 4144]⟩),
    (.client (.malloc 16), ⟨lossState, [4304, 4176, 4144]⟩)]

lemma isRun_lossRun : IsRun (StrategyStep arena) (initial arenaState) lossRun := by
  refine ⟨.setStrategy _ 2, .client _ _ _ ?_, .client _ _ _ ?_, .client _ _ _ ?_,
    .client _ _ _ ?_, .client _ _ _ ?_, trivial⟩
  · exact .malloc _ 16 (some 4112) _ (by norm_num) ⟨5, rfl⟩
  · exact .malloc _ 16 (some 4144) _ (by norm_num) ⟨5, rfl⟩
  · exact .free ⟨_, _⟩ 4112 _ (by simp) ⟨5, rfl⟩
  · exact .malloc _ 100 (some 4176) _ (by norm_num) ⟨5, rfl⟩
  · exact .malloc _ 16 (some 4304) _ (by norm_num) ⟨5, rfl⟩

lemma noWrap_lossRun : StepsMeet NoWrap (initial arenaState) lossRun := by
  simp [lossRun, NoWrap]

theorem nothingLost_lossRun :
    (∀ x ∈ lossRun, NothingLost x.2.state.toHeap x.2.live) ↔
      StepsMeet LinkIntact (initial arenaState) lossRun :=
  nothingLost_iff_linkIntact arena_contiguous initState_arena isRun_lossRun noWrap_lossRun

/-- The block at 4096 is neither on the free list nor handed out. -/
theorem not_nothingLost_lossRun :
    IsRun (StrategyStep arena) (initial arenaState) lossRun ∧
      lastState (initial arenaState) lossRun = ⟨lossState, [4304, 4176, 4144]⟩ ∧
      ¬NothingLost lossState.toHeap [4304, 4176, 4144] := by
  refine ⟨isRun_lossRun, rfl, ?_⟩
  rintro ⟨free, hfree, -, -, hcover⟩
  have hwalk : walkFree lossState.toHeap 3 lossState.firstFreeBlock = .ok [4320] := rfl
  obtain rfl := Except.ok.inj (hfree.eq_of_ok hwalk)
  obtain ⟨b, ⟨hb, hle, -⟩, -⟩ := hcover 4096 (by decide) (by decide)
  have hblocks : b ∈ [4320, 4288, 4160, 4128] := hb
  simp only [List.mem_cons, List.not_mem_nil, or_false] at hblocks
  omega

/-! ### The search of next-fit -/

section Runs

variable {s : State σ} {mem : ℕ → Block} {os : σ} {run : List (Action × Config (State σ))}

lemma sound_of_run (hcont : Contiguous allocHeap) (hinit : initState allocHeap mem os = .ok s)
    (hrun : IsRun (StrategyStep allocHeap) (initial s) run)
    (hreq : StepsMeet NoWrap (initial s) run)
    (hkept : StepsMeet (SearchMeets HeadKept) (initial s) run) :
    Sound (lastState (initial s) run) := by
  have hboth : StepsMeet (fun c a => NoWrap c a ∧ SearchMeets HeadKept c a) (initial s) run :=
    stepsMeet_and.mpr ⟨hreq, hkept⟩
  refine IsRun.invariant_last ?_ ?_ hrun hboth
  · rintro c a c' ⟨⟨ts, hl⟩, hcursor⟩ ⟨hwrap, hk⟩ hstep
    obtain ⟨ts', hl', hcursor', -⟩ := step_laid hcont hl hcursor hwrap hk hstep
    exact ⟨⟨ts', hl'⟩, hcursor'⟩
  · obtain ⟨⟨ts, hl, -⟩, hcursor⟩ := whole_initial hcont hinit
    exact ⟨⟨ts, hl⟩, hcursor⟩

/-- After a run in which no search took the head after going round, and with next-fit in
force, the search of a request ends, and so does the whole call, exactly if the free list is
not empty or the request is too large to be searched for. -/
theorem search_ends_iff (hcont : Contiguous allocHeap)
    (hinit : initState allocHeap mem os = .ok s)
    (hrun : IsRun (StrategyStep allocHeap) (initial s) run)
    (hreq : StepsMeet NoWrap (initial s) run)
    (hkept : StepsMeet (SearchMeets HeadKept) (initial s) run) {c : Config (State σ)}
    (hc : lastState (initial s) run = c) (hnf : c.state.allocationStrategy = .nextFit) {n : ℕ}
    (hn : n + 32 ≤ 2 ^ 64) :
    ((paddedSize n ≤ HEAP_SIZE →
        ∃ fuel selected, nextFit c.state (paddedSize n) fuel = .ok selected) ∧
      ∃ fuel r, myMalloc allocHeap fuel n c.state = .ok r) ↔
    (paddedSize n ≤ HEAP_SIZE → c.state.firstFreeBlock ≠ none) := by
  obtain ⟨⟨ts, hl⟩, hcursor⟩ := hc ▸ sound_of_run hcont hinit hrun hreq hkept
  constructor
  · rintro ⟨-, fuel, r, hcall⟩ hsmall hnone
    rcases returns_selectBlock hl hcursor (paddedSize n) with ⟨-, hsearch⟩ | ⟨hgo, -⟩
    · have hret := @returns_stuck σ c.state allocHeap n hsmall hsearch
      exact absurd (hret.eq_of_ok hcall) (by simp)
    · exact hgo ⟨hnf, hnone⟩
  · intro hne
    by_cases hlarge : HEAP_SIZE < paddedSize n
    · refine ⟨fun hsmall => absurd hsmall (not_le.mpr hlarge), ?_⟩
      obtain ⟨fuel, hret⟩ := (@returns_tooLarge σ c.state allocHeap n hlarge).exists_eq
      exact ⟨fuel, _, hret⟩
    · have hsmall : paddedSize n ≤ HEAP_SIZE := not_lt.mp hlarge
      have hgo : ¬Stuck c.state := fun hstuck => hne hsmall hstuck.2
      constructor
      · intro _
        rcases returns_selectBlock hl hcursor (paddedSize n) with ⟨hstuck, -⟩ | ⟨-, r, hsearch, -⟩
        · exact absurd hstuck hgo
        · obtain ⟨fuel, hok⟩ := hsearch.exists_eq
          refine ⟨fuel, r, ?_⟩
          unfold selectBlock at hok
          rw [hnf] at hok
          cases hloop : nextFit c.state (paddedSize n) fuel with
          | error e =>
            rw [hloop] at hok
            exact absurd hok (by simp [Bind.bind, Except.bind])
          | ok selected =>
            rw [hloop] at hok
            have hpair := Except.ok.inj hok
            rw [(Prod.mk.inj hpair).1]
      · obtain ⟨r, s', hret, -⟩ := myMalloc_call hl hcursor hcont hn hsmall hgo
        obtain ⟨fuel, hok⟩ := hret.exists_eq
        exact ⟨fuel, _, hok⟩

end Runs

lemma headKept_lossRun : StepsMeet (SearchMeets HeadKept) (initial arenaState) lossRun := by
  refine ⟨trivial, ?_, ?_, trivial, ?_, ?_, trivial⟩
  · rintro - - c hc
    exact .inl hc
  · rintro - - c hc
    exact .inl hc
  · rintro - - c hc
    exact .inl hc
  · rintro - - c hc
    obtain rfl : 4288 = c := Option.some.inj hc
    exact .inr (.inl (by decide))

theorem search_ends_lossRun :
    ((paddedSize 40 ≤ HEAP_SIZE →
        ∃ fuel selected, nextFit lossState (paddedSize 40) fuel = .ok selected) ∧
      ∃ fuel r, myMalloc arena fuel 40 lossState = .ok r) ↔
    (paddedSize 40 ≤ HEAP_SIZE → lossState.firstFreeBlock ≠ none) :=
  search_ends_iff arena_contiguous initState_arena isRun_lossRun noWrap_lossRun headKept_lossRun
    rfl rfl (by norm_num)

def fullState : State Unit := afterMalloc nextFitState (HEAP_SIZE - 16)

/-- When the whole heap is handed out, the search of next-fit dereferences `NULL`. -/
theorem not_search_ends_full :
    IsRun (StrategyStep arena) (initial arenaState) [(.setStrategy 2, ⟨nextFitState, []⟩),
      (.client (.malloc (HEAP_SIZE - 16)), ⟨fullState, [4112]⟩)] ∧
    fullState.allocationStrategy = .nextFit ∧
    nextFit fullState (paddedSize 0) 1 = .error .nullDeref ∧
    ¬∃ fuel selected, nextFit fullState (paddedSize 0) fuel = .ok selected := by
  have hrun : Step (allocator arena) ⟨nextFitState, []⟩ (.malloc (HEAP_SIZE - 16))
      ⟨fullState, [4112]⟩ := .malloc _ _ (some 4112) _ (by decide) ⟨5, rfl⟩
  refine ⟨⟨.setStrategy _ 2, .client _ _ _ hrun, trivial⟩, rfl, rfl, ?_⟩
  rintro ⟨fuel, selected, hok⟩
  have hstart : startCursor fullState = none := rfl
  rw [nextFit, hstart] at hok
  cases fuel with
  | zero => exact absurd hok (by simp [nextFitLoop])
  | succ fuel => exact absurd hok (by simp [nextFitLoop])

end StyLinux.Malloc.Vika5
