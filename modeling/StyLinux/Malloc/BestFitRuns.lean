import StyLinux.Malloc.Canonical
import StyLinux.Malloc.Vika9Threads

/-!
# What freeing undoes

Runs of the best-fit allocators, `vika4/malloc.c` and `vika9/malloc.c`, in which every request is
served keep the heap coalesced: no two free blocks touch each other, and what is left when all
memory is given back is one free block. In such a heap a block that is allocated and freed again
leaves the free list as it was, and the order in which blocks are freed does not matter, not even
to threads.
-/

namespace StyLinux.Malloc

open Lib

variable {S σ : Type} {allocHeap : AllocHeap σ} {h : Heap σ} {ts : List Chunk} {live : List ℕ}
  {n : ℕ}

/-! ### The allocators -/

/-- The allocator of `vika9/malloc.c` for a single thread. -/
def Vika9.allocator (allocHeap : AllocHeap σ) (debug : Bool) : Allocator (Heap σ) σ where
  heap := id
  setMem h mem := { h with mem }
  malloc fuel n h := (Vika9.myMalloc debug fuel n).alone (Vika9.Access.exec allocHeap) h
  free fuel address h := do
    let (_, h) ← (Vika9.myFree fuel address).alone (Vika9.Access.exec allocHeap) h
    pure h

/-- The files with the best-fit allocator. -/
inductive BestFit
  | vika4
  | vika9 (debug : Bool)
  deriving DecidableEq, Repr

/-- With enough iterations for its loops the call returns `a`. -/
def Ends {α : Type} (f : ℕ → Except Fault α) (a : α) : Prop :=
  ∃ k, ∀ fuel, k ≤ fuel → f fuel = .ok a

/-- The pointers are freed one after another. -/
def Frees (M : Allocator S σ) : S → List ℕ → S → Prop
  | s, [], s' => s' = s
  | s, p :: ps, s' => ∃ s₁, (∃ fuel, M.free fuel (some p) s = .ok s₁) ∧ Frees M s₁ ps s'

namespace BestFit

def allocator (allocHeap : AllocHeap σ) : BestFit → Allocator (Heap σ) σ
  | vika4 => Vika4.allocator allocHeap
  | vika9 debug => Vika9.allocator allocHeap debug

/-- The request is at most `HEAP_SIZE` bytes and does not return `NULL`. -/
def Served (allocHeap : AllocHeap σ) (v : BestFit) (c : Config (Heap σ)) : Op → Prop
  | .malloc n => n ≤ HEAP_SIZE ∧
      ∀ fuel s, (v.allocator allocHeap).malloc fuel n c.state ≠ .ok (none, s)
  | _ => True

variable {v : BestFit}

lemma free_eq (fuel : ℕ) (address : Option ℕ) (h : Heap σ) :
    (v.allocator allocHeap).free fuel address h = Vika4.myFree fuel address h := by
  cases v with
  | vika4 => rfl
  | vika9 debug =>
    simp only [allocator, Vika9.allocator, Vika9.alone_myFree, bind_assoc]
    exact bind_pure (Vika4.myFree fuel address h)

lemma malloc_eq {fuel : ℕ} {r : Option ℕ × Heap σ}
    (hok : (v.allocator allocHeap).malloc fuel n h = .ok r) :
    Vika4.myMalloc allocHeap fuel n h = .ok r := by
  cases v with
  | vika4 => exact hok
  | vika9 debug => exact Vika9.myMalloc_of_alone hok

/-- Every step of a client of one of the allocators is one with the allocator of `vika4`. -/
lemma step {c c' : Config (Heap σ)} {op : Op} (hstep : Step (v.allocator allocHeap) c op c') :
    Step (Vika4.allocator allocHeap) c op c' := by
  cases hstep with
  | malloc n r s hn hcall =>
    obtain ⟨fuel, hcall⟩ := hcall
    exact .malloc c n r s hn ⟨fuel, malloc_eq hcall⟩
  | freeNull s hcall =>
    obtain ⟨fuel, hcall⟩ := hcall
    rw [free_eq] at hcall
    exact .freeNull c s ⟨fuel, hcall⟩
  | free p s hp hcall =>
    obtain ⟨fuel, hcall⟩ := hcall
    rw [free_eq] at hcall
    exact .free c p s hp ⟨fuel, hcall⟩
  | write mem hw =>
    cases v with
    | vika4 => exact .write c mem hw
    | vika9 debug => exact .write c mem hw

lemma served_vika4 (hcont : Contiguous allocHeap) {c c' : Config (Heap σ)} {op : Op}
    (hl : Laid c.state ts c.live) (hop : v.Served allocHeap c op)
    (hstep : Step (v.allocator allocHeap) c op c') : Vika4.Served allocHeap c op := by
  cases hstep with
  | malloc n r s _ hcall =>
    obtain ⟨hn, hserved⟩ := hop
    obtain ⟨fuel, hcall⟩ := hcall
    have hwrap := add_32_le_of_le hn
    obtain ⟨r', h', hret, -⟩ := Vika4.myMalloc_outcome hl hcont hwrap
    refine ⟨hn, ?_⟩
    intro fuel' s' hnone
    have heq := (hret.eq_of_ok (malloc_eq hcall)).symm.trans (hret.eq_of_ok hnone)
    obtain ⟨rfl, -⟩ := Prod.mk.inj (Except.ok.inj heq)
    exact hserved fuel s hcall
  | freeNull s _ => trivial
  | free p s _ _ => trivial
  | write mem _ => trivial

/-- The heap stays coalesced as long as every request is served. -/
lemma tidy_of_run (hcont : Contiguous allocHeap) {mem : ℕ → Block} {os : σ}
    (hinit : initAllocator allocHeap mem os = .ok h) {run : List (Op × Config (Heap σ))}
    (hrun : IsRun (Step (v.allocator allocHeap)) (Vika4.initial h) run)
    (hserved : StepsMeet (v.Served allocHeap) (Vika4.initial h) run) :
    Vika4.Tidy (lastState (Vika4.initial h) run) := by
  have hstart : Vika4.Tidy (Vika4.initial h) :=
    ⟨_, (laid_initAllocator hcont hinit).1, by simp [NoLost], .singleton _⟩
  refine IsRun.invariant_last ?_ hstart hrun hserved
  intro c op c' hc hop hstep
  obtain ⟨ts, hl, -⟩ := id hc
  exact Vika4.Step.tidy hcont hc (served_vika4 hcont hl hop hstep) (step hstep)

/-! ### Coalescing -/

/-- After every call of a run in which all requests were served no two blocks on the free list
touch each other, and if all memory is given back the free list is the whole heap. -/
theorem coalesced_of_run (hcont : Contiguous allocHeap) {mem : ℕ → Block} {os : σ}
    (hinit : initAllocator allocHeap mem os = .ok h) {run : List (Op × Config (Heap σ))}
    (hrun : IsRun (Step (v.allocator allocHeap)) (Vika4.initial h) run)
    (hserved : StepsMeet (v.Served allocHeap) (Vika4.initial h) run) :
    let c := lastState (Vika4.initial h) run
    (∃ free, FreeList c.state free ∧
      ∀ a ∈ free, ∀ b ∈ free, a + c.state.size a ≠ b) ∧
    (c.live = [] → FreeList c.state [c.state.heapStart] ∧
      c.state.size c.state.heapStart = c.state.heapSize) := by
  obtain ⟨ts, hl, hlost, hts⟩ := tidy_of_run hcont hinit hrun hserved
  refine ⟨⟨_, hl.freeList, fun a ha b hb => hl.not_adjacent hts ha hb⟩, ?_⟩
  intro hlive
  rw [hlive] at hl
  obtain rfl := hl.eq_singleton hlost hts
  exact ⟨hl.freeList, hl.sizes _ (List.mem_singleton_self _)⟩

/-- A request that returns memory with some fuel returns `NULL` with none. -/
lemma ne_null (hl : Laid h ts live) (hcont : Contiguous allocHeap) (hn : n + 32 ≤ 2 ^ 64)
    {fuel p : ℕ} {h' : Heap σ} (hok : Vika4.myMalloc allocHeap fuel n h = .ok (some p, h'))
    (fuel' : ℕ) (s : Heap σ) : (v.allocator allocHeap).malloc fuel' n h ≠ .ok (none, s) := by
  intro hnone
  obtain ⟨r, h'', hret, -⟩ := Vika4.myMalloc_outcome hl hcont hn
  have heq := (hret.eq_of_ok hok).symm.trans (hret.eq_of_ok (malloc_eq hnone))
  cases heq

lemma served_arenaHeap (v : BestFit) : v.Served arena (Vika4.initial arenaHeap) (.malloc 100) := by
  obtain ⟨hl, -⟩ := laid_initAllocator arena_contiguous initAllocator_arena
  have hok : Vika4.myMalloc arena 3 100 arenaHeap = .ok (some 4112, Vika4.arenaServed) := rfl
  exact ⟨by norm_num [HEAP_SIZE], ne_null hl arena_contiguous (by norm_num) hok⟩

lemma isRun_arenaRun :
    IsRun (Step ((vika9 false).allocator arena)) (Vika4.initial arenaHeap) Vika4.arenaRun := by
  refine ⟨.malloc _ 100 (some 4112) Vika4.arenaServed (by norm_num) ⟨3, rfl⟩, ?_, trivial⟩
  exact .free ⟨Vika4.arenaServed, [4112]⟩ 4112 Vika4.arenaFreed (by simp) ⟨3, rfl⟩

theorem coalesced_arenaRun : FreeList Vika4.arenaFreed [Vika4.arenaFreed.heapStart] ∧
    Vika4.arenaFreed.size Vika4.arenaFreed.heapStart = Vika4.arenaFreed.heapSize :=
  (coalesced_of_run arena_contiguous initAllocator_arena isRun_arenaRun
    ⟨served_arenaHeap _, trivial, trivial⟩).2 rfl

/-! ### Calls that return -/

lemma ends_malloc (v : BestFit) (hl : Laid h ts live) (hcont : Contiguous allocHeap)
    (hn : n + 32 ≤ 2 ^ 64) {r : Option ℕ × Heap σ}
    (hret : Returns .outOfFuel (fun fuel => Vika4.myMalloc allocHeap fuel n h) (.ok r)) :
    Ends (fun fuel => (v.allocator allocHeap).malloc fuel n h) r := by
  cases v with
  | vika4 => exact hret.eventually
  | vika9 debug =>
    obtain ⟨r', h', -, k, hk⟩ := Vika9.myMalloc_outcome debug hl hcont hn
    have heq := hret.eq_of_ok (Vika9.myMalloc_of_alone (hk k le_rfl))
    exact ⟨k, fun fuel hfuel => (hk fuel hfuel).trans heq.symm⟩

lemma ends_free (v : BestFit) {address : Option ℕ} {h' : Heap σ}
    (hret : Returns .outOfFuel (fun fuel => Vika4.myFree fuel address h) (.ok h')) :
    Ends (fun fuel => (v.allocator allocHeap).free fuel address h) h' := by
  obtain ⟨k, hk⟩ := hret.eventually
  exact ⟨k, fun fuel hfuel => (free_eq fuel address h).trans (hk fuel hfuel)⟩

/-! ### Freeing what was just allocated -/

/-- After a run in which all requests were served, a request that needs no extension and the free
of what it returns leave the free list as it was. Only a request that is too large gets no
memory. -/
theorem restored_of_run (hcont : Contiguous allocHeap) {mem : ℕ → Block} {os : σ}
    (hinit : initAllocator allocHeap mem os = .ok h) {run : List (Op × Config (Heap σ))}
    (hrun : IsRun (Step (v.allocator allocHeap)) (Vika4.initial h) run)
    (hserved : StepsMeet (v.Served allocHeap) (Vika4.initial h) run) (hn : n ≤ HEAP_SIZE)
    {free : List ℕ} (hfree : FreeList (lastState (Vika4.initial h) run).state free)
    (hfit : ∃ a ∈ free, paddedSize n ≤ (lastState (Vika4.initial h) run).state.size a) :
    ∃ r s s', Ends (fun fuel => (v.allocator allocHeap).malloc fuel n
        (lastState (Vika4.initial h) run).state) (r, s) ∧
      Ends (fun fuel => (v.allocator allocHeap).free fuel r s) s' ∧
      SameFree (lastState (Vika4.initial h) run).state s' ∧
      (paddedSize n ≤ HEAP_SIZE → r ≠ none) := by
  obtain ⟨ts, hl, hlost, hts⟩ := tidy_of_run hcont hinit hrun hserved
  have hwrap := add_32_le_of_le hn
  by_cases hlarge : HEAP_SIZE < paddedSize n
  · exact ⟨none, _, _, ends_malloc v hl hcont hwrap (Vika4.returns_tooLarge hlarge),
      ends_free v (.const _), hl.sameFree hl, fun hle => absurd hlarge (not_lt.mpr hle)⟩
  · have hfits : ¬NoFit n ts := by
      obtain ⟨a, ha, hle⟩ := hfit
      rw [hl.freeList_unique hfree] at ha
      obtain ⟨t, ht, htag, rfl⟩ := mem_freeStarts.mp ha
      rw [hl.sizes t ht] at hle
      exact fun hno => absurd (hno t ht htag) (not_lt.mpr hle)
    obtain ⟨p, h', h'', hmalloc, hret, hlaid⟩ := Vika4.returns_restored allocHeap hl hlost hts
      (not_lt.mp hlarge) (paddedSize_pos hwrap) hfits
    exact ⟨some p, h', h'', ends_malloc v hl hcont hwrap hmalloc, ends_free v hret,
      hl.sameFree hlaid, fun _ => Option.some_ne_none p⟩

def arenaServedTwice : Heap Unit := (allocateBlock Vika4.arenaServed .first 4224 224).2

def arenaTwiceRun : List (Op × Config (Heap Unit)) :=
  [(.malloc 100, ⟨Vika4.arenaServed, [4112]⟩), (.malloc 200, ⟨arenaServedTwice, [4240, 4112]⟩)]

lemma isRun_arenaTwiceRun :
    IsRun (Step (vika4.allocator arena)) (Vika4.initial arenaHeap) arenaTwiceRun := by
  refine ⟨.malloc _ 100 (some 4112) Vika4.arenaServed (by norm_num) ⟨3, rfl⟩, ?_, trivial⟩
  exact .malloc ⟨Vika4.arenaServed, [4112]⟩ 200 (some 4240) arenaServedTwice (by norm_num) ⟨3, rfl⟩

lemma served_arenaTwiceRun :
    StepsMeet (vika4.Served arena) (Vika4.initial arenaHeap) arenaTwiceRun := by
  have hrun : IsRun (Step (vika4.allocator arena)) (Vika4.initial arenaHeap)
      [(.malloc 100, ⟨Vika4.arenaServed, [4112]⟩)] := ⟨isRun_arenaTwiceRun.1, trivial⟩
  obtain ⟨ts, hl, -⟩ :=
    tidy_of_run arena_contiguous initAllocator_arena hrun ⟨served_arenaHeap vika4, trivial⟩
  have hok : Vika4.myMalloc arena 3 200 Vika4.arenaServed = .ok (some 4240, arenaServedTwice) :=
    rfl
  have hsecond : vika4.Served arena ⟨Vika4.arenaServed, [4112]⟩ (.malloc 200) :=
    ⟨by norm_num [HEAP_SIZE], ne_null hl arena_contiguous (by norm_num) hok⟩
  exact ⟨served_arenaHeap vika4, hsecond, trivial⟩

theorem restored_arenaTwiceRun : ∃ p s s',
    Ends (fun fuel => (vika4.allocator arena).malloc fuel 300 arenaServedTwice) (some p, s) ∧
      Ends (fun fuel => (vika4.allocator arena).free fuel (some p) s) s' ∧
      SameFree arenaServedTwice s' := by
  have hfree : FreeList arenaServedTwice [4448] :=
    returns_walkFree (l := .first) ⟨rfl, rfl⟩
  have hn : 300 ≤ HEAP_SIZE := by norm_num [HEAP_SIZE]
  obtain ⟨r, s, s', hmalloc, hret, hsame, hsome⟩ := restored_of_run arena_contiguous
    initAllocator_arena isRun_arenaTwiceRun served_arenaTwiceRun hn hfree
    ⟨4448, by simp, by decide⟩
  have hpadded : paddedSize 300 ≤ HEAP_SIZE := by decide
  obtain ⟨p, rfl⟩ := Option.ne_none_iff_exists'.mp (hsome hpadded)
  exact ⟨p, s, s', hmalloc, hret, hsame⟩

/-! ### Freeing in any order -/

/-- The pointers that are freed later stay live. -/
lemma mem_erase_of_mem_tail {p : ℕ} {ps : List ℕ} (hp : p ∉ ps)
    (hlive : ∀ q ∈ p :: ps, q ∈ live) : ∀ q ∈ ps, q ∈ live.erase p := by
  intro q hq
  have hne : q ≠ p := fun he => hp (he ▸ hq)
  exact (List.mem_erase_of_ne hne).mpr (hlive q (List.mem_cons_of_mem p hq))

lemma exists_frees (v : BestFit) (allocHeap : AllocHeap σ) (hl : Laid h ts live)
    {ps : List ℕ} (hnodup : ps.Nodup) (hlive : ∀ p ∈ ps, p ∈ live) :
    ∃ h', Frees (v.allocator allocHeap) h ps h' := by
  induction ps generalizing h ts live with
  | nil => exact ⟨h, rfl⟩
  | cons p ps ih =>
    obtain ⟨hp, hnodup⟩ := List.nodup_cons.mp hnodup
    obtain ⟨us, t, vs, h₁, -, -, -, hret, hlaid, -⟩ :=
      Vika4.returns_myFree hl (hlive p List.mem_cons_self)
    obtain ⟨h', hfrees⟩ := ih hlaid hnodup (mem_erase_of_mem_tail hp hlive)
    obtain ⟨fuel, hok⟩ := hret.exists_eq
    exact ⟨h', h₁, ⟨fuel, (free_eq fuel (some p) h).trans hok⟩, hfrees⟩

/-- The live tiles that are left determine the heap. -/
lemma laid_of_frees {h' : Heap σ} {ps : List ℕ} (hl : Laid h ts live) (hlost : NoLost ts)
    (hts : Coalesced ts) (hnodup : ps.Nodup) (hlive : ∀ p ∈ ps, p ∈ live)
    (hfrees : Frees (v.allocator allocHeap) h ps h') :
    ∃ ts' live', Laid h' ts' live' ∧ liveTiles ts' = without ps (liveTiles ts) ∧
      Canonical h.heapStart ts' (h.heapStart + h.heapSize) := by
  induction ps generalizing h ts live with
  | nil =>
    obtain rfl := hfrees
    exact ⟨ts, live, hl, (without_nil _).symm, hl.canonical hlost hts⟩
  | cons p ps ih =>
    obtain ⟨h₁, ⟨fuel, hok⟩, hfrees⟩ := hfrees
    obtain ⟨hp, hnodup⟩ := List.nodup_cons.mp hnodup
    obtain ⟨ts₁, h₂, hret, hlaid, hlost₁, hts₁, hleft, hstart, hsize⟩ :=
      Vika4.returns_myFree_tidy hl hlost hts (hlive p List.mem_cons_self)
    rw [free_eq] at hok
    obtain rfl := Except.ok.inj (hret.eq_of_ok hok)
    obtain ⟨ts', live', hlaid', hleft', hcanonical⟩ :=
      ih hlaid hlost₁ hts₁ hnodup (mem_erase_of_mem_tail hp hlive) hfrees
    rw [hstart, hsize] at hcanonical
    exact ⟨ts', live', hlaid', by rw [hleft', hleft, ← without_cons], hcanonical⟩

/-- Two orders in which the same live pointers are freed. -/
lemma sameFree_of_frees {v w : BestFit} {c : Config (Heap σ)} (hc : Vika4.Tidy c)
    {ps qs : List ℕ} (hnodup : ps.Nodup) (hlive : ∀ p ∈ ps, p ∈ c.live) (hperm : ps.Perm qs)
    {s s' : Heap σ} (hps : Frees (v.allocator allocHeap) c.state ps s)
    (hqs : Frees (w.allocator allocHeap) c.state qs s') : SameFree s s' := by
  obtain ⟨ts, hl, hlost, hts⟩ := hc
  have hlive' : ∀ q ∈ qs, q ∈ c.live := fun q hq => hlive q (hperm.mem_iff.mpr hq)
  obtain ⟨us, live₁, hlaid₁, hleft₁, hcanonical₁⟩ := laid_of_frees hl hlost hts hnodup hlive hps
  obtain ⟨us', live₂, hlaid₂, hleft₂, hcanonical₂⟩ :=
    laid_of_frees hl hlost hts (hperm.nodup_iff.mp hnodup) hlive' hqs
  rw [without_perm hperm, ← hleft₂] at hleft₁
  obtain rfl := hcanonical₁.eq_of_liveTiles hcanonical₂ hleft₁
  exact hlaid₁.sameFree hlaid₂

/-- Calls of `my_free` one after another, as threads execute them. -/
lemma frees_of_serial {debug : Bool} {results : List (ℕ × (Vika9.Call × ℕ) × Option ℕ)}
    {qs : List ℕ} {h' : Heap σ} (hserial : Vika9.Serial allocHeap debug h results h')
    (hcalls : results.map (fun x => x.2.1.1) = qs.map fun q => .free (some q)) :
    Frees ((vika9 debug).allocator allocHeap) h qs h' := by
  induction results generalizing h qs with
  | nil =>
    obtain rfl := List.map_eq_nil_iff.mp hcalls.symm
    exact hserial.symm
  | cons x results ih =>
    obtain ⟨h₁, hx, hserial⟩ := hserial
    cases qs with
    | nil => cases hcalls
    | cons q qs =>
      obtain ⟨hcall, hrest⟩ := List.cons.inj hcalls
      obtain ⟨id, ⟨call, fuel⟩, r⟩ := x
      obtain rfl : call = .free (some q) := hcall
      refine ⟨h₁, ⟨fuel, ?_⟩, ih hserial hrest⟩
      simp only [Vika9.code, Lib.Prog.alone_bind] at hx
      obtain ⟨⟨_, h₂⟩, hfree, hx⟩ := bind_eq_ok.mp hx
      cases hx
      show (Vika9.myFree fuel (some q)).alone (Vika9.Access.exec allocHeap) h >>= _ = _
      rw [hfree]
      rfl

/-- After a run in which all requests were served, live pointers can be freed in any order, and
by any number of threads, with the same free list in the end. -/
theorem freed_of_run (hcont : Contiguous allocHeap) {mem : ℕ → Block} {os : σ}
    (hinit : initAllocator allocHeap mem os = .ok h) {run : List (Op × Config (Heap σ))}
    (hrun : IsRun (Step (v.allocator allocHeap)) (Vika4.initial h) run)
    (hserved : StepsMeet (v.Served allocHeap) (Vika4.initial h) run) {ps : List ℕ}
    (hnodup : ps.Nodup) (hlive : ∀ p ∈ ps, p ∈ (lastState (Vika4.initial h) run).live) :
    let c := lastState (Vika4.initial h) run
    ∃ s, Frees (v.allocator allocHeap) c.state ps s ∧
      (∀ qs s', ps.Perm qs → Frees (v.allocator allocHeap) c.state qs s' → SameFree s s') ∧
      ∀ (ι : Type) [DecidableEq ι] (debug : Bool)
        (threads : List (ThreadStep ι (Vika9.Call × ℕ) × Vika9.Threads ι σ)) (qs : List ℕ),
        IsRun (Vika9.Step allocHeap debug) (Threads.init c.state) threads →
        (lastState (Threads.init c.state) threads).owner = none → ps.Perm qs →
        (lastState (Threads.init c.state) threads).order.map (fun x => x.2.1) =
          qs.map (fun q => .free (some q)) →
        SameFree s (lastState (Threads.init c.state) threads).shared := by
  intro c
  have hc := tidy_of_run hcont hinit hrun hserved
  obtain ⟨ts, hl, -⟩ := id hc
  obtain ⟨s, hs⟩ := exists_frees v allocHeap hl hnodup hlive
  refine ⟨s, hs, fun qs s' hperm hqs => sameFree_of_frees hc hnodup hlive hperm hs hqs, ?_⟩
  intro ι _ debug threads qs hthreads hfree hperm hcalls
  obtain ⟨results, hkeys, hserial, -⟩ :=
    (Threads.guarded_of_run (Vika9.outer_code debug) c.state hthreads).explains hfree
  rw [← hkeys, List.map_map] at hcalls
  exact sameFree_of_frees hc hnodup hlive hperm hs (frees_of_serial hserial hcalls)

theorem freed_arenaTwiceRun : ∃ s, Frees (vika4.allocator arena) arenaServedTwice [4112, 4240] s ∧
    ∀ s', Frees (vika4.allocator arena) arenaServedTwice [4240, 4112] s' → SameFree s s' := by
  have hnodup : ([4112, 4240] : List ℕ).Nodup := by simp
  obtain ⟨s, hs, hsame, -⟩ := freed_of_run arena_contiguous initAllocator_arena
    isRun_arenaTwiceRun served_arenaTwiceRun hnodup (by simp [arenaTwiceRun])
  exact ⟨s, hs, fun s' => hsame _ s' (.swap _ _ _)⟩

end BestFit

end StyLinux.Malloc
