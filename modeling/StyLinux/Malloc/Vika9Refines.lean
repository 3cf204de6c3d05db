import StyLinux.Malloc.Vika9Threads

/-!
# Threads do what one client does

Whatever the interleaving, the calls of the threads of `vika9/malloc.c` leave the heap of a client
of `vika4/malloc.c` that makes the same calls one after another. Dumps are no steps of this client.
-/

namespace StyLinux.Malloc.Vika9

open Lib Lib.Prog

variable {σ : Type} {alloc : AllocHeap σ} {debug : Bool} {h h' : Heap σ}
  {live live' : List ℕ}

/-- The client's call in place of this one. -/
def clientOp : Call → Option Op
  | .malloc n => some (.malloc n)
  | .free address => some (.free address)
  | .dump => none

lemma eq_of_alone_dump {fuel : ℕ} {p : Option ℕ}
    (hok : (code debug (.dump, fuel)).alone (Access.exec alloc) h = .ok (p, h')) : h' = h := by
  simp only [code, alone_bind, alone_dumpAllocator, bind_assoc] at hok
  obtain ⟨blocks, -, hok⟩ := bind_eq_ok.mp hok
  obtain ⟨free, -, hok⟩ := bind_eq_ok.mp hok
  cases hok
  rfl

/-- One call. -/
lemma step_of_call {c : Call} {op : Op} {fuel : ℕ} {p : Option ℕ}
    (hop : clientOp c = some op) (hc : Proper live c)
    (hok : (code debug (c, fuel)).alone (Access.exec alloc) h = .ok (p, h')) :
    Malloc.Step (Vika4.allocator alloc) ⟨h, live⟩ op ⟨h', liveAfter live c p⟩ ∧
      Vika4.NoWrap (⟨h, live⟩ : Config (Heap σ)) op := by
  cases c with
  | malloc n =>
    cases hop
    have hn : n + 32 ≤ 2 ^ 64 := hc
    exact ⟨.malloc _ n p h' (by omega) ⟨fuel, myMalloc_of_alone hok⟩, hn⟩
  | free address =>
    cases hop
    refine ⟨?_, trivial⟩
    simp only [code, alone_bind, alone_myFree, bind_assoc] at hok
    obtain ⟨h₁, hfree, hok⟩ := bind_eq_ok.mp hok
    cases hok
    cases address with
    | none => exact .freeNull _ _ ⟨fuel, hfree⟩
    | some q => exact .free _ q _ (hc q rfl) ⟨fuel, hfree⟩
  | dump => cases hop

/-- A run of the client that makes the calls in this order. -/
structure ClientRun (alloc : AllocHeap σ) (c c' : Config (Heap σ)) (ops : List Op)
    (calls : List (Op × Config (Heap σ))) : Prop where
  isRun : IsRun (Malloc.Step (Vika4.allocator alloc)) c calls
  noWrap : StepsMeet Vika4.NoWrap c calls
  ops : calls.map Prod.fst = ops
  last : lastState c calls = c'

/-- The calls that threads have made, in the order in which they acquired the mutex. -/
def clientOps (results : List (ℕ × (Call × ℕ) × Option ℕ)) : List Op :=
  results.filterMap fun x => clientOp x.2.1.1

lemma exists_clientRun {results : List (ℕ × (Call × ℕ) × Option ℕ)}
    (hserial : Serial alloc debug h results h') (hproper : AllProper live results live') :
    ∃ calls, ClientRun alloc ⟨h, live⟩ ⟨h', live'⟩ (clientOps results) calls := by
  induction results generalizing h live with
  | nil =>
    cases hserial
    cases hproper
    exact ⟨[], trivial, trivial, rfl, rfl⟩
  | cons x results ih =>
    obtain ⟨h₁, hx, hserial⟩ := hserial
    obtain ⟨hc, hproper⟩ := hproper
    obtain ⟨calls, hrun, hwrap, hops, hlast⟩ := ih hserial hproper
    obtain ⟨i, ⟨c, fuel⟩, p⟩ := x
    cases hop : clientOp c with
    | some op =>
      obtain ⟨hstep, hnowrap⟩ := step_of_call hop hc hx
      refine ⟨(op, ⟨h₁, liveAfter live c p⟩) :: calls, ⟨hstep, hrun⟩, ⟨hnowrap, hwrap⟩, ?_, hlast⟩
      simpa [clientOps, hop] using hops
    | none =>
      -- a dump is a stuttering step
      cases c with
      | malloc _ => cases hop
      | free _ => cases hop
      | dump =>
        cases eq_of_alone_dump hx
        exact ⟨calls, hrun, hwrap, by simpa [clientOps, hop] using hops, hlast⟩

variable {ι : Type} [DecidableEq ι]

/-- When the mutex is free, the heap is the one that a client of `vika4/malloc.c` has after the
same calls in the order in which they acquired the mutex, if these calls are proper in this
order. -/
theorem refines_vika4 (hcont : Contiguous alloc) {mem : ℕ → Block} {os : σ} {h₀ : Heap σ}
    (hinit : initAllocator alloc mem os = .ok h₀)
    {run : List (ThreadStep ι (Call × ℕ) × Threads ι σ)}
    (hrun : IsRun (Step alloc debug) (Threads.init h₀) run)
    (hfree : (lastState (Threads.init h₀) run).owner = none) :
    ∃ results, results.map Threads.key = (lastState (Threads.init h₀) run).order ∧
      (∀ x ∈ (lastState (Threads.init h₀) run).returned, x ∈ results ∨
        x.1 ∉ (lastState (Threads.init h₀) run).order.map Prod.fst) ∧
      ∀ live, AllProper [] results live →
        HeapOk (lastState (Threads.init h₀) run).shared live ∧
        ∃ calls, ClientRun alloc (Vika4.initial h₀)
          ⟨(lastState (Threads.init h₀) run).shared, live⟩ (clientOps results) calls := by
  obtain ⟨results, hkeys, hserial, hreturned⟩ :=
    (Threads.guarded_of_run (outer_code debug) h₀ hrun).explains hfree
  refine ⟨results, hkeys, fun x hx => (hreturned x hx).imp_right And.left, ?_⟩
  intro live hproper
  obtain ⟨calls, hcalls⟩ := exists_clientRun hserial hproper
  have hintact := Vika4.intact_of_run hcont hinit hcalls.isRun
    (hcalls.noWrap.imp fun _ _ => Vika4.noWrap_answered)
  have hlast : lastState (Vika4.initial h₀) calls = _ := hcalls.last
  rw [hlast] at hintact
  obtain ⟨ts, hl, hts⟩ := hintact
  exact ⟨hl.heapOk hts, calls, hcalls⟩

theorem refines_vika4_twoThreadsRun : ∃ live calls,
    HeapOk (lastState (Threads.init arenaHeap) twoThreadsRun).shared live ∧
      ClientRun arena (Vika4.initial arenaHeap)
        ⟨(lastState (Threads.init arenaHeap) twoThreadsRun).shared, live⟩ [.malloc 100] calls := by
  have hfree : (lastState (Threads.init arenaHeap) twoThreadsRun).owner = none := by
    decide +kernel
  have horder : (lastState (Threads.init arenaHeap) twoThreadsRun).order =
      [(0, .malloc 100, 3), (2, .dump, 3)] := by decide +kernel
  obtain ⟨results, hkeys, -, hclient⟩ :=
    refines_vika4 arena_contiguous initAllocator_arena isRun_twoThreadsRun hfree
  rw [horder] at hkeys
  obtain ⟨x, results, rfl, hx, hkeys⟩ := List.map_eq_cons_iff.mp hkeys
  obtain ⟨y, results, rfl, hy, hkeys⟩ := List.map_eq_cons_iff.mp hkeys
  obtain rfl := List.map_eq_nil_iff.mp hkeys
  obtain ⟨i, c, p⟩ := x
  obtain ⟨j, d, q⟩ := y
  cases hx
  cases hy
  have hproper : AllProper [] [(0, (.malloc 100, 3), p), (2, (.dump, 3), q)] (p.toList ++ []) :=
    ⟨by norm_num [Proper], trivial, rfl⟩
  obtain ⟨hok, calls, hcalls⟩ := hclient _ hproper
  exact ⟨_, calls, hok, hcalls⟩

end StyLinux.Malloc.Vika9
