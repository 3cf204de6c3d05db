import StyLinux.Lib.Fifo
import StyLinux.Lib.Linked
import StyLinux.Lib.Simulation
import StyLinux.Scheduler.Model

/-!
# The ready queues in memory

`appendItem` and `removeFirstItem` of `scheduler.c`, on the items of a queue in memory. Both
pointers of a queue are `NULL` or the last item is reached from the first one, through the items
that have been appended and not been removed. So they do what the scheduler expects of a queue.
-/

namespace StyLinux.Scheduler.Linked

open Lib

variable {σ T : Type}

abbrev QueueItem (T : Type) := Node (Option T)

structure Queue where
  head : Option ℕ
  tail : Option ℕ
  deriving DecidableEq, Repr

/-- A queue and the memory of its items. -/
structure State (σ T : Type) where
  queue : Queue
  mem : Memory σ (Option T)

def appendItem (A : Allocator σ) (s : State σ T) (data : Option T) :
    Except PointerFault (State σ T) :=
  match s.mem.malloc A ⟨data, none⟩ with
  | (none, mem) => .ok { s with mem }
  | (some newNode, mem) =>
    match s.queue.tail with
    | some tail => do
      let mem ← mem.setNext tail (some newNode)
      .ok ⟨{ s.queue with tail := some newNode }, mem⟩
    | none => .ok ⟨⟨some newNode, some newNode⟩, mem⟩

def removeFirstItem (s : State σ T) : Except PointerFault (Option T × State σ T) :=
  match s.queue.head with
  | none => .ok (none, s)
  | some head => do
    let item ← s.mem.load (some head)
    let queue := { s.queue with head := item.next }
    let queue := if queue.head = none then { queue with tail := none } else queue
    .ok (item.data, ⟨queue, s.mem.free head⟩)

inductive Call (T : Type)
  | appendItem (data : Option T)
  | removeFirstItem
  deriving DecidableEq, Repr

def call (A : Allocator σ) (s : State σ T) : Call T → Except PointerFault (Option T × State σ T)
  | .appendItem data => do
    let s ← appendItem A s data
    .ok (none, s)
  | .removeFirstItem => removeFirstItem s

/-- A call that returns; the label also has the returned pointer. -/
def Step (A : Allocator σ) (s : State σ T) (x : Call T × Option T) (s' : State σ T) : Prop :=
  call A s x.1 = .ok (x.2, s')

/-- From `head` to `tail` the queue has the given items. -/
def State.Items (s : State σ T) (items : List (Option T)) : Prop :=
  ∃ nodes, s.mem.Holds s.queue.head nodes items ∧ s.queue.tail = nodes.getLast?

variable {A : Allocator σ} {s s' : State σ T} {items : List (Option T)}

/-! ### The functions -/

lemma State.items_of_null (hs : s.queue = ⟨none, none⟩) : s.Items [] := by
  refine ⟨[], ?_, ?_⟩
  · rw [hs]
    exact Memory.holds_nil
  · rw [hs]
    rfl

/-- A new item comes behind all the others, if it can be allocated. -/
lemma exists_appendItem (hs : s.Items items) (data : Option T) :
    ∃ s', appendItem A s data = .ok s' ∧
      s'.Items (Scheduler.appendItem (A.malloc s.mem.os s.mem.allocated).1.isSome items data) := by
  obtain ⟨nodes, hnodes, htail⟩ := hs
  unfold appendItem Scheduler.appendItem
  cases hnew : (A.malloc s.mem.os s.mem.allocated).1 with
  | none =>
    obtain ⟨os, hmalloc⟩ := Memory.malloc_of_none hnew ⟨data, none⟩
    rw [hmalloc]
    exact ⟨_, rfl, nodes, hnodes.frame fun a ha => ⟨hnodes.allocated a ha, rfl⟩, htail⟩
  | some newNode =>
    obtain ⟨mem, hmalloc, hkept, hnot, hallocated, hnode⟩ := hnodes.exists_malloc hnew ⟨data, none⟩
    rw [hmalloc]
    dsimp only
    rcases List.eq_nil_or_concat' nodes with rfl | ⟨nodes, last, rfl⟩
    · rw [htail, hkept.eq_nil]
      exact ⟨_, rfl, [newNode], Memory.Holds.singleton hallocated hnode, rfl⟩
    · rw [htail, List.getLast?_concat]
      dsimp only
      rw [Memory.setNext_of_mem (hkept.allocated last (by simp)), ok_bind]
      refine ⟨_, rfl, nodes ++ [last, newNode], ?_, by simp⟩
      exact hkept.append hallocated hnode hnot

/-- The first item is removed, if there is one. -/
lemma exists_removeFirstItem (hs : s.Items items) :
    ∃ s', removeFirstItem s = .ok (items.head?.join, s') ∧ s'.Items items.tail := by
  obtain ⟨nodes, hnodes, htail⟩ := hs
  unfold removeFirstItem
  cases nodes with
  | nil =>
    rw [hnodes.eq_head?, hnodes.eq_nil]
    exact ⟨s, rfl, [], by simpa [hnodes.eq_nil] using hnodes, htail⟩
  | cons head nodes =>
    obtain ⟨data, items, rfl, hhead, hallocated, hdata, hrest⟩ := hnodes.exists_cons
    have hnext : (s.mem.node head).next = nodes.head? := hrest.eq_head?
    rw [hhead]
    dsimp only
    rw [Memory.load_of_mem hallocated, ok_bind, hdata]
    refine ⟨_, rfl, nodes, ?_, ?_⟩
    · have hqueue := hnodes.removeFirst
      rw [Memory.next] at hqueue
      split_ifs <;> exact hqueue
    · cases nodes with
      | nil => simp [hnext]
      | cons a nodes => simp [hnext, htail]

/-! ### Runs -/

/-- What a first-in first-out queue returns. -/
def respond (h : History (Option T)) : Call T → Option T × History (Option T)
  | .appendItem data => (none, h.append data)
  | .removeFirstItem => (h.oldest.join, h.remove)

lemma exists_call {h : History (Option T)} (hA : A.Succeeds) (hs : s.Items h.waiting)
    (c : Call T) :
    ∃ s', call A s c = .ok ((respond h c).1, s') ∧ s'.Items (respond h c).2.waiting := by
  cases c with
  | appendItem data =>
    obtain ⟨s', happend, hs'⟩ := exists_appendItem (A := A) hs data
    refine ⟨s', ?_, ?_⟩
    · rw [call, happend, ok_bind]
      rfl
    · rw [respond, History.waiting_append]
      have hallocated : (A.malloc s.mem.os s.mem.allocated).1.isSome :=
        Option.isSome_iff_ne_none.mpr (hA _ _)
      rw [Scheduler.appendItem, if_pos hallocated] at hs'
      exact hs'
  | removeFirstItem =>
    obtain ⟨s', hremove, hs'⟩ := exists_removeFirstItem hs
    refine ⟨s', ?_, ?_⟩
    · rw [call, hremove, respond, h.oldest_eq_head?]
    · rw [respond, History.waiting_remove]
      exact hs'

/-- Both pointers are `NULL`, or following the next pointers from `head` leads to `tail`, which
has no next item. -/
structure WellLinked (s : State σ T) : Prop where
  head_iff_tail : s.queue.head = none ↔ s.queue.tail = none
  reaches_tail : ∀ tail, s.queue.tail = some tail → s.mem.Reaches tail s.queue.head
  tail_allocated : ∀ tail, s.queue.tail = some tail → tail ∈ s.mem.allocated
  next_tail : ∀ tail, s.queue.tail = some tail → s.mem.next tail = none

lemma State.Items.wellLinked (hs : s.Items items) : WellLinked s := by
  obtain ⟨nodes, hnodes, htail⟩ := hs
  have hsplit : ∀ tail, s.queue.tail = some tail → ∃ before, nodes = before ++ [tail] := by
    intro tail heq
    exact List.getLast?_eq_some_iff.mp (htail.symm.trans heq)
  refine ⟨?_, ?_, ?_, ?_⟩
  · rw [hnodes.eq_head?, htail, List.head?_eq_none_iff, List.getLast?_eq_none_iff]
  · intro tail heq
    obtain ⟨before, rfl⟩ := hsplit tail heq
    exact hnodes.reaches_iff.mpr (by simp)
  · intro tail heq
    obtain ⟨before, rfl⟩ := hsplit tail heq
    exact hnodes.allocated tail (by simp)
  · intro tail heq
    obtain ⟨before, rfl⟩ := hsplit tail heq
    exact hnodes.next_last

/-! ### Removed nodes -/

/-- The call does not get the node at the address `a` from `malloc`. -/
def NotAllocates (A : Allocator σ) (a : ℕ) (s : State σ T) (x : Call T × Option T) : Prop :=
  x.1 ≠ .removeFirstItem → (A.malloc s.mem.os s.mem.allocated).1 ≠ some a

/-- The node `a` has been removed in the run, and its address has not been given to a new node
since. -/
def Removed (A : Allocator σ) (a : ℕ) (s : State σ T)
    (run : List ((Call T × Option T) × State σ T)) : Prop :=
  ∃ before x after, run = before ++ x :: after ∧ x.1.1 = .removeFirstItem ∧
    (lastState s before).queue.head = some a ∧ StepsMeet (NotAllocates A a) x.2 after

lemma notMem_of_appendItem {a : ℕ} {data : Option T} (h : appendItem A s data = .ok s')
    (ha : a ∉ s.mem.allocated) (hmalloc : (A.malloc s.mem.os s.mem.allocated).1 ≠ some a) :
    a ∉ s'.mem.allocated := by
  unfold appendItem at h
  cases hnew : (A.malloc s.mem.os s.mem.allocated).1 with
  | none =>
    obtain ⟨os, hnone⟩ := Memory.malloc_of_none hnew ⟨data, none⟩
    rw [hnone] at h
    cases h
    exact ha
  | some newNode =>
    obtain ⟨-, os, hsome⟩ := Memory.malloc_of_some hnew ⟨data, none⟩
    have hne : a ≠ newNode := by
      rintro rfl
      exact hmalloc hnew
    rw [hsome] at h
    dsimp only at h
    split at h
    · obtain ⟨mem, hmem, h⟩ := bind_eq_ok.mp h
      obtain ⟨node, -, hmem⟩ := bind_eq_ok.mp hmem
      cases hmem
      cases h
      simp [hne, ha]
    · cases h
      simp [hne, ha]

lemma mem_of_removeFirstItem {r : Option T} (h : removeFirstItem s = .ok (r, s')) :
    s'.mem.allocated = s.queue.head.elim s.mem.allocated s.mem.allocated.erase := by
  unfold removeFirstItem at h
  split at h
  · rename_i hhead
    cases h
    rw [hhead]
    rfl
  · rename_i head hhead
    obtain ⟨item, -, h⟩ := bind_eq_ok.mp h
    cases h
    rw [hhead]
    rfl

lemma Step.notMem {a : ℕ} {x : Call T × Option T} (hstep : Step A s x s')
    (ha : a ∉ s.mem.allocated) (hx : NotAllocates A a s x) : a ∉ s'.mem.allocated := by
  obtain ⟨c, r⟩ := x
  cases c with
  | appendItem data =>
    obtain ⟨t, happend, ht⟩ := bind_eq_ok.mp hstep
    cases ht
    exact notMem_of_appendItem happend ha (hx nofun)
  | removeFirstItem =>
    rw [mem_of_removeFirstItem hstep]
    cases s.queue.head with
    | none => exact ha
    | some head => exact fun hmem => ha (Finset.mem_of_mem_erase hmem)

lemma Removed.notMem {a : ℕ} {run : List ((Call T × Option T) × State σ T)}
    (hrun : IsRun (Step A) s run) (ha : Removed A a s run) :
    a ∉ (lastState s run).mem.allocated := by
  obtain ⟨before, x, after, rfl, hcall, hhead, hafter⟩ := ha
  obtain ⟨-, hstep, hrun⟩ := (isRun_append _ _ _).mp hrun
  rw [Step, hcall] at hstep
  have hnot : a ∉ x.2.mem.allocated := by
    rw [mem_of_removeFirstItem hstep, hhead]
    exact Finset.notMem_erase a _
  have hlast : lastState s (before ++ x :: after) = lastState x.2 after := by
    rw [lastState_append]
    rfl
  rw [hlast]
  exact IsRun.invariant_last (I := fun s => a ∉ s.mem.allocated)
    (fun s x s' ha hx hstep => hstep.notMem ha hx) hnot hrun hafter

/-- After every call of a run from an empty queue the queue is well linked, no removed node can be
reached, and the calls return, what they return being the appended data, first in, first out. -/
theorem wellLinked_of_run (hA : A.Succeeds) (hnull : s.queue = ⟨none, none⟩)
    {run : List ((Call T × Option T) × State σ T)} (hrun : IsRun (Step A) s run) :
    WellLinked (lastState s run) ∧
      (∀ a, Removed A a s run → ¬(lastState s run).mem.Reaches a (lastState s run).queue.head) ∧
      run.map (fun x => x.1.2) = (execSpec respond .start (run.map fun x => x.1.1)).1 ∧
      ∀ c, ∃ r s', call A (lastState s run) c = .ok (r, s') := by
  have hs : s.Items (History.start (D := Option T)).waiting := State.items_of_null hnull
  have hcall : ∀ (h : History (Option T)) s c, s.Items h.waiting →
      ∃ s', call A s c = .ok ((respond h c).1, s') ∧ s'.Items (respond h c).2.waiting :=
    fun h s c hs => exists_call hA hs c
  obtain ⟨hreturned, hitems⟩ := IsRun.follows hcall hs hrun
  refine ⟨hitems.wellLinked, ?_, hreturned, ?_⟩
  · intro a ha hreaches
    obtain ⟨nodes, hnodes, -⟩ := hitems
    exact ha.notMem hrun (hnodes.allocated a (hnodes.reaches_iff.mp hreaches))
  · intro c
    obtain ⟨s', hcall, -⟩ := exists_call hA hitems c
    exact ⟨_, s', hcall⟩

/-- A queue that is empty, in a memory without items. -/
def emptyQueue : State Unit T := ⟨⟨none, none⟩, ⟨∅, fun _ => ⟨none, none⟩, ()⟩⟩

/-- The queue goes empty twice and is filled again, in memory that is used again. -/
def refilledRun : List ((Call ℕ × Option ℕ) × State Unit ℕ) :=
  traceOf (call lowestFirst) emptyQueue [.appendItem (some 5), .removeFirstItem, .removeFirstItem,
    .appendItem (some 6), .appendItem (some 7), .removeFirstItem]

theorem wellLinked_refilledRun : IsRun (Step lowestFirst) emptyQueue refilledRun ∧
    WellLinked (lastState emptyQueue refilledRun) ∧
    (∀ a, Removed lowestFirst a emptyQueue refilledRun →
      ¬(lastState emptyQueue refilledRun).mem.Reaches a
        (lastState emptyQueue refilledRun).queue.head) ∧
    refilledRun.map (fun x => x.1.2) =
      (execSpec respond .start (refilledRun.map fun x => x.1.1)).1 ∧
    ∀ c, ∃ r s', call lowestFirst (lastState emptyQueue refilledRun) c = .ok (r, s') := by
  have hrun : IsRun (Step lowestFirst) emptyQueue refilledRun := isRun_traceOf _ _
  exact ⟨hrun, wellLinked_of_run lowestFirst_succeeds rfl hrun⟩

example : refilledRun.map (fun x => (x.1.2, x.2.queue)) =
    [(none, ⟨some 0, some 0⟩), (some 5, ⟨none, none⟩), (none, ⟨none, none⟩),
      (none, ⟨some 0, some 0⟩), (none, ⟨some 0, some 1⟩), (some 6, ⟨some 1, some 1⟩)] := by decide

end StyLinux.Scheduler.Linked
