import StyLinux.Lib.Linked

/-!
# The round-robin scheduler and its list

`vika3/LABtutorial-03`: the list of `list.c`, which `roundrobin.c` has a copy of, and the scheduler
of `roundrobin.c` on it. A task is known by its address `T`, and the data of a list item is a
pointer, `none` if it is `NULL`. A loop over the list gives up when it has followed more pointers
than there are nodes in the memory.
-/

namespace StyLinux.RoundRobin

open Lib

variable {σ T : Type}

abbrev QueueItem (T : Type) := Node (Option T)

/-- `listHead` and the memory of the list items. -/
structure TaskList (σ T : Type) where
  listHead : Option ℕ
  mem : Memory σ (Option T)

/-- `while (tempItem->next) tempItem = tempItem->next;` -/
def lastItem (mem : Memory σ (Option T)) : ℕ → ℕ → Except PointerFault ℕ
  | 0, _ => .error .circle
  | fuel + 1, tempItem => do
    let item ← mem.load (some tempItem)
    match item.next with
    | none => .ok tempItem
    | some nextItem => lastItem mem fuel nextItem

def appendItem (A : Allocator σ) (task : Option T) (s : TaskList σ T) :
    Except PointerFault (TaskList σ T) :=
  match s.mem.malloc A ⟨task, none⟩ with
  | (none, mem) => .ok { s with mem }
  | (some newNode, mem) =>
    match s.listHead with
    | none => .ok ⟨some newNode, mem⟩
    | some head => do
      let tempItem ← lastItem mem mem.allocated.card head
      let mem ← mem.setNext tempItem (some newNode)
      .ok { s with mem }

def removeFirstItem (s : TaskList σ T) : Except PointerFault (Option T × TaskList σ T) :=
  match s.listHead with
  | none => .ok (none, s)
  | some head => do
    let item ← s.mem.load (some head)
    .ok (item.data, ⟨item.next, s.mem.free head⟩)

section Search

variable [DecidableEq T]

/-- The loop of `containsItem`. -/
def containsLoop (mem : Memory σ (Option T)) (task : Option T) :
    ℕ → Option ℕ → Except PointerFault ℤ
  | _, none => .ok 0
  | 0, some _ => .error .circle
  | fuel + 1, some tempItem => do
    let item ← mem.load (some tempItem)
    if item.data = task then .ok 1 else containsLoop mem task fuel item.next

def containsItem (task : Option T) (s : TaskList σ T) : Except PointerFault ℤ :=
  containsLoop s.mem task s.mem.allocated.card s.listHead

end Search

def isEmpty (s : TaskList σ T) : ℤ := if s.listHead = none then 1 else 0

/-- `isEmpty` of `list.c`. The other functions are the same in both files. -/
def ListC.isEmpty (s : TaskList σ T) : ℤ := if s.listHead = none then 0 else 1

/-! ### Calls of the list functions -/

inductive Call (T : Type)
  | appendItem (task : Option T)
  | removeFirstItem
  | containsItem (task : Option T)
  | isEmpty
  deriving DecidableEq, Repr

/-- What a call returns: nothing, a pointer or a truth value. -/
inductive Answer (T : Type)
  | done
  | task (task : Option T)
  | truth (value : Bool)
  deriving DecidableEq, Repr

section Calls

variable [DecidableEq T]

/-- A call of a function of the file with the given `isEmpty`. -/
def callWith (isEmpty : TaskList σ T → ℤ) (A : Allocator σ) (s : TaskList σ T) :
    Call T → Except PointerFault (Answer T × TaskList σ T)
  | .appendItem task => do
    let s ← appendItem A task s
    .ok (.done, s)
  | .removeFirstItem => do
    let (task, s) ← removeFirstItem s
    .ok (.task task, s)
  | .containsItem task => do
    let contained ← containsItem task s
    .ok (.truth (contained ≠ 0), s)
  | .isEmpty => .ok (.truth (isEmpty s ≠ 0), s)

def call (A : Allocator σ) :
    TaskList σ T → Call T → Except PointerFault (Answer T × TaskList σ T) :=
  callWith isEmpty A

def ListC.call (A : Allocator σ) :
    TaskList σ T → Call T → Except PointerFault (Answer T × TaskList σ T) :=
  callWith ListC.isEmpty A

end Calls

/-! ### The scheduler -/

inductive TaskState
  | new
  | ready
  | running
  | waiting
  | terminated
  deriving DecidableEq, Repr

/-- The states of the tasks and the ready queue. -/
structure State (σ T : Type) where
  tasks : T → TaskState
  queue : TaskList σ T

def scheduleNextTask (s : State σ T) : Except PointerFault (Option T × State σ T) :=
  if isEmpty s.queue ≠ 0 then .ok (none, s)
  else do
    let (task, queue) ← removeFirstItem s.queue
    .ok (task, { s with queue })

section Scheduler

variable [DecidableEq T] (A : Allocator σ)

def onTaskReady (task : Option T) (s : State σ T) : Except PointerFault (State σ T) :=
  match task with
  | none => .error .null
  | some t => do
    let s := { s with tasks := Function.update s.tasks t .ready }
    let contained ← containsItem task s.queue
    if contained = 0 then do
      let queue ← appendItem A task s.queue
      .ok { s with queue }
    else .ok s

/-- The loop of `main`, with the tasks that it prints. -/
def mainLoop : ℕ → State σ T → Except PointerFault (List (Option T) × State σ T)
  | 0, s => .ok ([], s)
  | iterations + 1, s => do
    let (task, s) ← scheduleNextTask s
    let s ← onTaskReady A task s
    let (tasks, s) ← mainLoop iterations s
    .ok (task :: tasks, s)

/-- `main`, which indicates that tasks are ready and then runs its loop. -/
def main (readies : List T) (iterations : ℕ) (s : State σ T) :
    Except PointerFault (List (Option T) × State σ T) := do
  let s ← readies.foldlM (fun s task => onTaskReady A (some task) s) s
  mainLoop A iterations s

/-- A call of a function of the scheduler. -/
inductive Event (T : Type)
  | ready (task : T)
  | schedule
  deriving DecidableEq, Repr

def event (s : State σ T) : Event T → Except PointerFault (Option T × State σ T)
  | .ready task => do
    let s ← onTaskReady A (some task) s
    .ok (none, s)
  | .schedule => scheduleNextTask s

/-- A call that returns; the label also has the returned task. -/
def Step (s : State σ T) (x : Event T × Option T) (s' : State σ T) : Prop :=
  event A s x.1 = .ok (x.2, s')

end Scheduler

end StyLinux.RoundRobin
