import StyLinux.Lib.Run

/-!
# The priority scheduler

`vika3/Passignment03-templates/p1/scheduler.c`. The tasks are kept by the callers; the
scheduler has a queue and a counter for every level and the level that was scheduled last.
A task is known by its address `T`, a queue by the data of its items. Level 0 is the
highest priority.
-/

namespace StyLinux.Scheduler

open Lib

def MAX_PRIORITY : ℕ := 10

def MAX_SAMEPRIO_LENGTH : ℕ := 4

abbrev Level := Fin (MAX_PRIORITY + 1)

instance (priority := high) : NeZero (MAX_PRIORITY + 1) := ⟨Nat.succ_ne_zero _⟩

inductive TaskState
  | unused
  | ready
  | running
  | waiting
  | terminated
  deriving DecidableEq, Repr

structure Task where
  state : TaskState
  priority : ℤ
  deriving DecidableEq, Repr

inductive Fault
  | outOfBounds
  deriving DecidableEq, Repr

/-- The tasks and the static variables of the scheduler. -/
structure State (T : Type) where
  tasks : T → Task
  priorityQueues : Level → List T
  currentPriority : Level
  samePrioCounter : Level → ℕ

variable {T : Type}

namespace State

def setQueue (s : State T) (p : Level) (queue : List T) : State T :=
  { s with priorityQueues := Function.update s.priorityQueues p queue }

def setCounter (s : State T) (p : Level) (n : ℕ) : State T :=
  { s with samePrioCounter := Function.update s.samePrioCounter p n }

variable [DecidableEq T]

def setState (s : State T) (task : T) (state : TaskState) : State T :=
  { s with tasks := Function.update s.tasks task { s.tasks task with state } }

def setPriority (s : State T) (task : T) (priority : ℤ) : State T :=
  { s with tasks := Function.update s.tasks task { s.tasks task with priority } }

end State

/-- `appendItem(queue, data)`; nothing happens if the node cannot be allocated. -/
def appendItem (allocated : Bool) (queue : List T) (data : T) : List T :=
  if allocated then queue ++ [data] else queue

def removeFirstItem : List T → Option (T × List T)
  | [] => none
  | data :: queue => some (data, queue)

def initScheduler (s : State T) : State T where
  tasks := s.tasks
  priorityQueues _ := []
  currentPriority := 0
  samePrioCounter _ := 0

def queueIndex (priority : ℤ) : Except Fault Level :=
  if h : 0 ≤ priority ∧ priority ≤ MAX_PRIORITY then .ok ⟨priority.toNat, by omega⟩
  else .error .outOfBounds

/-- `appendItem(&priorityQueues[task->priority], task)`. -/
def enqueue (allocated : Bool) (task : T) (s : State T) : Except Fault (State T) := do
  let p ← queueIndex (s.tasks task).priority
  pure (s.setQueue p (appendItem allocated (s.priorityQueues p) task))

def clampPriority (priority : ℤ) : ℤ :=
  if priority < 0 then 0 else if MAX_PRIORITY < priority then MAX_PRIORITY else priority

section Events

variable [DecidableEq T]

def onTaskReady (allocated : Bool) (task : T) (s : State T) : Except Fault (State T) :=
  if (s.tasks task).state = .ready then .ok s
  else
    let s := s.setPriority task (clampPriority (s.tasks task).priority)
    enqueue allocated task (s.setState task .ready)

def onTaskPreempted (allocated : Bool) (task : T) (s : State T) :
    Except Fault (State T) :=
  if (s.tasks task).state ≠ .running then .ok s
  else enqueue allocated task (s.setState task .ready)

def onTaskWaiting (task : T) (s : State T) : State T :=
  if (s.tasks task).state ≠ .running then s else s.setState task .waiting

end Events

/-- The counters when a task of another level is selected. -/
def switchTo (p : Level) (s : State T) : State T :=
  { s.setCounter s.currentPriority 0 with currentPriority := p }.setCounter p 1

section Calls

variable [DecidableEq T]

/-- The first loop of `scheduleNextTask`, over the levels in `ps`. -/
def selectLower (s : State T) : List Level → Option (T × State T)
  | [] => none
  | p :: ps =>
    match removeFirstItem (s.priorityQueues p) with
    | none => selectLower s ps
    | some (task, queue) =>
      some (task, (switchTo p (s.setQueue p queue)).setState task .running)

/-- The second loop of `scheduleNextTask`. -/
def selectHighest (s : State T) : List Level → Option T × State T
  | [] => (none, s)
  | p :: ps =>
    match removeFirstItem (s.priorityQueues p) with
    | none => selectHighest s ps
    | some (task, queue) =>
      let s := s.setQueue p queue
      let s := if p = s.currentPriority then s.setCounter p (s.samePrioCounter p + 1)
        else switchTo p s
      (some task, s.setState task .running)

def levels : List Level := List.finRange (MAX_PRIORITY + 1)

def scheduleNextTask (s : State T) : Option T × State T :=
  if MAX_SAMEPRIO_LENGTH ≤ s.samePrioCounter s.currentPriority then
    match selectLower s (levels.filter (fun p => s.currentPriority < p)) with
    | some (task, s) => (some task, s)
    | none => selectHighest (s.setCounter s.currentPriority 0) levels
  else selectHighest s levels

/-- A call, with the success of its memory allocation. -/
inductive Call (T : Type)
  | ready (allocated : Bool) (task : T)
  | preempted (allocated : Bool) (task : T)
  | waiting (task : T)
  | schedule
  deriving DecidableEq, Repr

def call : Call T → State T → Except Fault (Option T × State T)
  | .ready allocated task, s => do
    let s ← onTaskReady allocated task s
    pure (none, s)
  | .preempted allocated task, s => do
    let s ← onTaskPreempted allocated task s
    pure (none, s)
  | .waiting task, s => .ok (none, onTaskWaiting task s)
  | .schedule, s => .ok (scheduleNextTask s)

/-- A call that returns; the label also has the returned task. -/
def Step (s : State T) (x : Call T × Option T) (s' : State T) : Prop :=
  call x.1 s = .ok (x.2, s')

/-- The run of the given calls, up to the first one that does not return. -/
def trace : State T → List (Call T) → List ((Call T × Option T) × State T)
  | _, [] => []
  | s, c :: cs =>
    match call c s with
    | .error _ => []
    | .ok (r, s') => ((c, r), s') :: trace s' cs

lemma isRun_trace (s : State T) (cs : List (Call T)) : IsRun Step s (trace s cs) := by
  induction cs generalizing s with
  | nil => trivial
  | cons c cs ih =>
    unfold trace
    cases h : call c s with
    | error e => trivial
    | ok x => exact ⟨h, ih x.2⟩

end Calls

/-! ### Reading after writing -/

namespace State

variable (s : State T) (p : Level) (queue : List T) (n : ℕ)

@[simp] lemma tasks_setQueue : (s.setQueue p queue).tasks = s.tasks := rfl

@[simp] lemma currentPriority_setQueue :
    (s.setQueue p queue).currentPriority = s.currentPriority := rfl

@[simp] lemma samePrioCounter_setQueue :
    (s.setQueue p queue).samePrioCounter = s.samePrioCounter := rfl

@[simp] lemma priorityQueues_setQueue :
    (s.setQueue p queue).priorityQueues = Function.update s.priorityQueues p queue := rfl

@[simp] lemma tasks_setCounter : (s.setCounter p n).tasks = s.tasks := rfl

@[simp] lemma priorityQueues_setCounter :
    (s.setCounter p n).priorityQueues = s.priorityQueues := rfl

@[simp] lemma currentPriority_setCounter :
    (s.setCounter p n).currentPriority = s.currentPriority := rfl

@[simp] lemma samePrioCounter_setCounter :
    (s.setCounter p n).samePrioCounter = Function.update s.samePrioCounter p n := rfl

@[simp] lemma tasks_switchTo : (switchTo p s).tasks = s.tasks := rfl

@[simp] lemma priorityQueues_switchTo : (switchTo p s).priorityQueues = s.priorityQueues := rfl

@[simp] lemma currentPriority_switchTo : (switchTo p s).currentPriority = p := rfl

@[simp] lemma samePrioCounter_switchTo :
    (switchTo p s).samePrioCounter =
      Function.update (Function.update s.samePrioCounter s.currentPriority 0) p 1 := rfl

variable [DecidableEq T] (task : T) (state : TaskState) (priority : ℤ)

@[simp] lemma priorityQueues_setState :
    (s.setState task state).priorityQueues = s.priorityQueues := rfl

@[simp] lemma currentPriority_setState :
    (s.setState task state).currentPriority = s.currentPriority := rfl

@[simp] lemma samePrioCounter_setState :
    (s.setState task state).samePrioCounter = s.samePrioCounter := rfl

@[simp] lemma tasks_setState :
    (s.setState task state).tasks =
      Function.update s.tasks task { s.tasks task with state } := rfl

@[simp] lemma priorityQueues_setPriority :
    (s.setPriority task priority).priorityQueues = s.priorityQueues := rfl

@[simp] lemma tasks_setPriority :
    (s.setPriority task priority).tasks =
      Function.update s.tasks task { s.tasks task with priority } := rfl

end State

end StyLinux.Scheduler
