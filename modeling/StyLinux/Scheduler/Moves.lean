import StyLinux.Lib.Fuel
import StyLinux.Scheduler.Invariant

/-!
# What every run keeps

Facts about the queues and the counters that hold in every reachable state, whatever tasks there
were at the start and whichever allocations fail: queued tasks are ready and on the queue of
their priority, and only the current level has a counter other than 0. As long as no allocation
fails, the tasks that are ready are queued.
-/

namespace StyLinux.Scheduler

open Lib

variable {T : Type} {s s' : State T}

/-! ### Levels of the tasks -/

/-- The level whose queue the task is put on when it becomes ready. -/
def HasLevel (s : State T) (t : T) (p : Level) : Prop :=
  clampPriority (s.tasks t).priority = (p : ℕ)

/-- No task is queued on a level in `P`, and none can come there without being scheduled. -/
structure Deserted (P : Level → Prop) (s : State T) : Prop where
  empty : ∀ p, P p → s.priorityQueues p = []
  stays : ∀ t p, (s.tasks t).state ≠ .ready → HasLevel s t p → ¬P p

/-- Only the current level has a counter other than 0. -/
def OneCounter (s : State T) : Prop := ∀ p, p ≠ s.currentPriority → s.samePrioCounter p = 0

lemma clampPriority_level (p : Level) : clampPriority ((p : ℕ) : ℤ) = (p : ℕ) := by
  have hle : (p : ℕ) ≤ MAX_PRIORITY := Nat.lt_succ_iff.mp p.isLt
  unfold clampPriority
  split_ifs <;> omega

lemma queueIndex_eq_ok {priority : ℤ} {p : Level} (h : queueIndex priority = .ok p) :
    priority = (p : ℕ) := by
  unfold queueIndex at h
  split at h
  · obtain rfl := Except.ok.inj h
    simp only
    omega
  · cases h

lemma enqueue_eq_ok {allocated : Bool} {task : T} (h : enqueue allocated task s = .ok s') :
    ∃ p : Level, (s.tasks task).priority = (p : ℕ) ∧
      s' = s.setQueue p (appendItem allocated (s.priorityQueues p) task) := by
  unfold enqueue at h
  cases hindex : queueIndex (s.tasks task).priority with
  | error e =>
    rw [hindex] at h
    cases h
  | ok p =>
    rw [hindex] at h
    exact ⟨p, queueIndex_eq_ok hindex, (Except.ok.inj h).symm⟩

variable [DecidableEq T]

/-- Whether the call can allocate a node. -/
def Call.allocated : Call T → Bool
  | .ready allocated _ => allocated
  | .preempted allocated _ => allocated
  | _ => true

/-- The task that the call appends to its queue. -/
def appended (s : State T) : Call T → Option T
  | .ready _ task => if (s.tasks task).state = .ready then none else some task
  | .preempted _ task => if (s.tasks task).state = .running then some task else none
  | _ => none

/-- What a call to one of the event handlers does. -/
inductive Called (s : State T) : Call T → State T → Prop
  | same (c : Call T) : appended s c = none → Called s c s
  | queue (c : Call T) (task : T) (p : Level) : appended s c = some task →
      (s.tasks task).state ≠ .ready → HasLevel s task p →
      Called s c { s with
        tasks := Function.update s.tasks task ⟨.ready, (p : ℕ)⟩
        priorityQueues := Function.update s.priorityQueues p
          (appendItem c.allocated (s.priorityQueues p) task) }
  | wait (task : T) : (s.tasks task).state = .running →
      Called s (.waiting task) (s.setState task .waiting)

lemma called_onTaskReady {allocated : Bool} {task : T}
    (h : onTaskReady allocated task s = .ok s') : Called s (.ready allocated task) s' := by
  unfold onTaskReady at h
  by_cases hready : (s.tasks task).state = .ready
  · rw [if_pos hready] at h
    cases h
    exact .same _ (if_pos hready)
  · rw [if_neg hready] at h
    obtain ⟨p, hp, rfl⟩ := enqueue_eq_ok h
    have hlevel : clampPriority (s.tasks task).priority = (p : ℕ) := by simpa using hp
    have hcalled := Called.queue (.ready allocated task) task p (if_neg hready) hready hlevel
    convert hcalled using 1
    simp [State.setQueue, State.setState, State.setPriority, hlevel, Call.allocated]

lemma called_onTaskPreempted {allocated : Bool} {task : T}
    (h : onTaskPreempted allocated task s = .ok s') :
    Called s (.preempted allocated task) s' := by
  unfold onTaskPreempted at h
  by_cases hrunning : (s.tasks task).state = .running
  · rw [if_neg (not_not.mpr hrunning)] at h
    obtain ⟨p, hp, rfl⟩ := enqueue_eq_ok h
    have hpriority : (s.tasks task).priority = (p : ℕ) := by simpa using hp
    have hlevel : HasLevel s task p := by
      unfold HasLevel
      rw [hpriority, clampPriority_level]
    have hcalled := Called.queue (.preempted allocated task) task p (if_pos hrunning)
      (by simp [hrunning]) hlevel
    convert hcalled using 1
    simp [State.setQueue, State.setState, hpriority, Call.allocated]
  · rw [if_pos hrunning] at h
    cases h
    exact .same _ (if_neg hrunning)

lemma call_called {c : Call T} {r : Option T} (hc : c ≠ .schedule) (h : call c s = .ok (r, s')) :
    r = none ∧ Called s c s' := by
  cases c with
  | ready allocated task =>
    obtain ⟨s'', hok, h⟩ := bind_eq_ok.mp h
    cases h
    exact ⟨rfl, called_onTaskReady hok⟩
  | preempted allocated task =>
    obtain ⟨s'', hok, h⟩ := bind_eq_ok.mp h
    cases h
    exact ⟨rfl, called_onTaskPreempted hok⟩
  | waiting task =>
    cases h
    unfold onTaskWaiting
    split
    · exact ⟨rfl, .same _ rfl⟩
    · rename_i hrunning
      exact ⟨rfl, .wait task (not_not.mp hrunning)⟩
  | schedule => exact absurd rfl hc

/-- What a step does. -/
lemma Step.selected_or_called {c : Call T} {r : Option T} (hstep : Step s (c, r) s') :
    c = .schedule ∧ Selected s r s' ∨ c ≠ .schedule ∧ r = none ∧ Called s c s' := by
  by_cases hc : c = .schedule
  · subst hc
    have hsel := selected_scheduleNextTask s
    rw [show scheduleNextTask s = (r, s') from Except.ok.inj hstep] at hsel
    exact .inl ⟨rfl, hsel⟩
  · exact .inr ⟨hc, call_called hc hstep⟩

/-- What the calls do that do not schedule. -/
inductive Moved (s : State T) : State T → Prop
  | same : Moved s s
  | queue (allocated : Bool) (task : T) (p : Level) :
      (s.tasks task).state ≠ .ready → HasLevel s task p →
      Moved s { s with
        tasks := Function.update s.tasks task ⟨.ready, (p : ℕ)⟩
        priorityQueues := Function.update s.priorityQueues p
          (appendItem allocated (s.priorityQueues p) task) }
  | wait (task : T) : (s.tasks task).state = .running → Moved s (s.setState task .waiting)

lemma Called.moved {c : Call T} (h : Called s c s') : Moved s s' := by
  cases h with
  | same _ => exact .same
  | queue _ task p _ hne hlevel => exact .queue c.allocated task p hne hlevel
  | wait task hrunning => exact .wait task hrunning

lemma call_moved {c : Call T} {r : Option T} (hc : c ≠ .schedule) (h : call c s = .ok (r, s')) :
    Moved s s' := (call_called hc h).2.moved

/-! ### What the calls keep -/

lemma Moved.counters (h : Moved s s') : s'.currentPriority = s.currentPriority ∧
    s'.samePrioCounter = s.samePrioCounter := by
  cases h <;> exact ⟨rfl, rfl⟩

lemma Moved.listed (h : Moved s s') (hs : Listed s) : Listed s' := by
  cases h with
  | same => exact hs
  | queue allocated task p hne hlevel =>
    cases allocated with
    | true => exact hs.enqueue hne rfl rfl
    | false => exact hs.setTask hne rfl (Function.update_eq_self p s.priorityQueues)
  | wait task hrunning =>
    exact hs.setTask (by simp [hrunning]) (State.tasks_setState _ _ _) rfl

lemma Moved.deserted {P : Level → Prop} (h : Moved s s') (hs : Deserted P s) : Deserted P s' := by
  cases h with
  | same => exact hs
  | queue allocated task p hne hlevel =>
    have hp : ¬P p := hs.stays task p hne hlevel
    constructor
    · intro q hq
      have hqp : q ≠ p := fun he => hp (he ▸ hq)
      simpa [hqp] using hs.empty q hq
    · intro t q ht hq
      by_cases heq : t = task
      · subst heq
        simp at ht
      · unfold HasLevel at hq
        simp only [Function.update_of_ne heq] at ht hq
        exact hs.stays t q ht hq
  | wait task hrunning =>
    refine ⟨hs.empty, ?_⟩
    intro t q ht hq
    unfold HasLevel at hq
    by_cases heq : t = task
    · subst heq
      simp only [State.tasks_setState, Function.update_self] at hq
      exact hs.stays t q (by simp [hrunning]) hq
    · simp only [State.tasks_setState, Function.update_of_ne heq] at ht hq
      exact hs.stays t q ht hq

lemma Deserted.dispatch {P : Level → Prop} (hs : Deserted P s) (hlisted : Listed s) {p : Level}
    {task : T} {queue : List T} (hp : s.priorityQueues p = task :: queue)
    (htasks : s'.tasks = Function.update s.tasks task { s.tasks task with state := .running })
    (hqueues : s'.priorityQueues = Function.update s.priorityQueues p queue) : Deserted P s' := by
  have hnot : ¬P p := by
    intro hP
    rw [hs.empty p hP] at hp
    cases hp
  constructor
  · intro q hq
    have hqp : q ≠ p := fun he => hnot (he ▸ hq)
    rw [hqueues, Function.update_of_ne hqp]
    exact hs.empty q hq
  · intro t q ht hq
    unfold HasLevel at hq
    rw [htasks] at ht hq
    by_cases heq : t = task
    · subst heq
      rw [Function.update_self] at hq
      simp only [(hlisted.queued p t (by simp [hp])).2, clampPriority_level] at hq
      have hpq : p = q := Fin.ext (by exact_mod_cast hq)
      rwa [← hpq]
    · rw [Function.update_of_ne heq] at ht hq
      exact hs.stays t q ht hq

lemma Selected.listed {r : Option T} (hsel : Selected s r s') (hs : Listed s) : Listed s' := by
  cases hsel with
  | idle _ =>
    constructor
    · simpa using hs.nodup
    · simpa using hs.queued
  | lower p task queue _ _ hp _ => exact hs.dispatch hp (by simp) (by simp)
  | highest p task queue _ hp _ => exact hs.dispatch hp (by simp) (by simp)

/-! ### Ready tasks -/

omit [DecidableEq T] in
lemma Allocates.allocated {c : Call T} (hc : Allocates c) : c.allocated := by
  cases c with
  | ready allocated task => exact hc
  | preempted allocated task => exact hc
  | waiting task => rfl
  | schedule => rfl

lemma Step.listed {x : Call T × Option T} (hstep : Step s x s') (hs : Listed s) : Listed s' := by
  obtain ⟨c, r⟩ := x
  rcases hstep.selected_or_called with ⟨-, hsel⟩ | ⟨-, -, hcalled⟩
  · exact hsel.listed hs
  · exact hcalled.moved.listed hs

lemma Called.queued {c : Call T} (h : Called s c s') (hc : c.allocated) (hq : Queued s) :
    Queued s' := by
  cases h with
  | same _ _ => exact hq
  | queue _ task p _ _ _ =>
    apply hq.enqueue rfl
    simp [appendItem, hc]
  | wait task hrunning =>
    intro t ht
    by_cases heq : t = task
    · subst heq
      simp at ht
    · exact hq t (by simpa [heq] using ht)

lemma Selected.queued {r : Option T} (h : Selected s r s') (hs : Listed s) (hq : Queued s) :
    Queued s' := by
  cases h with
  | idle hempty => simpa [Queued] using hq
  | lower q task queue _ _ hp _ => exact hq.dispatch hs hp (by simp) (by simp)
  | highest q task queue _ hp _ => exact hq.dispatch hs hp (by simp) (by simp)

lemma Step.queued {x : Call T × Option T} (hstep : Step s x s') (hs : Listed s)
    (hx : Allocated s x) (hq : Queued s) : Queued s' := by
  obtain ⟨c, r⟩ := x
  rcases hstep.selected_or_called with ⟨-, hsel⟩ | ⟨-, -, hcalled⟩
  · exact hsel.queued hs hq
  · exact hcalled.queued (Allocates.allocated hx) hq

/-! ### The one counter -/

omit [DecidableEq T] in
lemma OneCounter.switchTo (hs : OneCounter s) (p : Level) :
    (switchTo p s).samePrioCounter = Function.update (fun _ => 0) p 1 := by
  funext q
  rw [State.samePrioCounter_switchTo]
  by_cases hq : q = p
  · simp [hq]
  · rw [Function.update_of_ne hq, Function.update_of_ne hq]
    by_cases hcur : q = s.currentPriority
    · simp [hcur]
    · rw [Function.update_of_ne hcur]
      exact hs q hcur

omit [DecidableEq T] in
lemma OneCounter.countSelection (hs : OneCounter s) (p : Level) :
    (countSelection p s).samePrioCounter = Function.update (fun _ => 0) p
      (if p = s.currentPriority then s.samePrioCounter s.currentPriority + 1 else 1) := by
  unfold Scheduler.countSelection
  by_cases hp : p = s.currentPriority
  · rw [if_pos hp, if_pos hp, hp]
    funext q
    by_cases hq : q = s.currentPriority
    · simp [hq]
    · simpa [hq] using hs q hq
  · rw [if_neg hp, if_neg hp]
    exact hs.switchTo p

omit [DecidableEq T] in
lemma oneCounter_of_update {p : Level} {n : ℕ} (hp : s.currentPriority = p)
    (h : s.samePrioCounter = Function.update (fun _ => 0) p n) : OneCounter s := by
  intro q hq
  rw [hp] at hq
  rw [h, Function.update_of_ne hq]

omit [DecidableEq T] in
lemma OneCounter.afterAging (hs : OneCounter s) : OneCounter (afterAging s) := by
  unfold Scheduler.afterAging
  split
  · intro q hq
    rw [State.currentPriority_setCounter] at hq
    rw [State.samePrioCounter_setCounter, Function.update_of_ne hq]
    exact hs q hq
  · exact hs

lemma Selected.oneCounter {r : Option T} (hsel : Selected s r s') (hs : OneCounter s) :
    OneCounter s' := by
  cases hsel with
  | idle _ => exact hs.afterAging
  | lower p task queue _ _ _ _ =>
    exact oneCounter_of_update rfl (OneCounter.switchTo (s := s.setQueue p queue) hs p)
  | highest p task queue _ _ _ =>
    apply oneCounter_of_update (currentPriority_countSelection _ p)
    exact OneCounter.countSelection (s := (Scheduler.afterAging s).setQueue p queue)
      hs.afterAging p

/-! ### Reachable states -/

omit [DecidableEq T] in
lemma listed_initScheduler (s : State T) : Listed (initScheduler s) :=
  ⟨by simp [initScheduler], by simp [initScheduler]⟩

omit [DecidableEq T] in
lemma oneCounter_initScheduler (s : State T) : OneCounter (initScheduler s) := fun _ _ => rfl

lemma listed_queued_of_run (hready : ∀ t, (s.tasks t).state ≠ .ready)
    {run : List ((Call T × Option T) × State T)} (hrun : IsRun Step (initScheduler s) run)
    (halloc : StepsMeet Allocated (initScheduler s) run) :
    Listed (lastState (initScheduler s) run) ∧ Queued (lastState (initScheduler s) run) := by
  refine IsRun.invariant_last (I := fun s => Listed s ∧ Queued s) ?_
    ⟨listed_initScheduler s, fun t ht => absurd ht (hready t)⟩ hrun halloc
  rintro s x s' ⟨hlisted, hqueued⟩ hx hstep
  exact ⟨hstep.listed hlisted, hstep.queued hlisted hx hqueued⟩

lemma listed_oneCounter_of_run {run : List ((Call T × Option T) × State T)}
    (hrun : IsRun Step (initScheduler s) run) :
    Listed (lastState (initScheduler s) run) ∧ OneCounter (lastState (initScheduler s) run) := by
  refine IsRun.invariant (I := fun s => Listed s ∧ OneCounter s) ?_
    ⟨listed_initScheduler s, oneCounter_initScheduler s⟩ hrun
  rintro s ⟨c, r⟩ s' ⟨hlisted, hone⟩ hstep
  rcases hstep.selected_or_called with ⟨-, hsel⟩ | ⟨-, -, hcalled⟩
  · exact ⟨hsel.listed hlisted, hsel.oneCounter hone⟩
  · have hmoved := hcalled.moved
    refine ⟨hmoved.listed hlisted, ?_⟩
    unfold OneCounter
    rw [hmoved.counters.1, hmoved.counters.2]
    exact hone

end StyLinux.Scheduler
