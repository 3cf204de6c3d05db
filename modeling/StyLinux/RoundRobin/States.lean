import StyLinux.Lib.Run
import StyLinux.RoundRobin.Lists

/-!
# The states of the tasks

`onTaskReady` marks a task as ready and puts it into the queue once. `scheduleNextTask` takes a
task from the queue but leaves it marked as ready, so that the marks are right only as long as no
task has been scheduled.
-/

namespace StyLinux.RoundRobin

open Lib

variable {σ T : Type} {A : Allocator σ} {s s' : State σ T} {items : List (Option T)} {t : T}

/-- The tasks in the queue are different ones, and they are those that are marked as ready. -/
def StatesOk (s : State σ T) : Prop :=
  ∃ items, s.queue.Items items ∧ items.Nodup ∧
    ∀ task, s.tasks task = .ready ↔ some task ∈ items

/-- The queue has the given items, which are different tasks. -/
structure State.Queued (s : State σ T) (items : List (Option T)) : Prop where
  holds : s.queue.Items items
  nodup : items.Nodup
  notNull : none ∉ items

lemma State.queued_of_listHead (hempty : s.queue.listHead = none) : s.Queued [] :=
  ⟨TaskList.items_of_listHead hempty, List.nodup_nil, List.not_mem_nil⟩

variable [DecidableEq T]

/-- The items after a task has become ready. -/
def enqueue (items : List (Option T)) (task : Option T) : List (Option T) :=
  if task ∈ items then items else items ++ [task]

lemma mem_enqueue {task task' : Option T} :
    task' ∈ enqueue items task ↔ task' = task ∨ task' ∈ items := by
  unfold enqueue
  split_ifs with hmem
  · rw [iff_or_self]
    rintro rfl
    exact hmem
  · simp [or_comm]

/-- A task that becomes ready is put into the queue unless it is already there. -/
lemma exists_onTaskReady (hA : A.Succeeds) (hs : s.Queued items) (t : T) :
    ∃ s', onTaskReady A (some t) s = .ok s' ∧ s'.Queued (enqueue items (some t)) ∧
      s'.tasks = Function.update s.tasks t .ready := by
  unfold onTaskReady
  dsimp only
  rw [containsItem_eq hs.holds, ok_bind]
  by_cases hmem : some t ∈ items
  · rw [if_pos hmem, enqueue, if_pos hmem, if_neg one_ne_zero]
    exact ⟨_, rfl, ⟨hs.holds, hs.nodup, hs.notNull⟩, rfl⟩
  · obtain ⟨queue, hqueue, hitems⟩ := exists_appendItem hA hs.holds (some t)
    rw [if_neg hmem, enqueue, if_neg hmem, if_pos rfl, hqueue, ok_bind]
    refine ⟨_, rfl, ⟨hitems, ?_, ?_⟩, rfl⟩
    · exact List.Nodup.append hs.nodup (List.nodup_singleton _) (by simpa using hmem)
    · simpa using hs.notNull

omit [DecidableEq T] in
/-- The first task is scheduled, if there is any. -/
lemma exists_scheduleNextTask (hs : s.Queued items) :
    ∃ s', scheduleNextTask s = .ok (items.head?.join, s') ∧ s'.Queued items.tail ∧
      s'.tasks = s.tasks := by
  unfold scheduleNextTask
  rw [isEmpty_eq hs.holds]
  cases items with
  | nil => exact ⟨s, rfl, hs, rfl⟩
  | cons item items =>
    obtain ⟨queue, hqueue, hitems⟩ := exists_removeFirstItem hs.holds
    rw [if_neg (List.cons_ne_nil item items), if_neg (by simp), hqueue, ok_bind]
    refine ⟨_, rfl, ⟨hitems, hs.nodup.tail, ?_⟩, rfl⟩
    exact fun hmem => hs.notNull (List.mem_of_mem_tail hmem)

/-! ### One call -/

/-- The tasks in the queue are exactly those that are marked as ready. -/
def State.Marked (s : State σ T) (items : List (Option T)) : Prop :=
  ∀ task, s.tasks task = .ready ↔ some task ∈ items

omit [DecidableEq T] in
lemma State.Queued.statesOk_iff (hs : s.Queued items) : StatesOk s ↔ s.Marked items := by
  constructor
  · rintro ⟨items', hitems', -, hmarked⟩
    rw [hs.holds.unique hitems']
    exact hmarked
  · exact fun hmarked => ⟨items, hs.holds, hs.nodup, hmarked⟩

/-- Every call returns and leaves different tasks in the queue. -/
lemma exists_event (hA : A.Succeeds) (hs : s.Queued items) (c : Event T) :
    ∃ task s' items', event A s c = .ok (task, s') ∧ s'.Queued items' := by
  cases c with
  | ready t =>
    obtain ⟨s', hready, hs', -⟩ := exists_onTaskReady hA hs t
    exact ⟨none, s', _, by rw [event, hready, ok_bind], hs'⟩
  | schedule =>
    obtain ⟨s', hschedule, hs', -⟩ := exists_scheduleNextTask hs
    exact ⟨_, s', _, hschedule, hs'⟩

/-- The scheduler is called only if there is nothing in the queue. -/
def Unscheduled (s : State σ T) (x : Event T × Option T) : Prop :=
  x.1 = .schedule → s.queue.listHead = none

lemma Step.of_ready {r : Option T} (hA : A.Succeeds) (hs : s.Queued items)
    (hstep : Step A s (.ready t, r) s') :
    s'.Queued (enqueue items (some t)) ∧ s'.tasks = Function.update s.tasks t .ready := by
  obtain ⟨t', hready, ht'⟩ := exists_onTaskReady hA hs t
  rw [Step, event, hready, ok_bind] at hstep
  cases hstep
  exact ht'

lemma Step.of_schedule {r : Option T} (hs : s.Queued items) (hstep : Step A s (.schedule, r) s') :
    s'.Queued items.tail ∧ s'.tasks = s.tasks := by
  obtain ⟨t', hschedule, ht'⟩ := exists_scheduleNextTask hs
  rw [Step, event, hschedule] at hstep
  cases hstep
  exact ht'

lemma Step.queued {x : Event T × Option T} (hA : A.Succeeds) (hs : s.Queued items)
    (hstep : Step A s x s') : ∃ items', s'.Queued items' := by
  obtain ⟨c, r⟩ := x
  cases c with
  | ready t => exact ⟨_, (hstep.of_ready hA hs).1⟩
  | schedule => exact ⟨_, (hstep.of_schedule hs).1⟩

/-- The marks stay right unless a task is scheduled, which is then wrongly marked. -/
lemma Step.statesOk_iff {x : Event T × Option T} (hA : A.Succeeds) (hs : s.Queued items)
    (hok : StatesOk s) (hstep : Step A s x s') : StatesOk s' ↔ Unscheduled s x := by
  have hmarked := hs.statesOk_iff.mp hok
  obtain ⟨c, r⟩ := x
  cases c with
  | ready t =>
    obtain ⟨hs', htasks⟩ := hstep.of_ready hA hs
    refine iff_of_true (hs'.statesOk_iff.mpr ?_) nofun
    intro task
    rw [htasks, mem_enqueue, Option.some.injEq]
    by_cases htask : task = t
    · simp [htask]
    · rw [Function.update_of_ne htask, hmarked task]
      simp [htask]
  | schedule =>
    obtain ⟨hs', htasks⟩ := hstep.of_schedule hs
    rw [hs'.statesOk_iff, State.Marked, htasks, Unscheduled, hs.holds.listHead_eq_none_iff]
    cases items with
    | nil => exact iff_of_true hmarked fun _ => rfl
    | cons item items =>
      obtain ⟨first, rfl⟩ : ∃ first, item = some first :=
        Option.ne_none_iff_exists'.mp fun heq => hs.notNull (by simp [heq])
      refine iff_of_false ?_ (by simp)
      intro hmarked'
      have hready : s.tasks first = .ready := (hmarked first).mpr (by simp)
      exact (List.nodup_cons.mp hs.nodup).1 ((hmarked' first).mp hready)

/-! ### Runs -/

variable {run : List ((Event T × Option T) × State σ T)}

/-- No call of `scheduleNextTask` comes behind one of `onTaskReady`. -/
def SchedulesFirst (calls : List (Event T)) : Prop :=
  calls.Pairwise fun c c' => c ≠ .schedule → c' ≠ .schedule

instance (calls : List (Event T)) : Decidable (SchedulesFirst calls) :=
  inferInstanceAs (Decidable (List.Pairwise _ _))

/-- Once there is something in the queue, the scheduler must not be called any more. -/
lemma stepsMeet_unscheduled_of_ne_nil (hA : A.Succeeds) (hs : s.Queued items) (hne : items ≠ [])
    (hrun : IsRun (Step A) s run) :
    StepsMeet Unscheduled s run ↔ ∀ x ∈ run, x.1.1 ≠ .schedule := by
  induction run generalizing s items with
  | nil => simp
  | cons x run ih =>
    obtain ⟨⟨c, r⟩, s'⟩ := x
    rw [stepsMeet_cons, List.forall_mem_cons, Unscheduled, hs.holds.listHead_eq_none_iff]
    cases c with
    | ready t =>
      have hne' : enqueue items (some t) ≠ [] := by
        intro heq
        have hmem : some t ∈ enqueue items (some t) := mem_enqueue.mpr (.inl rfl)
        simp [heq] at hmem
      rw [ih (Step.of_ready hA hs hrun.1).1 hne' hrun.2]
      simp
    | schedule => simp [hne]

lemma stepsMeet_unscheduled_iff (hA : A.Succeeds) (hs : s.Queued [])
    (hrun : IsRun (Step A) s run) :
    StepsMeet Unscheduled s run ↔ SchedulesFirst (run.map fun x => x.1.1) := by
  induction run generalizing s with
  | nil => simp [SchedulesFirst]
  | cons x run ih =>
    obtain ⟨⟨c, r⟩, s'⟩ := x
    have hhead : s.queue.listHead = none := hs.holds.listHead_eq_none_iff.mpr rfl
    rw [stepsMeet_cons, SchedulesFirst, List.map_cons, List.pairwise_cons]
    cases c with
    | ready t =>
      have hs' : s'.Queued [some t] := (Step.of_ready hA hs hrun.1).1
      rw [stepsMeet_unscheduled_of_ne_nil hA hs' (List.cons_ne_nil _ _) hrun.2]
      constructor
      · rintro ⟨-, hready⟩
        have hready' : ∀ c' ∈ run.map (fun x => x.1.1), c' ≠ .schedule := by
          intro c' hc'
          obtain ⟨y, hy, rfl⟩ := List.mem_map.mp hc'
          exact hready y hy
        exact ⟨fun c' hc' _ => hready' c' hc',
          List.pairwise_of_forall_mem_list fun _ _ c' hc' _ => hready' c' hc'⟩
      · rintro ⟨hready, -⟩
        exact ⟨nofun, fun y hy => hready _ (List.mem_map_of_mem hy) nofun⟩
    | schedule =>
      rw [ih (Step.of_schedule hs hrun.1).1 hrun.2]
      simp [Unscheduled, hhead, SchedulesFirst]

/-- Every call of a run returns, and so does the next one. -/
lemma exists_event_of_run (hA : A.Succeeds) (hempty : s.queue.listHead = none)
    (hrun : IsRun (Step A) s run) (c : Event T) :
    ∃ task s', event A (lastState s run) c = .ok (task, s') := by
  have hs : ∃ items, s.Queued items := ⟨[], State.queued_of_listHead hempty⟩
  obtain ⟨items, hlast⟩ := hrun.invariant (I := fun s => ∃ items, s.Queued items)
    (fun s x s' h hstep => hstep.queued hA h.choose_spec) hs
  obtain ⟨task, s', -, hevent, -⟩ := exists_event hA hlast c
  exact ⟨task, s', hevent⟩

/-- From any set of new tasks, the marks of all tasks are right after every call exactly if the
scheduler is not called any more once a task has become ready. -/
theorem statesOk_iff_schedulesFirst (hA : A.Succeeds) (hnew : ∀ task, s.tasks task = .new)
    (hempty : s.queue.listHead = none) (hrun : IsRun (Step A) s run) :
    (∀ x ∈ run, StatesOk x.2) ↔ SchedulesFirst (run.map fun x => x.1.1) := by
  have hs : s.Queued [] := State.queued_of_listHead hempty
  have hok : StatesOk s := hs.statesOk_iff.mpr fun task => by simp [hnew]
  rw [← stepsMeet_unscheduled_iff hA hs hrun]
  refine IsRun.forall_iff_stepsMeet (I := fun s => (∃ items, s.Queued items) ∧ StatesOk s)
    (D := fun _ _ => True) ?_ ?_ ⟨⟨[], hs⟩, hok⟩ hrun (stepsMeet_of_forall (by simp) s run)
  · rintro s x s' ⟨⟨items, hs⟩, hok⟩ - hx hstep
    have hok' := (hstep.statesOk_iff hA hs hok).mpr hx
    exact ⟨⟨hstep.queued hA hs, hok'⟩, hok'⟩
  · rintro s x s' ⟨⟨items, hs⟩, hok⟩ - hx hstep hok'
    exact hx ((hstep.statesOk_iff hA hs hok).mp hok')

/-- The tasks are new and the queue is empty. -/
def newTasks : State Unit T := ⟨fun _ => .new, noItems⟩

/-- Two tasks are made ready, one of them twice. -/
def readyRun : List ((Event (Fin 2) × Option (Fin 2)) × State Unit (Fin 2)) :=
  traceOf (event lowestFirst) newTasks [.schedule, .ready 1, .ready 0, .ready 1]

theorem statesOk_readyRun :
    IsRun (Step lowestFirst) newTasks readyRun ∧ ∀ x ∈ readyRun, StatesOk x.2 := by
  have hrun : IsRun (Step lowestFirst) newTasks readyRun := isRun_traceOf _ _
  exact ⟨hrun, (statesOk_iff_schedulesFirst lowestFirst_succeeds (fun _ => rfl) rfl hrun).mpr
    (by decide)⟩

omit [DecidableEq T] in
lemma not_statesOk_of_listHead (hempty : s.queue.listHead = none) (ht : s.tasks t = .ready) :
    ¬StatesOk s := by
  rintro ⟨items, hitems, -, hmarked⟩
  have hnil := hitems.unique (TaskList.items_of_listHead hempty)
  have hmem := (hmarked t).mp ht
  simp [hnil] at hmem

/-- One task is made ready and scheduled. -/
def scheduledRun : List ((Event (Fin 2) × Option (Fin 2)) × State Unit (Fin 2)) :=
  traceOf (event lowestFirst) newTasks [.ready 0, .schedule]

/-- A task that has been scheduled is still marked as ready. -/
theorem not_statesOk_scheduledRun : IsRun (Step lowestFirst) newTasks scheduledRun ∧
    scheduledRun.map (fun x => x.1.2) = [none, some 0] ∧ ¬∀ x ∈ scheduledRun, StatesOk x.2 := by
  refine ⟨isRun_traceOf _ _, by decide, ?_⟩
  intro hok
  have hlast := hok (scheduledRun.getLast (by decide)) (List.getLast_mem _)
  exact not_statesOk_of_listHead (t := 0) (by decide) (by decide) hlast

end StyLinux.RoundRobin
