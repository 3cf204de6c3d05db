import Mathlib.Tactic
import StyLinux.Scheduler.Moves

/-!
# The order of dispatch

A run from a state in which no task is ready keeps on each queue the ready tasks of its level, in
the order in which they became ready. So `scheduleNextTask` returns the task that has been ready
longest on the level it selects, and over a run the tasks of one level are returned in the order
in which they became ready.
-/

namespace StyLinux.Scheduler

open Lib

variable {T : Type} {s s' : State T}

/-! ### What is ready -/

/-- The priorities of the tasks that are ready. -/
def readyPriorities (s : State T) : Set ℤ :=
  {q | ∃ t, (s.tasks t).state = .ready ∧ (s.tasks t).priority = q}

/-- The current level has had its turns and a task with a greater number is ready. -/
def AgingDue (s : State T) : Prop :=
  MAX_SAMEPRIO_LENGTH ≤ s.samePrioCounter s.currentPriority ∧
    ∃ q ∈ readyPriorities s, ((s.currentPriority : ℕ) : ℤ) < q

lemma Listed.priority_mem (hs : Listed s) {t : T} {p : Level} (ht : t ∈ s.priorityQueues p) :
    ((p : ℕ) : ℤ) ∈ readyPriorities s := ⟨t, hs.queued p t ht⟩

lemma mem_readyPriorities (hs : Listed s) (hq : Queued s) {q : ℤ} :
    q ∈ readyPriorities s ↔ ∃ p : Level, q = (p : ℕ) ∧ s.priorityQueues p ≠ [] := by
  constructor
  · rintro ⟨t, ht, rfl⟩
    obtain ⟨p, hp⟩ := hq t ht
    exact ⟨p, (hs.queued p t hp).2, List.ne_nil_of_mem hp⟩
  · rintro ⟨p, rfl, hne⟩
    obtain ⟨t, ht⟩ := List.exists_mem_of_ne_nil _ hne
    exact hs.priority_mem ht

lemma agingDue_iff (hs : Listed s) (hq : Queued s) : AgingDue s ↔
    MAX_SAMEPRIO_LENGTH ≤ s.samePrioCounter s.currentPriority ∧
      ∃ p, s.currentPriority < p ∧ s.priorityQueues p ≠ [] := by
  refine and_congr_right fun _ => ?_
  constructor
  · rintro ⟨q, hmem, hlt⟩
    obtain ⟨p, rfl, hne⟩ := (mem_readyPriorities hs hq).mp hmem
    exact ⟨p, by exact_mod_cast hlt, hne⟩
  · rintro ⟨p, hlt, hne⟩
    exact ⟨(p : ℕ), (mem_readyPriorities hs hq).mpr ⟨p, rfl, hne⟩, by exact_mod_cast hlt⟩

/-- A task on the first queue in `P` that is not empty has the least priority. -/
lemma Listed.isLeast (hs : Listed s) {p : Level} {t : T}
    (ht : t ∈ s.priorityQueues p) {P : Level → Prop} {S : Set ℤ}
    (hS : ∀ q, q ∈ S ↔ ∃ l : Level, q = (l : ℕ) ∧ P l ∧ s.priorityQueues l ≠ [])
    (hp : P p) (hbelow : ∀ q, P q → q < p → s.priorityQueues q = []) :
    IsLeast S (s.tasks t).priority := by
  rw [(hs.queued p t ht).2]
  constructor
  · exact (hS _).mpr ⟨p, rfl, hp, List.ne_nil_of_mem ht⟩
  · intro q hqS
    obtain ⟨l, rfl, hl, hne⟩ := (hS q).mp hqS
    have hle : p ≤ l := not_lt.mp fun hlt => hne (hbelow l hl hlt)
    exact_mod_cast hle

/-! ### How long a task has been ready -/

/-- The task is ready in `s` and after every step of the run. -/
def ReadyThroughout (t : T) (s : State T) (run : List ((Call T × Option T) × State T)) : Prop :=
  (s.tasks t).state = .ready ∧ ∀ x ∈ run, (x.2.tasks t).state = .ready

/-- At the end of the run `t` has been ready for longer than `u`: since a moment at which `u` was
not ready. -/
def ReadyLonger (s : State T) (run : List ((Call T × Option T) × State T)) (t u : T) : Prop :=
  ∃ pre post, run = pre ++ post ∧ ReadyThroughout t (lastState s pre) post ∧
    ((lastState s pre).tasks u).state ≠ .ready

/-- Each queue has its tasks in the order in which they became ready. -/
def InOrder (s : State T) (run : List ((Call T × Option T) × State T)) : Prop :=
  ∀ p, ((lastState s run).priorityQueues p).Pairwise (ReadyLonger s run)

section History

variable {run : List ((Call T × Option T) × State T)} {x : (Call T × Option T) × State T} {t u : T}

lemma ReadyLonger.concat (h : ReadyLonger s run t u) (ht : (x.2.tasks t).state = .ready) :
    ReadyLonger s (run ++ [x]) t u := by
  obtain ⟨pre, post, rfl, ⟨hstart, hpost⟩, hu⟩ := h
  refine ⟨pre, post ++ [x], List.append_assoc _ _ _, ⟨hstart, ?_⟩, hu⟩
  intro y hy
  rcases List.mem_append.mp hy with hy | hy
  · exact hpost y hy
  · rw [List.mem_singleton.mp hy]
    exact ht

lemma readyLonger_of_new (hbefore : ((lastState s run).tasks t).state = .ready)
    (hafter : (x.2.tasks t).state = .ready) (hu : ((lastState s run).tasks u).state ≠ .ready) :
    ReadyLonger s (run ++ [x]) t u := by
  refine ⟨run, [x], rfl, ⟨hbefore, ?_⟩, hu⟩
  intro y hy
  rw [List.mem_singleton.mp hy]
  exact hafter

/-- The order stays when tasks leave the queues and when a task that was not ready joins one. -/
lemma InOrder.concat (h : InOrder s run) (hs : Listed (lastState s run)) (hs' : Listed x.2)
    (hqueues : ∀ p, (x.2.priorityQueues p).Sublist ((lastState s run).priorityQueues p) ∨
      ∃ task, ((lastState s run).tasks task).state ≠ .ready ∧
        x.2.priorityQueues p = (lastState s run).priorityQueues p ++ [task]) :
    InOrder s (run ++ [x]) := by
  intro p
  rw [lastState_concat]
  have hready : ∀ t ∈ x.2.priorityQueues p, (x.2.tasks t).state = .ready :=
    fun t ht => (hs'.queued p t ht).1
  rcases hqueues p with hsub | ⟨task, hne, happend⟩
  · refine ((h p).sublist hsub).imp_of_mem ?_
    intro t u ht _ htu
    exact htu.concat (hready t ht)
  · rw [happend] at hready ⊢
    rw [List.pairwise_append]
    refine ⟨(h p).imp_of_mem ?_, List.pairwise_singleton _ _, ?_⟩
    · intro t u ht _ htu
      exact htu.concat (hready t (List.mem_append_left _ ht))
    · intro t ht u hu
      rw [List.mem_singleton.mp hu]
      exact readyLonger_of_new (hs.queued p t ht).1 (hready t (List.mem_append_left _ ht)) hne

end History

/-! ### Who comes and who goes -/

def Call.task : Call T → Option T
  | .ready _ task => some task
  | .preempted _ task => some task
  | .waiting task => some task
  | .schedule => none

variable [DecidableEq T]

/-- The task that a step makes ready on level `p`. -/
def arrived (p : Level) (s : State T) (x : (Call T × Option T) × State T) : Option T :=
  x.1.1.task.filter fun t => (s.tasks t).state ≠ .ready ∧ (x.2.tasks t).state = .ready ∧
    (x.2.tasks t).priority = (p : ℕ)

/-- The task of level `p` that a step dispatches. -/
def dispatched (p : Level) (x : (Call T × Option T) × State T) : Option T :=
  x.1.2.filter fun t => (x.2.tasks t).priority = (p : ℕ)

/-- The tasks that become ready on level `p`, in this order. -/
def arrivals (p : Level) : State T → List ((Call T × Option T) × State T) → List T
  | _, [] => []
  | s, x :: run => (arrived p s x).toList ++ arrivals p x.2 run

/-- The tasks of level `p` that are dispatched, in this order. -/
def dispatches (p : Level) (run : List ((Call T × Option T) × State T)) : List T :=
  run.flatMap fun x => (dispatched p x).toList

/-! ### What a step does to the queues -/

omit [DecidableEq T] in
lemma task_of_appended {c : Call T} {task : T} (h : appended s c = some task) :
    c.task = some task := by
  cases c with
  | ready allocated t =>
    obtain ⟨-, h⟩ := Option.ite_none_left_eq_some.mp h
    exact h
  | preempted allocated t =>
    obtain ⟨-, h⟩ := Option.ite_none_right_eq_some.mp h
    exact h
  | waiting t => cases h
  | schedule => cases h

lemma Called.queue_eq {c : Call T} (h : Called s c s') (hc : c.allocated) (p : Level) :
    s.priorityQueues p ++ (arrived p s ((c, none), s')).toList = s'.priorityQueues p := by
  cases h with
  | same _ _ =>
    have hnone : arrived p s ((c, none), s) = none := by
      apply Option.filter_eq_none_iff.mpr
      simp +contextual
    simp [hnone]
  | queue _ task q happended hne _ =>
    unfold arrived
    simp only [task_of_appended happended, Option.filter_some, Function.update_self]
    by_cases hpq : p = q
    · subst hpq
      simp [appendItem, hc, hne]
    · have hqp : ¬(q : ℕ) = p := fun he => hpq (Fin.ext he.symm)
      simp [hpq, hqp]
  | wait task hrunning => simp [arrived, Call.task]

lemma queue_dispatch (hs : Listed s) {q : Level} {task : T} {queue : List T}
    (hq : s.priorityQueues q = task :: queue)
    (htasks : s'.tasks = Function.update s.tasks task { s.tasks task with state := .running })
    (hqueues : s'.priorityQueues = Function.update s.priorityQueues q queue) (p : Level) :
    s.priorityQueues p =
      (dispatched p ((.schedule, some task), s')).toList ++ s'.priorityQueues p := by
  have hlevel := (hs.queued q task (by simp [hq])).2
  unfold dispatched
  simp only [Option.filter_some, htasks, hqueues, Function.update_self, hlevel]
  by_cases hpq : p = q
  · subst hpq
    simp [hq]
  · have hqp : ¬(q : ℕ) = p := fun he => hpq (Fin.ext he.symm)
    simp [hpq, hqp]

lemma Selected.queue_eq {r : Option T} (h : Selected s r s') (hs : Listed s) (p : Level) :
    s.priorityQueues p = (dispatched p ((.schedule, r), s')).toList ++ s'.priorityQueues p := by
  cases h with
  | idle hempty => simp [dispatched]
  | lower q task queue _ _ hq _ => exact queue_dispatch hs hq (by simp) (by simp) p
  | highest q task queue _ hq _ => exact queue_dispatch hs hq (by simp) (by simp) p

/-- What comes to a level joins its queue at the end, and what is dispatched leaves it at the
front. -/
lemma Step.queue_eq {x : Call T × Option T} (hstep : Step s x s') (hs : Listed s)
    (hx : Allocated s x) (p : Level) :
    s.priorityQueues p ++ (arrived p s (x, s')).toList =
      (dispatched p (x, s')).toList ++ s'.priorityQueues p := by
  obtain ⟨c, r⟩ := x
  rcases hstep.selected_or_called with ⟨rfl, hsel⟩ | ⟨-, rfl, hcalled⟩
  · simpa [arrived, Call.task] using hsel.queue_eq hs p
  · simpa [dispatched] using hcalled.queue_eq (Allocates.allocated hx) p

/-- A queue loses its front or gains a task that was not ready. -/
lemma Step.queue_cases {x : Call T × Option T} (hstep : Step s x s') (hs : Listed s)
    (hx : Allocated s x) (p : Level) :
    (s'.priorityQueues p).Sublist (s.priorityQueues p) ∨
      ∃ task, (s.tasks task).state ≠ .ready ∧
        s'.priorityQueues p = s.priorityQueues p ++ [task] := by
  have heq := hstep.queue_eq hs hx p
  obtain ⟨c, r⟩ := x
  cases harrived : arrived p s ((c, r), s') with
  | none =>
    rw [harrived, Option.toList_none, List.append_nil] at heq
    exact .inl (heq ▸ List.sublist_append_right _ _)
  | some task =>
    obtain ⟨htask, hcond⟩ := Option.filter_eq_some_iff.mp harrived
    have hc : c ≠ .schedule := by
      rintro rfl
      cases htask
    obtain ⟨rfl, -⟩ := call_called hc hstep
    rw [harrived] at heq
    refine .inr ⟨task, ?_, ?_⟩
    · simpa using (of_decide_eq_true hcond).1
    · simpa [dispatched] using heq.symm

/-! ### Runs -/

variable {run : List ((Call T × Option T) × State T)}

lemma inOrder_of_run (hnew : ∀ t, (s.tasks t).state ≠ .ready)
    (hrun : IsRun Step (initScheduler s) run)
    (halloc : StepsMeet Allocated (initScheduler s) run) : InOrder (initScheduler s) run := by
  induction run using List.reverseRecOn with
  | nil =>
    intro p
    exact List.Pairwise.nil
  | append_singleton run x ih =>
    obtain ⟨hrun, hx, -⟩ := (isRun_append _ _ _).mp hrun
    obtain ⟨halloc, hax, -⟩ := (stepsMeet_append _ _ _).mp halloc
    have hlisted := (listed_queued_of_run hnew hrun halloc).1
    exact (ih hrun halloc).concat hlisted (Step.listed hx hlisted)
      (Step.queue_cases hx hlisted hax)

/-- On every level, who has come is who has gone and who is still on the queue. -/
lemma queue_append_arrivals (hs : Listed s) (hrun : IsRun Step s run)
    (halloc : StepsMeet Allocated s run) (p : Level) :
    s.priorityQueues p ++ arrivals p s run =
      dispatches p run ++ (lastState s run).priorityQueues p := by
  induction run generalizing s with
  | nil => simp [arrivals, dispatches]
  | cons x run ih =>
    have hstep := Step.queue_eq hrun.1 hs halloc.1 p
    have hrest := ih (Step.listed hrun.1 hs) hrun.2 halloc.2
    simp only [arrivals, dispatches, List.flatMap_cons, lastState_cons] at hrest ⊢
    rw [← List.append_assoc, hstep, List.append_assoc, hrest, List.append_assoc]

/-! ### The selected task -/

/-- What `scheduleNextTask` returns, where `longer t u` says that `t` has been ready for longer
than `u`. -/
structure DispatchOk (longer : T → T → Prop) (s : State T) : Prop where
  none_iff : (scheduleNextTask s).1 = none ↔ ∀ t, (s.tasks t).state ≠ .ready
  running : ∀ t, (scheduleNextTask s).1 = some t →
    (s.tasks t).state = .ready ∧ ((scheduleNextTask s).2.tasks t).state = .running
  oldest : ∀ t, (scheduleNextTask s).1 = some t → ∀ u ≠ t, (s.tasks u).state = .ready →
    (s.tasks u).priority = (s.tasks t).priority → longer t u
  lower : ∀ t, (scheduleNextTask s).1 = some t → AgingDue s →
    IsLeast {q ∈ readyPriorities s | ((s.currentPriority : ℕ) : ℤ) < q} (s.tasks t).priority
  highest : ∀ t, (scheduleNextTask s).1 = some t → ¬AgingDue s →
    IsLeast (readyPriorities s) (s.tasks t).priority

lemma Selected.empty_of_none (h : Selected s none s') (p : Level) : s.priorityQueues p = [] := by
  cases h with
  | idle hempty => exact hempty p

/-- The selected task is the first one on its queue, and the queues that come before are empty. -/
lemma Selected.front {t : T} (h : Selected s (some t) s') (hs : Listed s) (hq : Queued s) :
    ∃ p queue, s.priorityQueues p = t :: queue ∧ (s'.tasks t).state = .running ∧
      (AgingDue s → s.currentPriority < p ∧
        ∀ q, s.currentPriority < q → q < p → s.priorityQueues q = []) ∧
      (¬AgingDue s → ∀ q, q < p → s.priorityQueues q = []) := by
  rw [agingDue_iff hs hq]
  cases h with
  | lower p _ queue hcount hlt hp hbelow =>
    refine ⟨p, queue, hp, by simp, fun _ => ⟨hlt, hbelow⟩, ?_⟩
    intro hnot
    exact absurd ⟨hcount, p, hlt, by simp [hp]⟩ hnot
  | highest p _ queue haging hp hbelow =>
    refine ⟨p, queue, hp, by simp, ?_, fun _ => hbelow⟩
    rintro ⟨hcount, q, hlt, hne⟩
    exact absurd (haging hcount q hlt) hne

lemma dispatchOk_of_pairwise {longer : T → T → Prop} (hs : Listed s) (hq : Queued s)
    (horder : ∀ p, (s.priorityQueues p).Pairwise longer) : DispatchOk longer s := by
  have hsel := selected_scheduleNextTask s
  have hfront : ∀ t, (scheduleNextTask s).1 = some t → ∃ p queue,
      s.priorityQueues p = t :: queue ∧ ((scheduleNextTask s).2.tasks t).state = .running ∧
      (AgingDue s → s.currentPriority < p ∧
        ∀ q, s.currentPriority < q → q < p → s.priorityQueues q = []) ∧
      (¬AgingDue s → ∀ q, q < p → s.priorityQueues q = []) := by
    intro t ht
    rw [ht] at hsel
    exact hsel.front hs hq
  constructor
  · constructor
    · intro hnone t ht
      rw [hnone] at hsel
      obtain ⟨p, hp⟩ := hq t ht
      simp [hsel.empty_of_none p] at hp
    · intro hnot
      by_contra hne
      obtain ⟨t, ht⟩ := Option.ne_none_iff_exists'.mp hne
      obtain ⟨p, queue, hp, -⟩ := hfront t ht
      exact hnot t (hs.queued p t (by simp [hp])).1
  · intro t ht
    obtain ⟨p, queue, hp, hrunning, -⟩ := hfront t ht
    exact ⟨(hs.queued p t (by simp [hp])).1, hrunning⟩
  · intro t ht u hne hu hpriority
    obtain ⟨p, queue, hp, -⟩ := hfront t ht
    obtain ⟨q, hmem⟩ := hq u hu
    have hlevel := (hs.queued p t (by simp [hp])).2
    rw [hlevel, (hs.queued q u hmem).2] at hpriority
    obtain rfl : q = p := Fin.ext (by exact_mod_cast hpriority)
    have hpairwise := horder q
    rw [hp, List.pairwise_cons] at hpairwise
    rw [hp, List.mem_cons] at hmem
    exact hpairwise.1 u (hmem.resolve_left hne)
  · intro t ht haging
    obtain ⟨p, queue, hp, -, hlower, -⟩ := hfront t ht
    obtain ⟨hlt, hbelow⟩ := hlower haging
    refine hs.isLeast (p := p) (by simp [hp]) ?_ hlt hbelow
    intro q
    rw [Set.mem_ofPred_eq, mem_readyPriorities hs hq]
    constructor
    · rintro ⟨⟨l, rfl, hne⟩, hl⟩
      exact ⟨l, rfl, by exact_mod_cast hl, hne⟩
    · rintro ⟨l, rfl, hl, hne⟩
      exact ⟨⟨l, rfl, hne⟩, by exact_mod_cast hl⟩
  · intro t ht haging
    obtain ⟨p, queue, hp, -, -, hhighest⟩ := hfront t ht
    refine hs.isLeast (p := p) (P := fun _ => True) (by simp [hp]) ?_ trivial
      (fun q _ => hhighest haging q)
    intro q
    rw [mem_readyPriorities hs hq]
    simp

/-- In every state that is reached from tasks that are not ready, `scheduleNextTask` returns the
task that has been ready longest on the level it has to select, and the tasks of a level have been
dispatched in the order in which they became ready. -/
theorem dispatchOk_of_run (hnew : ∀ t, (s.tasks t).state ≠ .ready)
    (hrun : IsRun Step (initScheduler s) run)
    (halloc : StepsMeet Allocated (initScheduler s) run) :
    DispatchOk (ReadyLonger (initScheduler s) run) (lastState (initScheduler s) run) ∧
      ∀ p, dispatches p run <+: arrivals p (initScheduler s) run := by
  obtain ⟨hlisted, hqueued⟩ := listed_queued_of_run hnew hrun halloc
  refine ⟨dispatchOk_of_pairwise hlisted hqueued (inOrder_of_run hnew hrun halloc), ?_⟩
  intro p
  have heq := queue_append_arrivals (listed_initScheduler s) hrun halloc p
  exact ⟨_, heq.symm⟩

theorem dispatchOk_threeTasks :
    DispatchOk
      (ReadyLonger (initScheduler threeTasks) (trace (initScheduler threeTasks) threeCalls))
      (lastState (initScheduler threeTasks) (trace (initScheduler threeTasks) threeCalls)) :=
  (dispatchOk_of_run (by decide) (isRun_trace _ _)
    (stepsMeet_allocated_trace (by simp [threeCalls, Allocates]))).1

end StyLinux.Scheduler
