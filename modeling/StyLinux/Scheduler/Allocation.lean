import Mathlib.Tactic
import StyLinux.Scheduler.Dispatch

/-!
# Failing allocations

`appendItem` does nothing when the node cannot be allocated, but the task is already marked as
ready then. Such a task is on no queue, and since `onTaskReady` ignores tasks that are ready, it
is never scheduled again.
-/

namespace StyLinux.Scheduler

open Lib

variable {T : Type} {s s' : State T}

/-- If the call appends a task to a queue, then the node is allocated. -/
def Appends (s : State T) (x : Call T × Option T) : Prop :=
  appended s x.1 ≠ none → x.1.allocated = true

/-- The task is ready, but on no queue. -/
def Stranded (s : State T) (t : T) : Prop :=
  (s.tasks t).state = .ready ∧ ∀ p, t ∉ s.priorityQueues p

instance (s : State T) (t : T) [DecidableEq T] : Decidable (Stranded s t) :=
  inferInstanceAs (Decidable (_ ∧ _))

lemma not_queued_of_stranded {t : T} (ht : Stranded s t) : ¬Queued s := by
  intro hq
  obtain ⟨p, hp⟩ := hq t ht.1
  exact ht.2 p hp

variable [DecidableEq T]

lemma Called.queued_of_appends {c : Call T} {r : Option T} (h : Called s c s')
    (hc : Appends s (c, r)) (hq : Queued s) : Queued s' := by
  cases h with
  | same _ happended => exact hq
  | queue _ task p happended hne hlevel =>
    have hallocated : c.allocated := hc (by simp [happended])
    exact (Called.queue c task p happended hne hlevel).queued hallocated hq
  | wait task hrunning => exact (Called.wait task hrunning).queued rfl hq

/-- A task that cannot be appended is stranded. -/
lemma Called.stranded {c : Call T} {r : Option T} (h : Called s c s') (hs : Listed s)
    (hc : ¬Appends s (c, r)) : ∃ t, Stranded s' t := by
  obtain ⟨happended, hallocated⟩ := Classical.not_imp.mp hc
  rw [Bool.not_eq_true] at hallocated
  cases h with
  | same _ hnone => exact absurd hnone happended
  | queue _ task p _ hne _ =>
    refine ⟨task, by simp, ?_⟩
    intro q
    simp only [appendItem, hallocated, Bool.false_eq_true, if_false, Function.update_eq_self]
    exact hs.notMem hne q
  | wait task hrunning => exact absurd rfl happended

lemma Step.queued_of_appends {x : Call T × Option T} (hstep : Step s x s') (hs : Listed s)
    (hx : Appends s x) (hq : Queued s) : Queued s' := by
  obtain ⟨c, r⟩ := x
  rcases hstep.selected_or_called with ⟨-, hsel⟩ | ⟨-, -, hcalled⟩
  · exact hsel.queued hs hq
  · exact hcalled.queued_of_appends hx hq

lemma Step.not_queued {x : Call T × Option T} (hstep : Step s x s') (hs : Listed s)
    (hx : ¬Appends s x) : ¬Queued s' := by
  obtain ⟨c, r⟩ := x
  rcases hstep.selected_or_called with ⟨rfl, -⟩ | ⟨-, -, hcalled⟩
  · exact absurd (fun h => absurd rfl h) hx
  · obtain ⟨t, ht⟩ := hcalled.stranded hs hx
    exact not_queued_of_stranded ht

/-! ### A stranded task -/

lemma Called.stays_stranded {c : Call T} {t : T} (h : Called s c s') (ht : Stranded s t) :
    Stranded s' t := by
  obtain ⟨hready, hnot⟩ := ht
  cases h with
  | same _ _ => exact ⟨hready, hnot⟩
  | queue _ task p _ hne _ =>
    have htask : t ≠ task := by
      rintro rfl
      exact hne hready
    refine ⟨by simpa [htask] using hready, ?_⟩
    intro q hq
    by_cases hqp : q = p
    · subst hqp
      unfold appendItem at hq
      split at hq <;> simp_all
    · exact hnot q (by simpa [hqp] using hq)
  | wait task hrunning =>
    have htask : t ≠ task := by
      rintro rfl
      simp [hrunning] at hready
    exact ⟨by simpa [htask] using hready, hnot⟩

lemma Stranded.dispatch {t : T} (ht : Stranded s t) {p : Level} {task : T} {queue : List T}
    (hp : s.priorityQueues p = task :: queue)
    (htasks : s'.tasks = Function.update s.tasks task { s.tasks task with state := .running })
    (hqueues : s'.priorityQueues = Function.update s.priorityQueues p queue) :
    Stranded s' t ∧ task ≠ t := by
  obtain ⟨hready, hnot⟩ := ht
  have hne : t ≠ task := by
    rintro rfl
    exact hnot p (by simp [hp])
  refine ⟨⟨?_, ?_⟩, hne.symm⟩
  · rwa [htasks, Function.update_of_ne hne]
  · intro q hq
    rw [hqueues] at hq
    by_cases hqp : q = p
    · subst hqp
      rw [Function.update_self] at hq
      exact hnot q (by simp [hp, hq])
    · rw [Function.update_of_ne hqp] at hq
      exact hnot q hq

lemma Selected.stays_stranded {r : Option T} {t : T} (h : Selected s r s') (ht : Stranded s t) :
    Stranded s' t ∧ r ≠ some t := by
  cases h with
  | idle _ => simpa [Stranded] using ht
  | lower p task queue _ _ hp _ => simpa using ht.dispatch hp (by simp) (by simp)
  | highest p task queue _ hp _ => simpa using ht.dispatch hp (by simp) (by simp)

/-- A stranded task stays ready and is never scheduled. -/
theorem Stranded.run {t : T} (ht : Stranded s t) {run : List ((Call T × Option T) × State T)}
    (hrun : IsRun Step s run) : ∀ x ∈ run, Stranded x.2 t ∧ x.1.2 ≠ some t := by
  induction run generalizing s with
  | nil => simp
  | cons x run ih =>
    have hx : Stranded x.2 t ∧ x.1.2 ≠ some t := by
      rcases Step.selected_or_called hrun.1 with ⟨-, hsel⟩ | ⟨-, hnone, hcalled⟩
      · exact hsel.stays_stranded ht
      · exact ⟨hcalled.stays_stranded ht, by simp [hnone]⟩
    rw [List.forall_mem_cons]
    exact ⟨hx, ih hx.1 hrun.2⟩

/-! ### Runs -/

/-- Every task that is ready is on a queue throughout a run exactly when no call of the run fails
to append its task. -/
theorem queued_iff_appends (hnew : ∀ t, (s.tasks t).state ≠ .ready)
    {run : List ((Call T × Option T) × State T)} (hrun : IsRun Step (initScheduler s) run) :
    (∀ x ∈ run, Queued x.2) ↔ StepsMeet Appends (initScheduler s) run := by
  refine IsRun.forall_iff_stepsMeet (I := fun s => Listed s ∧ Queued s) (D := fun _ _ => True)
    ?_ ?_ ?_ hrun ?_
  · rintro s x s' ⟨hs, hq⟩ - hx hstep
    have hq' := Step.queued_of_appends hstep hs hx hq
    exact ⟨⟨Step.listed hstep hs, hq'⟩, hq'⟩
  · rintro s x s' ⟨hs, -⟩ - hx hstep
    exact Step.not_queued hstep hs hx
  · exact ⟨listed_initScheduler s, fun t ht => absurd ht (hnew t)⟩
  · exact stepsMeet_of_forall (fun _ _ => trivial) _ _

/-- Task 1 becomes ready, without memory for a node first. -/
def strandedCalls : List (Call (Fin 3)) := [.ready false 1, .ready true 1, .schedule]

def strandedRun : List ((Call (Fin 3) × Option (Fin 3)) × State (Fin 3)) :=
  trace (initScheduler threeTasks) strandedCalls

theorem not_queued_strandedRun : IsRun Step (initScheduler threeTasks) strandedRun ∧
    (¬∀ x ∈ strandedRun, Queued x.2) ∧ ∀ x ∈ strandedRun, x.1.2 = none := by
  refine ⟨isRun_trace _ _, ?_, by decide⟩
  intro hqueued
  have hstranded : Stranded (lastState (initScheduler threeTasks) strandedRun) 1 := by
    decide
  exact not_queued_of_stranded hstranded (hqueued (strandedRun.getLast (by decide)) (by simp))

theorem queued_threeTasks :
    IsRun Step (initScheduler threeTasks) (trace (initScheduler threeTasks) threeCalls) ∧
      ∀ x ∈ trace (initScheduler threeTasks) threeCalls, Queued x.2 := by
  have hrun : IsRun Step (initScheduler threeTasks) (trace (initScheduler threeTasks) threeCalls) :=
    isRun_trace _ _
  have hallocated : StepsMeet Allocated (initScheduler threeTasks)
      (trace (initScheduler threeTasks) threeCalls) :=
    stepsMeet_allocated_trace (by simp [threeCalls, Allocates])
  have happends : ∀ (s : State (Fin 3)) x, Allocated s x → Appends s x :=
    fun _ _ hx _ => Allocates.allocated hx
  exact ⟨hrun, (queued_iff_appends (by decide) hrun).mpr (hallocated.imp happends)⟩

end StyLinux.Scheduler
