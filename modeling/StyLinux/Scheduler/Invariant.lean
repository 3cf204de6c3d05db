import StyLinux.Scheduler.Model

/-!
# The invariant of the scheduler

The tasks that are ready are the ones on the queues, each of them once and on the queue of
its own priority, and a running task has a priority that is a level. The last part is what
keeps `onTaskPreempted` from indexing outside of the queues.
-/

namespace StyLinux.Scheduler

open Lib

variable {T : Type} {s s' : State T}

/-- The queued tasks are ready and on the queue of their priority. -/
structure Listed (s : State T) : Prop where
  nodup : ∀ p, (s.priorityQueues p).Nodup
  queued : ∀ p, ∀ t ∈ s.priorityQueues p,
    (s.tasks t).state = .ready ∧ (s.tasks t).priority = (p : ℕ)

/-- Every task that is ready is on a queue. -/
def Queued (s : State T) : Prop := ∀ t, (s.tasks t).state = .ready → ∃ p, t ∈ s.priorityQueues p

structure Inv (s : State T) : Prop where
  nodup : ∀ p, (s.priorityQueues p).Nodup
  queued : ∀ p, ∀ t ∈ s.priorityQueues p,
    (s.tasks t).state = .ready ∧ (s.tasks t).priority = (p : ℕ)
  ready : ∀ t, (s.tasks t).state = .ready → ∃ p, t ∈ s.priorityQueues p
  running : ∀ t, (s.tasks t).state = .running →
    0 ≤ (s.tasks t).priority ∧ (s.tasks t).priority ≤ MAX_PRIORITY

lemma Inv.listed (hs : Inv s) : Listed s := ⟨hs.nodup, hs.queued⟩

lemma Inv.congr (hs : Inv s) (htasks : s'.tasks = s.tasks)
    (hqueues : s'.priorityQueues = s.priorityQueues) : Inv s' where
  nodup := hqueues ▸ hs.nodup
  queued := by
    rw [htasks, hqueues]
    exact hs.queued
  ready := by
    rw [htasks, hqueues]
    exact hs.ready
  running := by
    rw [htasks]
    exact hs.running

lemma Listed.level_unique (hs : Listed s) {t : T} {p q : Level} (hp : t ∈ s.priorityQueues p)
    (hq : t ∈ s.priorityQueues q) : p = q := by
  have hpri := (hs.queued p t hp).2.symm.trans (hs.queued q t hq).2
  apply Fin.ext
  exact_mod_cast hpri

lemma Listed.notMem (hs : Listed s) {t : T} (hne : (s.tasks t).state ≠ .ready) (p : Level) :
    t ∉ s.priorityQueues p := fun hp => hne (hs.queued p t hp).1

variable [DecidableEq T]

/-- A task that is not ready may change. -/
lemma Listed.setTask (hs : Listed s) {task : T} {x : Task}
    (hne : (s.tasks task).state ≠ .ready) (htasks : s'.tasks = Function.update s.tasks task x)
    (hqueues : s'.priorityQueues = s.priorityQueues) : Listed s' := by
  refine ⟨hqueues ▸ hs.nodup, ?_⟩
  intro p t ht
  rw [hqueues] at ht
  have hne' : t ≠ task := by
    rintro rfl
    exact hs.notMem hne p ht
  rw [htasks, Function.update_of_ne hne']
  exact hs.queued p t ht

/-! ### Putting a task on its queue -/

omit [DecidableEq T] in
lemma mem_enqueue {p q : Level} {t task : T} :
    t ∈ Function.update s.priorityQueues p (s.priorityQueues p ++ [task]) q ↔
      t ∈ s.priorityQueues q ∨ q = p ∧ t = task := by
  by_cases hq : q = p
  · subst hq
    simp
  · simp [hq]

lemma Listed.enqueue (hs : Listed s) {task : T} {p : Level}
    (hne : (s.tasks task).state ≠ .ready)
    (htasks : s'.tasks = Function.update s.tasks task ⟨.ready, (p : ℕ)⟩)
    (hqueues : s'.priorityQueues =
      Function.update s.priorityQueues p (s.priorityQueues p ++ [task])) : Listed s' := by
  refine ⟨?_, ?_⟩
  · intro q
    rw [hqueues]
    by_cases hq : q = p
    · subst hq
      rw [Function.update_self, List.nodup_append_comm]
      exact List.nodup_cons.mpr ⟨hs.notMem hne q, hs.nodup q⟩
    · rw [Function.update_of_ne hq]
      exact hs.nodup q
  · intro q t ht
    rw [hqueues] at ht
    rw [htasks]
    rcases mem_enqueue.mp ht with hq | ⟨rfl, rfl⟩
    · have hne' : t ≠ task := by
        rintro rfl
        exact hs.notMem hne q hq
      rw [Function.update_of_ne hne']
      exact hs.queued q t hq
    · simp

lemma Queued.enqueue (hs : Queued s) {task : T} {p : Level}
    (htasks : s'.tasks = Function.update s.tasks task ⟨.ready, (p : ℕ)⟩)
    (hqueues : s'.priorityQueues =
      Function.update s.priorityQueues p (s.priorityQueues p ++ [task])) : Queued s' := by
  intro t ht
  rw [htasks] at ht
  rw [hqueues]
  by_cases heq : t = task
  · exact ⟨p, mem_enqueue.mpr (.inr ⟨rfl, heq⟩)⟩
  · rw [Function.update_of_ne heq] at ht
    obtain ⟨q, hq⟩ := hs t ht
    exact ⟨q, mem_enqueue.mpr (.inl hq)⟩

lemma Inv.enqueue (hs : Inv s) {task : T} {p : Level} (hne : (s.tasks task).state ≠ .ready)
    (htasks : s'.tasks = Function.update s.tasks task ⟨.ready, (p : ℕ)⟩)
    (hqueues : s'.priorityQueues =
      Function.update s.priorityQueues p (s.priorityQueues p ++ [task])) : Inv s' := by
  have hlisted := hs.listed.enqueue hne htasks hqueues
  refine ⟨hlisted.nodup, hlisted.queued, Queued.enqueue hs.ready htasks hqueues, ?_⟩
  intro t ht
  rw [htasks] at ht ⊢
  by_cases heq : t = task
  · subst heq
    simp at ht
  · rw [Function.update_of_ne heq] at ht ⊢
    exact hs.running t ht

lemma queueIndex_level (p : Level) : queueIndex (p : ℕ) = .ok p := by
  have hle : (p : ℕ) ≤ MAX_PRIORITY := Nat.lt_succ_iff.mp p.isLt
  have hin : (0 : ℤ) ≤ (p : ℕ) ∧ ((p : ℕ) : ℤ) ≤ MAX_PRIORITY := by omega
  rw [queueIndex, dif_pos hin]
  simp

lemma exists_level {priority : ℤ} (h₀ : 0 ≤ priority) (h₁ : priority ≤ MAX_PRIORITY) :
    ∃ p : Level, priority = (p : ℕ) := by
  refine ⟨⟨priority.toNat, by omega⟩, ?_⟩
  simp only
  omega

lemma clampPriority_bounds (priority : ℤ) :
    0 ≤ clampPriority priority ∧ clampPriority priority ≤ MAX_PRIORITY := by
  unfold clampPriority
  split_ifs <;> constructor <;> omega

lemma onTaskReady_spec (hs : Inv s) (task : T) :
    ∃ s', onTaskReady true task s = .ok s' ∧ Inv s' := by
  by_cases hready : (s.tasks task).state = .ready
  · refine ⟨s, ?_, hs⟩
    rw [onTaskReady, if_pos hready]
  · obtain ⟨h₀, h₁⟩ := clampPriority_bounds (s.tasks task).priority
    obtain ⟨p, hp⟩ := exists_level h₀ h₁
    let s₁ := (s.setPriority task (p : ℕ)).setState task .ready
    have hindex : queueIndex (s₁.tasks task).priority = .ok p := by
      have hpriority : (s₁.tasks task).priority = (p : ℕ) := by simp [s₁]
      rw [hpriority, queueIndex_level]
    refine ⟨s₁.setQueue p (s.priorityQueues p ++ [task]), ?_, ?_⟩
    · rw [onTaskReady, if_neg hready]
      simp only [hp]
      rw [Scheduler.enqueue, hindex]
      rfl
    · apply hs.enqueue (p := p) hready
      · simp [s₁]
      · simp [s₁]

lemma onTaskPreempted_spec (hs : Inv s) (task : T) :
    ∃ s', onTaskPreempted true task s = .ok s' ∧ Inv s' := by
  by_cases hrunning : (s.tasks task).state = .running
  · obtain ⟨h₀, h₁⟩ := hs.running task hrunning
    obtain ⟨p, hp⟩ := exists_level h₀ h₁
    let s₁ := s.setState task .ready
    have hpriority : (s₁.tasks task).priority = (p : ℕ) := by simp [s₁, hp]
    have hindex : queueIndex (s₁.tasks task).priority = .ok p := by
      rw [hpriority, queueIndex_level]
    have hne : (s.tasks task).state ≠ .ready := by simp [hrunning]
    refine ⟨s₁.setQueue p (s.priorityQueues p ++ [task]), ?_, ?_⟩
    · rw [onTaskPreempted, if_neg (not_not.mpr hrunning), Scheduler.enqueue, hindex]
      rfl
    · apply hs.enqueue (p := p) hne
      · simp [s₁, hp]
      · simp [s₁]
  · refine ⟨s, ?_, hs⟩
    rw [onTaskPreempted, if_pos hrunning]

lemma Inv.onTaskWaiting (hs : Inv s) (task : T) : Inv (onTaskWaiting task s) := by
  unfold Scheduler.onTaskWaiting
  split
  · exact hs
  · rename_i hrunning
    rw [not_not] at hrunning
    have hlisted : Listed (s.setState task .waiting) :=
      hs.listed.setTask (by simp [hrunning]) (State.tasks_setState _ _ _) rfl
    refine ⟨hs.nodup, hlisted.queued, ?_, ?_⟩
    · intro t ht
      by_cases heq : t = task
      · subst heq
        simp at ht
      · exact hs.ready t (by simpa [heq] using ht)
    · intro t ht
      by_cases heq : t = task
      · subst heq
        simp at ht
      · have hrun := hs.running t (by simpa [heq] using ht)
        simpa [heq] using hrun

/-! ### Taking a task off its queue -/

omit [DecidableEq T] in
lemma Listed.mem_dispatch (hs : Listed s) {p : Level} {task : T} {queue : List T}
    (hp : s.priorityQueues p = task :: queue) {q : Level} {t : T} :
    t ∈ Function.update s.priorityQueues p queue q ↔ t ∈ s.priorityQueues q ∧ t ≠ task := by
  have hnodup : (task :: queue).Nodup := hp ▸ hs.nodup p
  by_cases hq : q = p
  · subst hq
    rw [Function.update_self, hp, List.mem_cons]
    constructor
    · intro ht
      refine ⟨.inr ht, ?_⟩
      rintro rfl
      exact (List.nodup_cons.mp hnodup).1 ht
    · rintro ⟨rfl | ht, hne⟩
      · exact absurd rfl hne
      · exact ht
  · rw [Function.update_of_ne hq]
    constructor
    · intro ht
      refine ⟨ht, ?_⟩
      rintro rfl
      exact hq (hs.level_unique ht (by simp [hp]))
    · exact And.left

lemma Listed.dispatch (hs : Listed s) {p : Level} {task : T} {queue : List T}
    (hp : s.priorityQueues p = task :: queue)
    (htasks : s'.tasks = Function.update s.tasks task { s.tasks task with state := .running })
    (hqueues : s'.priorityQueues = Function.update s.priorityQueues p queue) : Listed s' := by
  refine ⟨?_, ?_⟩
  · intro q
    rw [hqueues]
    by_cases hq : q = p
    · subst hq
      have hnodup : (task :: queue).Nodup := hp ▸ hs.nodup q
      rw [Function.update_self]
      exact (List.nodup_cons.mp hnodup).2
    · rw [Function.update_of_ne hq]
      exact hs.nodup q
  · intro q t ht
    rw [hqueues] at ht
    obtain ⟨hq, hne⟩ := (hs.mem_dispatch hp).mp ht
    rw [htasks, Function.update_of_ne hne]
    exact hs.queued q t hq

lemma Queued.dispatch (hq : Queued s) (hs : Listed s) {p : Level} {task : T} {queue : List T}
    (hp : s.priorityQueues p = task :: queue)
    (htasks : s'.tasks = Function.update s.tasks task { s.tasks task with state := .running })
    (hqueues : s'.priorityQueues = Function.update s.priorityQueues p queue) : Queued s' := by
  intro t ht
  rw [htasks] at ht
  by_cases heq : t = task
  · subst heq
    simp at ht
  · rw [Function.update_of_ne heq] at ht
    obtain ⟨q, hq⟩ := hq t ht
    exact ⟨q, hqueues ▸ (hs.mem_dispatch hp).mpr ⟨hq, heq⟩⟩

lemma Inv.dispatch (hs : Inv s) {p : Level} {task : T} {queue : List T}
    (hp : s.priorityQueues p = task :: queue)
    (htasks : s'.tasks = Function.update s.tasks task { s.tasks task with state := .running })
    (hqueues : s'.priorityQueues = Function.update s.priorityQueues p queue) : Inv s' := by
  have hlisted := hs.listed.dispatch hp htasks hqueues
  refine ⟨hlisted.nodup, hlisted.queued, Queued.dispatch hs.ready hs.listed hp htasks hqueues, ?_⟩
  intro t ht
  rw [htasks] at ht ⊢
  by_cases heq : t = task
  · subst heq
    have hpriority : (s.tasks t).priority = (p : ℕ) := (hs.queued p t (by simp [hp])).2
    have hle := p.isLt
    rw [Function.update_self]
    simp only [hpriority]
    constructor <;> omega
  · rw [Function.update_of_ne heq] at ht ⊢
    exact hs.running t ht

/-! ### Selecting a task -/

/-- The counter of the current level after the test at the start of `scheduleNextTask`. -/
def afterAging (s : State T) : State T :=
  if MAX_SAMEPRIO_LENGTH ≤ s.samePrioCounter s.currentPriority then
    s.setCounter s.currentPriority 0
  else s

/-- The counters after a task of level `p` was selected by the second loop. -/
def countSelection (p : Level) (s : State T) : State T :=
  if p = s.currentPriority then s.setCounter p (s.samePrioCounter p + 1) else switchTo p s

omit [DecidableEq T] in
lemma counter_afterAging_lt (s : State T) :
    (afterAging s).samePrioCounter s.currentPriority < MAX_SAMEPRIO_LENGTH := by
  unfold afterAging
  split
  · simp [MAX_SAMEPRIO_LENGTH]
  · omega

omit [DecidableEq T] in
lemma currentPriority_countSelection (s : State T) (p : Level) :
    (countSelection p s).currentPriority = p := by
  unfold countSelection
  split
  · simp [*]
  · rfl

/-- The level `p` is the first one of `ps` with a task on its queue. -/
def FirstOf (s : State T) (ps : List Level) (p : Level) (task : T) (queue : List T) : Prop :=
  ∃ before after, ps = before ++ p :: after ∧ (∀ q ∈ before, s.priorityQueues q = []) ∧
    s.priorityQueues p = task :: queue

omit [DecidableEq T] in
lemma firstOf_or_empty (s : State T) (ps : List Level) :
    (∀ p ∈ ps, s.priorityQueues p = []) ∨ ∃ p task queue, FirstOf s ps p task queue := by
  induction ps with
  | nil => exact .inl (by simp)
  | cons p ps ih =>
    cases hp : s.priorityQueues p with
    | cons task queue => exact .inr ⟨p, task, queue, [], ps, rfl, by simp, hp⟩
    | nil =>
      rcases ih with hempty | ⟨q, task, queue, before, after, hps, hempty, hq⟩
      · exact .inl (by simpa [hp] using hempty)
      · exact .inr
          ⟨q, task, queue, p :: before, after, by simp [hps], by simpa [hp] using hempty, hq⟩

omit [DecidableEq T] in
lemma FirstOf.empty_of_lt {ps : List Level} {p : Level} {task : T} {queue : List T}
    (hps : ps.Pairwise (· < ·)) (hfirst : FirstOf s ps p task queue) {q : Level} (hq : q ∈ ps)
    (hlt : q < p) : s.priorityQueues q = [] := by
  obtain ⟨before, after, rfl, hempty, -⟩ := hfirst
  obtain ⟨-, hafter, -⟩ := List.pairwise_append.mp hps
  rcases List.mem_append.mp hq with hq | hq
  · exact hempty q hq
  · rcases List.mem_cons.mp hq with rfl | hq
    · exact absurd hlt (lt_irrefl q)
    · exact absurd (List.rel_of_pairwise_cons hafter hq) (lt_asymm hlt)

lemma selectLower_empty {ps : List Level} (hps : ∀ p ∈ ps, s.priorityQueues p = []) :
    selectLower s ps = none := by
  induction ps with
  | nil => rfl
  | cons p ps ih =>
    have htail := ih (fun q hq => hps q (by simp [hq]))
    simp [selectLower, removeFirstItem, hps p (by simp), htail]

lemma selectLower_firstOf {ps : List Level} {p : Level} {task : T} {queue : List T}
    (hfirst : FirstOf s ps p task queue) : selectLower s ps =
      some (task, (switchTo p (s.setQueue p queue)).setState task .running) := by
  obtain ⟨before, after, rfl, hempty, hp⟩ := hfirst
  induction before with
  | nil => simp [selectLower, removeFirstItem, hp]
  | cons q before ih =>
    have htail := ih (fun r hr => hempty r (by simp [hr]))
    simp [selectLower, removeFirstItem, hempty q (by simp), htail]

lemma selectHighest_empty {ps : List Level} (hps : ∀ p ∈ ps, s.priorityQueues p = []) :
    selectHighest s ps = (none, s) := by
  induction ps with
  | nil => rfl
  | cons p ps ih =>
    have htail := ih (fun q hq => hps q (by simp [hq]))
    simp [selectHighest, removeFirstItem, hps p (by simp), htail]

lemma selectHighest_firstOf {ps : List Level} {p : Level} {task : T} {queue : List T}
    (hfirst : FirstOf s ps p task queue) : selectHighest s ps =
      (some task, (countSelection p (s.setQueue p queue)).setState task .running) := by
  obtain ⟨before, after, rfl, hempty, hp⟩ := hfirst
  induction before with
  | nil => simp [selectHighest, removeFirstItem, hp, countSelection]
  | cons q before ih =>
    have htail := ih (fun r hr => hempty r (by simp [hr]))
    simp [selectHighest, removeFirstItem, hempty q (by simp), htail]

/-- What `scheduleNextTask` does. -/
inductive Selected (s : State T) : Option T → State T → Prop
  | idle : (∀ p, s.priorityQueues p = []) → Selected s none (afterAging s)
  | lower (p : Level) (task : T) (queue : List T) :
      MAX_SAMEPRIO_LENGTH ≤ s.samePrioCounter s.currentPriority → s.currentPriority < p →
      s.priorityQueues p = task :: queue →
      (∀ q, s.currentPriority < q → q < p → s.priorityQueues q = []) →
      Selected s (some task) ((switchTo p (s.setQueue p queue)).setState task .running)
  | highest (p : Level) (task : T) (queue : List T) :
      (MAX_SAMEPRIO_LENGTH ≤ s.samePrioCounter s.currentPriority →
        ∀ q, s.currentPriority < q → s.priorityQueues q = []) →
      s.priorityQueues p = task :: queue → (∀ q, q < p → s.priorityQueues q = []) →
      Selected s (some task)
        ((countSelection p ((afterAging s).setQueue p queue)).setState task .running)

lemma pairwise_levels : levels.Pairwise (· < ·) := List.pairwise_lt_finRange _

lemma mem_levels (p : Level) : p ∈ levels := List.mem_finRange p

omit [DecidableEq T] in
@[simp] lemma priorityQueues_afterAging (s : State T) :
    (afterAging s).priorityQueues = s.priorityQueues := by
  unfold afterAging
  split <;> rfl

omit [DecidableEq T] in
@[simp] lemma tasks_afterAging (s : State T) : (afterAging s).tasks = s.tasks := by
  unfold afterAging
  split <;> rfl

omit [DecidableEq T] in
@[simp] lemma currentPriority_afterAging (s : State T) :
    (afterAging s).currentPriority = s.currentPriority := by
  unfold afterAging
  split <;> rfl

omit [DecidableEq T] in
@[simp] lemma tasks_countSelection (s : State T) (p : Level) :
    (countSelection p s).tasks = s.tasks := by
  unfold countSelection
  split <;> rfl

omit [DecidableEq T] in
@[simp] lemma priorityQueues_countSelection (s : State T) (p : Level) :
    (countSelection p s).priorityQueues = s.priorityQueues := by
  unfold countSelection
  split <;> rfl

lemma selected_selectHighest
    (haging : MAX_SAMEPRIO_LENGTH ≤ s.samePrioCounter s.currentPriority →
      ∀ q, s.currentPriority < q → s.priorityQueues q = []) :
    Selected s (selectHighest (afterAging s) levels).1 (selectHighest (afterAging s) levels).2 := by
  rcases firstOf_or_empty (afterAging s) levels with hempty | ⟨p, task, queue, hfirst⟩
  · rw [selectHighest_empty hempty]
    refine .idle (fun p => ?_)
    simpa using hempty p (mem_levels p)
  · rw [selectHighest_firstOf hfirst]
    have hbelow : ∀ q, q < p → s.priorityQueues q = [] := by
      intro q hq
      simpa using hfirst.empty_of_lt pairwise_levels (mem_levels q) hq
    obtain ⟨-, -, -, -, hp⟩ := hfirst
    exact .highest p task queue haging (by simpa using hp) hbelow

theorem selected_scheduleNextTask (s : State T) :
    Selected s (scheduleNextTask s).1 (scheduleNextTask s).2 := by
  unfold scheduleNextTask
  by_cases hcount : MAX_SAMEPRIO_LENGTH ≤ s.samePrioCounter s.currentPriority
  · rw [if_pos hcount]
    rcases firstOf_or_empty s (levels.filter (fun p => s.currentPriority < p)) with
      hempty | ⟨p, task, queue, hfirst⟩
    · rw [selectLower_empty hempty]
      have haged : afterAging s = s.setCounter s.currentPriority 0 := if_pos hcount
      have hselected := selected_selectHighest (s := s) (fun _ q hq =>
        hempty q (by simpa [mem_levels] using hq))
      rwa [haged] at hselected
    · rw [selectLower_firstOf hfirst]
      have hsorted := pairwise_levels.filter (fun p => decide (s.currentPriority < p))
      have hbelow : ∀ q, s.currentPriority < q → q < p → s.priorityQueues q = [] := by
        intro q hcur hq
        exact hfirst.empty_of_lt hsorted (by simpa [mem_levels] using hcur) hq
      obtain ⟨before, after, hps, -, hp⟩ := hfirst
      have hmem : p ∈ levels.filter (fun p => s.currentPriority < p) := by simp [hps]
      exact .lower p task queue hcount (by simpa [mem_levels] using hmem) hp hbelow
  · rw [if_neg hcount]
    have haged : afterAging s = s := if_neg hcount
    have hselected := selected_selectHighest (s := s) (fun hle => absurd hle hcount)
    rwa [haged] at hselected

lemma Selected.inv {r : Option T} (hsel : Selected s r s') (hs : Inv s) : Inv s' := by
  cases hsel with
  | idle _ => exact hs.congr (by simp) (by simp)
  | lower p task queue _ _ hp _ => exact hs.dispatch hp (by simp) (by simp)
  | highest p task queue _ hp _ => exact hs.dispatch hp (by simp) (by simp)

/-! ### Runs -/

/-- The node that the call needs is allocated. -/
def Allocates : Call T → Prop
  | .ready allocated _ => allocated = true
  | .preempted allocated _ => allocated = true
  | _ => True

def Allocated (_ : State T) (x : Call T × Option T) : Prop := Allocates x.1

/-- Every call returns and keeps the invariant. -/
lemma call_spec (hs : Inv s) (c : Call T) (hc : Allocates c) :
    ∃ r s', call c s = .ok (r, s') ∧ Inv s' := by
  cases c with
  | ready allocated task =>
    obtain rfl : allocated = true := hc
    obtain ⟨s', hok, hs'⟩ := onTaskReady_spec hs task
    exact ⟨none, s', by simp [call, hok], hs'⟩
  | preempted allocated task =>
    obtain rfl : allocated = true := hc
    obtain ⟨s', hok, hs'⟩ := onTaskPreempted_spec hs task
    exact ⟨none, s', by simp [call, hok], hs'⟩
  | waiting task => exact ⟨none, _, rfl, hs.onTaskWaiting task⟩
  | schedule => exact ⟨_, _, rfl, (selected_scheduleNextTask s).inv hs⟩

lemma Step.inv {x : Call T × Option T} (hs : Inv s) (hx : Allocated s x) (hstep : Step s x s') :
    Inv s' := by
  obtain ⟨c, r⟩ := x
  obtain ⟨r', s'', hok, hs''⟩ := call_spec hs c hx
  obtain ⟨rfl, rfl⟩ := Prod.mk.inj (Except.ok.inj (hok.symm.trans hstep))
  exact hs''

omit [DecidableEq T] in
lemma inv_initScheduler
    (hnew : ∀ t, (s.tasks t).state ≠ .ready ∧ (s.tasks t).state ≠ .running) :
    Inv (initScheduler s) where
  nodup := by simp [initScheduler]
  queued := by simp [initScheduler]
  ready t ht := absurd ht (hnew t).1
  running t ht := absurd ht (hnew t).2

lemma inv_of_run (hnew : ∀ t, (s.tasks t).state ≠ .ready ∧ (s.tasks t).state ≠ .running)
    {run : List ((Call T × Option T) × State T)} (hrun : IsRun Step (initScheduler s) run)
    (halloc : StepsMeet Allocated (initScheduler s) run) :
    Inv (lastState (initScheduler s) run) :=
  IsRun.invariant_last (I := Inv) (fun _ _ _ hs hx hstep => Step.inv hs hx hstep)
    (inv_initScheduler hnew) hrun halloc

lemma stepsMeet_allocated_trace {cs : List (Call T)} (hcs : ∀ c ∈ cs, Allocates c) :
    StepsMeet Allocated s (trace s cs) := by
  induction cs generalizing s with
  | nil => trivial
  | cons c cs ih =>
    unfold trace
    cases hcall : call c s with
    | error e => trivial
    | ok x => exact ⟨hcs c (by simp), ih (fun d hd => hcs d (by simp [hd]))⟩

/-- The tasks that are ready are the ones on a queue, each of them once over all queues, on
the queue of its own priority, and the running tasks have priorities that are levels. -/
def QueuesOk (s : State T) : Prop :=
  ∀ t, ((s.tasks t).state = .ready ↔ ∃ p, t ∈ s.priorityQueues p) ∧
    ((s.tasks t).state = .ready → ∑ p, (s.priorityQueues p).count t = 1 ∧
      ∃ p : Level, (s.tasks t).priority = (p : ℕ) ∧ t ∈ s.priorityQueues p) ∧
    ((s.tasks t).state = .running →
      0 ≤ (s.tasks t).priority ∧ (s.tasks t).priority ≤ MAX_PRIORITY)

lemma Inv.queuesOk (hs : Inv s) : QueuesOk s := by
  intro t
  refine ⟨⟨hs.ready t, ?_⟩, ?_, hs.running t⟩
  · rintro ⟨p, hp⟩
    exact (hs.queued p t hp).1
  · intro ht
    obtain ⟨p, hp⟩ := hs.ready t ht
    refine ⟨?_, p, (hs.queued p t hp).2, hp⟩
    rw [Finset.sum_eq_single p]
    · exact List.count_eq_one_of_mem (hs.nodup p) hp
    · intro q _ hne
      rw [List.count_eq_zero]
      intro hq
      exact hne (hs.listed.level_unique hq hp)
    · intro hnot
      exact absurd (Finset.mem_univ p) hnot

/-- After every run of calls on tasks that were neither ready nor running, the queues are in
order, and every further call returns without indexing outside of the queues. -/
theorem queuesOk_of_run (hnew : ∀ t, (s.tasks t).state ≠ .ready ∧ (s.tasks t).state ≠ .running)
    {run : List ((Call T × Option T) × State T)} (hrun : IsRun Step (initScheduler s) run)
    (halloc : StepsMeet Allocated (initScheduler s) run) :
    QueuesOk (lastState (initScheduler s) run) ∧
      ∀ c, Allocates c → ∃ r s', call c (lastState (initScheduler s) run) = .ok (r, s') := by
  have hs := inv_of_run hnew hrun halloc
  refine ⟨hs.queuesOk, ?_⟩
  intro c hc
  obtain ⟨r, s', hok, -⟩ := call_spec hs c hc
  exact ⟨r, s', hok⟩

instance neZero_three : NeZero 3 := ⟨Nat.succ_ne_zero _⟩

/-- Three tasks that wait, two of them with priorities that are no levels. -/
def threeTasks : State (Fin 3) where
  tasks := ![⟨.waiting, -2⟩, ⟨.waiting, 1⟩, ⟨.waiting, 25⟩]
  priorityQueues _ := []
  currentPriority := 0
  samePrioCounter _ := 0

def threeCalls : List (Call (Fin 3)) :=
  [.ready true 0, .ready true 2, .ready true 1, .schedule, .preempted true 0, .schedule,
    .waiting 0, .ready true 2]

theorem queuesOk_threeTasks :
    QueuesOk (lastState (initScheduler threeTasks) (trace (initScheduler threeTasks) threeCalls)) :=
  (queuesOk_of_run (by decide) (isRun_trace _ _)
    (stepsMeet_allocated_trace (by simp [threeCalls, Allocates]))).1

end StyLinux.Scheduler
