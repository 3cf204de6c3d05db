import StyLinux.Scheduler.Moves

/-!
# States that schedule alike

Two states with the same tasks and queues return the same tasks for ever when their levels and
counters cannot matter.
-/

namespace StyLinux.Scheduler

open Lib

variable {T : Type} {s s' s₁ s₂ : State T} [DecidableEq T]

/-- The tasks returned by the calls, up to the first call that does not return. -/
def returned (s : State T) (cs : List (Call T)) : List (Option T) :=
  (trace s cs).map fun x => x.1.2

lemma returned_cons_ok {c : Call T} {cs : List (Call T)} {r : Option T}
    (h : call c s = .ok (r, s')) : returned s (c :: cs) = r :: returned s' cs := by
  simp [returned, trace, h]

lemma returned_cons_error {c : Call T} {cs : List (Call T)} {e : Fault}
    (h : call c s = .error e) : returned s (c :: cs) = [] := by
  simp [returned, trace, h]

def counter (s : State T) : ℕ := s.samePrioCounter s.currentPriority

/-- Why the levels and counters of two states do not matter: they are the same, or neither state
has begun to count, or the first one counts a level that will not be scheduled, or it counts the
lowest level there is. -/
inductive Hidden (s₁ s₂ : State T) : Prop
  | same : s₁.currentPriority = s₂.currentPriority → s₁.samePrioCounter = s₂.samePrioCounter →
      Hidden s₁ s₂
  | fresh : counter s₁ = 0 → counter s₂ = 0 → Hidden s₁ s₂
  | away : counter s₁ < MAX_SAMEPRIO_LENGTH → counter s₂ = 0 →
      Deserted (· = s₁.currentPriority) s₁ → Hidden s₁ s₂
  | lowest : s₂.currentPriority = s₁.currentPriority ∨ counter s₂ = 0 →
      Deserted (s₁.currentPriority < ·) s₁ → Hidden s₁ s₂

structure Alike (s₁ s₂ : State T) : Prop where
  tasks : s₂.tasks = s₁.tasks
  queues : s₂.priorityQueues = s₁.priorityQueues
  listed : Listed s₁
  one₁ : OneCounter s₁
  one₂ : OneCounter s₂
  hidden : Hidden s₁ s₂

/-- The state with another level and other counters. -/
def State.withCounters (s : State T) (p : Level) (counters : Level → ℕ) : State T :=
  { s with currentPriority := p, samePrioCounter := counters }

omit [DecidableEq T] in
lemma enqueue_withCounters (allocated : Bool) (task : T) (s : State T) (p : Level)
    (counters : Level → ℕ) : enqueue allocated task (s.withCounters p counters) =
      (enqueue allocated task s).map (State.withCounters · p counters) := by
  unfold enqueue
  change (queueIndex (s.tasks task).priority >>= _) = _
  cases queueIndex (s.tasks task).priority with
  | error e => rfl
  | ok q => rfl

lemma call_withCounters {c : Call T} (hc : c ≠ .schedule) (s : State T) (p : Level)
    (counters : Level → ℕ) : call c (s.withCounters p counters) =
      (call c s).map fun x => (x.1, x.2.withCounters p counters) := by
  cases c with
  | ready allocated task =>
    have hready : onTaskReady allocated task (s.withCounters p counters) =
        (onTaskReady allocated task s).map (State.withCounters · p counters) := by
      unfold onTaskReady
      by_cases h : (s.tasks task).state = .ready
      · rw [if_pos h, if_pos (by exact h)]
        rfl
      · rw [if_neg h, if_neg (by exact h)]
        exact enqueue_withCounters allocated task ((s.setPriority task
          (clampPriority (s.tasks task).priority)).setState task .ready) p counters
    simp only [call, hready]
    cases onTaskReady allocated task s <;> rfl
  | preempted allocated task =>
    have hpreempted : onTaskPreempted allocated task (s.withCounters p counters) =
        (onTaskPreempted allocated task s).map (State.withCounters · p counters) := by
      unfold onTaskPreempted
      by_cases h : (s.tasks task).state ≠ .running
      · rw [if_pos h, if_pos (by exact h)]
        rfl
      · rw [if_neg h, if_neg (by exact h)]
        exact enqueue_withCounters allocated task (s.setState task .ready) p counters
    simp only [call, hpreempted]
    cases onTaskPreempted allocated task s <;> rfl
  | waiting task =>
    simp only [call, onTaskWaiting]
    by_cases h : (s.tasks task).state ≠ .running
    · rw [if_pos h, if_pos (by exact h)]
      rfl
    · rw [if_neg h, if_neg (by exact h)]
      rfl
  | schedule => exact absurd rfl hc

omit [DecidableEq T] in
lemma Alike.eq_withCounters (h : Alike s₁ s₂) :
    s₂ = s₁.withCounters s₂.currentPriority s₂.samePrioCounter := by
  have htasks := h.tasks
  have hqueues := h.queues
  cases s₂
  cases htasks
  cases hqueues
  rfl

lemma Alike.moved (h : Alike s₁ s₂) {c : Call T} (hc : c ≠ .schedule) {r : Option T}
    {s₁' : State T} (hcall : call c s₁ = .ok (r, s₁')) :
    ∃ s₂', call c s₂ = .ok (r, s₂') ∧ Alike s₁' s₂' := by
  have hmoved := call_moved hc hcall
  obtain ⟨hlevel, hcounter⟩ := hmoved.counters
  refine ⟨s₁'.withCounters s₂.currentPriority s₂.samePrioCounter, ?_, ?_⟩
  · rw [h.eq_withCounters, call_withCounters hc, hcall]
    rfl
  · have hsame : counter s₁' = counter s₁ := by
      unfold counter
      rw [hlevel, hcounter]
    refine ⟨rfl, rfl, hmoved.listed h.listed, ?_, h.one₂, ?_⟩
    · unfold OneCounter
      rw [hlevel, hcounter]
      exact h.one₁
    · cases h.hidden with
      | same hp hn => exact .same (hlevel.trans hp) (hcounter.trans hn)
      | fresh h₁ h₂ => exact .fresh (hsame.trans h₁) h₂
      | away h₁ h₂ hd =>
        refine .away (hsame ▸ h₁) h₂ ?_
        rw [hlevel]
        exact hmoved.deserted hd
      | lowest h₁ hd =>
        refine .lowest (by rw [hlevel]; exact h₁) ?_
        rw [hlevel]
        exact hmoved.deserted hd

/-- Without a lower task to prefer, the first task of the highest level is selected. -/
lemma selected_of_no_lower {r : Option T}
    (hlow : MAX_SAMEPRIO_LENGTH ≤ counter s →
      ∀ q, s.currentPriority < q → s.priorityQueues q = []) (hsel : Selected s r s') :
    (∀ p, s.priorityQueues p = []) ∧ r = none ∧ s' = afterAging s ∨
      ∃ p task queue, s.priorityQueues p = task :: queue ∧
        (∀ q, q < p → s.priorityQueues q = []) ∧ r = some task ∧
        s' = (countSelection p ((afterAging s).setQueue p queue)).setState task .running := by
  cases hsel with
  | idle hempty => exact .inl ⟨hempty, rfl, rfl⟩
  | lower p task queue hcount hcur hp _ =>
    rw [hlow hcount p hcur] at hp
    cases hp
  | highest p task queue _ hp hbelow => exact .inr ⟨p, task, queue, hp, hbelow, rfl, rfl⟩

/-- The state after the selection of `task` from level `p` by the second loop. -/
def pick (p : Level) (task : T) (queue : List T) (s : State T) : State T :=
  (countSelection p ((afterAging s).setQueue p queue)).setState task .running

lemma currentPriority_pick (p : Level) (task : T) (queue : List T) (s : State T) :
    (pick p task queue s).currentPriority = p := currentPriority_countSelection _ p

lemma OneCounter.pick (hs : OneCounter s) (p : Level) (task : T) (queue : List T) :
    (pick p task queue s).samePrioCounter = Function.update (fun _ => 0) p
      (if p = s.currentPriority then counter (Scheduler.afterAging s) + 1 else 1) := by
  have hone : OneCounter ((Scheduler.afterAging s).setQueue p queue) := hs.afterAging
  have hcount := hone.countSelection p
  rw [State.currentPriority_setQueue, currentPriority_afterAging] at hcount
  unfold Scheduler.pick counter
  rw [State.samePrioCounter_setState, hcount, currentPriority_afterAging]
  rfl

lemma counter_pick (p : Level) (task : T) (queue : List T) (s : State T) :
    counter (pick p task queue s) =
      if p = s.currentPriority then counter (afterAging s) + 1 else 1 := by
  unfold counter
  rw [currentPriority_pick, currentPriority_afterAging]
  unfold pick countSelection
  by_cases hp : p = s.currentPriority
  · rw [if_pos hp, if_pos (by simpa using hp)]
    simp [hp]
  · rw [if_neg hp, if_neg (by simpa using hp)]
    simp

omit [DecidableEq T] in
lemma afterAging_of_lt (h : counter s < MAX_SAMEPRIO_LENGTH) : afterAging s = s :=
  if_neg (not_le.mpr h)

omit [DecidableEq T] in
lemma counter_afterAging_of_zero (h : counter s = 0) : counter (afterAging s) = 0 := by
  rw [afterAging_of_lt (by rw [h]; decide), h]

omit [DecidableEq T] in
lemma no_aging (h : counter s < MAX_SAMEPRIO_LENGTH) : MAX_SAMEPRIO_LENGTH ≤ counter s →
    ∀ q, s.currentPriority < q → s.priorityQueues q = [] :=
  fun hle => absurd hle (not_le.mpr h)

lemma schedule_of_no_lower
    (hlow : MAX_SAMEPRIO_LENGTH ≤ counter s →
      ∀ q, s.currentPriority < q → s.priorityQueues q = []) :
    (∀ p, s.priorityQueues p = []) ∧ scheduleNextTask s = (none, afterAging s) ∨
      ∃ p task queue, s.priorityQueues p = task :: queue ∧
        (∀ q, q < p → s.priorityQueues q = []) ∧
        scheduleNextTask s = (some task, pick p task queue s) := by
  rcases selected_of_no_lower hlow (selected_scheduleNextTask s) with
    ⟨hempty, hr, hs'⟩ | ⟨p, task, queue, hp, hbelow, hr, hs'⟩
  · exact .inl ⟨hempty, Prod.ext hr hs'⟩
  · exact .inr ⟨p, task, queue, hp, hbelow, Prod.ext hr hs'⟩

/-- Two states with the same queues and no lower task to prefer select the same task. -/
lemma Alike.schedule_eq (h : Alike s₁ s₂)
    (hlow₁ : MAX_SAMEPRIO_LENGTH ≤ counter s₁ →
      ∀ q, s₁.currentPriority < q → s₁.priorityQueues q = [])
    (hlow₂ : MAX_SAMEPRIO_LENGTH ≤ counter s₂ →
      ∀ q, s₂.currentPriority < q → s₂.priorityQueues q = []) :
    scheduleNextTask s₁ = (none, afterAging s₁) ∧ scheduleNextTask s₂ = (none, afterAging s₂) ∨
      ∃ p task queue, s₁.priorityQueues p = task :: queue ∧
        scheduleNextTask s₁ = (some task, pick p task queue s₁) ∧
        scheduleNextTask s₂ = (some task, pick p task queue s₂) := by
  have hqueues := h.queues
  rcases schedule_of_no_lower hlow₁ with ⟨hempty₁, h₁⟩ | ⟨p, task, queue, hp, hbelow, h₁⟩
  · rcases schedule_of_no_lower hlow₂ with ⟨-, h₂⟩ | ⟨p, task, queue, hp, -, -⟩
    · exact .inl ⟨h₁, h₂⟩
    · rw [hqueues, hempty₁ p] at hp
      cases hp
  · rcases schedule_of_no_lower hlow₂ with ⟨hempty₂, -⟩ | ⟨p', task', queue', hp', hbelow', h₂⟩
    · rw [← hqueues, hempty₂ p] at hp
      cases hp
    · rw [hqueues] at hp' hbelow'
      rcases lt_trichotomy p p' with hlt | rfl | hlt
      · rw [hbelow' p hlt] at hp
        cases hp
      · rw [hp] at hp'
        cases hp'
        exact .inr ⟨p, task, queue, hp, h₁, h₂⟩
      · rw [hbelow p' hlt] at hp'
        cases hp'

lemma Alike.picked (h : Alike s₁ s₂) {p : Level} {task : T} {queue : List T}
    (hp : s₁.priorityQueues p = task :: queue)
    (hhidden : Hidden (pick p task queue s₁) (pick p task queue s₂)) :
    Alike (pick p task queue s₁) (pick p task queue s₂) := by
  refine ⟨?_, ?_, ?_, ?_, ?_, hhidden⟩
  · simp [pick, h.tasks]
  · simp [pick, h.queues]
  · exact h.listed.dispatch hp (by simp [pick]) (by simp [pick])
  · exact oneCounter_of_update (currentPriority_pick p task queue s₁) (h.one₁.pick p task queue)
  · exact oneCounter_of_update (currentPriority_pick p task queue s₂) (h.one₂.pick p task queue)

omit [DecidableEq T] in
lemma Alike.idle (h : Alike s₁ s₂) (hhidden : Hidden (afterAging s₁) (afterAging s₂)) :
    Alike (afterAging s₁) (afterAging s₂) := by
  refine ⟨by simp [h.tasks], by simp [h.queues], ⟨?_, ?_⟩, h.one₁.afterAging, h.one₂.afterAging,
    hhidden⟩
  · simpa using h.listed.nodup
  · simpa using h.listed.queued

/-- Two states in which no lower task is preferred stay alike if their difference stays hidden. -/
lemma Alike.schedule_alike (h : Alike s₁ s₂)
    (hlow₁ : MAX_SAMEPRIO_LENGTH ≤ counter s₁ →
      ∀ q, s₁.currentPriority < q → s₁.priorityQueues q = [])
    (hlow₂ : MAX_SAMEPRIO_LENGTH ≤ counter s₂ →
      ∀ q, s₂.currentPriority < q → s₂.priorityQueues q = [])
    (hidle : Hidden (afterAging s₁) (afterAging s₂))
    (hpick : ∀ p task queue, s₁.priorityQueues p = task :: queue →
      Hidden (pick p task queue s₁) (pick p task queue s₂)) :
    (scheduleNextTask s₁).1 = (scheduleNextTask s₂).1 ∧
      Alike (scheduleNextTask s₁).2 (scheduleNextTask s₂).2 := by
  rcases h.schedule_eq hlow₁ hlow₂ with ⟨h₁, h₂⟩ | ⟨p, task, queue, hp, h₁, h₂⟩
  · rw [h₁, h₂]
    exact ⟨rfl, h.idle hidle⟩
  · rw [h₁, h₂]
    exact ⟨rfl, h.picked hp (hpick p task queue hp)⟩

/-- A selection that starts to count in both states makes the counters equal. -/
lemma Alike.hidden_pick (h : Alike s₁ s₂) {p : Level} (task : T) (queue : List T)
    (h₁ : p = s₁.currentPriority → counter (afterAging s₁) = 0)
    (h₂ : p = s₂.currentPriority → counter (afterAging s₂) = 0) :
    Hidden (pick p task queue s₁) (pick p task queue s₂) := by
  refine .same (by rw [currentPriority_pick, currentPriority_pick]) ?_
  rw [h.one₁.pick, h.one₂.pick]
  congr 1
  split_ifs <;> simp_all

lemma Alike.schedule (h : Alike s₁ s₂) :
    (scheduleNextTask s₁).1 = (scheduleNextTask s₂).1 ∧
      Alike (scheduleNextTask s₁).2 (scheduleNextTask s₂).2 := by
  cases h.hidden with
  | same hp hn =>
    have heq : s₂ = s₁ := by
      rw [h.eq_withCounters, ← hp, ← hn]
      rfl
    subst heq
    have hsel := selected_scheduleNextTask s₂
    refine ⟨rfl, rfl, rfl, hsel.listed h.listed, ?_, ?_, .same rfl rfl⟩
    · exact hsel.oneCounter h.one₁
    · exact hsel.oneCounter h.one₁
  | fresh h₁ h₂ =>
    apply h.schedule_alike (no_aging (by rw [h₁]; decide)) (no_aging (by rw [h₂]; decide))
    · exact .fresh (counter_afterAging_of_zero h₁) (counter_afterAging_of_zero h₂)
    · intro p task queue _
      exact h.hidden_pick task queue (fun _ => counter_afterAging_of_zero h₁)
        (fun _ => counter_afterAging_of_zero h₂)
  | away h₁ h₂ hd =>
    have hlt₂ : counter s₂ < MAX_SAMEPRIO_LENGTH := by rw [h₂]; decide
    apply h.schedule_alike (no_aging h₁) (no_aging hlt₂)
    · rw [afterAging_of_lt h₁, afterAging_of_lt hlt₂]
      exact .away h₁ h₂ hd
    · intro p task queue hp
      apply h.hidden_pick task queue
      · intro he
        rw [hd.empty p he] at hp
        cases hp
      · exact fun _ => counter_afterAging_of_zero h₂
  | lowest h₁ hd =>
    apply h.schedule_alike (fun _ => hd.empty)
    · intro hle q hq
      rcases h₁ with hcur | hzero
      · rw [h.queues]
        exact hd.empty q (hcur ▸ hq)
      · exact absurd hle (by rw [hzero]; decide)
    · refine .lowest ?_ ⟨?_, ?_⟩
      · rcases h₁ with hcur | hzero
        · exact .inl (by simp [hcur])
        · exact .inr (counter_afterAging_of_zero hzero)
      · simpa using hd.empty
      · simpa [HasLevel] using hd.stays
    · intro p task queue hp
      by_cases hcur : p = s₁.currentPriority
      · refine .lowest (.inl (by rw [currentPriority_pick, currentPriority_pick])) ?_
        rw [currentPriority_pick, hcur]
        exact hd.dispatch h.listed (hcur ▸ hp) (by simp [pick]) (by simp [pick])
      · apply h.hidden_pick task queue (fun he => absurd he hcur)
        intro he
        rcases h₁ with hcur' | hzero
        · exact absurd (he.trans hcur') hcur
        · exact counter_afterAging_of_zero hzero

/-- Alike states return the same tasks, whatever is called. -/
theorem Alike.returned_eq (h : Alike s₁ s₂) (cs : List (Call T)) :
    returned s₁ cs = returned s₂ cs := by
  induction cs generalizing s₁ s₂ with
  | nil => rfl
  | cons c cs ih =>
    by_cases hc : c = .schedule
    · subst hc
      obtain ⟨hr, halike⟩ := h.schedule
      have h₁ : call .schedule s₁ = .ok ((scheduleNextTask s₁).1, (scheduleNextTask s₁).2) := rfl
      have h₂ : call .schedule s₂ = .ok ((scheduleNextTask s₂).1, (scheduleNextTask s₂).2) := rfl
      rw [returned_cons_ok h₁, returned_cons_ok h₂, hr, ih halike]
    · cases hcall : call c s₁ with
      | error e =>
        have hcall₂ : call c s₂ = .error e := by
          rw [h.eq_withCounters, call_withCounters hc, hcall]
          rfl
        rw [returned_cons_error hcall, returned_cons_error hcall₂]
      | ok x =>
        obtain ⟨r, s₁'⟩ := x
        obtain ⟨s₂', hcall₂, halike⟩ := h.moved hc hcall
        rw [returned_cons_ok hcall, returned_cons_ok hcall₂, ih halike]

end StyLinux.Scheduler
