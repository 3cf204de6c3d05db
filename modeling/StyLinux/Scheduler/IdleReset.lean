import StyLinux.Scheduler.Alike

/-!
# Idling and the counters

When no task is ready the scheduler returns `NULL` and keeps its counters. What it returns later
is what it would return after a new `initScheduler`, unless the counter of the current level has
started to count and tasks of this level and of a lower one can become ready.
-/

namespace StyLinux.Scheduler

open Lib

variable {T : Type} {s s' s₁ s₂ : State T} [DecidableEq T]

/-! ### Calls that tell two states apart -/

/-- The state after `task` was put on the queue of level `p`. -/
def State.put (s : State T) (task : T) (p : Level) : State T :=
  { s with
    tasks := Function.update s.tasks task ⟨.ready, (p : ℕ)⟩
    priorityQueues := Function.update s.priorityQueues p (s.priorityQueues p ++ [task]) }

lemma call_ready {task : T} {p : Level} (hne : (s.tasks task).state ≠ .ready)
    (hp : HasLevel s task p) : call (.ready true task) s = .ok (none, s.put task p) := by
  have hindex : enqueue true task ((s.setPriority task (p : ℕ)).setState task .ready) =
      .ok (s.put task p) := by
    unfold enqueue
    simp [queueIndex_level, appendItem, State.put, State.setQueue, State.setState,
      State.setPriority, Bind.bind, Except.bind, Pure.pure, Except.pure]
  simp only [call, onTaskReady]
  rw [if_neg hne, show clampPriority (s.tasks task).priority = (p : ℕ) from hp, hindex]
  rfl

lemma call_preempted {task : T} {p : Level} (h : s.tasks task = ⟨.running, (p : ℕ)⟩) :
    call (.preempted true task) s = .ok (none, s.put task p) := by
  have hindex : enqueue true task (s.setState task .ready) = .ok (s.put task p) := by
    unfold enqueue
    simp [queueIndex_level, appendItem, State.put, State.setQueue, State.setState, h,
      Bind.bind, Except.bind, Pure.pure, Except.pure]
  simp only [call, onTaskPreempted]
  rw [if_neg (by simp [h]), hindex]
  rfl

/-- Only `t` and the lower `u` are queued. -/
structure Contending (s : State T) (t u : T) (p q : Level) : Prop where
  lower : p < q
  first : s.priorityQueues p = [t]
  second : s.priorityQueues q = [u]
  rest : ∀ l, l ≠ p → l ≠ q → s.priorityQueues l = []
  priority : (s.tasks t).priority = (p : ℕ)

/-- Task `t` runs, its level has been selected `n` times and only the lower `u` is queued. -/
structure Serving (s : State T) (t u : T) (p q : Level) (n : ℕ) : Prop where
  lower : p < q
  running : s.tasks t = ⟨.running, (p : ℕ)⟩
  queue : s.priorityQueues q = [u]
  rest : ∀ l, l ≠ q → s.priorityQueues l = []
  current : s.currentPriority = p
  count : counter s = n

variable {t u : T} {p q : Level} {n : ℕ}

lemma Serving.preempt (h : Serving s t u p q n) : ∃ s',
    call (.preempted true t) s = .ok (none, s') ∧
    Contending s' t u p q ∧ s'.currentPriority = p ∧ counter s' = n := by
  refine ⟨_, call_preempted h.running, ⟨h.lower, ?_, ?_, ?_, ?_⟩, h.current, h.count⟩
  · simp [State.put, h.rest p h.lower.ne]
  · simp [State.put, h.lower.ne', h.queue]
  · intro l hlp hlq
    simp [State.put, hlp, h.rest l hlq]
  · simp [State.put]

lemma Contending.selectFirst (h : Contending s t u p q) (hn : counter s < MAX_SAMEPRIO_LENGTH) :
    ∃ s', call .schedule s = .ok (some t, s') ∧
      Serving s' t u p q (if p = s.currentPriority then counter s + 1 else 1) := by
  rcases schedule_of_no_lower (no_aging hn) with ⟨hempty, -⟩ | ⟨l, task, queue, hl, hbelow, hs'⟩
  · have hfirst := h.first
    rw [hempty p] at hfirst
    cases hfirst
  · have hlp : l = p := by
      by_contra hne
      by_cases hlq : l = q
      · have hfirst := h.first
        rw [hbelow p (hlq ▸ h.lower)] at hfirst
        cases hfirst
      · rw [h.rest l hne hlq] at hl
        cases hl
    subst hlp
    rw [h.first] at hl
    obtain ⟨rfl, rfl⟩ := List.cons.inj hl
    refine ⟨_, congrArg Except.ok hs', h.lower, ?_, ?_, ?_, currentPriority_pick _ _ _ _, ?_⟩
    · simp [pick, h.priority]
    · simp [pick, h.lower.ne', h.second]
    · intro k hkq
      by_cases hkl : k = l
      · simp [pick, hkl]
      · simp [pick, hkl, h.rest k hkl hkq]
    · rw [counter_pick, afterAging_of_lt hn]

lemma Contending.selectSecond (h : Contending s t u p q) (hp : s.currentPriority = p)
    (hn : MAX_SAMEPRIO_LENGTH ≤ counter s) : ∃ s', call .schedule s = .ok (some u, s') := by
  have hsel := selected_scheduleNextTask s
  have hq := h.second
  suffices (scheduleNextTask s).1 = some u from
    ⟨(scheduleNextTask s).2, congrArg Except.ok (Prod.ext this rfl)⟩
  generalize (scheduleNextTask s).1 = r, (scheduleNextTask s).2 = s' at hsel
  cases hsel with
  | idle hempty =>
    rw [hempty q] at hq
    cases hq
  | lower l task queue _ hcur hl _ =>
    have hlp : l ≠ p := by
      rw [hp] at hcur
      exact hcur.ne'
    by_cases hlq : l = q
    · subst hlq
      rw [hl] at hq
      rw [(List.cons.inj hq).1]
    · rw [h.rest l hlp hlq] at hl
      cases hl
  | highest l task queue haging _ _ =>
    rw [haging hn q (by rw [hp]; exact h.lower)] at hq
    cases hq

/-- Task `t` is preempted and the next task scheduled, `n` times. -/
def rounds (t : T) : ℕ → List (Call T)
  | 0 => []
  | n + 1 => .preempted true t :: .schedule :: rounds t n

/-- Two states that serve the same task differ in when the lower task gets its turn. -/
lemma Serving.returned_ne {m : ℕ} (htu : t ≠ u) (h₁ : Serving s₁ t u p q n)
    (h₂ : Serving s₂ t u p q m) (hmn : m < n) (hn : n ≤ MAX_SAMEPRIO_LENGTH) :
    ∃ k, returned s₁ (rounds t k) ≠ returned s₂ (rounds t k) := by
  induction hk : MAX_SAMEPRIO_LENGTH - n generalizing s₁ s₂ n m with
  | zero =>
    obtain ⟨s₁', hcall₁, hcon₁, hcur₁, hcount₁⟩ := h₁.preempt
    obtain ⟨s₂', hcall₂, hcon₂, hcur₂, hcount₂⟩ := h₂.preempt
    obtain ⟨s₁'', hsched₁⟩ := hcon₁.selectSecond hcur₁ (by omega)
    obtain ⟨s₂'', hsched₂, -⟩ := hcon₂.selectFirst (by omega)
    refine ⟨1, ?_⟩
    unfold rounds
    rw [returned_cons_ok hcall₁, returned_cons_ok hsched₁, returned_cons_ok hcall₂,
      returned_cons_ok hsched₂]
    intro heq
    simp only [List.cons.injEq, Option.some.injEq] at heq
    exact htu heq.2.1.symm
  | succ k ih =>
    obtain ⟨s₁', hcall₁, hcon₁, hcur₁, hcount₁⟩ := h₁.preempt
    obtain ⟨s₂', hcall₂, hcon₂, hcur₂, hcount₂⟩ := h₂.preempt
    obtain ⟨s₁'', hsched₁, hserve₁⟩ := hcon₁.selectFirst (by omega)
    obtain ⟨s₂'', hsched₂, hserve₂⟩ := hcon₂.selectFirst (by omega)
    rw [if_pos hcur₁.symm, hcount₁] at hserve₁
    rw [if_pos hcur₂.symm, hcount₂] at hserve₂
    obtain ⟨j, hj⟩ := ih hserve₁ hserve₂ (by omega) (by omega) (by omega)
    refine ⟨j + 1, ?_⟩
    unfold rounds
    rw [returned_cons_ok hcall₁, returned_cons_ok hsched₁, returned_cons_ok hcall₂,
      returned_cons_ok hsched₂]
    simpa using hj

/-- From an idle state, `t` and the lower `u` become ready and `t` is selected. -/
lemma serving_of_idle (hempty : ∀ l, s.priorityQueues l = []) (hpq : p < q)
    (ht : (s.tasks t).state ≠ .ready) (hu : (s.tasks u).state ≠ .ready) (hp : HasLevel s t p)
    (hq : HasLevel s u q) (hn : counter s < MAX_SAMEPRIO_LENGTH) :
    ∃ s', (∀ cs, returned s (.ready true t :: .ready true u :: .schedule :: cs) =
        none :: none :: some t :: returned s' cs) ∧
      Serving s' t u p q (if p = s.currentPriority then counter s + 1 else 1) := by
  have htu : u ≠ t := by
    rintro rfl
    unfold HasLevel at hp hq
    rw [hp] at hq
    have hlt : (p : ℕ) < q := hpq
    omega
  have hcall₁ := call_ready ht hp
  have hu' : ((s.put t p).tasks u).state ≠ .ready := by simpa [State.put, htu] using hu
  have hq' : HasLevel (s.put t p) u q := by simpa [State.put, HasLevel, htu] using hq
  have hcall₂ := call_ready hu' hq'
  have hcon : Contending ((s.put t p).put u q) t u p q := by
    refine ⟨hpq, ?_, ?_, ?_, ?_⟩
    · simp [State.put, hpq.ne, hempty]
    · simp [State.put, hpq.ne', hempty]
    · intro l hlp hlq
      simp [State.put, hlp, hlq, hempty]
    · simp [State.put, htu.symm]
  obtain ⟨s', hcall₃, hserving⟩ := hcon.selectFirst hn
  refine ⟨s', ?_, hserving⟩
  intro cs
  rw [returned_cons_ok hcall₁, returned_cons_ok hcall₂, returned_cons_ok hcall₃]

/-! ### Idle states -/

/-- The count of the current level can have no effect: it is 0 or will be reset, or no task can
come to this level or to a lower one. -/
def CountForgotten (s : State T) : Prop :=
  counter s = 0 ∨ MAX_SAMEPRIO_LENGTH ≤ counter s ∨
    (∀ t, (s.tasks t).state ≠ .ready →
      clampPriority (s.tasks t).priority ≠ (s.currentPriority : ℕ)) ∨
    ∀ t, (s.tasks t).state ≠ .ready →
      clampPriority (s.tasks t).priority ≤ (s.currentPriority : ℕ)

omit [DecidableEq T] in
lemma hidden_of_countForgotten (hempty : ∀ l, s.priorityQueues l = []) (h : CountForgotten s) :
    Hidden (afterAging s) (initScheduler (afterAging s)) := by
  have hinit : counter (initScheduler (afterAging s)) = 0 := rfl
  rcases h with h | h | h | h
  · exact .fresh (counter_afterAging_of_zero h) hinit
  · have haged : afterAging s = s.setCounter s.currentPriority 0 := if_pos h
    refine .fresh ?_ hinit
    rw [haged]
    simp [counter]
  · refine .away ?_ hinit ⟨?_, ?_⟩
    · have hlt := counter_afterAging_lt s
      rwa [← currentPriority_afterAging] at hlt
    · simp [hempty]
    · intro t p ht hp he
      rw [tasks_afterAging] at ht
      rw [currentPriority_afterAging] at he
      apply h t ht
      rw [← he, ← hp, tasks_afterAging]
  · refine .lowest (.inr hinit) ⟨?_, ?_⟩
    · simp [hempty]
    · intro t p ht hp hlt
      rw [tasks_afterAging] at ht
      unfold HasLevel at hp
      rw [tasks_afterAging] at hp
      rw [currentPriority_afterAging] at hlt
      have hle := h t ht
      have hlt' : (s.currentPriority : ℕ) < p := hlt
      omega

/-- After a run in which the scheduler now finds no task, all that follows is as after a new
`initScheduler` exactly if the count of the current level can have no effect. -/
theorem returned_eq_reset_iff {s₀ : State T} {run : List ((Call T × Option T) × State T)}
    (hrun : IsRun Step (initScheduler s₀) run) (hs : lastState (initScheduler s₀) run = s)
    (hnull : (scheduleNextTask s).1 = none) :
    (∀ cs, returned (scheduleNextTask s).2 cs =
      returned (initScheduler (scheduleNextTask s).2) cs) ↔ CountForgotten s := by
  obtain ⟨hlisted, hone⟩ := hs ▸ listed_oneCounter_of_run hrun
  have hidle : (∀ l, s.priorityQueues l = []) ∧ (scheduleNextTask s).2 = afterAging s := by
    have hsel := selected_scheduleNextTask s
    rw [hnull] at hsel
    generalize (scheduleNextTask s).2 = s' at hsel
    cases hsel with
    | idle hempty => exact ⟨hempty, rfl⟩
  obtain ⟨hempty, hafter⟩ := hidle
  rw [hafter]
  constructor
  · intro hsame
    by_contra hcount
    simp only [CountForgotten, not_or, not_forall, not_le, not_not] at hcount
    obtain ⟨hpos, hlt, ⟨t, ht, hp⟩, u, hu, hq⟩ := hcount
    obtain ⟨q, hq'⟩ := exists_level (clampPriority_bounds _).1
      (clampPriority_bounds (s.tasks u).priority).2
    have hpq : s.currentPriority < q := by
      rw [hq'] at hq
      exact_mod_cast hq
    rw [afterAging_of_lt hlt] at hsame
    obtain ⟨s₁, hreturned₁, hserving₁⟩ := serving_of_idle hempty hpq ht hu hp hq' hlt
    obtain ⟨s₂, hreturned₂, hserving₂⟩ := serving_of_idle (s := initScheduler s)
      (fun _ => rfl) hpq ht hu hp hq' (show 0 < MAX_SAMEPRIO_LENGTH by decide)
    rw [if_pos rfl] at hserving₁
    have hcount₂ : (if s.currentPriority = (initScheduler s).currentPriority then
        counter (initScheduler s) + 1 else 1) = 1 := by
      split <;> rfl
    rw [hcount₂] at hserving₂
    have htu : t ≠ u := by
      rintro rfl
      rw [hp] at hq
      exact lt_irrefl _ hq
    obtain ⟨k, hk⟩ := hserving₁.returned_ne htu hserving₂ (by omega) (by omega)
    have hcs := hsame (.ready true t :: .ready true u :: .schedule :: rounds t k)
    rw [hreturned₁, hreturned₂] at hcs
    exact hk (by simpa using hcs)
  · intro hcount cs
    have halike : Alike (afterAging s) (initScheduler (afterAging s)) := by
      refine ⟨rfl, ?_, ⟨?_, ?_⟩, hone.afterAging, oneCounter_initScheduler _,
        hidden_of_countForgotten hempty hcount⟩
      · funext l
        simp [initScheduler, hempty]
      · simp [hempty]
      · simp [hempty]
    exact halike.returned_eq cs

instance neZero_two : NeZero 2 := ⟨Nat.succ_ne_zero _⟩

/-- Two tasks, one below the other. -/
def twoTasks : State (Fin 2) where
  tasks := ![⟨.waiting, 0⟩, ⟨.waiting, 1⟩]
  priorityQueues _ := []
  currentPriority := 0
  samePrioCounter _ := 0

/-- The upper task has run and waits. -/
def idleRun : List ((Call (Fin 2) × Option (Fin 2)) × State (Fin 2)) :=
  trace (initScheduler twoTasks) [.ready true 0, .schedule, .waiting 0]

theorem returned_eq_reset_idleRun :
    (∀ cs, returned (scheduleNextTask (lastState (initScheduler twoTasks) idleRun)).2 cs =
      returned (initScheduler
        (scheduleNextTask (lastState (initScheduler twoTasks) idleRun)).2) cs) ↔
      CountForgotten (lastState (initScheduler twoTasks) idleRun) :=
  returned_eq_reset_iff (isRun_trace _ _) rfl (by decide)

/-- The one selection before the idle state brings the lower task its turn one selection early. -/
theorem not_returned_eq_reset : ¬∀ (s₀ : State (Fin 2)) run, IsRun Step (initScheduler s₀) run →
    (scheduleNextTask (lastState (initScheduler s₀) run)).1 = none →
    ∀ cs, returned (scheduleNextTask (lastState (initScheduler s₀) run)).2 cs =
      returned (initScheduler (scheduleNextTask (lastState (initScheduler s₀) run)).2) cs := by
  intro h
  have hsame := h twoTasks idleRun (isRun_trace _ _) (by decide)
    (.ready true 0 :: .ready true 1 :: .schedule :: rounds 0 3)
  revert hsame
  decide

end StyLinux.Scheduler
