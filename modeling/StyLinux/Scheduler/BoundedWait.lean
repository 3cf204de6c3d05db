import StyLinux.Scheduler.Alike
import StyLinux.Scheduler.Starvation

/-!
# How long a ready task waits

As long as tasks are ready on one level above it at most, a ready task does not starve: each task
in front of it on its queue takes `MAX_SAMEPRIO_LENGTH + 1` calls of `scheduleNextTask` at most, and
so does the task itself. The levels below may have the turn before the first of them only.
-/

namespace StyLinux.Scheduler

open Lib

variable {T : Type} {s s' : State T} {t : T} {p q l : Level}

/-- Above level `p`, tasks are ready on level `q` at most. -/
def OneHigher (p q : Level) (s : State T) : Prop :=
  ∀ u, (s.tasks u).state = .ready → (s.tasks u).priority < (p : ℕ) →
    (s.tasks u).priority = (q : ℕ)

/-- The call is one of `scheduleNextTask`. -/
def Schedules (x : (Call T × Option T) × State T) : Bool :=
  match x.1.1 with
  | .schedule => true
  | _ => false

lemma OneHigher.empty (hone : OneHigher p q s) (hs : Listed s) (hl : l < p) (hne : l ≠ q) :
    s.priorityQueues l = [] := by
  by_contra hqueue
  obtain ⟨u, hu⟩ := List.exists_mem_of_ne_nil _ hqueue
  obtain ⟨hready, hpriority⟩ := hs.queued l u hu
  have hlq := hone u hready (by rw [hpriority]; exact_mod_cast hl)
  rw [hpriority] at hlq
  exact hne (Fin.ext (by exact_mod_cast hlq))

/-! ### Turns -/

/-- The calls until a task of level `p` is selected, at most. -/
def State.turns (p q : Level) (s : State T) : ℕ :=
  if s.currentPriority = q ∧ q < p then MAX_SAMEPRIO_LENGTH + 1 - counter s
  -- a lower level has its turn first
  else if MAX_SAMEPRIO_LENGTH ≤ counter s ∧ p ≤ s.currentPriority then MAX_SAMEPRIO_LENGTH + 2
  else MAX_SAMEPRIO_LENGTH + 1

lemma turns_pos (hcount : CounterOk s) : 0 < s.turns p q := by
  have hle : counter s ≤ MAX_SAMEPRIO_LENGTH := hcount
  unfold State.turns
  split_ifs <;> omega

lemma turns_le (p q : Level) (s : State T) : s.turns p q ≤ MAX_SAMEPRIO_LENGTH + 2 := by
  unfold State.turns
  split_ifs <;> omega

/-- Level `q` has just been selected. -/
lemma turns_of_selected (hcur : s.currentPriority = q) (hlt : q < p) (hcount : counter s = 1) :
    s.turns p q = MAX_SAMEPRIO_LENGTH := by
  unfold State.turns
  rw [if_pos ⟨hcur, hlt⟩, hcount]
  rfl

/-- Another level has just been selected. -/
lemma turns_of_other (hcur : ¬(s.currentPriority = q ∧ q < p)) (hcount : counter s = 1) :
    s.turns p q = MAX_SAMEPRIO_LENGTH + 1 := by
  unfold State.turns
  rw [if_neg hcur, hcount, if_neg]
  simp [MAX_SAMEPRIO_LENGTH]

lemma turns_of_ne (hcur : ¬(s.currentPriority = q ∧ q < p)) :
    MAX_SAMEPRIO_LENGTH + 1 ≤ s.turns p q := by
  unfold State.turns
  rw [if_neg hcur]
  split_ifs <;> omega

variable [DecidableEq T]

/-- The calls until `t` is returned from level `p`, at most. -/
def State.waits (t : T) (p q : Level) (s : State T) : ℕ :=
  (MAX_SAMEPRIO_LENGTH + 1) * (s.priorityQueues p).idxOf t + s.turns p q

/-- Another task leaves its queue. -/
lemma idxOf_dispatch {task : T} {queue : List T} (hl : s.priorityQueues l = task :: queue)
    (hqueues : s'.priorityQueues = Function.update s.priorityQueues l queue)
    (ht : t ∈ s.priorityQueues p) (hne : t ≠ task) :
    t ∈ s'.priorityQueues p ∧
      (l = p → (s'.priorityQueues p).idxOf t + 1 = (s.priorityQueues p).idxOf t) ∧
      (l ≠ p → (s'.priorityQueues p).idxOf t = (s.priorityQueues p).idxOf t) := by
  rw [hqueues]
  by_cases hlp : l = p
  · subst hlp
    rw [Function.update_self, hl, List.idxOf_cons_ne _ hne.symm]
    rw [hl] at ht
    exact ⟨List.mem_of_ne_of_mem hne ht, fun _ => rfl, fun hne => absurd rfl hne⟩
  · rw [Function.update_of_ne (Ne.symm hlp)]
    exact ⟨ht, fun heq => absurd heq hlp, fun _ => rfl⟩

/-- A level below the current one has its turn. -/
lemma waits_lt_of_lower (hs : Listed s) (hcount : CounterOk s) (hone : OneHigher p q s)
    (ht : t ∈ s.priorityQueues p) {task : T} {queue : List T} (htask : t ≠ task)
    (hge : MAX_SAMEPRIO_LENGTH ≤ counter s) (hcur : s.currentPriority < l)
    (hl : s.priorityQueues l = task :: queue)
    (hbelow : ∀ q, s.currentPriority < q → q < l → s.priorityQueues q = [])
    (hqueues : s'.priorityQueues = Function.update s.priorityQueues l queue)
    (hcur' : s'.currentPriority = l) (hcount' : counter s' = 1) :
    s'.waits t p q < s.waits t p q := by
  obtain ⟨-, hsame, hother⟩ := idxOf_dispatch hl hqueues ht htask
  unfold State.waits
  rcases lt_trichotomy l p with hlt | rfl | hgt
  · -- it is the one above `p`
    have hlq : l = q := by
      by_contra hlq
      rw [hone.empty hs hlt hlq] at hl
      cases hl
    subst hlq
    have hbefore : MAX_SAMEPRIO_LENGTH + 1 ≤ s.turns p l := turns_of_ne fun h => hcur.ne h.1
    rw [hother hlt.ne, turns_of_selected hcur' hlt hcount']
    omega
  · have hpos := turns_pos (p := l) (q := q) hcount
    rw [← hsame rfl, turns_of_other (fun h => h.2.ne' (hcur'.symm.trans h.1)) hcount',
      Nat.mul_succ]
    omega
  · -- it is below `p`, and so the current one is not above `p`
    have hpcur : p ≤ s.currentPriority := by
      by_contra hlt
      exact List.ne_nil_of_mem ht (hbelow p (not_le.mp hlt) hgt)
    have hbefore : s.turns p q = MAX_SAMEPRIO_LENGTH + 2 := by
      unfold State.turns
      rw [if_neg (fun h => not_le.mpr h.2 (h.1 ▸ hpcur)), if_pos ⟨hge, hpcur⟩]
    rw [hother hgt.ne', hbefore, turns_of_other ?_ hcount']
    · omega
    · rintro ⟨rfl, hlt⟩
      exact absurd hgt (not_lt.mpr (hcur' ▸ hlt.le))

/-- The highest level has its turn. -/
lemma waits_lt_of_highest (hs : Listed s) (hcount : CounterOk s) (hone : OneHigher p q s)
    (ht : t ∈ s.priorityQueues p) {task : T} {queue : List T} (htask : t ≠ task)
    (haging : MAX_SAMEPRIO_LENGTH ≤ counter s →
      ∀ q, s.currentPriority < q → s.priorityQueues q = [])
    (hl : s.priorityQueues l = task :: queue) (hbelow : ∀ q, q < l → s.priorityQueues q = []) :
    (pick l task queue s).waits t p q < s.waits t p q := by
  have hle : counter s ≤ MAX_SAMEPRIO_LENGTH := hcount
  have hne : s.priorityQueues p ≠ [] := List.ne_nil_of_mem ht
  have hqueues : (pick l task queue s).priorityQueues =
      Function.update s.priorityQueues l queue := by simp [pick]
  obtain ⟨-, hsame, hother⟩ := idxOf_dispatch hl hqueues ht htask
  have hcounter := counter_pick l task queue s
  have hcurrent := currentPriority_pick l task queue s
  unfold State.waits
  rcases lt_trichotomy l p with hlt | rfl | hgt
  · have hlq : l = q := by
      by_contra hlq
      rw [hone.empty hs hlt hlq] at hl
      cases hl
    subst hlq
    rw [hother hlt.ne]
    by_cases hcur : l = s.currentPriority
    · -- one more task of the same level
      have hlt' : counter s < MAX_SAMEPRIO_LENGTH := by
        by_contra hge
        exact hne (haging (not_lt.mp hge) p (hcur ▸ hlt))
      rw [if_pos hcur, afterAging_of_lt hlt'] at hcounter
      have hafter : (pick l task queue s).turns p l =
          MAX_SAMEPRIO_LENGTH + 1 - (counter s + 1) := by
        unfold State.turns
        rw [if_pos ⟨hcurrent, hlt⟩, hcounter]
      have hbefore : s.turns p l = MAX_SAMEPRIO_LENGTH + 1 - counter s := by
        unfold State.turns
        rw [if_pos ⟨hcur.symm, hlt⟩]
      omega
    · rw [if_neg hcur] at hcounter
      have hbefore : MAX_SAMEPRIO_LENGTH + 1 ≤ s.turns p l :=
        turns_of_ne fun h => hcur h.1.symm
      rw [turns_of_selected hcurrent hlt hcounter]
      omega
  · have hnot : ¬((pick l task queue s).currentPriority = q ∧ q < l) := fun h =>
      h.2.ne' (hcurrent.symm.trans h.1)
    rw [← hsame rfl, Nat.mul_succ]
    by_cases hsecond : l = s.currentPriority ∧ counter s < MAX_SAMEPRIO_LENGTH
    · have hafter := turns_le l q (pick l task queue s)
      have hbefore : MAX_SAMEPRIO_LENGTH + 1 ≤ s.turns l q :=
        turns_of_ne fun h => h.2.ne' (hsecond.1.trans h.1)
      have hmax : 0 < MAX_SAMEPRIO_LENGTH := by decide
      omega
    · have hfirst : counter (pick l task queue s) = 1 := by
        rw [hcounter]
        split_ifs with hcur
        · have hge : MAX_SAMEPRIO_LENGTH ≤ counter s :=
            not_lt.mp fun hlt => hsecond ⟨hcur, hlt⟩
          have haged : afterAging s = s.setCounter s.currentPriority 0 := if_pos hge
          simp [haged, counter]
        · rfl
      have hpos := turns_pos (p := l) (q := q) hcount
      rw [turns_of_other hnot hfirst]
      omega
  · exact absurd (hbelow p hgt) hne

lemma Selected.waits_lt (hs : Listed s) (hcount : CounterOk s) (hone : OneHigher p q s)
    (ht : t ∈ s.priorityQueues p) {r : Option T} (hsel : Selected s r s') (hr : r ≠ some t) :
    t ∈ s'.priorityQueues p ∧ s'.waits t p q < s.waits t p q := by
  cases hsel with
  | idle hempty => exact absurd (hempty p) (List.ne_nil_of_mem ht)
  | lower l task queue hge hcur hl hbelow =>
    have htask : t ≠ task := fun heq => hr (congrArg some heq.symm)
    exact ⟨(idxOf_dispatch hl (by simp) ht htask).1,
      waits_lt_of_lower hs hcount hone ht htask hge hcur hl hbelow (by simp) (by simp)
        (by simp [counter])⟩
  | highest l task queue haging hl hbelow =>
    have htask : t ≠ task := fun heq => hr (congrArg some heq.symm)
    exact ⟨(idxOf_dispatch hl (by simp) ht htask).1,
      waits_lt_of_highest hs hcount hone ht htask haging hl hbelow⟩

/-- A call that does not schedule leaves the task where it is. -/
lemma Called.waits_eq {c : Call T} (h : Called s c s') (ht : t ∈ s.priorityQueues p) :
    t ∈ s'.priorityQueues p ∧ s'.waits t p q = s.waits t p q := by
  have hcounters := h.moved.counters
  have hturns : s'.turns p q = s.turns p q := by
    unfold State.turns counter
    rw [hcounters.1, hcounters.2]
  obtain ⟨rest, hqueue⟩ : ∃ rest, s'.priorityQueues p = s.priorityQueues p ++ rest := by
    cases h with
    | same _ _ => exact ⟨[], by simp⟩
    | queue _ task l _ _ _ =>
      by_cases hl : p = l
      · subst hl
        cases c.allocated with
        | false => exact ⟨[], by simp [appendItem]⟩
        | true => exact ⟨[task], by simp [appendItem]⟩
      · exact ⟨[], by simp [hl]⟩
    | wait task _ => exact ⟨[], by simp⟩
  refine ⟨hqueue ▸ List.mem_append_left rest ht, ?_⟩
  unfold State.waits
  rw [hturns, hqueue, List.idxOf_append_of_mem ht]

/-! ### Runs -/

/-- As long as `t` is not returned, each call of `scheduleNextTask` shortens its wait. -/
lemma countP_add_waits_le {stretch : List ((Call T × Option T) × State T)} (hs : Listed s)
    (hcount : CounterOk s) (hrun : IsRun Step s stretch)
    (hone : StepsMeet (fun s _ => OneHigher p q s) s stretch) (ht : t ∈ s.priorityQueues p)
    (hnot : ∀ x ∈ stretch, x.1.2 ≠ some t) :
    stretch.countP Schedules + (lastState s stretch).waits t p q ≤ s.waits t p q ∧
      CounterOk (lastState s stretch) := by
  induction stretch generalizing s with
  | nil => exact ⟨by simp, hcount⟩
  | cons x stretch ih =>
    obtain ⟨⟨c, r⟩, s'⟩ := x
    have hs' := hrun.1.listed hs
    have hcount' := hrun.1.counterOk hcount
    have hr : r ≠ some t := hnot _ (List.mem_cons_self)
    have hrest := ih hs' hcount' hrun.2 hone.2
    rw [List.countP_cons, lastState_cons]
    rcases hrun.1.selected_or_called with ⟨rfl, hsel⟩ | ⟨hc, rfl, hcalled⟩
    · obtain ⟨hmem, hlt⟩ : t ∈ s'.priorityQueues p ∧ s'.waits t p q < s.waits t p q :=
        hsel.waits_lt hs hcount hone.1 ht hr
      obtain ⟨hle, hlast⟩ := hrest hmem fun y hy => hnot y (List.mem_cons_of_mem _ hy)
      refine ⟨?_, hlast⟩
      simp only [Schedules, if_true] at hle ⊢
      omega
    · obtain ⟨hmem, heq⟩ : t ∈ s'.priorityQueues p ∧ s'.waits t p q = s.waits t p q :=
        hcalled.waits_eq ht
      obtain ⟨hle, hlast⟩ := hrest hmem fun y hy => hnot y (List.mem_cons_of_mem _ hy)
      refine ⟨?_, hlast⟩
      have hno : Schedules ((c, (none : Option T)), s') = false := by
        cases c with
        | schedule => exact absurd rfl hc
        | _ => rfl
      rw [hno]
      simp only [Bool.false_eq_true, if_false] at hle ⊢
      omega

/-- Let tasks be ready on one level above `p` at most in a stretch of a run. A task that is on the
queue of level `p` at its start, behind `k` others, is returned if `scheduleNextTask` is called more
than `(MAX_SAMEPRIO_LENGTH + 1) * (k + 1)` times. -/
theorem returned_within
    {run stretch : List ((Call T × Option T) × State T)}
    (hrun : IsRun Step (initScheduler s) (run ++ stretch))
    (ht : t ∈ (lastState (initScheduler s) run).priorityQueues p)
    (hone : StepsMeet (fun s _ => OneHigher p q s) (lastState (initScheduler s) run) stretch)
    (hcalls : (MAX_SAMEPRIO_LENGTH + 1) *
      (((lastState (initScheduler s) run).priorityQueues p).idxOf t + 1) <
        stretch.countP Schedules) :
    ∃ x ∈ stretch, x.1.2 = some t := by
  by_contra hnone
  have hnot : ∀ x ∈ stretch, x.1.2 ≠ some t := fun x hx hxt => hnone ⟨x, hx, hxt⟩
  obtain ⟨hrun₁, hrun₂⟩ := (isRun_append _ _ _).mp hrun
  have hs := (listed_oneCounter_of_run hrun₁).1
  obtain ⟨hle, hlast⟩ := countP_add_waits_le hs (counterOk_of_run hrun₁) hrun₂ hone ht hnot
  have hpos : 0 < (lastState (lastState (initScheduler s) run) stretch).turns p q :=
    turns_pos hlast
  have hturns := turns_le p q (lastState (initScheduler s) run)
  unfold State.waits at hle
  rw [Nat.mul_succ] at hcalls
  omega

instance [Fintype T] (p q : Level) (s : State T) : Decidable (OneHigher p q s) :=
  inferInstanceAs (Decidable (∀ u, (s.tasks u).state = .ready →
    (s.tasks u).priority < (p : ℕ) → (s.tasks u).priority = (q : ℕ)))

/-- The task of level 0 is always ready again when the next task is scheduled. -/
def busyStretch : List ((Call (Fin 3) × Option (Fin 3)) × State (Fin 3)) :=
  trace (lastState (initScheduler threeLevels) lowReadyRun)
    (.ready true 0 :: (List.replicate 6 [.schedule, .preempted true 0]).flatten)

/-- The task of level 5 is returned in spite of it. -/
theorem returned_within_busyStretch : ∃ x ∈ busyStretch, x.1.2 = some 2 := by
  have hwaits : 2 ∈ (lastState (initScheduler threeLevels) lowReadyRun).priorityQueues 5 := by
    decide
  refine returned_within (q := 0) (isRun_lowReady_append _) hwaits ?_ ?_
  · decide
  · decide

end StyLinux.Scheduler
