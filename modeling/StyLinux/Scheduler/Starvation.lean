import StyLinux.Scheduler.Moves

/-!
# Starvation prevention

After `MAX_SAMEPRIO_LENGTH` selections of one level in a row a lower level gets its turn.
The counter of a level is reset when another level is selected, so that this bounds the
selections of a level only as long as no higher level interrupts it.
-/

namespace StyLinux.Scheduler

open Lib

variable {T : Type} {s s' : State T}

/-- Some task with a number above `p` is ready when the next task is scheduled. -/
def Waits (p : Level) (s : State T) (x : Call T × Option T) : Prop :=
  x.1 = .schedule → ∃ t, (s.tasks t).state = .ready ∧ (p : ℕ) < (s.tasks t).priority

def Returns (p : Level) (x : (Call T × Option T) × State T) : Bool :=
  match x.1.2 with
  | some t => (x.2.tasks t).priority = (p : ℕ)
  | none => false

def ReturnsNoLower (p : Level) (x : (Call T × Option T) × State T) : Prop :=
  ∀ t, x.1.2 = some t → (x.2.tasks t).priority ≤ (p : ℕ)

/-- When the next task is scheduled, level `p` is not in the middle of its turn with a higher
level ready. -/
def NotInterrupted (p : Level) (s : State T) (x : Call T × Option T) : Prop :=
  x.1 = .schedule → ¬(s.currentPriority = p ∧ 1 ≤ s.samePrioCounter p ∧
    s.samePrioCounter p < MAX_SAMEPRIO_LENGTH ∧
    ∃ t, (s.tasks t).state = .ready ∧ (s.tasks t).priority < (p : ℕ))

/-- `m` selections of level `p` are recorded in its counter. -/
def Recorded (p : Level) (m : ℕ) (s : State T) : Prop :=
  m = 0 ∨ s.currentPriority = p ∧ m ≤ s.samePrioCounter p

def CounterOk (s : State T) : Prop :=
  s.samePrioCounter s.currentPriority ≤ MAX_SAMEPRIO_LENGTH

lemma Listed.exists_queue (hs : Listed s) (hq : Queued s) {t : T}
    (ht : (s.tasks t).state = .ready) :
    ∃ p : Level, t ∈ s.priorityQueues p ∧ (s.tasks t).priority = (p : ℕ) := by
  obtain ⟨p, hp⟩ := hq t ht
  exact ⟨p, hp, (hs.queued p t hp).2⟩

variable [DecidableEq T]

lemma Selected.counterOk {r : Option T} (hsel : Selected s r s') : CounterOk s' := by
  unfold CounterOk
  cases hsel with
  | idle _ =>
    have hlt := counter_afterAging_lt s
    rw [currentPriority_afterAging]
    omega
  | lower p task queue _ _ _ _ => simp [MAX_SAMEPRIO_LENGTH]
  | highest p task queue _ _ _ =>
    have hlt := counter_afterAging_lt s
    simp only [State.samePrioCounter_setState, State.currentPriority_setState,
      currentPriority_countSelection]
    unfold countSelection
    split
    · rename_i hp
      simp only [State.currentPriority_setQueue, currentPriority_afterAging] at hp
      subst hp
      simp only [State.samePrioCounter_setCounter, State.samePrioCounter_setQueue,
        Function.update_self]
      omega
    · simp [MAX_SAMEPRIO_LENGTH]

/-- A selection during the turn of level `p`, with a lower level ready but not selected, is a
selection of level `p`. -/
lemma Selected.during_turn (hs : Listed s) (hq : Queued s) {r : Option T} (hsel : Selected s r s')
    (hwait : ∃ t, (s.tasks t).state = .ready ∧ (s.currentPriority : ℕ) < (s.tasks t).priority)
    (hlow : ReturnsNoLower s.currentPriority ((.schedule, r), s'))
    (hturn : NotInterrupted s.currentPriority s (.schedule, r))
    (hpos : 1 ≤ s.samePrioCounter s.currentPriority) :
    s'.currentPriority = s.currentPriority ∧
      s'.samePrioCounter s.currentPriority = s.samePrioCounter s.currentPriority + 1 := by
  obtain ⟨t, ht, hlt⟩ := hwait
  obtain ⟨l, hl, hpriority⟩ := hs.exists_queue hq ht
  have hcl : s.currentPriority < l := by
    rw [hpriority] at hlt
    exact_mod_cast hlt
  cases hsel with
  | idle hempty => simp [hempty l] at hl
  | lower p task queue _ hcp hp _ =>
    have hlevel := (hs.queued p task (by simp [hp])).2
    have hle := hlow task rfl
    simp only [State.tasks_setState, Function.update_self, State.tasks_switchTo,
      State.tasks_setQueue, hlevel] at hle
    have hle' : p ≤ s.currentPriority := by exact_mod_cast hle
    exact absurd hcp (not_lt.mpr hle')
  | highest p task queue haging hp hbelow =>
    have hcount : s.samePrioCounter s.currentPriority < MAX_SAMEPRIO_LENGTH := by
      by_contra hge
      have hempty := haging (not_lt.mp hge) l hcl
      simp [hempty] at hl
    have hready := hs.queued p task (by simp [hp])
    have hpc : p = s.currentPriority := by
      rcases lt_trichotomy p s.currentPriority with hlt' | heq | hgt
      · refine absurd ⟨rfl, hpos, hcount, task, hready.1, ?_⟩ (hturn rfl)
        rw [hready.2]
        exact_mod_cast hlt'
      · exact heq
      · have hle := hlow task rfl
        simp only [State.tasks_setState, Function.update_self, tasks_countSelection,
          State.tasks_setQueue, tasks_afterAging, hready.2] at hle
        have hle' : p ≤ s.currentPriority := by exact_mod_cast hle
        exact absurd hgt (not_lt.mpr hle')
    subst hpc
    have haged : afterAging s = s := if_neg (not_le.mpr hcount)
    rw [haged]
    simp [countSelection]

lemma Selected.starts_turn (hs : Listed s) {t : T} (hsel : Selected s (some t) s') {p : Level}
    (hp : (s'.tasks t).priority = (p : ℕ)) :
    s'.currentPriority = p ∧ 1 ≤ s'.samePrioCounter p := by
  cases hsel with
  | lower q task queue _ _ hq _ =>
    have hlevel := (hs.queued q t (by simp [hq])).2
    simp only [State.tasks_setState, Function.update_self, State.tasks_switchTo,
      State.tasks_setQueue, hlevel] at hp
    obtain rfl : q = p := Fin.ext (by exact_mod_cast hp)
    simp
  | highest q task queue _ hq _ =>
    have hlevel := (hs.queued q t (by simp [hq])).2
    simp only [State.tasks_setState, Function.update_self, tasks_countSelection,
      State.tasks_setQueue, tasks_afterAging, hlevel] at hp
    obtain rfl : q = p := Fin.ext (by exact_mod_cast hp)
    simp only [State.currentPriority_setState, State.samePrioCounter_setState,
      currentPriority_countSelection, true_and]
    unfold countSelection
    split <;> simp

lemma Step.recorded (hs : Listed s) (hq : Queued s) {x : Call T × Option T}
    (hstep : Step s x s') {p : Level} {m : ℕ} (hm : Recorded p m s) (hwait : Waits p s x)
    (hlow : ReturnsNoLower p (x, s')) (hturn : NotInterrupted p s x) :
    Recorded p (m + if Returns p (x, s') then 1 else 0) s' := by
  obtain ⟨c, r⟩ := x
  rcases hstep.selected_or_called with ⟨rfl, hsel⟩ | ⟨-, rfl, hcalled⟩
  · by_cases hzero : m = 0
    · by_cases hret : Returns p ((Call.schedule, r), s')
      · cases r with
        | none => simp [Returns] at hret
        | some t =>
          have hlevel : (s'.tasks t).priority = (p : ℕ) := by simpa [Returns] using hret
          right
          rw [if_pos hret, hzero]
          exact hsel.starts_turn hs hlevel
      · left
        rw [if_neg hret, hzero]
    · obtain ⟨rfl, hle⟩ := hm.resolve_left hzero
      obtain ⟨hcur, hcount⟩ := hsel.during_turn hs hq (hwait rfl) hlow hturn (by omega)
      right
      refine ⟨hcur, ?_⟩
      rw [hcount]
      split <;> omega
  · obtain ⟨hcur, hcount⟩ := hcalled.moved.counters
    have hret : Returns p ((c, none), s') = false := rfl
    rw [hret]
    simpa [Recorded, hcur, hcount] using hm

lemma Step.counterOk {x : Call T × Option T} (hstep : Step s x s') (hcount : CounterOk s) :
    CounterOk s' := by
  obtain ⟨c, r⟩ := x
  rcases hstep.selected_or_called with ⟨-, hsel⟩ | ⟨-, -, hcalled⟩
  · exact hsel.counterOk
  · obtain ⟨hcur, hcounter⟩ := hcalled.moved.counters
    unfold CounterOk
    rw [hcur, hcounter]
    exact hcount

lemma counterOk_of_run {run : List ((Call T × Option T) × State T)}
    (hrun : IsRun Step (initScheduler s) run) : CounterOk (lastState (initScheduler s) run) :=
  IsRun.invariant (fun _ _ _ hcount hstep => hstep.counterOk hcount) (Nat.zero_le _) hrun

/-- The selections of level `p` in a stretch are recorded at its end. -/
lemma recorded_of_stretch {stretch : List ((Call T × Option T) × State T)} (hs : Listed s)
    (hq : Queued s) (hrun : IsRun Step s stretch) (halloc : StepsMeet Allocated s stretch)
    {p : Level} (hwait : StepsMeet (Waits p) s stretch)
    (hlow : ∀ x ∈ stretch, ReturnsNoLower p x)
    (hturn : StepsMeet (NotInterrupted p) s stretch) {m : ℕ} (hm : Recorded p m s) :
    Recorded p (m + stretch.countP (Returns p)) (lastState s stretch) := by
  induction stretch generalizing s m with
  | nil => simpa using hm
  | cons x stretch ih =>
    have hnext := hrun.1.recorded hs hq hm hwait.1 (hlow x (by simp)) hturn.1
    have hend := ih (hrun.1.listed hs) (hrun.1.queued hs halloc.1 hq) hrun.2 halloc.2 hwait.2
      (fun y hy => hlow y (by simp [hy])) hturn.2 hnext
    rw [List.countP_cons]
    have hsum : m + (List.countP (Returns p) stretch + if Returns p x then 1 else 0) =
        (m + if Returns p x then 1 else 0) + List.countP (Returns p) stretch := by omega
    rw [hsum]
    exact hend

/-- Let tasks of a lower level than `p` wait throughout a stretch of a run without being
returned. If no higher level interrupts a turn of level `p`, at most `MAX_SAMEPRIO_LENGTH` calls
of the stretch return a task of level `p`. -/
theorem returned_le_of_notInterrupted
    (hready : ∀ t, (s.tasks t).state ≠ .ready)
    {run stretch : List ((Call T × Option T) × State T)}
    (hrun : IsRun Step (initScheduler s) (run ++ stretch))
    (halloc : StepsMeet Allocated (initScheduler s) (run ++ stretch)) {p : Level}
    (hwait : StepsMeet (Waits p) (lastState (initScheduler s) run) stretch)
    (hlow : ∀ x ∈ stretch, ReturnsNoLower p x)
    (hturn : StepsMeet (NotInterrupted p) (lastState (initScheduler s) run) stretch) :
    stretch.countP (Returns p) ≤ MAX_SAMEPRIO_LENGTH := by
  have hcount := counterOk_of_run hrun
  obtain ⟨hrun₁, hrun₂⟩ := (isRun_append _ _ _).mp hrun
  obtain ⟨halloc₁, halloc₂⟩ := (stepsMeet_append _ _ _).mp halloc
  obtain ⟨hs, hq⟩ := listed_queued_of_run hready hrun₁ halloc₁
  have hrecorded := recorded_of_stretch hs hq hrun₂ halloc₂ hwait hlow hturn (.inl rfl)
  rw [Nat.zero_add] at hrecorded
  rw [lastState_append] at hcount
  rcases hrecorded with hzero | ⟨rfl, hle⟩
  · omega
  · exact hle.trans hcount

/-! ### Three levels -/

instance [Fintype T] (p : Level) (s : State T) (x : Call T × Option T) :
    Decidable (Waits p s x) :=
  inferInstanceAs (Decidable (x.1 = .schedule →
    ∃ t, (s.tasks t).state = .ready ∧ (p : ℕ) < (s.tasks t).priority))

instance [Fintype T] (p : Level) (s : State T) (x : Call T × Option T) :
    Decidable (NotInterrupted p s x) :=
  inferInstanceAs (Decidable (x.1 = .schedule → ¬(s.currentPriority = p ∧
    1 ≤ s.samePrioCounter p ∧ s.samePrioCounter p < MAX_SAMEPRIO_LENGTH ∧
    ∃ t, (s.tasks t).state = .ready ∧ (s.tasks t).priority < (p : ℕ))))

instance [Fintype T] (p : Level) (x : (Call T × Option T) × State T) :
    Decidable (ReturnsNoLower p x) :=
  inferInstanceAs (Decidable (∀ t, x.1.2 = some t → (x.2.tasks t).priority ≤ (p : ℕ)))

def threeLevels : State (Fin 3) where
  tasks := ![⟨.waiting, 0⟩, ⟨.waiting, 1⟩, ⟨.waiting, 5⟩]
  priorityQueues _ := []
  currentPriority := 0
  samePrioCounter _ := 0

def lowReadyRun : List ((Call (Fin 3) × Option (Fin 3)) × State (Fin 3)) :=
  trace (initScheduler threeLevels) [.ready true 2]

def fullTurn : List ((Call (Fin 3) × Option (Fin 3)) × State (Fin 3)) :=
  trace (lastState (initScheduler threeLevels) lowReadyRun)
    [.ready true 1, .schedule, .preempted true 1, .schedule, .preempted true 1, .schedule,
      .preempted true 1, .schedule]

/-- Level 1 is selected five times, and interrupted by level 0 each time. -/
def interruptedTurns : List ((Call (Fin 3) × Option (Fin 3)) × State (Fin 3)) :=
  trace (lastState (initScheduler threeLevels) lowReadyRun)
    (List.replicate 5 [.ready true 1, .schedule, .waiting 1, .ready true 0, .schedule,
      .waiting 0]).flatten

lemma isRun_lowReady_append (cs : List (Call (Fin 3))) :
    IsRun Step (initScheduler threeLevels) (lowReadyRun ++
      trace (lastState (initScheduler threeLevels) lowReadyRun) cs) :=
  (isRun_append _ _ _).mpr ⟨isRun_trace _ _, isRun_trace _ _⟩

lemma allocated_lowReady_append {cs : List (Call (Fin 3))} (hcs : ∀ c ∈ cs, Allocates c) :
    StepsMeet Allocated (initScheduler threeLevels) (lowReadyRun ++
      trace (lastState (initScheduler threeLevels) lowReadyRun) cs) :=
  (stepsMeet_append _ _ _).mpr ⟨stepsMeet_allocated_trace (by simp [Allocates]),
    stepsMeet_allocated_trace hcs⟩

theorem returned_le_fullTurn : fullTurn.countP (Returns 1) ≤ MAX_SAMEPRIO_LENGTH :=
  returned_le_of_notInterrupted (by decide) (isRun_lowReady_append _)
    (allocated_lowReady_append (by simp [Allocates])) (by decide) (by decide) (by decide)

/-- The task of level 5 waits during five selections of level 1. -/
theorem not_returned_le_interruptedTurns :
    IsRun Step (initScheduler threeLevels) (lowReadyRun ++ interruptedTurns) ∧
    StepsMeet Allocated (initScheduler threeLevels) (lowReadyRun ++ interruptedTurns) ∧
    StepsMeet (Waits 1) (lastState (initScheduler threeLevels) lowReadyRun) interruptedTurns ∧
    (∀ x ∈ interruptedTurns, ReturnsNoLower 1 x) ∧
    ¬interruptedTurns.countP (Returns 1) ≤ MAX_SAMEPRIO_LENGTH := by
  refine ⟨isRun_lowReady_append _, allocated_lowReady_append ?_, ?_, ?_, ?_⟩
  · simp [Allocates]
  · decide
  · decide
  · decide

end StyLinux.Scheduler
