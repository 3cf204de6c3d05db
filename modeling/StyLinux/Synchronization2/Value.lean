import StyLinux.Lib.CValues
import StyLinux.Lib.Fuel
import StyLinux.Lib.MutexProgress

/-!
# A function that locks the mutex twice

`Synchronization2.c`: `dosomething` calls `modify` while it holds the recursive mutex `lock`, which
`modify` locks once more. Every read and write of `value` is an access of its own. Threads that
call the two functions are never stuck, and the final value does not depend on the order of their
steps.
-/

namespace StyLinux.Synchronization2

open Lib Lib.Prog
open scoped List

inductive Fault
  | overflow
  deriving DecidableEq, Repr

inductive Access
  | value
  | setValue (v : ℤ)
  deriving DecidableEq, Repr

/-- The type of what an access returns. -/
abbrev Access.Result : Access → Type
  | .value => ℤ
  | .setValue _ => Unit

def Access.exec : (x : Access) → ℤ → x.Result × ℤ
  | .value, v => (v, v)
  | .setValue v, _ => ((), v)

abbrev Code := Prog Access Access.Result Fault

def value : Code ℤ := perform Access.value

def setValue (v : ℤ) : Code Unit := perform (Access.setValue v)

/-- The value of an expression of type `int`. -/
def int (n : ℤ) : Code ℤ :=
  match asInt Fault.overflow n with
  | .ok n => pure n
  | .error e => fail e

/-- `if (value==100) value = 52;`. -/
def replaceValue : Code Unit := do
  let v ← value
  if v = 100 then setValue 52 else pure ()

def modify : Code Unit := do
  mutexLock
  replaceValue
  mutexUnlock
  pure ()

/-- `value = value + n;`. -/
def addToValue (n : ℤ) : Code Unit := do
  let v ← value
  let v ← int (v + n)
  setValue v

def dosomething : Code Unit := do
  mutexLock
  addToValue 10
  call modify
  addToValue (-10)
  mutexUnlock
  pure ()

inductive Call
  | modify
  | dosomething
  deriving DecidableEq, Repr

def code : Call → Code Unit
  | .modify => modify
  | .dosomething => dosomething

/-! ### Critical sections -/

lemma held_int (n : ℤ) : (int n).Held := by
  unfold int
  cases asInt Fault.overflow n with
  | ok n => exact .ret _
  | error e => exact .fail _

lemma held_addToValue (n : ℤ) : (addToValue n).Held :=
  .bind (.perform _) fun _ => .bind (held_int _) fun _ => .perform _

lemma held_replaceValue : replaceValue.Held := by
  refine .bind (.perform _) fun v => ?_
  split
  · exact .perform _
  · exact .ret _

/-- The critical section of `modify`. -/
lemma releases_modify :
    (replaceValue >>= fun _ => mutexUnlock >>= fun _ => pure () : Code Unit).Releases :=
  .bind held_replaceValue fun _ => .mutexUnlock ()

lemma held_modify : modify.Held := releases_modify.held

lemma outer_code (c : Call) : (code c).Outer := by
  cases c with
  | modify => exact releases_modify.outer
  | dosomething =>
    apply Releases.outer
    refine .bind (held_addToValue _) fun _ => .bind held_modify.call fun _ => ?_
    exact .bind (held_addToValue _) fun _ => .mutexUnlock _

/-! ### One call after another -/

/-- What a call makes of the value. -/
def Call.effect : Call → ℤ → ℤ
  | .modify, v => if v = 100 then 52 else v
  | .dosomething, v => if v = 90 then 42 else v

variable {v : ℤ}

@[simp] lemma effect_modify : Call.effect .modify v = if v = 100 then 52 else v := rfl

@[simp] lemma effect_dosomething : Call.effect .dosomething v = if v = 90 then 42 else v := rfl

lemma alone_int (hmin : INT_MIN ≤ v) (hmax : v ≤ INT_MAX) (w : ℤ) :
    (int v).alone Access.exec w = .ok (v, w) := by
  unfold int asInt
  rw [if_pos ⟨hmin, hmax⟩]
  rfl

lemma alone_addToValue {n : ℤ} (hmin : INT_MIN ≤ v + n) (hmax : v + n ≤ INT_MAX) :
    (addToValue n).alone Access.exec v = .ok ((), v + n) := by
  unfold addToValue value
  rw [alone_perform_bind, alone_bind]
  dsimp only [Access.exec]
  rw [alone_int hmin hmax]
  rfl

lemma alone_replaceValue (v : ℤ) :
    replaceValue.alone Access.exec v = .ok ((), Call.effect .modify v) := by
  unfold replaceValue value
  rw [alone_perform_bind]
  by_cases hv : v = 100
  · simp only [Access.exec, effect_modify, hv, if_true]
    rfl
  · simp only [Access.exec, effect_modify, hv, if_false]
    rfl

lemma alone_modify (v : ℤ) : modify.alone Access.exec v = .ok ((), Call.effect .modify v) := by
  unfold modify
  simp only [alone_bind, alone_mutexLock, alone_mutexUnlock, alone_pure, alone_replaceValue,
    ok_bind]

/-- Values to which 10 can be added. -/
def Small (v : ℤ) : Prop := INT_MIN ≤ v ∧ v + 10 ≤ INT_MAX

lemma Small.effect (h : Small v) (c : Call) : Small (c.effect v) := by
  unfold Small INT_MIN INT_MAX at *
  cases c with
  | modify =>
    rw [effect_modify]
    split <;> omega
  | dosomething =>
    rw [effect_dosomething]
    split <;> omega

lemma alone_dosomething (h : Small v) :
    dosomething.alone Access.exec v = .ok ((), Call.effect .dosomething v) := by
  have hadd : (addToValue 10).alone Access.exec v = .ok ((), v + 10) :=
    alone_addToValue (by have := h.1; omega) h.2
  have hback : (addToValue (-10)).alone Access.exec (Call.effect .modify (v + 10)) =
      .ok ((), Call.effect .dosomething v) := by
    have hvalue : Call.effect .modify (v + 10) + -10 = Call.effect .dosomething v := by
      rw [effect_modify, effect_dosomething]
      split_ifs <;> omega
    obtain ⟨hmin, hmax⟩ := h.effect .dosomething
    rw [alone_addToValue (by omega) (by omega), hvalue]
  unfold dosomething
  simp only [alone_bind, alone_mutexLock, alone_mutexUnlock, alone_pure, alone_call, alone_modify,
    hadd, hback, ok_bind]

lemma alone_code (h : Small v) (c : Call) :
    (code c).alone Access.exec v = .ok ((), c.effect v) := by
  cases c with
  | modify => exact alone_modify v
  | dosomething => exact alone_dosomething h

/-! ### Runs -/

/-- The value after the calls, in whichever order they are made: 90 becomes 100 and is replaced
within `dosomething` only, and 100 is replaced by the calls of `modify` from outside only. -/
def outcome (v : ℤ) (calls : List Call) : ℤ :=
  if v = 90 ∧ .dosomething ∈ calls then 42
  else if v = 100 ∧ .modify ∈ calls then 52
  else v

lemma outcome_cons (v : ℤ) (c : Call) (calls : List Call) :
    outcome v (c :: calls) = outcome (c.effect v) calls := by
  unfold outcome Call.effect
  cases c with
  | modify =>
    by_cases hv : v = 100
    · simp [hv]
    · simp [hv]
  | dosomething =>
    by_cases hv : v = 90
    · simp [hv]
    · simp [hv]

lemma outcome_perm {calls calls' : List Call} (h : calls ~ calls') (v : ℤ) :
    outcome v calls = outcome v calls' := by
  simp only [outcome, h.mem_iff]

/-- Threads that call the two functions. -/
abbrev Threads (ι : Type) := Lib.Threads ι Access Access.Result Fault Unit Call ℤ

variable {ι : Type} [DecidableEq ι]

/-- One step of one thread. -/
def Step : Threads ι → ThreadStep ι Call → Threads ι → Prop := Threads.Step code Access.exec

lemma outcome_of_serial {results : List (ℕ × Call × Unit)} {v' : ℤ} (h : Small v)
    (hserial : Threads.Serial code Access.exec v results v') :
    Small v' ∧ v' = outcome v (results.map fun x => x.2.1) := by
  induction results generalizing v with
  | nil =>
    cases hserial
    exact ⟨h, by simp [outcome]⟩
  | cons x results ih =>
    obtain ⟨w, hx, hserial⟩ := hserial
    rw [alone_code h] at hx
    cases hx
    rw [List.map_cons, outcome_cons]
    exact ih (h.effect x.2.1) hserial

/-- Whatever the order of the steps, a thread within one of the functions can go on or waits for
another one that can, the functions return after finitely many steps, and when the mutex is free
the value is the one that the calls so far give in any order. -/
theorem value_of_run [Finite ι] {v₀ : ℤ} (h : Small v₀)
    {run : List (ThreadStep ι Call × Threads ι)} (hrun : IsRun Step (Threads.init v₀) run) :
    Threads.Lively code Access.exec (lastState (Threads.init v₀) run) ∧
    ((lastState (Threads.init v₀) run).owner = none →
      (lastState (Threads.init v₀) run).shared =
        outcome v₀ ((lastState (Threads.init v₀) run).order.map Prod.snd)) ∧
    ((∀ t, (lastState (Threads.init v₀) run).running t = none) →
      (lastState (Threads.init v₀) run).shared = outcome v₀ (Threads.starts run)) := by
  refine ⟨?_, ?_, ?_⟩
  · refine Threads.lively_of_run outer_code hrun ?_
    intro results c w hserial _
    exact ⟨(), _, alone_code (outcome_of_serial h hserial).1 c⟩
  · intro hfree
    obtain ⟨results, hkeys, hserial, -⟩ :=
      (Threads.guarded_of_run outer_code v₀ hrun).explains hfree
    rw [← hkeys, Threads.map_key_snd]
    exact (outcome_of_serial h hserial).2
  · intro hrest
    obtain ⟨results, hserial, -, hcalls⟩ := Threads.serial_of_rest outer_code hrun hrest
    rw [(outcome_of_serial h hserial).2, outcome_perm hcalls]

/-- Two threads call `dosomething` with the value 90, and one of them waits for the other one. -/
def twoCalls : List (ThreadStep Bool Call) :=
  List.flatten [
    [.start true .dosomething, .start false .dosomething, .lock false],
    List.replicate 2 (.access false),
    [.enter false, .lock false, .access false, .access false, .unlock false, .leave false],
    List.replicate 2 (.access false),
    [.unlock false, .lock true, .ret false],
    List.replicate 2 (.access true),
    [.enter true, .lock true, .access true, .unlock true, .leave true],
    List.replicate 2 (.access true),
    [.unlock true, .ret true]]

def twoCallsRun : List (ThreadStep Bool Call × Threads Bool) :=
  runOf (Threads.next code Access.exec) (Threads.init 90) twoCalls

lemma isRun_twoCallsRun : IsRun Step (Threads.init 90) twoCallsRun :=
  (isRun_runOf _ _ _).imp fun _ _ _ => Threads.step_of_next _ _

theorem value_twoCallsRun : (lastState (Threads.init 90) twoCallsRun).shared = 42 := by
  have hrest : ∀ t, (lastState (Threads.init 90) twoCallsRun).running t = none := by
    simp only [← Option.isNone_iff_eq_none]
    decide +kernel
  exact (value_of_run (by unfold Small INT_MIN INT_MAX; omega) isRun_twoCallsRun).2.2 hrest

end StyLinux.Synchronization2
