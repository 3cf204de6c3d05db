import Mathlib.Tactic
import StyLinux.Lib.Fuel
import StyLinux.Lib.Run

/-!
# Simulation of a machine by a specification

A machine answers each input with an output or fails; a specification always answers. When
every admissible input is answered alike in related states, which stay related, the machine
answers every admissible list of inputs as the specification does and never fails.
-/

namespace StyLinux.Lib

variable {S A I O E : Type*}

/-- The outputs of a machine for a list of inputs, with its last state. -/
def exec (step : S → I → Except E (O × S)) : S → List I → Except E (List O × S)
  | s, [] => .ok ([], s)
  | s, i :: is => do
    let (o, s) ← step s i
    let (os, s) ← exec step s is
    pure (o :: os, s)

/-- The run of a machine for a list of inputs, up to the first one without an answer. A label is an
input with its output. -/
def traceOf (step : S → I → Except E (O × S)) : S → List I → List ((I × O) × S)
  | _, [] => []
  | s, i :: is =>
    match step s i with
    | .error _ => []
    | .ok (o, s') => ((i, o), s') :: traceOf step s' is

/-- The outputs of a specification for a list of inputs, with its last state. -/
def execSpec (spec : A → I → O × A) : A → List I → List O × A
  | a, [] => ([], a)
  | a, i :: is =>
    let (os, a') := execSpec spec (spec a i).2 is
    ((spec a i).1 :: os, a')

/-- Each input is admissible in the state that the machine is in when it comes. -/
def Admits (step : S → I → Except E (O × S)) (C : S → I → Prop) : S → List I → Prop
  | _, [] => True
  | s, i :: is => C s i ∧ ∀ o s', step s i = .ok (o, s') → Admits step C s' is

variable {step : S → I → Except E (O × S)} {spec : A → I → O × A} {C : S → I → Prop}
  {R : A → S → Prop}

lemma isRun_traceOf (s : S) (is : List I) :
    IsRun (fun s x s' => step s x.1 = .ok (x.2, s')) s (traceOf step s is) := by
  induction is generalizing s with
  | nil => trivial
  | cons i is ih =>
    unfold traceOf
    cases h : step s i with
    | error e => trivial
    | ok x => exact ⟨h, ih x.2⟩

@[simp] lemma exec_nil (s : S) : exec step s [] = .ok ([], s) := rfl

lemma admits_of_forall (hC : ∀ s i, C s i) (s : S) (is : List I) : Admits step C s is := by
  induction is generalizing s with
  | nil => trivial
  | cons i is ih => exact ⟨hC s i, fun _ s' _ => ih s'⟩

lemma exec_cons_ok {s s' s'' : S} {i : I} {is : List I} {o : O} {os : List O}
    (hi : step s i = .ok (o, s')) (his : exec step s' is = .ok (os, s'')) :
    exec step s (i :: is) = .ok (o :: os, s'') := by
  simp only [exec, hi, his, Bind.bind, Except.bind]
  rfl

lemma exec_cons_error {s : S} {i : I} {is : List I} {e : E} (hi : step s i = .error e) :
    exec step s (i :: is) = .error e := by
  simp only [exec, hi, Bind.bind, Except.bind]

lemma exec_cons_eq_error {s s' : S} {i : I} {is : List I} {o : O} {e : E}
    (hi : step s i = .ok (o, s')) :
    exec step s (i :: is) = .error e ↔ exec step s' is = .error e := by
  simp only [exec, hi, Bind.bind, Except.bind]
  cases exec step s' is with
  | error e' => rfl
  | ok x => exact iff_of_false (fun h => by cases h) (fun h => by cases h)

/-- Let admissible inputs keep `J`, and let those of them that end in a fault of kind `F` be the
ones that do not meet `D`. Then a list of inputs ends in no such fault exactly if each of its
inputs meets `D` when it comes. -/
theorem exec_ne_error_iff {J : S → Prop} {D : S → I → Prop} {F : E → Prop}
    (hkeep : ∀ s i o s', J s → C s i → step s i = .ok (o, s') → J s')
    (hfault : ∀ s i, J s → C s i → ((∀ e, F e → step s i ≠ .error e) ↔ D s i))
    {s : S} {is : List I} (hs : J s) (hC : Admits step C s is) :
    (∀ e, F e → exec step s is ≠ .error e) ↔ Admits step D s is := by
  induction is generalizing s with
  | nil => simp [Admits]
  | cons i is ih =>
    have hi := hfault s i hs hC.1
    cases hstep : step s i with
    | error e =>
      have hrest : ∀ o s', step s i = .ok (o, s') → Admits step D s' is := by
        simp [hstep]
      rw [Admits, and_iff_left hrest, ← hi, hstep]
      simp only [exec_cons_error hstep, ne_eq, Except.error.injEq]
    | ok x =>
      obtain ⟨o, s'⟩ := x
      have hrest := ih (hkeep s i o s' hs hC.1 hstep) (hC.2 o s' hstep)
      have hD : D s i := hi.mp (by simp [hstep])
      have hadmits : Admits step D s (i :: is) ↔ Admits step D s' is := by
        constructor
        · exact fun h => h.2 o s' hstep
        · intro h
          refine ⟨hD, ?_⟩
          intro o' s'' heq
          rw [hstep] at heq
          cases heq
          exact h
      rw [hadmits, ← hrest]
      simp only [ne_eq, exec_cons_eq_error hstep]

/-- A run of a machine whose answers are those of a specification. -/
theorem IsRun.follows (hstep : ∀ a s i, R a s → ∃ s', step s i = .ok ((spec a i).1, s') ∧
      R (spec a i).2 s')
    {a : A} {s : S} {run : List ((I × O) × S)} (hR : R a s)
    (hrun : IsRun (fun s x s' => step s x.1 = .ok (x.2, s')) s run) :
    run.map (fun x => x.1.2) = (execSpec spec a (run.map fun x => x.1.1)).1 ∧
      R (execSpec spec a (run.map fun x => x.1.1)).2 (lastState s run) := by
  induction run generalizing a s with
  | nil => exact ⟨rfl, hR⟩
  | cons x run ih =>
    obtain ⟨s', hs', hR'⟩ := hstep a s x.1.1 hR
    obtain ⟨hx, hrun⟩ := hrun
    obtain ⟨ho, hs⟩ := Prod.mk.inj (Except.ok.inj (hs'.symm.trans hx))
    rw [hs] at hR'
    obtain ⟨hos, hlast⟩ := ih hR' hrun
    simp only [List.map_cons, execSpec, hos, ho]
    exact ⟨trivial, hlast⟩

/-- The simulation rule. -/
theorem exec_simulates
    (hstep : ∀ a s i, R a s → C s i → ∃ s', step s i = .ok ((spec a i).1, s') ∧
      R (spec a i).2 s')
    {a : A} {s : S} {is : List I} (hR : R a s) (hC : Admits step C s is) :
    ∃ s', exec step s is = .ok ((execSpec spec a is).1, s') ∧ R (execSpec spec a is).2 s' := by
  induction is generalizing a s with
  | nil => exact ⟨s, rfl, hR⟩
  | cons i is ih =>
    obtain ⟨s', hs', hR'⟩ := hstep a s i hR hC.1
    obtain ⟨s'', hs'', hR''⟩ := ih hR' (hC.2 _ _ hs')
    exact ⟨s'', exec_cons_ok hs' hs'', hR''⟩

end StyLinux.Lib
