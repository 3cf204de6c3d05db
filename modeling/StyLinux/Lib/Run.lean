import Mathlib.Tactic

/-!
# Runs of labelled transition systems

A run is the list of the labels taken together with the states they lead to. This file
has the invariant rule for runs whose steps meet a side condition, the rule which
characterises by that side condition the runs that visit good states only, and a rule for
facts that say which of two kinds of event came last.
-/

namespace StyLinux.Lib

variable {S O : Type*}

/-- `run` lists the labels and the target states of consecutive steps from `s`. -/
def IsRun (step : S → O → S → Prop) : S → List (O × S) → Prop
  | _, [] => True
  | s, x :: run => step s x.1 x.2 ∧ IsRun step x.2 run

/-- Every step of the run starts in a state and has a label that satisfy `C`. -/
def StepsMeet (C : S → O → Prop) : S → List (O × S) → Prop
  | _, [] => True
  | s, x :: run => C s x.1 ∧ StepsMeet C x.2 run

instance StepsMeet.decidable {C : S → O → Prop} [∀ s o, Decidable (C s o)] :
    ∀ (s : S) (run : List (O × S)), Decidable (StepsMeet C s run)
  | _, [] => isTrue trivial
  | s, x :: run =>
    have := StepsMeet.decidable (C := C) x.2 run
    inferInstanceAs (Decidable (C s x.1 ∧ StepsMeet C x.2 run))

def lastState : S → List (O × S) → S
  | s, [] => s
  | _, x :: run => lastState x.2 run

variable {step : S → O → S → Prop} {C : S → O → Prop}

@[simp] lemma isRun_nil (s : S) : IsRun step s [] := trivial

@[simp] lemma isRun_cons (s : S) (x : O × S) (run : List (O × S)) :
    IsRun step s (x :: run) ↔ step s x.1 x.2 ∧ IsRun step x.2 run := Iff.rfl

@[simp] lemma stepsMeet_nil (s : S) : StepsMeet C s [] := trivial

@[simp] lemma stepsMeet_cons (s : S) (x : O × S) (run : List (O × S)) :
    StepsMeet C s (x :: run) ↔ C s x.1 ∧ StepsMeet C x.2 run := Iff.rfl

@[simp] lemma lastState_nil (s : S) : lastState s ([] : List (O × S)) = s := rfl

@[simp] lemma lastState_cons (s : S) (x : O × S) (run : List (O × S)) :
    lastState s (x :: run) = lastState x.2 run := rfl

lemma lastState_append (s : S) (run run' : List (O × S)) :
    lastState s (run ++ run') = lastState (lastState s run) run' := by
  induction run generalizing s with
  | nil => rfl
  | cons x run ih => exact ih x.2

lemma isRun_append (s : S) (run run' : List (O × S)) :
    IsRun step s (run ++ run') ↔ IsRun step s run ∧ IsRun step (lastState s run) run' := by
  induction run generalizing s with
  | nil => simp
  | cons x run ih => simp [ih, and_assoc]

lemma stepsMeet_append (s : S) (run run' : List (O × S)) :
    StepsMeet C s (run ++ run') ↔ StepsMeet C s run ∧ StepsMeet C (lastState s run) run' := by
  induction run generalizing s with
  | nil => simp
  | cons x run ih => simp [ih, and_assoc]

lemma StepsMeet.imp {C' : S → O → Prop} (hC : ∀ s o, C s o → C' s o) {s : S}
    {run : List (O × S)} (h : StepsMeet C s run) : StepsMeet C' s run := by
  induction run generalizing s with
  | nil => trivial
  | cons x run ih => exact ⟨hC s x.1 h.1, ih h.2⟩

lemma stepsMeet_of_forall (hC : ∀ s o, C s o) (s : S) (run : List (O × S)) :
    StepsMeet C s run := by
  induction run generalizing s with
  | nil => trivial
  | cons x run ih => exact ⟨hC s x.1, ih x.2⟩

lemma stepsMeet_and {C' : S → O → Prop} {s : S} {run : List (O × S)} :
    StepsMeet (fun s o => C s o ∧ C' s o) s run ↔ StepsMeet C s run ∧ StepsMeet C' s run := by
  induction run generalizing s with
  | nil => simp
  | cons x run ih =>
    simp only [stepsMeet_cons, ih]
    tauto

lemma IsRun.imp {step' : S → O → S → Prop} (h : ∀ s o s', step s o s' → step' s o s') {s : S}
    {run : List (O × S)} (hrun : IsRun step s run) : IsRun step' s run := by
  induction run generalizing s with
  | nil => trivial
  | cons x run ih => exact ⟨h _ _ _ hrun.1, ih hrun.2⟩

/-- The run of a partial step function over the given labels, up to the first one without a
step. -/
def runOf (f : S → O → Option S) : S → List O → List (O × S)
  | _, [] => []
  | s, o :: os =>
    match f s o with
    | none => []
    | some s' => (o, s') :: runOf f s' os

lemma isRun_runOf (f : S → O → Option S) (s : S) (os : List O) :
    IsRun (fun s o s' => f s o = some s') s (runOf f s os) := by
  induction os generalizing s with
  | nil => trivial
  | cons o os ih =>
    unfold runOf
    cases h : f s o with
    | none => trivial
    | some s' => exact ⟨h, ih s'⟩

section Invariants

variable {I P : S → Prop}

/-- What holds at the start and is kept by every step that meets the side condition holds at
the end of a run whose steps all meet it. -/
theorem IsRun.invariant_last (hstep : ∀ s o s', I s → C s o → step s o s' → I s')
    {s : S} {run : List (O × S)} (hs : I s) (hrun : IsRun step s run)
    (hC : StepsMeet C s run) : I (lastState s run) := by
  induction run generalizing s with
  | nil => exact hs
  | cons x run ih => exact ih (hstep s x.1 x.2 hs hC.1 hrun.1) hrun.2 hC.2

/-- Let the steps of a run all meet `D`. If, from invariant states, the steps that also meet
`C` keep the invariant and lead to a good state while the others lead to a bad one, then the
run visits good states only exactly when all its steps meet `C`. -/
theorem IsRun.forall_iff_stepsMeet {D : S → O → Prop}
    (hgood : ∀ s o s', I s → D s o → C s o → step s o s' → I s' ∧ P s')
    (hbad : ∀ s o s', I s → D s o → ¬C s o → step s o s' → ¬P s')
    {s : S} {run : List (O × S)} (hs : I s) (hrun : IsRun step s run) (hD : StepsMeet D s run) :
    (∀ x ∈ run, P x.2) ↔ StepsMeet C s run := by
  induction run generalizing s with
  | nil => simp
  | cons x run ih =>
    rw [List.forall_mem_cons, stepsMeet_cons]
    by_cases hC : C s x.1
    · obtain ⟨hi, hp⟩ := hgood s x.1 x.2 hs hD.1 hC hrun.1
      rw [ih hi hrun.2 hD.2]
      simp [hp, hC]
    · have hp := hbad s x.1 x.2 hs hD.1 hC hrun.1
      simp [hp, hC]

/-- The invariant rule for step relations that keep the invariant in every step they take. -/
theorem IsRun.invariant (hstep : ∀ s o s', I s → step s o s' → I s') {s : S}
    {run : List (O × S)} (hs : I s) (hrun : IsRun step s run) : I (lastState s run) := by
  induction run generalizing s with
  | nil => exact hs
  | cons x run ih => exact ih (hstep s x.1 x.2 hs hrun.1) hrun.2

end Invariants

/-- If every step lowers the measure, it bounds how long a run can be. -/
theorem IsRun.length_add_le {μ : S → ℕ} (hstep : ∀ s o s', step s o s' → μ s' < μ s) {s : S}
    {run : List (O × S)} (hrun : IsRun step s run) : run.length + μ (lastState s run) ≤ μ s := by
  induction run generalizing s with
  | nil => simp
  | cons x run ih =>
    have hlt := hstep s x.1 x.2 hrun.1
    have hle := ih hrun.2
    rw [List.length_cons, lastState_cons]
    omega

lemma IsRun.and_stepsMeet {s : S} {run : List (O × S)} (hrun : IsRun step s run)
    (hC : StepsMeet C s run) : IsRun (fun s o s' => step s o s' ∧ C s o) s run := by
  induction run generalizing s with
  | nil => trivial
  | cons x run ih => exact ⟨⟨hrun.1, hC.1⟩, ih hrun.2 hC.2⟩

/-! ### Past events -/

lemma lastState_concat (s : S) (run : List (O × S)) (x : O × S) :
    lastState s (run ++ [x]) = x.2 :=
  lastState_append s run [x]

/-- Some step of the run is an event of kind `P`, and no later one is of kind `Q`. -/
def Since (P : S → O → Prop) (Q : O → Prop) (s : S) (run : List (O × S)) : Prop :=
  ∃ pre x post, run = pre ++ x :: post ∧ P (lastState s pre) x.1 ∧ ∀ y ∈ post, ¬Q y.1

section Since

variable {P : S → O → Prop} {Q : O → Prop}

lemma not_since_nil (s : S) : ¬Since P Q s [] := by
  rintro ⟨pre, x, post, h, -⟩
  simp at h

lemma since_concat (s : S) (run : List (O × S)) (x : O × S) :
    Since P Q s (run ++ [x]) ↔ P (lastState s run) x.1 ∨ ¬Q x.1 ∧ Since P Q s run := by
  constructor
  · rintro ⟨pre, y, post, h, hP, hQ⟩
    rcases List.eq_nil_or_concat' post with rfl | ⟨post, z, rfl⟩
    · obtain ⟨rfl, hx⟩ := List.append_inj' h rfl
      cases hx
      exact .inl hP
    · rw [← List.cons_append, ← List.append_assoc] at h
      obtain ⟨rfl, hx⟩ := List.append_inj' h rfl
      cases hx
      exact .inr ⟨hQ x (by simp), pre, y, post, rfl, hP, fun z hz => hQ z (by simp [hz])⟩
  · rintro (hP | ⟨hx, pre, y, post, rfl, hP, hQ⟩)
    · exact ⟨run, x, [], rfl, hP, by simp⟩
    · refine ⟨pre, y, post ++ [x], by simp, hP, ?_⟩
      intro z hz
      rcases List.mem_append.mp hz with hz | hz
      · exact hQ z hz
      · rw [List.mem_singleton.mp hz]
        exact hx

/-- Let `A` be a fact about the states in `R`. If an event of kind `P` makes it true, one of
kind `Q` alone makes it false and every other step into `R` keeps it, then it says of the last
state whether there has been a `P` since the last `Q`. -/
theorem IsRun.iff_since {I R A : S → Prop}
    (hstep : ∀ s o s', I s → C s o → step s o s' → I s' ∧
      (R s' → (A s' ↔ P s o ∨ ¬Q o ∧ A s) ∧ (¬Q o → R s)))
    {s : S} (hs : I s) (hA : R s → ¬A s) {run : List (O × S)} (hrun : IsRun step s run)
    (hC : StepsMeet C s run) (hR : R (lastState s run)) :
    A (lastState s run) ↔ Since P Q s run := by
  suffices I (lastState s run) ∧
      (R (lastState s run) → (A (lastState s run) ↔ Since P Q s run)) from this.2 hR
  clear hR
  induction run using List.reverseRecOn with
  | nil => exact ⟨hs, fun hR => iff_of_false (hA hR) (not_since_nil s)⟩
  | append_singleton run x ih =>
    obtain ⟨hrun, hx, -⟩ := (isRun_append _ _ _).mp hrun
    obtain ⟨hC, hCx, -⟩ := (stepsMeet_append _ _ _).mp hC
    obtain ⟨hi, hbefore⟩ := ih hrun hC
    obtain ⟨hi', hafter⟩ := hstep _ x.1 x.2 hi hCx hx
    rw [lastState_concat, since_concat]
    refine ⟨hi', fun hR' => ?_⟩
    obtain ⟨hA', hkept⟩ := hafter hR'
    rw [hA']
    by_cases hQ : Q x.1
    · simp [hQ]
    · simp [hQ, hbefore (hkept hQ)]

end Since

end StyLinux.Lib
