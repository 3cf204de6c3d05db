import StyLinux.Lib.Prog
import StyLinux.Lib.Run

/-!
# Threads that share a recursive mutex

Any number of threads run programs with accesses to a shared state, one call after the other, in
any interleaving of their steps. If all programs make their accesses within one critical section,
only the owner of the mutex accesses the shared state, and the calls have the effects and results
of their execution one after another, in the order in which they first acquired the mutex.
-/

namespace StyLinux.Lib

/-- A call that a thread is executing: its number, the mutex depths at the entries of the call
and of the nested calls, and the rest of the program. -/
structure Running (A : Type) (R : A → Type) (ε α C : Type) where
  id : ℕ
  call : C
  entries : List ℕ
  rest : Prog A R ε α

/-- The shared state, the mutex, and the threads; further how many calls have begun, the calls
in the order in which they first acquired the mutex, and the calls that have returned. -/
structure Threads (ι A : Type) (R : A → Type) (ε α C S : Type) where
  shared : S
  owner : Option ι
  depth : ℕ
  running : ι → Option (Running A R ε α C)
  started : ℕ
  order : List (ℕ × C)
  returned : List (ℕ × C × α)

inductive ThreadStep (ι C : Type)
  | start (t : ι) (c : C)
  | lock (t : ι)
  | unlock (t : ι)
  | access (t : ι)
  | enter (t : ι)
  | leave (t : ι)
  | ret (t : ι)

namespace Threads

variable {ι A : Type} {R : A → Type} {ε α C S : Type} [DecidableEq ι]

def init (s : S) : Threads ι A R ε α C S where
  shared := s
  owner := none
  depth := 0
  running := fun _ => none
  started := 0
  order := []
  returned := []

/-- The mutex depth of a thread. -/
def held (s : Threads ι A R ε α C S) (t : ι) : ℕ := if s.owner = some t then s.depth else 0

def setRest (s : Threads ι A R ε α C S) (t : ι) (r : Running A R ε α C) (k : Prog A R ε α) :
    Threads ι A R ε α C S :=
  { s with running := Function.update s.running t (some { r with rest := k }) }

variable (code : C → Prog A R ε α) (exec : (x : A) → S → R x × S)

/-- One step of one thread. -/
inductive Step : Threads ι A R ε α C S → ThreadStep ι C → Threads ι A R ε α C S → Prop
  | start (s : Threads ι A R ε α C S) (t : ι) (c : C) : s.running t = none →
      Step s (.start t c)
        { s with
          running := Function.update s.running t (some ⟨s.started, c, [s.held t], code c⟩)
          started := s.started + 1 }
  | lock (s : Threads ι A R ε α C S) (t : ι) (r : Running A R ε α C) (k : Prog A R ε α) :
      s.running t = some r → r.rest = .lock k → s.owner = none ∨ s.owner = some t →
      Step s (.lock t)
        { s.setRest t r k with
          owner := some t
          depth := s.held t + 1
          order := if r.id ∈ s.order.map Prod.fst then s.order else s.order ++ [(r.id, r.call)] }
  | unlock (s : Threads ι A R ε α C S) (t : ι) (r : Running A R ε α C) (k : Prog A R ε α) :
      s.running t = some r → r.rest = .unlock k → s.owner = some t →
      Step s (.unlock t)
        { s.setRest t r k with
          owner := if s.depth = 1 then none else some t
          depth := s.depth - 1 }
  | unlockOther (s : Threads ι A R ε α C S) (t : ι) (r : Running A R ε α C) (k : Prog A R ε α) :
      -- the mutex refuses to be unlocked by a thread that does not own it
      s.running t = some r → r.rest = .unlock k → s.owner ≠ some t →
      Step s (.unlock t) (s.setRest t r k)
  | access (s : Threads ι A R ε α C S) (t : ι) (r : Running A R ε α C) (x : A)
      (k : R x → Prog A R ε α) : s.running t = some r → r.rest = .access x k →
      Step s (.access t)
        { s.setRest t r (k (exec x s.shared).1) with shared := (exec x s.shared).2 }
  | enter (s : Threads ι A R ε α C S) (t : ι) (r : Running A R ε α C) (k : Prog A R ε α) :
      s.running t = some r → r.rest = .enter k →
      Step s (.enter t) (s.setRest t { r with entries := s.held t :: r.entries } k)
  | leave (s : Threads ι A R ε α C S) (t : ι) (r : Running A R ε α C) (k : Prog A R ε α) :
      s.running t = some r → r.rest = .leave k →
      Step s (.leave t) (s.setRest t { r with entries := r.entries.tail } k)
  | ret (s : Threads ι A R ε α C S) (t : ι) (r : Running A R ε α C) (a : α) :
      s.running t = some r → r.rest = .ret a →
      Step s (.ret t)
        { s with
          running := Function.update s.running t none
          returned := s.returned ++ [(r.id, r.call, a)] }

/-- The step of a thread as a partial function. -/
def next (s : Threads ι A R ε α C S) : ThreadStep ι C → Option (Threads ι A R ε α C S)
  | .start t c =>
    if (s.running t).isNone then
      some { s with
        running := Function.update s.running t (some ⟨s.started, c, [s.held t], code c⟩)
        started := s.started + 1 }
    else none
  | .lock t => (s.running t).bind fun r =>
    match r.rest with
    | .lock k =>
      if s.owner = none ∨ s.owner = some t then
        some { s.setRest t r k with
          owner := some t
          depth := s.held t + 1
          order := if r.id ∈ s.order.map Prod.fst then s.order else s.order ++ [(r.id, r.call)] }
      else none
    | _ => none
  | .unlock t => (s.running t).bind fun r =>
    match r.rest with
    | .unlock k =>
      if s.owner = some t then
        some { s.setRest t r k with
          owner := if s.depth = 1 then none else some t
          depth := s.depth - 1 }
      else some (s.setRest t r k)
    | _ => none
  | .access t => (s.running t).bind fun r =>
    match r.rest with
    | .access x k =>
      some { s.setRest t r (k (exec x s.shared).1) with shared := (exec x s.shared).2 }
    | _ => none
  | .enter t => (s.running t).bind fun r =>
    match r.rest with
    | .enter k => some (s.setRest t { r with entries := s.held t :: r.entries } k)
    | _ => none
  | .leave t => (s.running t).bind fun r =>
    match r.rest with
    | .leave k => some (s.setRest t { r with entries := r.entries.tail } k)
    | _ => none
  | .ret t => (s.running t).bind fun r =>
    match r.rest with
    | .ret a =>
      some { s with
        running := Function.update s.running t none
        returned := s.returned ++ [(r.id, r.call, a)] }
    | _ => none

lemma step_of_next {s s' : Threads ι A R ε α C S} {x : ThreadStep ι C}
    (h : s.next code exec x = some s') : Step code exec s x s' := by
  cases x with
  | start t c =>
    simp only [next, Option.ite_none_right_eq_some, Option.isNone_iff_eq_none] at h
    obtain ⟨hnone, h⟩ := h
    cases h
    exact .start s t c hnone
  | lock t =>
    obtain ⟨r, hr, h⟩ := Option.bind_eq_some_iff.mp h
    split at h
    · rename_i k hrest
      split at h
      · rename_i hfree
        cases h
        exact .lock s t r k hr hrest hfree
      · cases h
    · cases h
  | unlock t =>
    obtain ⟨r, hr, h⟩ := Option.bind_eq_some_iff.mp h
    split at h
    · rename_i k hrest
      split at h
      · rename_i hown
        cases h
        exact .unlock s t r k hr hrest hown
      · rename_i hown
        cases h
        exact .unlockOther s t r k hr hrest hown
    · cases h
  | access t =>
    obtain ⟨r, hr, h⟩ := Option.bind_eq_some_iff.mp h
    split at h
    · rename_i x k hrest
      cases h
      exact .access s t r x k hr hrest
    · cases h
  | enter t =>
    obtain ⟨r, hr, h⟩ := Option.bind_eq_some_iff.mp h
    split at h
    · rename_i k hrest
      cases h
      exact .enter s t r k hr hrest
    · cases h
  | leave t =>
    obtain ⟨r, hr, h⟩ := Option.bind_eq_some_iff.mp h
    split at h
    · rename_i k hrest
      cases h
      exact .leave s t r k hr hrest
    · cases h
  | ret t =>
    obtain ⟨r, hr, h⟩ := Option.bind_eq_some_iff.mp h
    split at h
    · rename_i a hrest
      cases h
      exact .ret s t r a hr hrest
    · cases h

/-! ### Serial executions -/

/-- The calls one after another, from `s`, have the given results and lead to `s'`. -/
def Serial : S → List (ℕ × C × α) → S → Prop
  | s, [], s' => s = s'
  | s, x :: results, s' =>
    ∃ s₁, (code x.2.1).alone exec s = .ok (x.2.2, s₁) ∧ Serial s₁ results s'

/-- The number and the call of a result. -/
def key (x : ℕ × C × α) : ℕ × C := (x.1, x.2.1)

/-- The results of calls are those of an execution in the order in which the calls first acquired
the mutex, or, for calls that never did, the same from every state. -/
def Explains (s₀ : S) (s : Threads ι A R ε α C S) : Prop :=
  ∃ results, results.map key = s.order ∧ Serial code exec s₀ results s.shared ∧
    ∀ x ∈ s.returned, x ∈ results ∨
      x.1 ∉ s.order.map Prod.fst ∧ ∀ s, (code x.2.1).alone exec s = .ok (x.2.2, s)

/-! ### Numbers of calls -/

/-- The calls that are running, have acquired the mutex or have returned have been numbered. -/
structure Numbered (s : Threads ι A R ε α C S) : Prop where
  running : ∀ t r, s.running t = some r → r.id < s.started
  order : ∀ x ∈ s.order, x.1 < s.started
  returned : ∀ x ∈ s.returned, x.1 < s.started ∧ ∀ t r, s.running t = some r → r.id ≠ x.1
  distinct : ∀ t t' r r', s.running t = some r → s.running t' = some r' → r.id = r'.id → t = t'

variable {code exec} {s s' : Threads ι A R ε α C S} {t t' : ι} {r r' : Running A R ε α C}
  {k : Prog A R ε α} {s₀ s₁ : S} {results : List (ℕ × C × α)}

lemma update_eq_some {f : ι → Option (Running A R ε α C)} {x : Option (Running A R ε α C)}
    (h : Function.update f t x t' = some r') : t' = t ∧ x = some r' ∨ t' ≠ t ∧ f t' = some r' := by
  by_cases ht : t' = t
  · subst ht
    rw [Function.update_self] at h
    exact .inl ⟨rfl, h⟩
  · rw [Function.update_of_ne ht] at h
    exact .inr ⟨ht, h⟩

/-- A thread goes on with its call. -/
lemma Numbered.setRest (hs : Numbered s) (hr : s.running t = some r) (hid : r'.id = r.id) :
    Numbered (s.setRest t r' k) := by
  have hrunning : ∀ u q, (s.setRest t r' k).running u = some q →
      ∃ q', s.running u = some q' ∧ q'.id = q.id := by
    intro u q hq
    rcases update_eq_some hq with ⟨rfl, h⟩ | ⟨-, h⟩
    · cases h
      exact ⟨r, hr, hid.symm⟩
    · exact ⟨q, h, rfl⟩
  refine ⟨?_, hs.order, ?_, ?_⟩
  · intro u q hq
    obtain ⟨q', hq', he⟩ := hrunning u q hq
    exact he ▸ hs.running u q' hq'
  · intro x hx
    refine ⟨(hs.returned x hx).1, ?_⟩
    intro u q hq
    obtain ⟨q', hq', he⟩ := hrunning u q hq
    exact he ▸ (hs.returned x hx).2 u q' hq'
  · intro u v q p hq hp he
    obtain ⟨q', hq', heq⟩ := hrunning u q hq
    obtain ⟨p', hp', hep⟩ := hrunning v p hp
    exact hs.distinct u v q' p' hq' hp' (heq.trans (he.trans hep.symm))

lemma Numbered.start (hs : Numbered s) (t : ι) (c : C) :
    Numbered { s with
      running := Function.update s.running t (some ⟨s.started, c, [s.held t], code c⟩)
      started := s.started + 1 } := by
  refine ⟨?_, ?_, ?_, ?_⟩
  · intro u q hq
    rcases update_eq_some hq with ⟨-, h⟩ | ⟨-, h⟩
    · cases h
      exact Nat.lt_succ_self _
    · exact (hs.running u q h).trans (Nat.lt_succ_self _)
  · exact fun x hx => (hs.order x hx).trans (Nat.lt_succ_self _)
  · intro x hx
    obtain ⟨hlt, hne⟩ := hs.returned x hx
    refine ⟨hlt.trans (Nat.lt_succ_self _), ?_⟩
    intro u q hq
    rcases update_eq_some hq with ⟨-, h⟩ | ⟨-, h⟩
    · cases h
      exact hlt.ne'
    · exact hne u q h
  · intro u v q p hq hp he
    rcases update_eq_some hq with ⟨rfl, h⟩ | ⟨-, h⟩
    · cases h
      rcases update_eq_some hp with ⟨rfl, -⟩ | ⟨-, h'⟩
      · rfl
      · exact absurd he (hs.running v p h').ne'
    · rcases update_eq_some hp with ⟨rfl, h'⟩ | ⟨-, h'⟩
      · cases h'
        exact absurd he (hs.running u q h).ne
      · exact hs.distinct u v q p h h' he

lemma Numbered.ret (hs : Numbered s) (hr : s.running t = some r) (a : α) :
    Numbered { s with
      running := Function.update s.running t none
      returned := s.returned ++ [(r.id, r.call, a)] } := by
  have hrunning : ∀ u q, Function.update s.running t none u = some q →
      u ≠ t ∧ s.running u = some q := by
    intro u q hq
    rcases update_eq_some hq with ⟨-, h⟩ | h
    · cases h
    · exact h
  refine ⟨?_, hs.order, ?_, ?_⟩
  · exact fun u q hq => hs.running u q (hrunning u q hq).2
  · intro x hx
    rcases List.mem_append.mp hx with hx | hx
    · refine ⟨(hs.returned x hx).1, ?_⟩
      exact fun u q hq => (hs.returned x hx).2 u q (hrunning u q hq).2
    · rw [List.mem_singleton.mp hx]
      refine ⟨hs.running t r hr, ?_⟩
      intro u q hq he
      obtain ⟨hne, hq⟩ := hrunning u q hq
      exact hne (hs.distinct u t q r hq hr he)
  · exact fun u v q p hq hp =>
      hs.distinct u v q p (hrunning u q hq).2 (hrunning v p hp).2

lemma Numbered.step (hs : Numbered s) {x : ThreadStep ι C} (hstep : Step code exec s x s') :
    Numbered s' := by
  cases hstep with
  | start t c hnone => exact hs.start t c
  | lock t r k hr hrest hfree =>
    have hset := hs.setRest (k := k) hr rfl
    refine ⟨hset.running, ?_, hset.returned, hset.distinct⟩
    intro x hx
    dsimp only at hx
    split at hx
    · exact hs.order x hx
    · rcases List.mem_append.mp hx with hx | hx
      · exact hs.order x hx
      · rw [List.mem_singleton.mp hx]
        exact hs.running t r hr
  | unlock t r k hr hrest hown =>
    have hset := hs.setRest (k := k) hr rfl
    exact ⟨hset.running, hset.order, hset.returned, hset.distinct⟩
  | unlockOther t r k hr hrest hown => exact hs.setRest hr rfl
  | access t r x k hr hrest =>
    have hset := hs.setRest (k := k (exec x s.shared).1) hr rfl
    exact ⟨hset.running, hset.order, hset.returned, hset.distinct⟩
  | enter t r k hr hrest => exact hs.setRest hr rfl
  | leave t r k hr hrest => exact hs.setRest hr rfl
  | ret t r a hr hrest => exact hs.ret hr a

/-! ### Places of threads -/

variable (code exec)

/-- How far a thread is in its call. The calls behind `results` have been executed and have led
to the state `s₁`; the call in the critical section, if there is one, goes on from there. -/
inductive Place (results : List (ℕ × C × α)) (s₁ : S) (s : Threads ι A R ε α C S) (t : ι)
    (r : Running A R ε α C) : Prop
  | before : r.rest = code r.call → r.entries = [0] → s.owner ≠ some t →
      r.id ∉ s.order.map Prod.fst → Place results s₁ s t r
  | inside (n : ℕ) : s.owner = some t → s.depth = n + 1 →
      r.rest.Safe (fun _ => Prog.Final) (.inside n) r.entries →
      s.order = results.map key ++ [(r.id, r.call)] →
      (code r.call).alone exec s₁ = r.rest.alone exec s.shared → Place results s₁ s t r
  | after (a : α) : r.rest = .ret a → r.entries = [0] → s.owner ≠ some t →
      (r.id, r.call, a) ∈ results → Place results s₁ s t r

structure Ordered (s₀ : S) (results : List (ℕ × C × α)) (s₁ : S) (s : Threads ι A R ε α C S) :
    Prop where
  serial : Serial code exec s₀ results s₁
  free : s.owner = none → s.order = results.map key ∧ s.shared = s₁
  idle : ∀ t, s.running t = none → s.owner ≠ some t
  place : ∀ t r, s.running t = some r → Place code exec results s₁ s t r
  returned : ∀ x ∈ s.returned, x ∈ results ∨
    x.1 ∉ s.order.map Prod.fst ∧ ∀ s, (code x.2.1).alone exec s = .ok (x.2.2, s)

variable {code exec}

lemma serial_append {results' : List (ℕ × C × α)} {s₂ : S} :
    Serial code exec s₀ (results ++ results') s₂ ↔
      ∃ s₁, Serial code exec s₀ results s₁ ∧ Serial code exec s₁ results' s₂ := by
  induction results generalizing s₀ with
  | nil => simp [Serial]
  | cons x results ih =>
    simp only [List.cons_append, Serial, ih]
    constructor
    · rintro ⟨s, hx, s₁, hs, hs'⟩
      exact ⟨s₁, ⟨s, hx, hs⟩, hs'⟩
    · rintro ⟨s₁, ⟨s, hx, hs⟩, hs'⟩
      exact ⟨s, hx, s₁, hs, hs'⟩

omit [DecidableEq ι] in
lemma Place.congr (h : Place code exec results s₁ s t r) (howner : s'.owner = s.owner)
    (hdepth : s'.depth = s.depth) (horder : s'.order = s.order) (hshared : s'.shared = s.shared) :
    Place code exec results s₁ s' t r := by
  cases h with
  | before hrest hentries hown hid => exact .before hrest hentries (howner ▸ hown) (horder ▸ hid)
  | inside n hown hd hsafe ho halone =>
    exact .inside n (howner.trans hown) (hdepth.trans hd) hsafe (horder.trans ho)
      (hshared.symm ▸ halone)
  | after a hrest hentries hown hmem => exact .after a hrest hentries (howner ▸ hown) hmem

omit [DecidableEq ι] in
/-- A thread that does not own the mutex does not see what the others do. -/
lemma Place.outside {results' : List (ℕ × C × α)} {s₂ : S}
    (h : Place code exec results s₁ s t r) (hown : s.owner ≠ some t) (hown' : s'.owner ≠ some t)
    (hid : r.id ∉ s.order.map Prod.fst → r.id ∉ s'.order.map Prod.fst)
    (hresults : results ⊆ results') : Place code exec results' s₂ s' t r := by
  cases h with
  | before hrest hentries _ ho => exact .before hrest hentries hown' (hid ho)
  | inside n ho => exact absurd ho hown
  | after a hrest hentries _ hmem => exact .after a hrest hentries hown' (hresults hmem)

omit [DecidableEq ι] in
/-- The place of a thread whose next step is in the critical section. -/
lemma Place.inside_of_critical (hcode : ∀ c, (code c).Outer)
    (h : Place code exec results s₁ s t r) (hcritical : r.rest.Critical) :
    ∃ n, s.owner = some t ∧ s.depth = n + 1 ∧
      r.rest.Safe (fun _ => Prog.Final) (.inside n) r.entries ∧
      s.order = results.map key ++ [(r.id, r.call)] ∧
      (code r.call).alone exec s₁ = r.rest.alone exec s.shared := by
  cases h with
  | before hrest _ _ _ =>
    obtain ⟨n, hn⟩ := (hcode r.call).inside (hrest ▸ hcritical)
    cases hn
  | inside n hown hdepth hsafe horder halone => exact ⟨n, hown, hdepth, hsafe, horder, halone⟩
  | after a hrest _ _ _ => exact (hrest ▸ hcritical : (Prog.ret a).Critical).elim

/-- The owner goes on in the critical section. -/
lemma Ordered.goOn (h : Ordered code exec s₀ results s₁ s) (hown : s.owner = some t)
    (hrunning : s'.running = Function.update s.running t (some r')) (hown' : s'.owner = some t)
    (horder : s'.order = s.order) (hreturned : s'.returned = s.returned)
    (hplace : Place code exec results s₁ s' t r') : Ordered code exec s₀ results s₁ s' := by
  refine ⟨h.serial, ?_, ?_, ?_, ?_⟩
  · intro hnone
    rw [hown'] at hnone
    cases hnone
  · intro u hu hu'
    obtain rfl : t = u := Option.some.inj (hown'.symm.trans hu')
    rw [hrunning, Function.update_self] at hu
    cases hu
  · intro u q hq
    rw [hrunning] at hq
    rcases update_eq_some hq with ⟨rfl, hr⟩ | ⟨hne, hq⟩
    · cases hr
      exact hplace
    · have hout : some t ≠ some u := fun he => hne (Option.some.inj he).symm
      exact (h.place u q hq).outside (hown ▸ hout) (hown' ▸ hout)
        (fun hid => horder ▸ hid) (List.Subset.refl _)
  · rw [hreturned, horder]
    exact h.returned

lemma held_of_owner (hown : s.owner = some t) : s.held t = s.depth := if_pos hown

lemma held_of_not_owner (hown : s.owner ≠ some t) : s.held t = 0 := if_neg hown

/-! ### Steps -/

lemma Ordered.start (h : Ordered code exec s₀ results s₁ s) (hn : Numbered s) (c : C)
    (hnone : s.running t = none) :
    Ordered code exec s₀ results s₁
      { s with
        running := Function.update s.running t (some ⟨s.started, c, [s.held t], code c⟩)
        started := s.started + 1 } := by
  have hown := h.idle t hnone
  refine ⟨h.serial, h.free, ?_, ?_, h.returned⟩
  · intro u hu
    by_cases hut : u = t
    · exact hut ▸ hown
    · exact h.idle u ((Function.update_of_ne hut _ _).symm.trans hu)
  · intro u q hq
    rcases update_eq_some hq with ⟨rfl, hr⟩ | ⟨-, hq⟩
    · cases hr
      refine .before rfl (by rw [held_of_not_owner hown]) hown ?_
      intro hmem
      obtain ⟨x, hx, he⟩ := List.mem_map.mp hmem
      exact absurd he (hn.order x hx).ne
    · exact (h.place u q hq).congr rfl rfl rfl rfl

/-- A call acquires the mutex for the first time. -/
lemma Ordered.acquire (h : Ordered code exec s₀ results s₁ s) (hn : Numbered s)
    (hr : s.running t = some r) (hfree : s.owner = none)
    (hrunning : s'.running = Function.update s.running t (some { r with rest := k }))
    (hown : s'.owner = some t) (horder : s'.order = s.order ++ [(r.id, r.call)])
    (hreturned : s'.returned = s.returned)
    (hplace : Place code exec results s₁ s' t { r with rest := k }) :
    Ordered code exec s₀ results s₁ s' := by
  have hkept : ∀ n, n ≠ r.id → n ∉ s.order.map Prod.fst → n ∉ s'.order.map Prod.fst := by
    intro n hne hmem
    rw [horder, List.map_append, List.mem_append]
    rintro (hin | hin)
    · exact hmem hin
    · exact hne (by simpa using hin)
  refine ⟨h.serial, ?_, ?_, ?_, ?_⟩
  · intro hnone
    rw [hown] at hnone
    cases hnone
  · intro u hu hu'
    obtain rfl : t = u := Option.some.inj (hown.symm.trans hu')
    rw [hrunning, Function.update_self] at hu
    cases hu
  · intro u q hq
    rw [hrunning] at hq
    rcases update_eq_some hq with ⟨rfl, he⟩ | ⟨hne, hq⟩
    · cases he
      exact hplace
    · refine (h.place u q hq).outside (by simp [hfree]) ?_ (hkept q.id ?_) (List.Subset.refl _)
      · exact hown ▸ fun he => hne (Option.some.inj he).symm
      · exact fun he => hne (hn.distinct u t q r hq hr he)
  · rw [hreturned]
    intro x hx
    rcases h.returned x hx with hin | ⟨hmem, hsame⟩
    · exact .inl hin
    · exact .inr ⟨hkept x.1 ((hn.returned x hx).2 t r hr).symm hmem, hsame⟩

lemma Ordered.lock (hcode : ∀ c, (code c).Outer) (h : Ordered code exec s₀ results s₁ s)
    (hn : Numbered s) (hr : s.running t = some r) (hrest : r.rest = .lock k)
    (hfree : s.owner = none ∨ s.owner = some t) :
    Ordered code exec s₀ results s₁
      { s.setRest t r k with
        owner := some t
        depth := s.held t + 1
        order := if r.id ∈ s.order.map Prod.fst then s.order
          else s.order ++ [(r.id, r.call)] } := by
  cases h.place t r hr with
  | before hcall hentries hown hid =>
    have hnone : s.owner = none := hfree.resolve_right hown
    obtain ⟨horder, hshared⟩ := h.free hnone
    have houter : (Prog.lock k).Outer := by
      have hc := hcode r.call
      rwa [← hcall, hrest] at hc
    obtain ⟨g, hg, hsafe⟩ := houter
    cases hg
    refine h.acquire (k := k) hn hr hnone rfl rfl (if_neg hid) rfl ?_
    refine .inside 0 rfl ?_ (hentries ▸ hsafe) ?_ ?_
    · rw [held_of_not_owner hown]
    · rw [if_neg hid, horder]
    · rw [← hcall, hrest, ← hshared]
      rfl
  | inside n hown hdepth hsafe horder halone =>
    have hin : r.id ∈ s.order.map Prod.fst := by simp [horder]
    rw [hrest] at hsafe halone
    obtain ⟨g, hg, hsafe⟩ := hsafe
    cases hg
    refine h.goOn hown rfl rfl (if_pos hin) rfl (.inside (n + 1) rfl ?_ hsafe ?_ halone)
    · rw [held_of_owner hown, hdepth]
    · rw [if_pos hin, horder]
  | after a hret _ _ _ =>
    rw [hrest] at hret
    cases hret

/-- A call releases the mutex for the last time. -/
lemma Ordered.release (h : Ordered code exec s₀ results s₁ s) {a : α}
    (hr : s.running t = some r) (hown : s.owner = some t)
    (horder : s.order = results.map key ++ [(r.id, r.call)])
    (halone : (code r.call).alone exec s₁ = .ok (a, s.shared)) (hentries : r.entries = [0]) :
    Ordered code exec s₀ (results ++ [(r.id, r.call, a)]) s.shared
      { s.setRest t r (.ret a) with
        owner := none
        depth := 0 } := by
  refine ⟨serial_append.mpr ⟨s₁, h.serial, s.shared, halone, rfl⟩, ?_, by simp, ?_, ?_⟩
  · intro _
    refine ⟨?_, rfl⟩
    rw [List.map_append]
    exact horder
  · intro u q hq
    rcases update_eq_some hq with ⟨rfl, he⟩ | ⟨hne, hq⟩
    · cases he
      exact .after a rfl hentries (by simp) (by simp)
    · refine (h.place u q hq).outside ?_ (by simp) (fun hid => hid) (List.subset_append_left _ _)
      exact hown ▸ fun he => hne (Option.some.inj he).symm
  · intro x hx
    rcases h.returned x hx with hin | hnever
    · exact .inl (List.mem_append_left _ hin)
    · exact .inr hnever

lemma Ordered.unlock (hcode : ∀ c, (code c).Outer) (h : Ordered code exec s₀ results s₁ s)
    (hr : s.running t = some r) (hrest : r.rest = .unlock k) :
    s.owner = some t ∧ ∃ results' s₁', Ordered code exec s₀ results' s₁'
      { s.setRest t r k with
        owner := if s.depth = 1 then none else some t
        depth := s.depth - 1 } := by
  obtain ⟨n, hown, hdepth, hsafe, horder, halone⟩ :=
    (h.place t r hr).inside_of_critical hcode (hrest ▸ trivial)
  refine ⟨hown, ?_⟩
  rw [hrest] at hsafe halone
  obtain ⟨g, hg, hsafe⟩ := hsafe
  cases n with
  | zero =>
    cases hg
    obtain ⟨a, rfl, hentries⟩ := hsafe.eq_ret
    refine ⟨results ++ [(r.id, r.call, a)], s.shared, ?_⟩
    simp only [hdepth, if_true, Nat.add_sub_cancel]
    exact h.release hr hown horder halone hentries
  | succ n =>
    cases hg
    refine ⟨results, s₁, h.goOn hown rfl (if_neg (by omega)) rfl rfl ?_⟩
    exact .inside n (if_neg (by omega)) (by simp [hdepth]) hsafe horder halone

lemma Ordered.access (hcode : ∀ c, (code c).Outer) (h : Ordered code exec s₀ results s₁ s) {x : A}
    {k : R x → Prog A R ε α} (hr : s.running t = some r) (hrest : r.rest = .access x k) :
    s.owner = some t ∧ Ordered code exec s₀ results s₁
      { s.setRest t r (k (exec x s.shared).1) with shared := (exec x s.shared).2 } := by
  obtain ⟨n, hown, hdepth, hsafe, horder, halone⟩ :=
    (h.place t r hr).inside_of_critical hcode (hrest ▸ trivial)
  rw [hrest] at hsafe halone
  exact ⟨hown, h.goOn hown rfl hown rfl rfl (.inside n hown hdepth (hsafe.2 _) horder halone)⟩

lemma Ordered.enter (hcode : ∀ c, (code c).Outer) (h : Ordered code exec s₀ results s₁ s)
    (hr : s.running t = some r) (hrest : r.rest = .enter k) :
    Ordered code exec s₀ results s₁
      (s.setRest t { r with entries := s.held t :: r.entries } k) := by
  obtain ⟨n, hown, hdepth, hsafe, horder, halone⟩ :=
    (h.place t r hr).inside_of_critical hcode (hrest ▸ trivial)
  rw [hrest] at hsafe halone
  refine h.goOn hown rfl hown rfl rfl (.inside n hown hdepth ?_ horder halone)
  have hheld : s.held t = (Phase.inside n).depth := (held_of_owner hown).trans hdepth
  exact hheld ▸ hsafe.2

lemma Ordered.leave (hcode : ∀ c, (code c).Outer) (h : Ordered code exec s₀ results s₁ s)
    (hr : s.running t = some r) (hrest : r.rest = .leave k) :
    r.entries.head? = some (s.held t) ∧ Ordered code exec s₀ results s₁
      (s.setRest t { r with entries := r.entries.tail } k) := by
  obtain ⟨n, hown, hdepth, hsafe, horder, halone⟩ :=
    (h.place t r hr).inside_of_critical hcode (hrest ▸ trivial)
  rw [hrest] at hsafe halone
  obtain ⟨-, es, hes, hsafe⟩ := hsafe
  have hheld : s.held t = (Phase.inside n).depth := (held_of_owner hown).trans hdepth
  refine ⟨by rw [hes, hheld]; rfl, ?_⟩
  refine h.goOn hown rfl hown rfl rfl (.inside n hown hdepth ?_ horder halone)
  rw [hes]
  exact hsafe

lemma Ordered.ret (h : Ordered code exec s₀ results s₁ s) {a : α}
    (hr : s.running t = some r) (hrest : r.rest = .ret a) :
    r.entries = [s.held t] ∧ Ordered code exec s₀ results s₁
      { s with
        running := Function.update s.running t none
        returned := s.returned ++ [(r.id, r.call, a)] } := by
  have hwhere : r.entries = [0] ∧ s.owner ≠ some t ∧ ((r.id, r.call, a) ∈ results ∨
      r.id ∉ s.order.map Prod.fst ∧ ∀ s, (code r.call).alone exec s = .ok (a, s)) := by
    cases h.place t r hr with
    | before hcall hentries hown hid =>
      refine ⟨hentries, hown, .inr ⟨hid, ?_⟩⟩
      intro s
      rw [← hcall, hrest]
      rfl
    | inside n _ _ hsafe _ _ =>
      rw [hrest] at hsafe
      obtain ⟨hg | hg, -⟩ := hsafe
      · cases hg
      · cases hg
    | after b hret hentries hown hmem =>
      rw [hrest] at hret
      cases hret
      exact ⟨hentries, hown, .inl hmem⟩
  obtain ⟨hentries, hown, hresult⟩ := hwhere
  refine ⟨by rw [hentries, held_of_not_owner hown], h.serial, h.free, ?_, ?_, ?_⟩
  · intro u hu
    by_cases hut : u = t
    · exact hut ▸ hown
    · exact h.idle u ((Function.update_of_ne hut _ _).symm.trans hu)
  · intro u q hq
    rcases update_eq_some hq with ⟨-, he⟩ | ⟨-, hq⟩
    · cases he
    · exact (h.place u q hq).congr rfl rfl rfl rfl
  · intro x hx
    rcases List.mem_append.mp hx with hx | hx
    · exact h.returned x hx
    · rw [List.mem_singleton.mp hx]
      exact hresult

lemma Ordered.step (hcode : ∀ c, (code c).Outer) (h : Ordered code exec s₀ results s₁ s)
    (hn : Numbered s) {x : ThreadStep ι C} (hstep : Step code exec s x s') :
    ∃ results' s₁', Ordered code exec s₀ results' s₁' s' := by
  cases hstep with
  | start t c hnone => exact ⟨results, s₁, h.start hn c hnone⟩
  | lock t r k hr hrest hfree => exact ⟨results, s₁, h.lock hcode hn hr hrest hfree⟩
  | unlock t r k hr hrest hown => exact (h.unlock hcode hr hrest).2
  | unlockOther t r k hr hrest hown => exact absurd (h.unlock hcode hr hrest).1 hown
  | access t r x k hr hrest => exact ⟨results, s₁, (h.access hcode hr hrest).2⟩
  | enter t r k hr hrest => exact ⟨results, s₁, h.enter hcode hr hrest⟩
  | leave t r k hr hrest => exact ⟨results, s₁, (h.leave hcode hr hrest).2⟩
  | ret t r a hr hrest => exact ⟨results, s₁, (h.ret hr hrest).2⟩

/-! ### Runs -/

omit [DecidableEq ι] in
lemma numbered_init (s₀ : S) : Numbered (init s₀ : Threads ι A R ε α C S) := by
  refine ⟨?_, by simp [init], by simp [init], ?_⟩
  · intro t r hr
    cases hr
  · intro t t' r r' hr
    cases hr

omit [DecidableEq ι] in
lemma ordered_init (s₀ : S) :
    Ordered code exec s₀ [] s₀ (init s₀ : Threads ι A R ε α C S) := by
  refine ⟨rfl, fun _ => ⟨rfl, rfl⟩, by simp [init], ?_, by simp [init]⟩
  intro t r hr
  cases hr

variable (code exec)

/-- What holds of the threads in every state that they reach from `s₀`. -/
structure Guarded (s₀ : S) (s : Threads ι A R ε α C S) : Prop where
  access : ∀ t r x k, s.running t = some r → r.rest = .access x k → s.owner = some t
  leave : ∀ t r k, s.running t = some r → r.rest = .leave k →
    r.entries.head? = some (s.held t)
  ret : ∀ t r a, s.running t = some r → r.rest = .ret a → r.entries = [s.held t]
  idle : ∀ t, s.running t = none → s.owner ≠ some t
  current : ∀ t r, s.running t = some r → s.owner = some t →
    ∃ results s₁, Serial code exec s₀ results s₁ ∧
      s.order = results.map key ++ [(r.id, r.call)] ∧
      (code r.call).alone exec s₁ = r.rest.alone exec s.shared
  explains : s.owner = none → Explains code exec s₀ s

variable {code exec}

lemma Ordered.guarded (hcode : ∀ c, (code c).Outer) (h : Ordered code exec s₀ results s₁ s) :
    Guarded code exec s₀ s := by
  refine ⟨?_, ?_, ?_, ?_, ?_, ?_⟩
  · exact fun t r x k hr hrest => (h.access hcode hr hrest).1
  · exact fun t r k hr hrest => (h.leave hcode hr hrest).1
  · exact fun t r a hr hrest => (h.ret hr hrest).1
  · exact h.idle
  · intro t r hr hown
    cases h.place t r hr with
    | before _ _ ho _ => exact absurd hown ho
    | inside n _ _ _ horder halone => exact ⟨results, s₁, h.serial, horder, halone⟩
    | after a _ _ ho _ => exact absurd hown ho
  · intro hnone
    obtain ⟨horder, hshared⟩ := h.free hnone
    exact ⟨results, horder.symm, hshared ▸ h.serial, h.returned⟩

/-- Calls that access the shared state within one critical section each behave as if they were
executed one after another. -/
theorem guarded_of_run (hcode : ∀ c, (code c).Outer) (s₀ : S)
    {run : List (ThreadStep ι C × Threads ι A R ε α C S)}
    (hrun : IsRun (Step code exec) (init s₀) run) :
    Guarded code exec s₀ (lastState (init s₀) run) := by
  have hinv : Numbered (lastState (init s₀) run) ∧
      ∃ results s₁, Ordered code exec s₀ results s₁ (lastState (init s₀) run) := by
    refine hrun.invariant (I := fun s => Numbered s ∧ ∃ results s₁,
      Ordered code exec s₀ results s₁ s) ?_ ⟨numbered_init s₀, [], s₀, ordered_init s₀⟩
    rintro s x s' ⟨hn, results, s₁, h⟩ hx
    exact ⟨hn.step hx, h.step hcode hn hx⟩
  obtain ⟨-, results, s₁, h⟩ := hinv
  exact h.guarded hcode

end Threads

end StyLinux.Lib
