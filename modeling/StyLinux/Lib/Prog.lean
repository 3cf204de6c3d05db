import Mathlib.Tactic

/-!
# Programs with a mutex

A program is a tree of accesses to a shared state and of operations on one recursive mutex; the
beginning and the end of a nested call are marked. `Safe` is a condition on the paths of a
program: it makes its accesses within one critical section, and its nested calls end with the
depth of the mutex with which they began. `Held` and `Releases` are the two kinds of programs
from which such a program is composed.
-/

namespace StyLinux.Lib

/-- Programs with accesses `A`, whose results have the types `R`, and faults `ε`. -/
inductive Prog (A : Type) (R : A → Type) (ε α : Type)
  | ret (a : α)
  | fail (e : ε)
  | lock (k : Prog A R ε α)
  | unlock (k : Prog A R ε α)
  | access (x : A) (k : R x → Prog A R ε α)
  | enter (k : Prog A R ε α)
  | leave (k : Prog A R ε α)

namespace Prog

variable {A : Type} {R : A → Type} {ε α β S : Type}

def bind : Prog A R ε α → (α → Prog A R ε β) → Prog A R ε β
  | .ret a, f => f a
  | .fail e, _ => .fail e
  | .lock k, f => .lock (k.bind f)
  | .unlock k, f => .unlock (k.bind f)
  | .access x k, f => .access x fun r => (k r).bind f
  | .enter k, f => .enter (k.bind f)
  | .leave k, f => .leave (k.bind f)

instance : Monad (Prog A R ε) where
  pure := ret
  bind := bind

def mutexLock : Prog A R ε Unit := .lock (.ret ())

def mutexUnlock : Prog A R ε Unit := .unlock (.ret ())

def perform (x : A) : Prog A R ε (R x) := .access x .ret

/-- A nested call. -/
def call (p : Prog A R ε α) : Prog A R ε α := .enter (p.bind fun a => .leave (.ret a))

/-- The execution of a program without other threads. -/
def alone (exec : (x : A) → S → R x × S) : Prog A R ε α → S → Except ε (α × S)
  | .ret a, s => .ok (a, s)
  | .fail e, _ => .error e
  | .lock k, s => k.alone exec s
  | .unlock k, s => k.alone exec s
  | .access x k, s => (k (exec x s).1).alone exec (exec x s).2
  | .enter k, s => k.alone exec s
  | .leave k, s => k.alone exec s

end Prog

/-- Where a thread is with respect to the critical section of its call. Within it the mutex has
depth `n + 1`. -/
inductive Phase
  | before
  | inside (n : ℕ)
  | after
  deriving DecidableEq, Repr

namespace Phase

def depth : Phase → ℕ
  | .inside n => n + 1
  | _ => 0

def lock : Phase → Option Phase
  | .before => some (.inside 0)
  | .inside n => some (.inside (n + 1))
  | .after => none

def unlock : Phase → Option Phase
  | .inside 0 => some .after
  | .inside (n + 1) => some (.inside n)
  | _ => none

end Phase

namespace Prog

variable {A : Type} {R : A → Type} {ε α β S : Type}

/-- On every path from the phase, with the mutex depths at the entries of the calls under way,
the accesses are within the critical section, every nested call ends with the depth at its entry,
and the result meets `K`. -/
def Safe (K : α → Phase → List ℕ → Prop) : Prog A R ε α → Phase → List ℕ → Prop
  | .ret a, g, es => K a g es
  | .fail _, g, _ => g ≠ .after
  | .lock k, g, es => ∃ g', g.lock = some g' ∧ k.Safe K g' es
  | .unlock k, g, es => ∃ g', g.unlock = some g' ∧ k.Safe K g' es
  | .access _ k, g, es => (∃ n, g = .inside n) ∧ ∀ r, (k r).Safe K g es
  | .enter k, g, es => (∃ n, g = .inside n) ∧ k.Safe K g (g.depth :: es)
  | .leave k, g, es => (∃ n, g = .inside n) ∧ ∃ es', es = g.depth :: es' ∧ k.Safe K g es'

/-- The end of a call from outside. -/
def Final (g : Phase) (es : List ℕ) : Prop := (g = .before ∨ g = .after) ∧ es = [0]

/-- A program that can be called from outside. -/
def Outer (p : Prog A R ε α) : Prop := p.Safe (fun _ => Final) .before [0]

/-- The next step of the program belongs into the critical section. -/
def Critical : Prog A R ε α → Prop
  | .unlock _ => True
  | .access _ _ => True
  | .enter _ => True
  | .leave _ => True
  | _ => False

lemma Safe.inside {K : α → Phase → List ℕ → Prop} {p : Prog A R ε α} {g : Phase} {es : List ℕ}
    (h : p.Safe K g es) (hp : p.Critical) : ∃ n, g = .inside n := by
  cases p with
  | ret a => exact hp.elim
  | fail e => exact hp.elim
  | lock k => exact hp.elim
  | unlock k =>
    obtain ⟨g', hg, -⟩ := h
    cases g with
    | before => cases hg
    | inside n => exact ⟨n, rfl⟩
    | after => cases hg
  | access x k => exact h.1
  | enter k => exact h.1
  | leave k => exact h.1

/-- Behind its critical section a call only returns. -/
lemma Safe.eq_ret {p : Prog A R ε α} {es : List ℕ} (h : p.Safe (fun _ => Final) .after es) :
    ∃ a, p = .ret a ∧ es = [0] := by
  by_cases hp : p.Critical
  · obtain ⟨n, hn⟩ := h.inside hp
    cases hn
  cases p with
  | ret a => exact ⟨a, rfl, h.2⟩
  | fail e => exact absurd rfl h
  | lock k =>
    obtain ⟨g, hg, -⟩ := h
    cases hg
  | unlock k => exact absurd trivial hp
  | access x k => exact absurd trivial hp
  | enter k => exact absurd trivial hp
  | leave k => exact absurd trivial hp

/-! ### Rules -/

variable {K K' : α → Phase → List ℕ → Prop} {p : Prog A R ε α} {f : α → Prog A R ε β} {g : Phase}
  {es : List ℕ}

lemma bind_def : p >>= f = p.bind f := rfl

lemma Safe.mono (h : p.Safe K g es) (hK : ∀ a g es, K a g es → K' a g es) : p.Safe K' g es := by
  induction p generalizing g es with
  | ret a => exact hK a g es h
  | fail e => exact h
  | lock k ih =>
    obtain ⟨g', hg, hk⟩ := h
    exact ⟨g', hg, ih hk⟩
  | unlock k ih =>
    obtain ⟨g', hg, hk⟩ := h
    exact ⟨g', hg, ih hk⟩
  | access x k ih => exact ⟨h.1, fun r => ih r (h.2 r)⟩
  | enter k ih => exact ⟨h.1, ih h.2⟩
  | leave k ih =>
    obtain ⟨hg, es', hes, hk⟩ := h
    exact ⟨hg, es', hes, ih hk⟩

lemma safe_bind {K : β → Phase → List ℕ → Prop} :
    (p >>= f).Safe K g es ↔ p.Safe (fun a g es => (f a).Safe K g es) g es := by
  rw [bind_def]
  induction p generalizing g es with
  | ret a => rfl
  | fail e => rfl
  | lock k ih => simp only [bind, Safe, ih]
  | unlock k ih => simp only [bind, Safe, ih]
  | access x k ih => simp only [bind, Safe, ih]
  | enter k ih => simp only [bind, Safe, ih]
  | leave k ih => simp only [bind, Safe, ih]

/-- A program that can run at every depth within the critical section, and keeps the depth. -/
def Held (p : Prog A R ε α) : Prop :=
  ∀ n es, p.Safe (fun _ g es' => g = .inside n ∧ es' = es) (.inside n) es

lemma Held.ret (a : α) : (ret a : Prog A R ε α).Held := fun _ _ => ⟨rfl, rfl⟩

lemma Held.fail (e : ε) : (fail e : Prog A R ε α).Held := by
  intro n es h
  cases h

lemma Held.perform (x : A) : (perform x : Prog A R ε (R x)).Held :=
  fun n _ => ⟨⟨n, rfl⟩, fun _ => ⟨rfl, rfl⟩⟩

lemma Held.bind (hp : p.Held) (hf : ∀ a, (f a).Held) : (p >>= f).Held := by
  intro n es
  rw [safe_bind]
  refine (hp n es).mono ?_
  rintro a g es' ⟨rfl, rfl⟩
  exact hf a n es'

/-- A nested call of a program that keeps the depth. -/
lemma Held.call (hp : p.Held) : (call p).Held := by
  intro n es
  refine ⟨⟨n, rfl⟩, ?_⟩
  rw [← bind_def, safe_bind]
  refine (hp n _).mono ?_
  rintro a g es' ⟨rfl, rfl⟩
  exact ⟨⟨n, rfl⟩, es, rfl, rfl, rfl⟩

/-- A program that runs within the critical section and ends one depth lower. -/
def Releases (p : Prog A R ε α) : Prop :=
  ∀ n es, p.Safe (fun _ g es' => (Phase.inside n).unlock = some g ∧ es' = es) (.inside n) es

lemma Releases.bind (hp : p.Held) (hf : ∀ a, (f a).Releases) : (p >>= f).Releases := by
  intro n es
  rw [safe_bind]
  refine (hp n es).mono ?_
  rintro a g es' ⟨rfl, rfl⟩
  exact hf a n es'

lemma Releases.mutexUnlock (a : α) :
    (Prog.mutexUnlock >>= fun _ => (pure a : Prog A R ε α)).Releases := by
  intro n es
  cases n with
  | zero => exact ⟨_, rfl, rfl, rfl⟩
  | succ n => exact ⟨_, rfl, rfl, rfl⟩

/-- A critical section as part of another one. -/
lemma Releases.held (hp : p.Releases) : (mutexLock >>= fun _ => p).Held := by
  intro n es
  refine ⟨.inside (n + 1), rfl, (hp (n + 1) es).mono ?_⟩
  rintro a g es' ⟨hg, rfl⟩
  exact ⟨(Option.some.inj hg).symm, rfl⟩

lemma Releases.outer (hp : p.Releases) : (mutexLock >>= fun _ => p).Outer := by
  refine ⟨.inside 0, rfl, (hp 0 [0]).mono ?_⟩
  rintro a g es' ⟨hg, rfl⟩
  exact ⟨.inr (Option.some.inj hg).symm, rfl⟩

lemma Outer.ret (a : α) : (ret a : Prog A R ε α).Outer := ⟨.inl rfl, rfl⟩

lemma Outer.bind_ret (hp : p.Outer) (φ : α → β) : (p >>= fun a => .ret (φ a)).Outer := by
  unfold Outer
  rw [safe_bind]
  exact hp

lemma Outer.fail (e : ε) : (fail e : Prog A R ε α).Outer := by
  intro h
  cases h

variable {S : Type} {exec : (x : A) → S → R x × S}

lemma alone_bind (s : S) :
    (p >>= f).alone exec s = p.alone exec s >>= fun x => (f x.1).alone exec x.2 := by
  rw [bind_def]
  induction p generalizing s with
  | ret a => rfl
  | fail e => rfl
  | lock k ih => exact ih s
  | unlock k ih => exact ih s
  | access x k ih => exact ih _ _
  | enter k ih => exact ih s
  | leave k ih => exact ih s

lemma alone_perform_bind (x : A) (f : R x → Prog A R ε β) (s : S) :
    (perform x >>= f).alone exec s = (f (exec x s).1).alone exec (exec x s).2 := (rfl)

@[simp] lemma alone_mutexLock (s : S) :
    (mutexLock : Prog A R ε Unit).alone exec s = .ok ((), s) := rfl

@[simp] lemma alone_mutexUnlock (s : S) :
    (mutexUnlock : Prog A R ε Unit).alone exec s = .ok ((), s) := rfl

@[simp] lemma alone_pure (a : α) (s : S) :
    (pure a : Prog A R ε α).alone exec s = .ok (a, s) := rfl

@[simp] lemma alone_call (s : S) : (call p).alone exec s = p.alone exec s := by
  have hcall : (call p).alone exec s = (p >>= fun a => .leave (.ret a)).alone exec s := rfl
  rw [hcall, alone_bind]
  cases p.alone exec s <;> rfl

end Prog

end StyLinux.Lib
