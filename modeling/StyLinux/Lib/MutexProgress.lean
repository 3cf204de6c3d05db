import Mathlib.Data.DFinsupp.WellFounded
import Mathlib.Data.List.Permutation
import Mathlib.SetTheory.Ordinal.Rank
import StyLinux.Lib.Mutex

/-!
# Calls that return

Finitely many threads cannot go on for ever with the calls that they have begun, and they are never
stuck while the calls that have acquired the mutex do not fail. In the end every call has returned
with the result that it has in an execution of all of them one after another.
-/

namespace StyLinux.Lib

open scoped List

variable {ι A : Type} {R : A → Type} {ε α C S : Type}

/-- The step is one of a call that has begun. -/
def ThreadStep.GoesOn : ThreadStep ι C → Prop
  | .start _ _ => False
  | _ => True

namespace Prog

/-- The program `k` is what may be left after the first operation of the program. -/
inductive Next : Prog A R ε α → Prog A R ε α → Prop
  | lock (k : Prog A R ε α) : Next k (.lock k)
  | unlock (k : Prog A R ε α) : Next k (.unlock k)
  | access (x : A) (k : R x → Prog A R ε α) (r : R x) : Next (k r) (.access x k)
  | enter (k : Prog A R ε α) : Next k (.enter k)
  | leave (k : Prog A R ε α) : Next k (.leave k)

instance isWellFounded_next : IsWellFounded (Prog A R ε α) Next := by
  constructor
  constructor
  intro p
  induction p with
  | ret | fail =>
    constructor
    rintro q ⟨⟩
  | lock k ih | unlock k ih | enter k ih | leave k ih =>
    constructor
    rintro q ⟨⟩
    exact ih
  | access x k ih =>
    constructor
    rintro q ⟨⟩
    exact ih _

/-- How far a program is from its end, at most. -/
noncomputable def weight (p : Prog A R ε α) : Ordinal := IsWellFounded.rank Next p

lemma weight_lt {k p : Prog A R ε α} (h : Next k p) : k.weight < p.weight :=
  IsWellFounded.rank_lt_of_rel h

end Prog

namespace Threads

variable [DecidableEq ι] {code : C → Prog A R ε α} {exec : (x : A) → S → R x × S}
  {s s' : Threads ι A R ε α C S} {x : ThreadStep ι C} {t : ι} {r : Running A R ε α C}

/-! ### Calls are finite -/

/-- How far the threads are from the ends of their calls. -/
noncomputable def weights (s : Threads ι A R ε α C S) (t : ι) : Ordinal :=
  (s.running t).elim 0 fun r => Order.succ r.rest.weight

lemma weights_lt_of_update {y : Option (Running A R ε α C)} (hr : s.running t = some r)
    (hrunning : s'.running = Function.update s.running t y)
    (hlt : y.elim 0 (fun r => Order.succ r.rest.weight) < Order.succ r.rest.weight) :
    s'.weights < s.weights := by
  have hown : s'.weights t < s.weights t := by
    rw [weights, weights, hr, hrunning, Function.update_self]
    exact hlt
  refine Pi.lt_def.mpr ⟨?_, t, hown⟩
  intro u
  by_cases hu : u = t
  · exact hu ▸ hown.le
  · rw [weights, weights, hrunning, Function.update_of_ne hu]

lemma weights_lt (hstep : Step code exec s x s') (hx : x.GoesOn) : s'.weights < s.weights := by
  cases hstep with
  | start => exact hx.elim
  | lock t r k hr hrest =>
    refine weights_lt_of_update hr rfl (Order.succ_lt_succ ?_)
    exact Prog.weight_lt (hrest ▸ .lock k)
  | unlock t r k hr hrest | unlockOther t r k hr hrest =>
    refine weights_lt_of_update hr rfl (Order.succ_lt_succ ?_)
    exact Prog.weight_lt (hrest ▸ .unlock k)
  | access t r x k hr hrest =>
    refine weights_lt_of_update hr rfl (Order.succ_lt_succ ?_)
    exact Prog.weight_lt (hrest ▸ .access x k _)
  | enter t r k hr hrest =>
    refine weights_lt_of_update hr rfl (Order.succ_lt_succ ?_)
    exact Prog.weight_lt (hrest ▸ .enter k)
  | leave t r k hr hrest =>
    refine weights_lt_of_update hr rfl (Order.succ_lt_succ ?_)
    exact Prog.weight_lt (hrest ▸ .leave k)
  | ret t r a hr hrest =>
    exact weights_lt_of_update hr rfl (Order.bot_lt_succ _)

/-- A call that has begun takes `s` to `s'` with one step. -/
def Continues (code : C → Prog A R ε α) (exec : (x : A) → S → R x × S)
    (s' s : Threads ι A R ε α C S) : Prop :=
  ∃ x, x.GoesOn ∧ Step code exec s x s'

/-- Finitely many threads end their calls, or wait for the mutex, after finitely many steps. -/
theorem wellFounded_continues [Finite ι] (code : C → Prog A R ε α)
    (exec : (x : A) → S → R x × S) :
    WellFounded (Continues code exec : Threads ι A R ε α C S → _ → Prop) := by
  have hwf : WellFounded fun s' s : Threads ι A R ε α C S => s'.weights < s.weights :=
    InvImage.wf weights wellFounded_lt
  refine Subrelation.wf ?_ hwf
  rintro s' s ⟨x, hx, hstep⟩
  exact weights_lt hstep hx

/-! ### Calls are not stuck -/

variable {s₀ s₁ : S} {results : List (ℕ × C × α)}

/-- If the calls that own the mutex or may acquire it do not fail behind those that have been
executed, one of them can go on. -/
lemma Ordered.exists_continues (hcode : ∀ c, (code c).Outer)
    (h : Ordered code exec s₀ results s₁ s)
    (hok : ∀ t r, s.running t = some r →
      s.owner = some t ∨ s.owner = none ∧ r.id ∉ s.order.map Prod.fst →
      ∃ a s₂, (code r.call).alone exec s₁ = .ok (a, s₂))
    (hr : s.running t = some r) : ∃ s', Continues code exec s' s := by
  cases hown : s.owner with
  | some u =>
    obtain ⟨q, hq⟩ : ∃ q, s.running u = some q := by
      rw [← Option.isSome_iff_exists, Option.isSome_iff_ne_none]
      exact fun hnone => h.idle u hnone hown
    obtain ⟨a, s₂, halone⟩ := hok u q hq (.inl hown)
    cases h.place u q hq with
    | before _ _ hne _ | after _ _ _ hne _ => exact absurd hown hne
    | inside n _ hdepth hsafe horder hsame =>
      rw [hsame] at halone
      cases hrest : q.rest with
      | ret a =>
        rw [hrest] at hsafe
        rcases hsafe.1 with h | h <;> cases h
      | fail e =>
        rw [hrest] at halone
        cases halone
      | lock k => exact ⟨_, .lock u, trivial, .lock s u q k hq hrest (.inr hown)⟩
      | unlock k => exact ⟨_, .unlock u, trivial, .unlock s u q k hq hrest hown⟩
      | access x k => exact ⟨_, .access u, trivial, .access s u q x k hq hrest⟩
      | enter k => exact ⟨_, .enter u, trivial, .enter s u q k hq hrest⟩
      | leave k => exact ⟨_, .leave u, trivial, .leave s u q k hq hrest⟩
  | none =>
    cases h.place t r hr with
    | inside n howner _ _ _ _ => cases hown.symm.trans howner
    | after a hrest _ _ _ => exact ⟨_, .ret t, trivial, .ret s t r a hr hrest⟩
    | before hrest _ _ hid =>
      obtain ⟨a, s₂, halone⟩ := hok t r hr (.inr ⟨hown, hid⟩)
      have hsafe := hcode r.call
      rw [← hrest] at hsafe halone
      have hcritical : ¬r.rest.Critical := by
        intro hcritical
        obtain ⟨n, hn⟩ := hsafe.inside hcritical
        cases hn
      cases hp : r.rest with
      | ret a => exact ⟨_, .ret t, trivial, .ret s t r a hr hp⟩
      | fail e =>
        rw [hp] at halone
        cases halone
      | lock k => exact ⟨_, .lock t, trivial, .lock s t r k hr hp (.inl hown)⟩
      | unlock | access | enter | leave =>
        rw [hp] at hcritical
        exact absurd trivial hcritical

/-! ### The calls of a run -/

/-- The calls that begin in a run, in the order in which they do. -/
def starts (run : List (ThreadStep ι C × Threads ι A R ε α C S)) : List C :=
  run.filterMap fun x => match x.1 with
    | .start _ c => some c
    | _ => none

/-- The calls are numbered by their positions in `cs`, each one is running or has returned, and
none has acquired the mutex for the first time or returned twice. -/
structure Logged (cs : List C) (s : Threads ι A R ε α C S) : Prop where
  started : s.started = cs.length
  running : ∀ t r, s.running t = some r → cs[r.id]? = some r.call
  order : ∀ x ∈ s.order, cs[x.1]? = some x.2
  order_nodup : (s.order.map Prod.fst).Nodup
  returned : ∀ x ∈ s.returned, cs[x.1]? = some x.2.1
  returned_nodup : (s.returned.map Prod.fst).Nodup
  all : ∀ i < cs.length, (∃ t r, s.running t = some r ∧ r.id = i) ∨
    i ∈ s.returned.map Prod.fst

omit [DecidableEq ι] in
lemma logged_init (s₀ : S) : Logged [] (init s₀ : Threads ι A R ε α C S) := by
  refine ⟨rfl, ?_, by simp [init], by simp [init], by simp [init], by simp [init], by simp⟩
  intro t r hr
  cases hr

variable {cs : List C} {p : Running A R ε α C} {k : Prog A R ε α}

lemma Logged.start (h : Logged cs s) (c : C) (hnone : s.running t = none) :
    Logged (cs ++ [c]) { s with
      running := Function.update s.running t (some ⟨s.started, c, [s.held t], code c⟩)
      started := s.started + 1 } := by
  have hkept : ∀ {i : ℕ} {d : C}, cs[i]? = some d → (cs ++ [c])[i]? = some d := by
    intro i d hd
    obtain ⟨hi, -⟩ := List.getElem?_eq_some_iff.mp hd
    rw [List.getElem?_append_left hi, hd]
  refine ⟨by simp [h.started], ?_, fun x hx => hkept (h.order x hx), h.order_nodup,
    fun x hx => hkept (h.returned x hx), h.returned_nodup, ?_⟩
  · intro u q hq
    rcases update_eq_some hq with ⟨-, he⟩ | ⟨-, hq⟩
    · cases he
      simp [h.started]
    · exact hkept (h.running u q hq)
  · intro i hi
    rw [List.length_append, List.length_singleton, Nat.lt_succ_iff_lt_or_eq] at hi
    rcases hi with hi | rfl
    · rcases h.all i hi with ⟨u, q, hq, hid⟩ | hret
      · have hu : u ≠ t := by
          rintro rfl
          cases hnone.symm.trans hq
        exact .inl ⟨u, q, (Function.update_of_ne hu _ _).trans hq, hid⟩
      · exact .inr hret
    · exact .inl ⟨t, _, Function.update_self _ _ _, h.started⟩

/-- A thread goes on with its call. -/
lemma Logged.goOn (h : Logged cs s) (hr : s.running t = some r) (hid : p.id = r.id)
    (hcall : p.call = r.call) (hrunning : s'.running = Function.update s.running t (some p))
    (hstarted : s'.started = s.started) (hreturned : s'.returned = s.returned)
    (horder : s'.order = s.order ∨
      r.id ∉ s.order.map Prod.fst ∧ s'.order = s.order ++ [(r.id, r.call)]) :
    Logged cs s' := by
  have hcs := h.running t r hr
  refine ⟨hstarted.trans h.started, ?_, ?_, ?_, hreturned ▸ h.returned,
    hreturned ▸ h.returned_nodup, ?_⟩
  · intro u q hq
    rw [hrunning] at hq
    rcases update_eq_some hq with ⟨-, he⟩ | ⟨-, hq⟩
    · cases he
      rw [hid, hcall, hcs]
    · exact h.running u q hq
  · intro x hx
    rcases horder with he | ⟨-, he⟩
    · exact h.order x (he ▸ hx)
    · rw [he, List.mem_append, List.mem_singleton] at hx
      rcases hx with hx | rfl
      · exact h.order x hx
      · exact hcs
  · rcases horder with he | ⟨hnew, he⟩
    · exact he ▸ h.order_nodup
    · rw [he, List.map_append, List.nodup_append]
      refine ⟨h.order_nodup, List.nodup_singleton _, ?_⟩
      rintro i hi j hj rfl
      rw [List.mem_singleton.mp hj] at hi
      exact hnew hi
  · intro i hi
    rw [hreturned]
    rcases h.all i hi with ⟨u, q, hq, hqi⟩ | hret
    · refine .inl ?_
      by_cases hu : u = t
      · subst hu
        cases hr.symm.trans hq
        exact ⟨u, p, by rw [hrunning, Function.update_self], hid.trans hqi⟩
      · exact ⟨u, q, by rw [hrunning, Function.update_of_ne hu, hq], hqi⟩
    · exact .inr hret

lemma Logged.ret (h : Logged cs s) (hn : Numbered s) {a : α} (hr : s.running t = some r) :
    Logged cs { s with
      running := Function.update s.running t none
      returned := s.returned ++ [(r.id, r.call, a)] } := by
  refine ⟨h.started, ?_, h.order, h.order_nodup, ?_, ?_, ?_⟩
  · intro u q hq
    rcases update_eq_some hq with ⟨-, he⟩ | ⟨-, hq⟩
    · cases he
    · exact h.running u q hq
  · intro x hx
    rcases List.mem_append.mp hx with hx | hx
    · exact h.returned x hx
    · rw [List.mem_singleton.mp hx]
      exact h.running t r hr
  · rw [List.map_append, List.nodup_append]
    refine ⟨h.returned_nodup, List.nodup_singleton _, ?_⟩
    rintro i hi j hj rfl
    obtain ⟨x, hx, rfl⟩ := List.mem_map.mp hi
    exact (hn.returned x hx).2 t r hr (List.mem_singleton.mp hj).symm
  · intro i hi
    rcases h.all i hi with ⟨u, q, hq, hqi⟩ | hret
    · by_cases hu : u = t
      · subst hu
        cases hr.symm.trans hq
        exact .inr (by simp [hqi])
      · exact .inl ⟨u, q, (Function.update_of_ne hu _ _).trans hq, hqi⟩
    · refine .inr ?_
      rw [List.map_append]
      exact List.mem_append_left _ hret

lemma Logged.step (h : Logged cs s) (hn : Numbered s) (hstep : Step code exec s x s') :
    Logged (cs ++ starts [(x, s')]) s' := by
  cases hstep with
  | start t c hnone => exact h.start c hnone
  | lock t r k hr hrest hfree =>
    refine (List.append_nil cs).symm ▸ h.goOn hr (p := { r with rest := k }) rfl rfl rfl rfl rfl ?_
    dsimp only
    split_ifs with hmem
    · exact .inl rfl
    · exact .inr ⟨hmem, rfl⟩
  | unlock t r k hr hrest | unlockOther t r k hr hrest =>
    exact (List.append_nil cs).symm ▸ h.goOn hr (p := { r with rest := k })
      rfl rfl rfl rfl rfl (.inl rfl)
  | access t r x k hr hrest =>
    exact (List.append_nil cs).symm ▸ h.goOn hr (p := { r with rest := k _ })
      rfl rfl rfl rfl rfl (.inl rfl)
  | enter t r k hr hrest =>
    exact (List.append_nil cs).symm ▸
      h.goOn hr (p := { r with entries := s.held t :: r.entries, rest := k })
        rfl rfl rfl rfl rfl (.inl rfl)
  | leave t r k hr hrest =>
    exact (List.append_nil cs).symm ▸
      h.goOn hr (p := { r with entries := r.entries.tail, rest := k })
        rfl rfl rfl rfl rfl (.inl rfl)
  | ret t r a hr hrest => exact (List.append_nil cs).symm ▸ h.ret hn hr

omit [DecidableEq ι] in
/-- Calls with different numbers are at different positions. -/
lemma subperm_of_positions {l : List (ℕ × C)} (hnodup : (l.map Prod.fst).Nodup)
    (hl : ∀ x ∈ l, cs[x.1]? = some x.2) : l.map Prod.snd <+~ cs := by
  have hswap : l.map Prod.swap <+~ cs.zipIdx := by
    refine List.subperm_of_subset ((hnodup.of_map Prod.fst).map Prod.swap_injective) ?_
    intro x hx
    obtain ⟨y, hy, rfl⟩ := List.mem_map.mp hx
    exact List.mem_zipIdx_iff_getElem?.mpr (hl y hy)
  obtain ⟨l', hperm, hsub⟩ := hswap
  have hfst := hsub.map Prod.fst
  rw [List.zipIdx_map_fst] at hfst
  refine ⟨l'.map Prod.fst, ?_, hfst⟩
  simpa [Function.comp_def] using hperm.map Prod.fst

lemma perm_of_positions {l : List (ℕ × C)} (hnodup : (l.map Prod.fst).Nodup)
    (hl : ∀ x ∈ l, cs[x.1]? = some x.2) (hall : ∀ i < cs.length, i ∈ l.map Prod.fst) :
    l.map Prod.snd ~ cs := by
  refine (subperm_of_positions hnodup hl).perm_of_length_le ?_
  have hrange : List.range cs.length <+~ l.map Prod.fst :=
    List.subperm_of_subset List.nodup_range fun i hi => hall i (List.mem_range.mp hi)
  simpa using hrange.length_le

/-- What holds of the threads at every point of a run. -/
lemma logged_of_run (hcode : ∀ c, (code c).Outer) (s₀ : S)
    {run : List (ThreadStep ι C × Threads ι A R ε α C S)}
    (hrun : IsRun (Step code exec) (init s₀) run) :
    Numbered (lastState (init s₀) run) ∧ Logged (starts run) (lastState (init s₀) run) ∧
      ∃ results s₁, Ordered code exec s₀ results s₁ (lastState (init s₀) run) := by
  induction run using List.reverseRecOn with
  | nil => exact ⟨numbered_init s₀, logged_init s₀, [], s₀, ordered_init s₀⟩
  | append_singleton run x ih =>
    obtain ⟨hrun, hstep, -⟩ := (isRun_append _ _ _).mp hrun
    obtain ⟨hn, hlog, results, s₁, h⟩ := ih hrun
    have hstarts : starts (run ++ [x]) = starts run ++ starts [x] := List.filterMap_append
    rw [lastState_concat, hstarts]
    exact ⟨hn.step hstep, hlog.step hn hstep, h.step hcode hn hstep⟩

variable {run : List (ThreadStep ι C × Threads ι A R ε α C S)}

lemma map_key_snd (results : List (ℕ × C × α)) :
    (results.map key).map Prod.snd = results.map fun x => x.2.1 := List.map_map

omit [DecidableEq ι] in
/-- A call that owns the mutex, or may acquire it, is another one than those that have been
executed. -/
lemma Logged.subperm (h : Logged cs s) (hs : Ordered code exec s₀ results s₁ s)
    (hr : s.running t = some r)
    (hown : s.owner = some t ∨ s.owner = none ∧ r.id ∉ s.order.map Prod.fst) :
    results.map (fun x => x.2.1) ++ [r.call] <+~ cs := by
  suffices ((results.map key ++ [(r.id, r.call)]).map Prod.fst).Nodup ∧
      ∀ x ∈ results.map key ++ [(r.id, r.call)], cs[x.1]? = some x.2 by
    have hsub := subperm_of_positions this.1 this.2
    rwa [List.map_append, map_key_snd] at hsub
  rcases hown with hown | ⟨hown, hid⟩
  · cases hs.place t r hr with
    | before _ _ hne _ | after _ _ _ hne _ => exact absurd hown hne
    | inside n _ _ _ horder _ => exact horder ▸ ⟨h.order_nodup, h.order⟩
  · rw [← (hs.free hown).1]
    refine ⟨?_, ?_⟩
    · rw [List.map_append, List.nodup_append]
      refine ⟨h.order_nodup, List.nodup_singleton _, ?_⟩
      rintro i hi j hj rfl
      rw [List.mem_singleton.mp hj] at hi
      exact hid hi
    · intro x hx
      rcases List.mem_append.mp hx with hx | hx
      · exact h.order x hx
      · rw [List.mem_singleton.mp hx]
        exact h.running t r hr

variable {run : List (ThreadStep ι C × Threads ι A R ε α C S)}

variable (code exec)

/-- The calls `cs` return, in whichever order they are made one after another from `s`. -/
def AllReturn (s : S) (cs : List C) : Prop :=
  ∀ results c s₁, Serial code exec s results s₁ → results.map (fun x => x.2.1) ++ [c] <+~ cs →
    ∃ a s₂, (code c).alone exec s₁ = .ok (a, s₂)

/-- The calls under way end after finitely many steps, and as long as there are any one of them
can go on. -/
structure Lively (s : Threads ι A R ε α C S) : Prop where
  acc : Acc (Continues code exec) s
  continues : ∀ t r, s.running t = some r → ∃ s', Continues code exec s' s

variable {code exec}

/-- The calls of a run are never stuck, if each of them returns behind any other ones. -/
theorem lively_of_run [Finite ι] (hcode : ∀ c, (code c).Outer)
    (hrun : IsRun (Step code exec) (init s₀) run) (hok : AllReturn code exec s₀ (starts run)) :
    Lively code exec (lastState (init s₀) run) := by
  refine ⟨(wellFounded_continues code exec).apply _, ?_⟩
  intro t r hr
  obtain ⟨-, hlog, results, s₁, h⟩ := logged_of_run hcode s₀ hrun
  refine h.exists_continues hcode ?_ hr
  intro u q hq hown
  exact hok results q.call s₁ h.serial (hlog.subperm h hq hown)

lemma AllReturn.subperm {cs' : List C} (h : AllReturn code exec s₀ cs) (hsub : cs' <+~ cs) :
    AllReturn code exec s₀ cs' := by
  intro results c s₁ hserial hcalls
  exact h results c s₁ hserial (hcalls.trans hsub)

/-- Calls that never acquired the mutex have the same results at the end. -/
lemma Serial.append_idle {extra : List (ℕ × C × α)} (h : Serial code exec s₀ results s₁)
    (hextra : ∀ x ∈ extra, ∀ s, (code x.2.1).alone exec s = .ok (x.2.2, s)) :
    Serial code exec s₀ (results ++ extra) s₁ := by
  refine serial_append.mpr ⟨s₁, h, ?_⟩
  induction extra with
  | nil => rfl
  | cons x extra ih =>
    exact ⟨s₁, hextra x List.mem_cons_self s₁, ih fun y hy => hextra y (List.mem_cons_of_mem _ hy)⟩

omit [DecidableEq ι] in
/-- When all calls have returned, these are the executed ones and those that never acquired the
mutex. -/
lemma Logged.perm_returned (hlog : Logged cs s) (h : Ordered code exec s₀ results s₁ s)
    (hrest : ∀ t, s.running t = none) (horder : s.order = results.map key) :
    results ++ s.returned.filter (fun x => x.1 ∉ s.order.map Prod.fst) ~ s.returned := by
  have hids : (results.map Prod.fst).Nodup := by
    have hnodup := hlog.order_nodup
    rwa [horder, List.map_map] at hnodup
  have hin : ∀ x ∈ results, x.1 ∈ s.order.map Prod.fst := by
    intro x hx
    rw [horder, List.map_map]
    exact List.mem_map_of_mem hx
  refine (List.perm_ext_iff_of_nodup ?_ (hlog.returned_nodup.of_map _)).mpr fun x => ?_
  · rw [List.nodup_append]
    refine ⟨hids.of_map _, (hlog.returned_nodup.of_map _).filter _, ?_⟩
    rintro x hx y hy rfl
    exact of_decide_eq_true (List.mem_filter.mp hy).2 (hin x hx)
  · rw [List.mem_append, List.mem_filter, decide_eq_true_eq]
    constructor
    · rintro (hx | ⟨hx, -⟩)
      · have hcs := hlog.order (key x) (horder ▸ List.mem_map_of_mem hx)
        obtain ⟨hlt, -⟩ := List.getElem?_eq_some_iff.mp hcs
        rcases hlog.all x.1 hlt with ⟨t, r, hr, -⟩ | hret
        · cases (hrest t).symm.trans hr
        obtain ⟨y, hy, hyx⟩ := List.mem_map.mp hret
        rcases h.returned y hy with hy' | ⟨hy', -⟩
        · exact List.inj_on_of_nodup_map hids hy' hx hyx ▸ hy
        · exact absurd (hin x hx) (hyx ▸ hy')
      · exact hx
    · intro hx
      rcases h.returned x hx with hx' | ⟨hx', -⟩
      · exact .inl hx'
      · exact .inr ⟨hx, hx'⟩

/-- When all calls have returned, they have had the results and the effects of their execution
one after another. -/
theorem serial_of_rest (hcode : ∀ c, (code c).Outer)
    (hrun : IsRun (Step code exec) (init s₀) run)
    (hrest : ∀ t, (lastState (init s₀) run).running t = none) :
    ∃ results, Serial code exec s₀ results (lastState (init s₀) run).shared ∧
      results ~ (lastState (init s₀) run).returned ∧
      results.map (fun x => x.2.1) ~ starts run := by
  obtain ⟨-, hlog, results, s₁, h⟩ := logged_of_run hcode s₀ hrun
  generalize lastState (init s₀) run = s at *
  have hown : s.owner = none := by
    by_contra hne
    obtain ⟨t, ht⟩ := Option.ne_none_iff_exists'.mp hne
    exact h.idle t (hrest t) ht
  obtain ⟨horder, rfl⟩ := h.free hown
  have hperm := hlog.perm_returned h hrest horder
  refine ⟨_, h.serial.append_idle ?_, hperm, (hperm.map _).trans ?_⟩
  · intro x hx
    obtain ⟨hret, hnew⟩ := List.mem_filter.mp hx
    rcases h.returned x hret with hx' | ⟨-, halone⟩
    · refine absurd ?_ (of_decide_eq_true hnew)
      rw [horder, List.map_map]
      exact List.mem_map_of_mem hx'
    · exact halone
  · rw [← map_key_snd]
    refine perm_of_positions ?_ ?_ ?_
    · rw [List.map_map]
      exact hlog.returned_nodup
    · intro x hx
      obtain ⟨y, hy, rfl⟩ := List.mem_map.mp hx
      exact hlog.returned y hy
    · intro i hi
      rw [List.map_map]
      rcases hlog.all i hi with ⟨t, r, hr, -⟩ | hret
      · cases (hrest t).symm.trans hr
      · exact hret

/-! ### Calls with bounds on their loops -/

section Fuel

variable [DecidableEq C] {code : C × ℕ → Prog A R ε α} {J : S → List C → Prop}

/-- If `J` says that the calls that are left return when their loops are given enough iterations,
and keeps doing so after each of them, then one bound is enough for all orders of the calls. -/
theorem exists_allReturn
    (hJ : ∀ s cs c, J s cs → c ∈ cs → ∃ a s', J s' (cs.erase c) ∧ ∃ k, ∀ fuel, k ≤ fuel →
      (code (c, fuel)).alone exec s = .ok (a, s')) (h : J s₀ cs) :
    ∃ k, ∀ fuel, k ≤ fuel → AllReturn code exec s₀ (cs.map fun c => (c, fuel)) := by
  induction hlen : cs.length generalizing s₀ cs with
  | zero =>
    obtain rfl := List.length_eq_zero_iff.mp hlen
    refine ⟨0, fun fuel _ results c s₁ _ hcalls => ?_⟩
    simpa using hcalls.length_le
  | succ n ih =>
    -- a bound for the call `c` and those that follow it
    have hfirst : ∀ c, ∃ k, c ∈ cs → ∀ fuel, k ≤ fuel → ∃ a s',
        (code (c, fuel)).alone exec s₀ = .ok (a, s') ∧
          AllReturn code exec s' ((cs.erase c).map fun c => (c, fuel)) := by
      intro c
      by_cases hc : c ∈ cs
      · obtain ⟨a, s', h', k, hk⟩ := hJ s₀ cs c h hc
        have hlen' : (cs.erase c).length = n := by
          rw [List.length_erase_of_mem hc, hlen, Nat.add_sub_cancel]
        obtain ⟨l, hl⟩ := ih h' hlen'
        exact ⟨max k l, fun _ fuel hfuel => ⟨a, s', hk fuel (by omega), hl fuel (by omega)⟩⟩
      · exact ⟨0, fun hin => absurd hin hc⟩
    choose k hk using hfirst
    refine ⟨(cs.map k).sum, ?_⟩
    intro fuel hfuel
    have hbound : ∀ c ∈ cs, k c ≤ fuel := fun c hc =>
      (List.single_le_sum (fun _ _ => Nat.zero_le _) _ (List.mem_map_of_mem hc)).trans hfuel
    intro results c s₁ hserial hcalls
    cases results with
    | nil =>
      cases hserial
      obtain ⟨d, hd, rfl⟩ := List.mem_map.mp (hcalls.subset (List.mem_singleton_self c))
      obtain ⟨a, s', halone, -⟩ := hk d hd fuel (hbound d hd)
      exact ⟨a, s', halone⟩
    | cons x results =>
      obtain ⟨s₂, hx, hserial⟩ := hserial
      obtain ⟨d, hd, hdx⟩ : ∃ d ∈ cs, (d, fuel) = x.2.1 :=
        List.mem_map.mp (hcalls.subset List.mem_cons_self)
      obtain ⟨a, s', halone, hrest⟩ := hk d hd fuel (hbound d hd)
      rw [← hdx, halone] at hx
      cases hx
      refine hrest results c s₁ hserial ?_
      have herase := hcalls.erase (d, fuel)
      rw [List.map_cons, ← hdx, List.cons_append, List.erase_cons_head] at herase
      rwa [← List.map_erase (fun a b h => (Prod.mk.inj h).1)] at herase

end Fuel

end Threads

end StyLinux.Lib
