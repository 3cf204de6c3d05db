import Mathlib
import StyLinux.ProducerConsumer.Threads

/-!
# Calls of `produce` and `consume` that complete

Each thread of `vika9/Lab/Producer-ConsumerProblem3.c` makes a list of calls, one after the other.
A call that has begun is never stuck, and a run gets stuck in front of a call only if the buffer is
full and nothing is left but calls of `produce`, or empty and nothing is left but calls of
`consume`.
-/

namespace StyLinux.ProducerConsumer.Locked

open Lib

inductive Call (α : Type)
  | produce (item : α)
  | consume
  deriving DecidableEq, Repr

namespace Call

variable {α : Type}

def produces : Call α → ℕ
  | .produce _ => 1
  | .consume => 0

def consumes : Call α → ℕ
  | .produce _ => 0
  | .consume => 1

def items : Call α → Multiset α
  | .produce item => {item}
  | .consume => 0

/-- The number of statements of the call. -/
def statements : Call α → ℕ
  | .produce _ => 6
  | .consume => 7

end Call

variable {ι α M : Type}

/-- The call that begins with the statement. -/
def Statement.begins : Statement α → Option (Call α)
  | .produceWait item => some (.produce item)
  | .consumeWait => some .consume
  | _ => none

/-- The calls that begin in a run. -/
def calls (run : List ((ι × Statement α) × State ι α)) : List (Call α) :=
  run.filterMap fun x => x.1.2.begins

variable [DecidableEq ι]

/-- The calls that thread `t` begins. -/
def begun (t : ι) (run : List ((ι × Statement α) × State ι α)) : List (Call α) :=
  calls (run.filter fun x => x.1.1 = t)

/-- Every thread makes the calls of its list, as far as it has come. -/
def Follows (todo : ι → List (Call α)) (run : List ((ι × Statement α) × State ι α)) : Prop :=
  ∀ t, begun t run <+: todo t

variable {s s' : State ι α} {x : ι × Statement α} {t : ι}
  {run : List ((ι × Statement α) × State ι α)} {todo : ι → List (Call α)}

lemma step_place (hstep : Step s x s') :
    s'.place = Function.update s.place x.1 (s'.place x.1) := by
  cases hstep <;> simp [State.move]

/-! ### What the calls of all threads add up to -/

/-- What the calls of a list add up to. -/
def total [AddCommMonoid M] (f : Call α → M) (calls : List (Call α)) : M := (calls.map f).sum

section Totals

variable [Fintype ι]

lemma sum_begun [AddCommMonoid M] (f : Call α → M)
    (run : List ((ι × Statement α) × State ι α)) :
    ∑ t, total f (begun t run) = total f (calls run) := by
  induction run with
  | nil => simp [begun, calls, total]
  | cons x run ih =>
    have hsplit (t : ι) : total f (begun t (x :: run)) =
        (if x.1.1 = t then total f x.1.2.begins.toList else 0) + total f (begun t run) := by
      unfold begun calls total
      by_cases ht : x.1.1 = t
      · rw [List.filter_cons_of_pos (by simpa using ht), List.filterMap_cons, if_pos ht]
        cases x.1.2.begins <;> simp
      · rw [List.filter_cons_of_neg (by simpa using ht), if_neg ht, zero_add]
    rw [Finset.sum_congr rfl fun t _ => hsplit t, Finset.sum_add_distrib, ih,
      Finset.sum_ite_eq, if_pos (Finset.mem_univ _)]
    unfold calls total
    rw [List.filterMap_cons]
    cases x.1.2.begins <;> simp

lemma sum_step [AddCommMonoid M] (f : Place α → M) (hstep : Step s x s') :
    ∑ t, f (s'.place t) + f (s.place x.1) = ∑ t, f (s.place t) + f (s'.place x.1) := by
  have hothers : ∑ t ∈ Finset.univ.erase x.1, f (s'.place t) =
      ∑ t ∈ Finset.univ.erase x.1, f (s.place t) := by
    apply Finset.sum_congr rfl
    intro t ht
    rw [step_place hstep, Function.update_of_ne (Finset.ne_of_mem_erase ht)]
  rw [← Finset.add_sum_erase _ _ (Finset.mem_univ x.1), hothers,
    ← Finset.add_sum_erase Finset.univ (fun t => f (s.place t)) (Finset.mem_univ x.1)]
  abel

/-- A total over the threads and the state, which each statement changes by `e` apart from the calls
that begin. -/
lemma total_run [AddCancelCommMonoid M] {f : Place α → M} {g : State ι α → M} {h : Call α → M}
    {e : M} (hchange : ∀ (s : State ι α) x s', Step s x s' →
      g s' + f (s'.place x.1) + e = g s + f (s.place x.1) + total h x.2.begins.toList)
    (hrun : IsRun Step s run) :
    g (lastState s run) + ∑ t, f ((lastState s run).place t) + run.length • e =
      g s + ∑ t, f (s.place t) + total h (calls run) := by
  induction run generalizing s with
  | nil => simp [total, calls]
  | cons x run ih =>
    have hrest := ih hrun.2
    have hfirst := hchange s x.1 x.2 hrun.1
    have hsum := sum_step f hrun.1
    have hcalls : total h (calls (x :: run)) =
        total h x.1.2.begins.toList + total h (calls run) := by
      unfold calls total
      rw [List.filterMap_cons]
      cases x.1.2.begins <;> simp
    rw [lastState_cons, hcalls, List.length_cons, succ_nsmul, ← add_assoc, hrest]
    apply add_right_cancel (b := f (s.place x.1.1))
    calc
      g x.2 + ∑ t, f (x.2.place t) + total h (calls run) + e + f (s.place x.1.1)
        = g x.2 + (∑ t, f (x.2.place t) + f (s.place x.1.1)) + e + total h (calls run) := by abel
      _ = (g x.2 + f (x.2.place x.1.1) + e) + ∑ t, f (s.place t) + total h (calls run) := by
        rw [hsum]
        abel
      _ = g s + ∑ t, f (s.place t) + (total h x.1.2.begins.toList + total h (calls run)) +
          f (s.place x.1.1) := by
        rw [hfirst]
        abel

end Totals

namespace Place

variable {α : Type}

/-- The number of statements to the end of the call. -/
def left : Place α → ℕ
  | .idle => 0
  | .produceWaited _ => 5
  | .produceLocked _ => 4
  | .written _ => 3
  | .incremented => 2
  | .produceUnlocked => 1
  | .consumeWaited => 6
  | .consumeLocked => 5
  | .decremented => 4
  | .read _ => 3
  | .consumeUnlocked _ => 2
  | .posted _ => 1

/-- The item that is not counted by the index yet. -/
def unproduced : Place α → Multiset α
  | .produceWaited item => {item}
  | .produceLocked item => {item}
  | .written item => {item}
  | _ => 0

/-- 1 while an item is to be returned. -/
def unreturned : Place α → ℕ
  | .consumeWaited => 1
  | .consumeLocked => 1
  | .decremented => 1
  | .read _ => 1
  | .consumeUnlocked _ => 1
  | .posted _ => 1
  | _ => 0

end Place

section Run

variable [Fintype ι] {buffer : ℤ → α}

lemma length_add_left (hrun : IsRun Step (init buffer : State ι α) run) :
    run.length + ∑ t, ((lastState (init buffer) run).place t).left =
      total Call.statements (calls run) := by
  have htotal := total_run (f := Place.left) (g := fun _ => 0) (h := Call.statements) (e := 1) ?_
    hrun
  · simp only [init, Place.left, Finset.sum_const_zero, smul_eq_mul] at htotal ⊢
    omega
  · intro s x s' hstep
    cases hstep <;> simp_all [State.move, Statement.begins, total, Place.left, Call.statements]

lemma produced_add_unproduced (hrun : IsRun Step (init buffer : State ι α) run) :
    ((lastState (init buffer) run).produced : Multiset α) +
      ∑ t, ((lastState (init buffer) run).place t).unproduced = total Call.items (calls run) := by
  have htotal := total_run (f := Place.unproduced)
    (g := fun s : State ι α => (s.produced : Multiset α)) (h := Call.items) (e := 0) ?_ hrun
  · simpa [init, Place.unproduced] using htotal
  · intro s x s' hstep
    cases hstep <;>
      simp_all [State.move, Statement.begins, total, Place.unproduced, Call.items,
        ← Multiset.coe_add]

lemma returned_add_unreturned (hrun : IsRun Step (init buffer : State ι α) run) :
    (lastState (init buffer) run).returned.length +
      ∑ t, ((lastState (init buffer) run).place t).unreturned =
        total Call.consumes (calls run) := by
  have htotal := total_run (f := Place.unreturned)
    (g := fun s : State ι α => s.returned.length) (h := Call.consumes) (e := 0) ?_ hrun
  · simpa [init, Place.unreturned] using htotal
  · intro s x s' hstep
    cases hstep <;> simp_all [State.move, Statement.begins, total, Place.unreturned, Call.consumes]

end Run

/-! ### Calls that have begun -/

/-- While a call has begun, one of the threads can go on with its own. -/
lemma exists_step_of_not_idle (hs : Guarded s) (ht : s.place t ≠ .idle) :
    ∃ x s', Step s x s' ∧ x.2.begins = none := by
  obtain ⟨u, hu, hlock⟩ : ∃ u, s.place u ≠ .idle ∧ (s.mutex = none ∨ (s.place u).Critical) := by
    cases hmutex : s.mutex with
    | none => exact ⟨t, ht, .inl rfl⟩
    | some u =>
      have hcritical := (hs u).mpr hmutex
      refine ⟨u, ?_, .inr hcritical⟩
      intro hidle
      rw [hidle] at hcritical
      exact hcritical
  cases hp : s.place u with
  | idle => exact absurd hp hu
  | produceWaited item =>
    rw [hp] at hlock
    exact ⟨_, _, .produceLock s u item hp (hlock.resolve_right id), rfl⟩
  | produceLocked item => exact ⟨_, _, .produceWrite s u item hp, rfl⟩
  | written item => exact ⟨_, _, .produceIncrement s u item hp, rfl⟩
  | incremented => exact ⟨_, _, .produceUnlock s u hp, rfl⟩
  | produceUnlocked => exact ⟨_, _, .producePost s u hp, rfl⟩
  | consumeWaited =>
    rw [hp] at hlock
    exact ⟨_, _, .consumeLock s u hp (hlock.resolve_right id), rfl⟩
  | consumeLocked => exact ⟨_, _, .consumeDecrement s u hp, rfl⟩
  | decremented => exact ⟨_, _, .consumeRead s u hp, rfl⟩
  | read item => exact ⟨_, _, .consumeUnlock s u item hp, rfl⟩
  | consumeUnlocked item => exact ⟨_, _, .consumePost s u item hp, rfl⟩
  | posted item => exact ⟨_, _, .consumeReturn s u item hp, rfl⟩

lemma begun_concat (t : ι) (run : List ((ι × Statement α) × State ι α)) (x : ι × Statement α)
    (s' : State ι α) :
    begun t (run ++ [(x, s')]) = begun t run ++ if x.1 = t then x.2.begins.toList else [] := by
  unfold begun calls
  rw [List.filter_append, List.filterMap_append]
  by_cases ht : x.1 = t
  · cases hbegins : x.2.begins <;> simp [ht, hbegins]
  · simp [ht]

lemma Follows.concat (h : Follows todo run) (hbegins : x.2.begins = none) :
    Follows todo (run ++ [(x, s')]) := by
  intro t
  rw [begun_concat, hbegins]
  simpa using h t

lemma Follows.concat_call {call : Call α} {rest : List (Call α)} (h : Follows todo run)
    (hcall : x.2.begins = some call) (htodo : todo x.1 = begun x.1 run ++ call :: rest) :
    Follows todo (run ++ [(x, s')]) := by
  intro t
  rw [begun_concat, hcall]
  by_cases ht : x.1 = t
  · rw [if_pos ht, ← ht, htodo]
    exact ⟨rest, by simp⟩
  · simpa [ht] using h t

/-- The run cannot go on with the calls that are left. -/
def Stuck (todo : ι → List (Call α)) (s : State ι α)
    (run : List ((ι × Statement α) × State ι α)) : Prop :=
  ∀ x s', Step (lastState s run) x s' → ¬Follows todo (run ++ [(x, s')])

/-- A run gets stuck between the calls only, in front of a full or an empty buffer. -/
lemma Stuck.waits {buffer : ℤ → α} (hrun : IsRun Step (init buffer) run)
    (hfollows : Follows todo run) (hstuck : Stuck todo (init buffer) run) :
    (∀ t, (lastState (init buffer) run).place t = .idle) ∧
      ∀ t call rest, todo t = begun t run ++ call :: rest →
        match call with
        | .produce _ => (lastState (init buffer) run).empty = 0
        | .consume => (lastState (init buffer) run).full = 0 := by
  have hkept : Kept (lastState (init buffer) run) :=
    hrun.invariant (fun _ _ _ hs hstep => hs.step hstep) (kept_init buffer)
  have hidle : ∀ t, (lastState (init buffer) run).place t = .idle := by
    intro t
    by_contra ht
    obtain ⟨x, s', hstep, hbegins⟩ := exists_step_of_not_idle hkept.guarded ht
    exact hstuck x s' hstep (hfollows.concat hbegins)
  refine ⟨hidle, ?_⟩
  intro t call rest htodo
  cases call with
  | produce item =>
    by_contra hempty
    obtain ⟨empty, hempty⟩ := Nat.exists_eq_succ_of_ne_zero hempty
    exact hstuck _ _ (.produceWait _ t item empty (hidle t) hempty)
      (hfollows.concat_call rfl htodo)
  | consume =>
    by_contra hfull
    obtain ⟨full, hfull⟩ := Nat.exists_eq_succ_of_ne_zero hfull
    exact hstuck _ _ (.consumeWait _ t full (hidle t) hfull) (hfollows.concat_call rfl htodo)

/-! ### Runs that complete -/

section Completion

variable {buffer : ℤ → α}

omit [DecidableEq ι] in
lemma hasTotal_eq_zero {f : ι → M} [AddCommMonoid M] {n : M} (h : HasTotal f n)
    (hzero : ∀ t, f t = 0) : n = 0 := by
  obtain ⟨T, -, rfl⟩ := h
  exact Finset.sum_eq_zero fun t _ => hzero t

omit [DecidableEq ι] in
/-- Between the calls, `full` counts the items in the buffer, which are produced and not
returned. -/
lemma Kept.between (hs : Kept s) (hidle : ∀ t, s.place t = .idle) :
    s.empty + s.full = BUFFER_SIZE ∧ (s.produced : Multiset α) = s.returned + s.stored ∧
      s.stored.card = s.full := by
  obtain ⟨ahead, aside, hahead, haside, hslots, hindex⟩ := hs.counted
  obtain ⟨carried, hcarried, hconsumed⟩ := hs.carried
  have hzero : ahead = 0 := hasTotal_eq_zero hahead fun t => by rw [hidle t]; rfl
  have hzero' : aside = 0 := hasTotal_eq_zero haside fun t => by rw [hidle t]; rfl
  have hnone : carried = 0 := hasTotal_eq_zero hcarried fun t => by rw [hidle t]; rfl
  have hfree : s.mutex = none := by
    rw [Option.eq_none_iff_forall_ne_some]
    intro t ht
    have hcritical := (hs.guarded t).mpr ht
    rw [hidle t] at hcritical
    exact hcritical
  have hitems := hs.items
  rw [depth_of_free hfree, hconsumed, hnone, add_zero] at hitems
  refine ⟨by omega, hitems, ?_⟩
  rw [State.stored, firstItems, Multiset.card_map, Multiset.card_range, hindex]
  omega

lemma card_total_items (calls : List (Call α)) :
    (total Call.items calls).card = total Call.produces calls := by
  induction calls with
  | nil => rfl
  | cons call calls ih =>
    simp only [total, List.map_cons, List.sum_cons, Multiset.card_add] at ih ⊢
    rw [ih]
    cases call <;> rfl

lemma total_le_of_prefix (f : Call α → ℕ) {l l' : List (Call α)} (h : l <+: l') :
    total f l ≤ total f l' := by
  obtain ⟨rest, rfl⟩ := h
  simp [total]

variable [Fintype ι]

/-- What the calls of all lists add up to. -/
def sumTodo [AddCommMonoid M] (f : Call α → M) (todo : ι → List (Call α)) : M :=
  ∑ t, total f (todo t)

lemma Follows.total_calls_le (h : Follows todo run) (f : Call α → ℕ) :
    total f (calls run) ≤ sumTodo f todo := by
  rw [← sum_begun]
  exact Finset.sum_le_sum fun t _ => total_le_of_prefix f (h t)

lemma Follows.total_calls_lt {f : Call α → ℕ} {call : Call α} {rest : List (Call α)}
    (h : Follows todo run) (htodo : todo t = begun t run ++ call :: rest) (hcall : 0 < f call) :
    total f (calls run) < sumTodo f todo := by
  rw [← sum_begun]
  apply Finset.sum_lt_sum (fun t _ => total_le_of_prefix f (h t))
  refine ⟨t, Finset.mem_univ t, ?_⟩
  rw [htodo]
  simp only [total, List.map_append, List.map_cons, List.sum_append, List.sum_cons]
  omega

omit [Fintype ι] in
lemma Follows.next (h : Follows todo run) (t : ι) :
    begun t run = todo t ∨ ∃ call rest, todo t = begun t run ++ call :: rest := by
  obtain ⟨rest, hrest⟩ := h t
  cases rest with
  | nil =>
    rw [List.append_nil] at hrest
    exact .inl hrest
  | cons call rest => exact .inr ⟨call, rest, hrest.symm⟩

lemma total_eq_zero {f : Call α → ℕ} {l : List (Call α)} (h : ∀ call ∈ l, f call = 0) :
    total f l = 0 := by
  unfold total
  rw [List.sum_eq_zero]
  intro n hn
  obtain ⟨call, hcall, rfl⟩ := List.mem_map.mp hn
  exact h call hcall

/-- Each thread only produces or only consumes. -/
def Divided (todo : ι → List (Call α)) : Prop :=
  ∀ t, (∀ call ∈ todo t, call.consumes = 0) ∨ ∀ call ∈ todo t, call.produces = 0

/-- The threads for which `f` counts no call, and those that are done, add up alike. -/
lemma Follows.total_calls_eq {f : Call α → ℕ} (h : Follows todo run)
    (hdone : ∀ t, (∀ call ∈ todo t, f call = 0) ∨ begun t run = todo t) :
    total f (calls run) = sumTodo f todo := by
  rw [← sum_begun]
  apply Finset.sum_congr rfl
  intro t _
  rcases hdone t with hnone | heq
  · rw [total_eq_zero hnone, total_eq_zero fun call hcall => hnone call ((h t).subset hcall)]
  · rw [heq]

lemma Stuck.done (hdivided : Divided todo)
    (hconsumes : sumTodo Call.consumes todo ≤ sumTodo Call.produces todo)
    (hproduces : sumTodo Call.produces todo ≤ sumTodo Call.consumes todo + BUFFER_SIZE)
    (hrun : IsRun Step (init buffer) run) (hfollows : Follows todo run)
    (hstuck : Stuck todo (init buffer) run) (t : ι) : begun t run = todo t := by
  have hkept : Kept (lastState (init buffer) run) :=
    hrun.invariant (fun _ _ _ hs hstep => hs.step hstep) (kept_init buffer)
  obtain ⟨hidle, hwaits⟩ := hstuck.waits hrun hfollows
  obtain ⟨hslots, hstored, hcard⟩ := hkept.between hidle
  have hproduced := produced_add_unproduced hrun
  have hreturned := returned_add_unreturned hrun
  simp only [hidle, Place.unproduced, Place.unreturned, Finset.sum_const_zero, add_zero]
    at hproduced hreturned
  -- the calls of `produce` that were begun are ahead of those of `consume` by the items stored
  have hahead : total Call.produces (calls run) =
      total Call.consumes (calls run) + (lastState (init buffer) run).full := by
    rw [← card_total_items, ← hproduced, hstored, Multiset.card_add, hcard, ← hreturned]
    rfl
  rcases hfollows.next t with hdone | ⟨call, rest, htodo⟩
  · exact hdone
  · exfalso
    have hwait := hwaits t call rest htodo
    cases call with
    | produce item =>
      have hempty : (lastState (init buffer) run).empty = 0 := hwait
      have hlt := hfollows.total_calls_lt (f := Call.produces) htodo Nat.one_pos
      have heq : total Call.consumes (calls run) = sumTodo Call.consumes todo := by
        apply hfollows.total_calls_eq
        intro u
        rcases hdivided u with hnone | hconsumer
        · exact .inl hnone
        · rcases hfollows.next u with hdone | ⟨call, rest, hu⟩
          · exact .inr hdone
          · have hwait := hwaits u call rest hu
            have hcall := hconsumer call (by simp [hu])
            cases call with
            | produce item => cases hcall
            | consume =>
              have hfull : (lastState (init buffer) run).full = 0 := hwait
              rw [hempty, hfull] at hslots
              cases hslots
      omega
    | consume =>
      have hfull : (lastState (init buffer) run).full = 0 := hwait
      have hlt := hfollows.total_calls_lt (f := Call.consumes) htodo Nat.one_pos
      have heq : total Call.produces (calls run) = sumTodo Call.produces todo := by
        apply hfollows.total_calls_eq
        intro u
        rcases hdivided u with hproducer | hnone
        · rcases hfollows.next u with hdone | ⟨call, rest, hu⟩
          · exact .inr hdone
          · have hwait := hwaits u call rest hu
            have hcall := hproducer call (by simp [hu])
            cases call with
            | produce item =>
              have hempty : (lastState (init buffer) run).empty = 0 := hwait
              rw [hempty, hfull] at hslots
              cases hslots
            | consume => cases hcall
        · exact .inl hnone
      omega

/-- Producers and consumers whose calls fit: every run is finite, and it goes on until all calls
have returned. Then the items produced are those of the calls, and the ones that were not returned
are in the buffer. -/
theorem completes (hdivided : Divided todo)
    (hconsumes : sumTodo Call.consumes todo ≤ sumTodo Call.produces todo)
    (hproduces : sumTodo Call.produces todo ≤ sumTodo Call.consumes todo + BUFFER_SIZE)
    (hrun : IsRun Step (init buffer) run) (hfollows : Follows todo run) :
    run.length ≤ sumTodo Call.statements todo ∧
      (Stuck todo (init buffer) run →
        let s := lastState (init buffer) run
        (∀ t, begun t run = todo t ∧ s.place t = .idle) ∧
          (s.produced : Multiset α) = sumTodo Call.items todo ∧
          s.returned.length = sumTodo Call.consumes todo ∧
          (s.produced : Multiset α) = s.returned + s.stored) := by
  have hlength := length_add_left hrun
  have hle := hfollows.total_calls_le Call.statements
  refine ⟨by omega, ?_⟩
  intro hstuck
  have hkept : Kept (lastState (init buffer) run) :=
    hrun.invariant (fun _ _ _ hs hstep => hs.step hstep) (kept_init buffer)
  have hdone := hstuck.done hdivided hconsumes hproduces hrun hfollows
  obtain ⟨hidle, -⟩ := hstuck.waits hrun hfollows
  obtain ⟨-, hstored, -⟩ := hkept.between hidle
  have hproduced := produced_add_unproduced hrun
  have hreturned := returned_add_unreturned hrun
  simp only [hidle, Place.unproduced, Place.unreturned, Finset.sum_const_zero, add_zero]
    at hproduced hreturned
  have hsum {N : Type} [AddCommMonoid N] (f : Call α → N) :
      total f (calls run) = sumTodo f todo := by
    rw [← sum_begun]
    exact Finset.sum_congr rfl fun t _ => by rw [hdone t]
  exact ⟨fun t => ⟨hdone t, hidle t⟩, hproduced.trans (hsum _), hreturned.trans (hsum _), hstored⟩

/-- One thread produces an item, and another one consumes it. -/
def oneItem (t : Bool) : List (Call ℤ) := if t then [.produce 10] else [.consume]

/-- The consumer waits for the producer, which then posts the item before the consumer goes on. -/
theorem completes_run : ∃ run, IsRun Step (init fun _ => (0 : ℤ) : State Bool ℤ) run ∧
    Follows oneItem run ∧ (lastState (init fun _ => 0) run).returned = [10] ∧
      run.length ≤ sumTodo Call.statements oneItem ∧
      (Stuck oneItem (init fun _ => 0) run →
        let s := lastState (init fun _ => 0) run
        (∀ t, begun t run = oneItem t ∧ s.place t = .idle) ∧
          (s.produced : Multiset ℤ) = sumTodo Call.items oneItem ∧
          s.returned.length = sumTodo Call.consumes oneItem ∧
          (s.produced : Multiset ℤ) = s.returned + s.stored) := by
  obtain ⟨run, hrun, hfollows, hreturned⟩ : ∃ run,
      IsRun Step (init fun _ => (0 : ℤ) : State Bool ℤ) run ∧ Follows oneItem run ∧
        (lastState (init fun _ => 0) run).returned = [10] := by
    refine ⟨[((true, .produceWait 10), _), ((true, .produceLock), _), ((true, .produceWrite), _),
        ((true, .produceIncrement), _), ((true, .produceUnlock), _), ((true, .producePost), _),
        ((false, .consumeWait), _), ((false, .consumeLock), _), ((false, .consumeDecrement), _),
        ((false, .consumeRead), _), ((false, .consumeUnlock), _), ((false, .consumePost), _),
        ((false, .consumeReturn), _)],
      ⟨.produceWait _ true 10 9 rfl rfl, .produceLock _ true 10 rfl rfl,
        .produceWrite _ true 10 rfl, .produceIncrement _ true 10 rfl, .produceUnlock _ true rfl,
        .producePost _ true rfl, .consumeWait _ false 0 rfl rfl, .consumeLock _ false rfl rfl,
        .consumeDecrement _ false rfl, .consumeRead _ false rfl, .consumeUnlock _ false _ rfl,
        .consumePost _ false _ rfl, .consumeReturn _ false _ rfl, trivial⟩, ?_, rfl⟩
    intro t
    cases t
    · exact List.prefix_rfl
    · exact List.prefix_rfl
  have hdivided : Divided oneItem := by
    intro t
    cases t
    · exact .inr (by decide)
    · exact .inl (by decide)
  exact ⟨run, hrun, hfollows, hreturned,
    completes hdivided (by decide) (by decide) hrun hfollows⟩

end Completion

end StyLinux.ProducerConsumer.Locked
