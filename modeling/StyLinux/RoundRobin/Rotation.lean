import Mathlib.Data.List.Rotate
import StyLinux.RoundRobin.States

/-!
# Fairness

Each iteration of the loop of `main` moves the first task of the queue to its end. So the tasks run
in turns, in the order in which they first became ready.
-/

namespace StyLinux.RoundRobin

open Lib

variable {σ T : Type} [DecidableEq T] {A : Allocator σ} {s : State σ T} {order : List T}

/-- The tasks in the order in which they first became ready. -/
def firstReady (readies : List T) : List T := readies.eraseDups

lemma firstReady_concat (readies : List T) (t : T) : firstReady (readies ++ [t]) =
    if t ∈ readies then firstReady readies else firstReady readies ++ [t] := by
  rw [firstReady, List.eraseDups_append]
  by_cases ht : t ∈ readies
  · simp [List.removeAll, ht, firstReady]
  · simp [List.removeAll, ht, firstReady, List.eraseDups_cons]

lemma mem_firstReady {readies : List T} {t : T} : t ∈ firstReady readies ↔ t ∈ readies :=
  List.mem_eraseDups

/-- What the queue holds when tasks have become ready. -/
lemma foldl_enqueue (readies : List T) :
    readies.foldl (fun items t => enqueue items (some t)) [] = (firstReady readies).map some := by
  induction readies using List.reverseRecOn with
  | nil => rfl
  | append_singleton readies t ih =>
    rw [List.foldl_append, ih, firstReady_concat]
    have hmem : some t ∈ (firstReady readies).map some ↔ t ∈ readies := by
      simp [mem_firstReady]
    rw [List.foldl_cons, List.foldl_nil, enqueue]
    simp only [hmem]
    split_ifs
    · rfl
    · simp

lemma exists_readies {items : List (Option T)} (hA : A.Succeeds) (hs : s.Queued items)
    (readies : List T) :
    ∃ s', readies.foldlM (fun s task => onTaskReady A (some task) s) s = .ok s' ∧
      s'.Queued (readies.foldl (fun items t => enqueue items (some t)) items) := by
  induction readies generalizing s items with
  | nil => exact ⟨s, rfl, hs⟩
  | cons t readies ih =>
    obtain ⟨s', hready, hs', -⟩ := exists_onTaskReady hA hs t
    obtain ⟨s'', hreadies, hs''⟩ := ih hs'
    refine ⟨s'', ?_, hs''⟩
    rw [List.foldlM_cons, hready, ok_bind, hreadies]

/-- An iteration moves the first task to the end. -/
lemma exists_iteration {t : T} (hA : A.Succeeds) (hs : s.Queued ((t :: order).map some)) :
    ∃ s₁ s₂, scheduleNextTask s = .ok (some t, s₁) ∧ onTaskReady A (some t) s₁ = .ok s₂ ∧
      s₂.Queued ((order ++ [t]).map some) := by
  obtain ⟨s₁, hschedule, hs₁, -⟩ := exists_scheduleNextTask hs
  obtain ⟨s₂, hready, hs₂, -⟩ := exists_onTaskReady hA hs₁ t
  refine ⟨s₁, s₂, hschedule, hready, ?_⟩
  have ht : some t ∉ order.map some := (List.nodup_cons.mp hs.nodup).1
  rw [List.map_cons, List.tail_cons, enqueue, if_neg ht] at hs₂
  rw [List.map_append]
  exact hs₂

/-- The task that runs in iteration `i`. -/
def turn (order : List T) (i : ℕ) : Option T := order[i % order.length]?

omit [DecidableEq T] in
lemma turn_rotate {t : T} (order : List T) (i : ℕ) :
    turn (order ++ [t]) i = turn (t :: order) (i + 1) := by
  have hrotate : order ++ [t] = (t :: order).rotate 1 := by simp
  have hlt : i % (t :: order).length < (t :: order).length :=
    Nat.mod_lt i (Nat.succ_pos order.length)
  rw [turn, turn, hrotate, List.length_rotate, List.getElem?_rotate hlt, Nat.mod_add_mod]

/-- The loop runs the tasks in turns. -/
lemma exists_mainLoop (hA : A.Succeeds) (hne : order ≠ []) (hs : s.Queued (order.map some))
    (iterations : ℕ) :
    ∃ s', mainLoop A iterations s = .ok ((List.range iterations).map (turn order), s') := by
  induction iterations generalizing s order with
  | zero => exact ⟨s, rfl⟩
  | succ iterations ih =>
    obtain ⟨t, order, rfl⟩ := List.exists_cons_of_ne_nil hne
    obtain ⟨s₁, s₂, hschedule, hready, hs₂⟩ := exists_iteration hA hs
    obtain ⟨s', hloop⟩ := ih (by simp) hs₂
    refine ⟨s', ?_⟩
    have hturns : (List.range iterations).map (turn (order ++ [t])) =
        (List.range iterations).map (turn (t :: order) ∘ Nat.succ) :=
      List.map_congr_left fun i _ => turn_rotate order i
    rw [mainLoop, hschedule, ok_bind]
    dsimp only
    rw [hready, ok_bind, hloop, ok_bind, hturns, List.range_succ_eq_map, List.map_cons,
      List.map_map]
    rfl

omit [DecidableEq T] in
lemma turn_ne_none (hne : order ≠ []) (i : ℕ) : turn order i ≠ none := by
  have hlt : i % order.length < order.length := Nat.mod_lt i (List.length_pos_iff.mpr hne)
  rw [turn, List.getElem?_eq_getElem hlt]
  exact Option.some_ne_none _

omit [DecidableEq T] in
/-- As many iterations as there are tasks run each task once. -/
lemma take_drop_turns {iterations k : ℕ} (hk : k + order.length ≤ iterations) :
    ((((List.range iterations).map (turn order)).drop k).take order.length).Perm
      (order.map some) := by
  have heq : (((List.range iterations).map (turn order)).drop k).take order.length =
      (order.rotate k).map some := by
    refine List.ext_getElem? fun i => ?_
    by_cases hi : i < order.length
    · have hlt : (i + k) % order.length < order.length := Nat.mod_lt _ (by omega)
      rw [List.getElem?_take_of_lt hi, List.getElem?_drop, List.getElem?_map,
        List.getElem?_range (by omega), List.getElem?_map, List.getElem?_rotate hi,
        Option.map_some, turn, Nat.add_comm k i, List.getElem?_eq_getElem hlt, Option.map_some]
    · rw [List.getElem?_eq_none (by simp; omega), List.getElem?_eq_none (by simp; omega)]
  rw [heq]
  exact (List.rotate_perm order k).map some

/-- Once tasks are ready, the loop of `main` runs them in turns in the order in which they first
became ready, and as many iterations as there are tasks run each of them once. -/
theorem main_turns (hA : A.Succeeds) (hempty : s.queue.listHead = none) {readies : List T}
    (hne : readies ≠ []) (iterations : ℕ) :
    ∃ tasks s', main A readies iterations s = .ok (tasks, s') ∧ none ∉ tasks ∧
      tasks = (List.range iterations).map (turn (firstReady readies)) ∧
      ∀ k, k + (firstReady readies).length ≤ iterations →
        ((tasks.drop k).take (firstReady readies).length).Perm ((firstReady readies).map some) := by
  have hs : s.Queued [] := State.queued_of_listHead hempty
  obtain ⟨s₁, hreadies, hs₁⟩ := exists_readies hA hs readies
  rw [foldl_enqueue] at hs₁
  have hne' : firstReady readies ≠ [] := by
    obtain ⟨t, rest, rfl⟩ := List.exists_cons_of_ne_nil hne
    exact List.ne_nil_of_mem (mem_firstReady.mpr (List.mem_cons_self (a := t)))
  obtain ⟨s', hloop⟩ := exists_mainLoop hA hne' hs₁ iterations
  refine ⟨_, s', ?_, ?_, rfl, fun k hk => take_drop_turns hk⟩
  · rw [main, hreadies, ok_bind, hloop]
  · intro hmem
    obtain ⟨i, -, hi⟩ := List.mem_map.mp hmem
    exact turn_ne_none hne' i hi

/-- The first of two tasks becomes ready twice. -/
theorem main_turns_twoTasks : ∃ tasks s',
    main lowestFirst [1, 0, 1] 5 (newTasks (T := Fin 2)) = .ok (tasks, s') ∧ none ∉ tasks ∧
      tasks = (List.range 5).map (turn (firstReady [1, 0, 1])) ∧
      ∀ k, k + (firstReady [(1 : Fin 2), 0, 1]).length ≤ 5 →
        ((tasks.drop k).take (firstReady [(1 : Fin 2), 0, 1]).length).Perm
          ((firstReady [1, 0, 1]).map some) :=
  main_turns lowestFirst_succeeds rfl (List.cons_ne_nil _ _) 5

example : (main lowestFirst [1, 0, 1] 5 (newTasks (T := Fin 2))).map Prod.fst =
    .ok [some 1, some 0, some 1, some 0, some 1] := by decide

end StyLinux.RoundRobin
