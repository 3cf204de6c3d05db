import StyLinux.Lib.Fifo
import StyLinux.Lib.Simulation
import StyLinux.RoundRobin.Model

/-!
# The lists as queues

The list functions work like those of a first-in first-out queue, except that `isEmpty` of `list.c`
answers the other way round.
-/

namespace StyLinux.RoundRobin

open Lib

variable {σ τ T : Type}

/-- The items of the list, from the first to the last. -/
def TaskList.Items (s : TaskList σ T) (items : List (Option T)) : Prop :=
  ∃ nodes, s.mem.Holds s.listHead nodes items

variable {A : Allocator σ} {s : TaskList σ T} {mem : Memory σ (Option T)} {p : Option ℕ}
  {nodes : List ℕ} {items : List (Option T)} {task : Option T}

lemma TaskList.items_of_listHead (hs : s.listHead = none) : s.Items [] := by
  refine ⟨[], ?_⟩
  rw [hs]
  exact Memory.holds_nil

lemma TaskList.Items.unique {items' : List (Option T)} (h : s.Items items) (h' : s.Items items') :
    items = items' := by
  obtain ⟨nodes, hnodes⟩ := h
  obtain ⟨nodes', hnodes'⟩ := h'
  exact (hnodes.unique hnodes').2

lemma TaskList.Items.listHead_eq_none_iff (h : s.Items items) : s.listHead = none ↔ items = [] := by
  obtain ⟨nodes, hnodes⟩ := h
  exact hnodes.eq_none_iff

/-! ### The functions -/

lemma lastItem_eq {a last : ℕ} (h : mem.Holds (some a) (nodes ++ [last]) items) {fuel : ℕ}
    (hfuel : nodes.length < fuel) : lastItem mem fuel a = .ok last := by
  induction fuel generalizing a nodes items with
  | zero => omega
  | succ fuel ih =>
    cases nodes with
    | nil =>
      have hlast := h.next_last
      obtain rfl : a = last := by simpa using h.chain.1
      rw [lastItem, Memory.load_of_mem (h.allocated a (by simp)), ok_bind]
      rw [Memory.next] at hlast
      rw [hlast]
    | cons b nodes =>
      obtain ⟨item, rest, -, hb, hallocated, -, hrest⟩ := h.exists_cons
      cases hb
      obtain ⟨c, hc⟩ := hrest.exists_eq_some
      rw [hc] at hrest
      rw [Memory.next] at hc
      rw [lastItem, Memory.load_of_mem hallocated, ok_bind, hc]
      exact ih hrest (by simpa using hfuel)

/-- The new item comes behind all the others. -/
lemma exists_appendItem (hA : A.Succeeds) (hs : s.Items items) (task : Option T) :
    ∃ s', appendItem A task s = .ok s' ∧ s'.Items (items ++ [task]) := by
  obtain ⟨nodes, hnodes⟩ := hs
  unfold appendItem
  obtain ⟨newNode, hnewNode⟩ := Option.ne_none_iff_exists'.mp (hA s.mem.os s.mem.allocated)
  obtain ⟨mem, hmalloc, hkept, hnot, hallocated, hnew⟩ := hnodes.exists_malloc hnewNode ⟨task, none⟩
  rw [hmalloc]
  dsimp only
  rcases List.eq_nil_or_concat' nodes with rfl | ⟨nodes, last, rfl⟩
  · rw [hkept.eq_head?, hkept.eq_nil]
    exact ⟨_, rfl, [newNode], Memory.Holds.singleton hallocated hnew⟩
  · obtain ⟨head, hhead⟩ := hkept.exists_eq_some
    have hlength := hkept.length_le
    rw [List.length_append, List.length_singleton] at hlength
    rw [hhead] at hkept ⊢
    have hlast : lastItem mem mem.allocated.card head = .ok last := lastItem_eq hkept hlength
    dsimp only
    rw [hlast, ok_bind, Memory.setNext_of_mem (hkept.allocated last (by simp)), ok_bind]
    refine ⟨_, rfl, nodes ++ [last, newNode], ?_⟩
    exact hkept.append hallocated hnew hnot

/-- The first item is returned, `NULL` if there is none. -/
lemma exists_removeFirstItem (hs : s.Items items) :
    ∃ s', removeFirstItem s = .ok (items.head?.join, s') ∧ s'.Items items.tail := by
  obtain ⟨nodes, hnodes⟩ := hs
  unfold removeFirstItem
  cases items with
  | nil =>
    rw [hnodes.eq_none_iff.mpr rfl]
    refine ⟨s, rfl, nodes, hnodes⟩
  | cons item items =>
    cases nodes with
    | nil => exact absurd hnodes.eq_nil (List.cons_ne_nil _ _)
    | cons head nodes =>
      obtain ⟨hhead, hallocated, hitem, -⟩ := Memory.holds_cons.mp hnodes
      rw [hhead]
      dsimp only
      rw [Memory.load_of_mem hallocated, ok_bind, hitem]
      exact ⟨_, rfl, nodes, hnodes.removeFirst⟩

lemma isEmpty_eq (hs : s.Items items) : isEmpty s = if items = [] then 1 else 0 := by
  unfold isEmpty
  simp only [hs.listHead_eq_none_iff]

section Search

variable [DecidableEq T]

lemma containsLoop_eq (h : mem.Holds p nodes items) {fuel : ℕ} (hfuel : nodes.length ≤ fuel) :
    containsLoop mem task fuel p = .ok (if task ∈ items then 1 else 0) := by
  induction nodes generalizing p items fuel with
  | nil =>
    rw [h.eq_head?, h.eq_nil]
    cases fuel <;> rfl
  | cons a nodes ih =>
    rw [List.length_cons] at hfuel
    obtain ⟨fuel, rfl⟩ := Nat.exists_eq_add_one_of_ne_zero (by omega : fuel ≠ 0)
    obtain ⟨item, rest, rfl, hp, hallocated, hitem, hrest⟩ := h.exists_cons
    rw [hp, containsLoop, Memory.load_of_mem hallocated, ok_bind, hitem]
    by_cases heq : item = task
    · simp [heq]
    · have hne : task ≠ item := Ne.symm heq
      have hloop := ih hrest (by omega : nodes.length ≤ fuel)
      rw [Memory.next] at hloop
      rw [if_neg heq, hloop]
      simp [hne]

lemma containsItem_eq (hs : s.Items items) (task : Option T) :
    containsItem task s = .ok (if task ∈ items then 1 else 0) := by
  obtain ⟨nodes, hnodes⟩ := hs
  exact containsLoop_eq hnodes hnodes.length_le

/-! ### Both lists -/

/-- What a first-in first-out queue answers. -/
def respond (h : History (Option T)) : Call T → Answer T × History (Option T)
  | .appendItem task => (.done, h.append task)
  | .removeFirstItem => (.task h.oldest.join, h.remove)
  | .containsItem task => (.truth (h.removed.count task < h.appended.count task), h)
  | .isEmpty => (.truth (h.removals = h.appended.length), h)

/-- What the functions of `list.c` answer. -/
def ListC.respond (h : History (Option T)) : Call T → Answer T × History (Option T)
  | .isEmpty => (.truth (h.removals ≠ h.appended.length), h)
  | c => RoundRobin.respond h c

/-- The answers of an initially empty queue. -/
def expected (calls : List (Call T)) : List (Answer T) := (execSpec respond .start calls).1

/-- The calls all return, with the given answers. -/
def Answers (call : TaskList σ T → Call T → Except PointerFault (Answer T × TaskList σ T))
    (s : TaskList σ T) (calls : List (Call T)) (answers : List (Answer T)) : Prop :=
  ∃ s', exec call s calls = .ok (answers, s')

/-- The list consists of the items that wait in the queue. -/
def Waits (h : History (Option T)) (s : TaskList σ T) : Prop := s.Items h.waiting

variable {h : History (Option T)}

/-- A call of a function that is the same in both files. -/
lemma exists_callWith (hA : A.Succeeds) (e : TaskList σ T → ℤ) (hs : Waits h s) {c : Call T}
    (hc : c ≠ .isEmpty) :
    ∃ s', callWith e A s c = .ok ((respond h c).1, s') ∧ Waits (respond h c).2 s' := by
  cases c with
  | appendItem task =>
    obtain ⟨s', happend, hs'⟩ := exists_appendItem hA hs task
    refine ⟨s', ?_, ?_⟩
    · rw [callWith, happend, ok_bind]
      rfl
    · rw [Waits, respond, History.waiting_append]
      exact hs'
  | removeFirstItem =>
    obtain ⟨s', hremove, hs'⟩ := exists_removeFirstItem hs
    refine ⟨s', ?_, ?_⟩
    · rw [callWith, hremove, ok_bind, ← h.oldest_eq_head?]
      rfl
    · rw [Waits, respond, History.waiting_remove]
      exact hs'
  | containsItem task =>
    refine ⟨s, ?_, hs⟩
    rw [callWith, containsItem_eq hs, ok_bind, respond]
    simp [h.mem_waiting_iff]
  | isEmpty => exact absurd rfl hc

lemma exists_call (hA : A.Succeeds) (hs : Waits h s) (c : Call T) :
    ∃ s', call A s c = .ok ((respond h c).1, s') ∧ Waits (respond h c).2 s' := by
  by_cases hc : c = .isEmpty
  · subst hc
    refine ⟨s, ?_, hs⟩
    rw [call, callWith, isEmpty_eq hs, respond]
    simp [h.waiting_eq_nil_iff]
  · exact exists_callWith hA _ hs hc

lemma ListC.respond_of_ne {c : Call T} (hc : c ≠ .isEmpty) :
    ListC.respond h c = RoundRobin.respond h c := by
  cases c with
  | isEmpty => exact absurd rfl hc
  | _ => rfl

lemma ListC.exists_call (hA : A.Succeeds) (hs : Waits h s) (c : Call T) :
    ∃ s', ListC.call A s c = .ok ((ListC.respond h c).1, s') ∧
      Waits (ListC.respond h c).2 s' := by
  by_cases hc : c = .isEmpty
  · subst hc
    refine ⟨s, ?_, hs⟩
    simp only [ListC.call, callWith, ListC.isEmpty, hs.listHead_eq_none_iff, h.waiting_eq_nil_iff,
      ListC.respond]
    simp
  · rw [ListC.respond_of_ne hc]
    exact exists_callWith hA _ hs hc

/-- The answers of `list.c` are those of a queue up to the first call of `isEmpty`. -/
lemma ListC.execSpec_eq_iff (calls : List (Call T)) (h : History (Option T)) :
    (execSpec ListC.respond h calls).1 = (execSpec RoundRobin.respond h calls).1 ↔
      Call.isEmpty ∉ calls := by
  induction calls generalizing h with
  | nil => simp [execSpec]
  | cons c calls ih =>
    simp only [execSpec, List.cons.injEq, List.mem_cons, not_or]
    by_cases hc : c = .isEmpty
    · subst hc
      refine iff_of_false ?_ fun hnot => hnot.1 rfl
      rintro ⟨hanswer, -⟩
      simp [ListC.respond, RoundRobin.respond] at hanswer
    · rw [ListC.respond_of_ne hc, ih]
      exact and_congr_left fun _ => iff_of_true rfl (Ne.symm hc)

omit [DecidableEq T] in
/-- From an empty list the calls answer as specified if each of them does. -/
lemma answers_execSpec
    {call : TaskList σ T → Call T → Except PointerFault (Answer T × TaskList σ T)}
    {spec : History (Option T) → Call T → Answer T × History (Option T)}
    (hcall : ∀ h s c, Waits h s → ∃ s', call s c = .ok ((spec h c).1, s') ∧ Waits (spec h c).2 s')
    (hs : s.listHead = none) (calls : List (Call T)) :
    Answers call s calls (execSpec spec .start calls).1 := by
  have hadmits : Admits call (fun _ _ => True) s calls := admits_of_forall (by simp) s calls
  have hempty : Waits .start s := TaskList.items_of_listHead hs
  obtain ⟨s', hs', -⟩ := exec_simulates (fun h s c hs _ => hcall h s c hs) hempty hadmits
  exact ⟨s', hs'⟩

/-- The functions of `roundrobin.c` answer like a queue. -/
lemma answers_expected (hA : A.Succeeds) (hs : s.listHead = none) (calls : List (Call T)) :
    Answers (call A) s calls (expected calls) :=
  answers_execSpec (fun _ _ c hs => exists_call hA hs c) hs calls

/-- Both lists, which are empty at first, answer all calls like a first-in first-out queue exactly
if none of the calls is one of `isEmpty`. -/
theorem answers_expected_iff {B : Allocator τ} (hA : A.Succeeds) (hB : B.Succeeds)
    {s' : TaskList τ T} (hs : s.listHead = none) (hs' : s'.listHead = none)
    (calls : List (Call T)) :
    (Answers (ListC.call A) s calls (expected calls) ∧
      Answers (call B) s' calls (expected calls)) ↔ Call.isEmpty ∉ calls := by
  rw [and_iff_left (answers_expected hB hs' calls), ← ListC.execSpec_eq_iff calls .start]
  obtain ⟨l, hl⟩ := answers_execSpec (fun _ _ c hs => ListC.exists_call hA hs c) hs calls
  constructor
  · rintro ⟨l', hl'⟩
    rw [hl] at hl'
    exact (Prod.mk.inj (Except.ok.inj hl')).1
  · intro heq
    rw [heq] at hl
    exact ⟨l, hl⟩

end Search

/-- No item has been allocated yet. -/
def noItems : TaskList Unit T := ⟨none, ⟨∅, fun _ => ⟨none, none⟩, ()⟩⟩

/-- The queue goes empty and is filled again. -/
theorem answers_expected_refilled :
    Answers (ListC.call lowestFirst) noItems
        [.appendItem (some 7), .removeFirstItem, .removeFirstItem, .appendItem (some 7),
          .containsItem (some 7)]
        [.done, .task (some 7), .task none, .done, .truth true] ∧
      Answers (call lowestFirst) noItems
        [.appendItem (some 7), .removeFirstItem, .removeFirstItem, .appendItem (some 7),
          .containsItem (some 7)]
        [.done, .task (some 7), .task none, .done, .truth true] :=
  (answers_expected_iff (T := ℕ) lowestFirst_succeeds lowestFirst_succeeds rfl rfl _).mpr
    (by decide)

/-- An empty list is not empty to `list.c`. -/
theorem not_answers_expected_isEmpty :
    Answers (ListC.call lowestFirst) noItems [(.isEmpty : Call ℕ)] [.truth false] ∧
      ¬(Answers (ListC.call lowestFirst) noItems [(.isEmpty : Call ℕ)] (expected [.isEmpty]) ∧
        Answers (call lowestFirst) noItems [(.isEmpty : Call ℕ)] (expected [.isEmpty])) := by
  refine ⟨⟨noItems, rfl⟩, ?_⟩
  rintro ⟨⟨s', hs'⟩, -⟩
  have hanswers := (Prod.mk.inj (Except.ok.inj hs')).1
  revert hanswers
  decide

end StyLinux.RoundRobin
