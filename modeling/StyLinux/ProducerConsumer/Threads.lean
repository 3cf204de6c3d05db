import StyLinux.Lib.Total
import StyLinux.ProducerConsumer.Locked

/-!
# Any number of producers and consumers

The semaphores and the threads between their semaphore operation and their `sem_post` together
make up `BUFFER_SIZE`; the index counts the posted items and those threads whose item is on its
way in or out. What the buffer holds is up to the one thread that owns the mutex.
-/

namespace StyLinux.ProducerConsumer.Locked

open Lib

variable {ι α : Type} {s s' : State ι α}

/-! ### What a thread at a place counts for -/

namespace Place

/-- 1 while the thread's item is counted by the index and not by `full`. -/
def ahead : Place α → ℕ
  | .incremented => 1
  | .produceUnlocked => 1
  | .consumeWaited => 1
  | .consumeLocked => 1
  | _ => 0

/-- 1 while the thread's slot is neither counted by `empty` nor by the index. -/
def aside : Place α → ℕ
  | .produceWaited _ => 1
  | .produceLocked _ => 1
  | .written _ => 1
  | .decremented => 1
  | .read _ => 1
  | .consumeUnlocked _ => 1
  | _ => 0

/-- The item that is read and not returned. -/
def carried : Place α → Multiset α
  | .read item => {item}
  | .consumeUnlocked item => {item}
  | .posted item => {item}
  | _ => 0

/-- The thread is between the lock and the unlock of the mutex. -/
def Critical : Place α → Prop
  | .produceLocked _ => True
  | .written _ => True
  | .incremented => True
  | .consumeLocked => True
  | .decremented => True
  | .read _ => True
  | _ => False

/-- 1 while the item at the index itself is still to be read. -/
def behind : Place α → ℕ
  | .decremented => 1
  | _ => 0

end Place

/-! ### Counting -/

/-- The slots that the semaphores do not count are those of the threads between their semaphore
operations. -/
def Counted (s : State ι α) : Prop :=
  ∃ ahead aside, HasTotal (fun t => (s.place t).ahead) ahead ∧
    HasTotal (fun t => (s.place t).aside) aside ∧
    s.empty + s.full + ahead + aside = BUFFER_SIZE ∧ s.bufferIndex = (s.full + ahead : ℕ)

lemma counted_init (buffer : ℤ → α) : Counted (init buffer : State ι α) :=
  ⟨0, 0, .of_zero fun _ => rfl, .of_zero fun _ => rfl, rfl, rfl⟩

/-- A thread goes on, and the semaphores and the index change with what it counts for. -/
lemma Counted.move [DecidableEq ι] (hs : Counted s) {t : ι} {p : Place α}
    (hplace : s'.place = Function.update s.place t p)
    (hslots : s'.empty + s'.full + p.ahead + p.aside =
      s.empty + s.full + (s.place t).ahead + (s.place t).aside)
    (hindex : s'.bufferIndex + s.full + (s.place t).ahead = s.bufferIndex + s'.full + p.ahead) :
    Counted s' := by
  obtain ⟨ahead, aside, hahead, haside, htotal, hcounts⟩ := hs
  obtain ⟨m, hm, hahead⟩ := hahead.update t p
  obtain ⟨n, hn, haside⟩ := haside.update t p
  refine ⟨p.ahead + m, p.aside + n, hplace ▸ hahead, hplace ▸ haside, ?_, ?_⟩
  · omega
  · rw [hcounts, hm] at hindex
    push_cast at hindex ⊢
    omega

lemma Counted.step [DecidableEq ι] (hs : Counted s) {x : ι × Statement α}
    (hstep : Step s x s') : Counted s' := by
  cases hstep <;> apply hs.move (by rfl) <;>
    simp_all [State.move, Place.ahead, Place.aside] <;> omega

/-- The index is in range, and a thread that is about to access the buffer leaves room for it. -/
lemma Counted.index (hs : Counted s) : 0 ≤ s.bufferIndex ∧ s.bufferIndex ≤ BUFFER_SIZE := by
  obtain ⟨ahead, aside, -, -, htotal, hcounts⟩ := hs
  rw [hcounts]
  omega

lemma Counted.access [DecidableEq ι] (hs : Counted s) {t : ι} (ht : s.Accesses t) :
    0 ≤ s.bufferIndex ∧ s.bufferIndex < BUFFER_SIZE := by
  obtain ⟨ahead, aside, -, haside, htotal, hcounts⟩ := hs
  obtain ⟨n, hn, -⟩ := haside.update t .idle
  have hown : (s.place t).aside = 1 := by
    rcases ht with ⟨item, hp⟩ | hp
    · rw [hp]
      rfl
    · rw [hp]
      rfl
  rw [hcounts]
  omega

/-! ### The owner of the mutex -/

/-- A thread owns the mutex from its lock to its unlock. -/
def Guarded (s : State ι α) : Prop := ∀ t, (s.place t).Critical ↔ s.mutex = some t

lemma guarded_init (buffer : ℤ → α) : Guarded (init buffer : State ι α) := by
  intro t
  exact ⟨False.elim, fun h => nomatch h⟩

lemma Guarded.move [DecidableEq ι] (hs : Guarded s) {t : ι} {p : Place α}
    (hplace : s'.place = Function.update s.place t p)
    (hmutex : p.Critical ↔ s'.mutex = some t)
    (hothers : ∀ u, u ≠ t → (s'.mutex = some u ↔ s.mutex = some u)) : Guarded s' := by
  intro u
  rw [hplace]
  by_cases hu : u = t
  · rw [hu, Function.update_self]
    exact hmutex
  · rw [Function.update_of_ne hu, hothers u hu]
    exact hs u

lemma Guarded.step [DecidableEq ι] (hs : Guarded s) {x : ι × Statement α}
    (hstep : Step s x s') : Guarded s' := by
  cases hstep with
  | produceLock t item hp hfree =>
    refine hs.move rfl (iff_of_true trivial rfl) ?_
    intro u hu
    simp [hfree, hu.symm]
  | consumeLock t hp hfree =>
    refine hs.move rfl (iff_of_true trivial rfl) ?_
    intro u hu
    simp [hfree, hu.symm]
  | produceUnlock t hp =>
    have hown : s.mutex = some t := (hs t).mp (hp ▸ trivial)
    refine hs.move rfl (iff_of_false id (fun h => nomatch h)) ?_
    intro u hu
    simp [hown, hu.symm]
  | consumeUnlock t item hp =>
    have hown : s.mutex = some t := (hs t).mp (hp ▸ trivial)
    refine hs.move rfl (iff_of_false id (fun h => nomatch h)) ?_
    intro u hu
    simp [hown, hu.symm]
  | _ =>
    refine hs.move rfl ?_ (fun _ _ => Iff.rfl)
    rw [State.move, ← hs]
    simp_all [Place.Critical]

/-! ### The contents of the buffer -/

/-- Where the owner of the mutex is. -/
def holder (s : State ι α) : Place α := s.mutex.elim .idle s.place

lemma Guarded.holder_eq (hs : Guarded s) {t : ι} {p : Place α} (hp : s.place t = p)
    (hcritical : p.Critical) : holder s = p := by
  have hown : s.mutex = some t := (hs t).mp (hp ▸ hcritical)
  rw [holder, hown]
  exact hp

lemma Guarded.holder_move [DecidableEq ι] (hs : Guarded s) {t : ι} {p : Place α}
    (hp : s.place t = p) (hcritical : ¬p.Critical) (q : Place α) :
    holder (s.move t q) = holder s := by
  have hown : s.mutex ≠ some t := fun h => hcritical (hp ▸ (hs t).mpr h)
  unfold holder State.move
  cases hmutex : s.mutex with
  | none => rfl
  | some u =>
    have hne : u ≠ t := fun h => hown (h ▸ hmutex)
    exact Function.update_of_ne hne _ _

lemma holder_of_free (hfree : s.mutex = none) : holder s = .idle := by
  rw [holder, hfree]
  rfl

/-- The number of items in the buffer that are counted by the index or about to be read. -/
def depth (s : State ι α) : ℕ := s.bufferIndex.toNat + (holder s).behind

structure Kept (s : State ι α) : Prop where
  counted : Counted s
  guarded : Guarded s
  items : (s.produced : Multiset α) = s.consumed + firstItems s.buffer (depth s)
  written : ∀ item, holder s = .written item → s.buffer (depth s) = item
  carried : ∃ carried, HasTotal (fun t => (s.place t).carried) carried ∧
    (s.consumed : Multiset α) = s.returned + carried

lemma kept_init (buffer : ℤ → α) : Kept (init buffer : State ι α) := by
  refine ⟨counted_init buffer, guarded_init buffer, rfl, ?_, 0, .of_zero fun _ => rfl, rfl⟩
  intro item h
  cases h

namespace Statement

/-- 1 for the statement that adds an item to those in the buffer. -/
def adds : Statement α → ℕ
  | .produceIncrement => 1
  | _ => 0

/-- 1 for the statement that takes an item from those in the buffer. -/
def removes : Statement α → ℕ
  | .consumeRead => 1
  | _ => 0

end Statement

lemma Guarded.depth_move [DecidableEq ι] (hs : Guarded s) {t : ι} {p : Place α}
    (hp : s.place t = p) (hcritical : ¬p.Critical) (q : Place α) :
    depth (s.move t q) = depth s := by
  unfold depth
  rw [hs.holder_move hp hcritical q]
  rfl

lemma depth_of_free (hfree : s.mutex = none) : depth s = s.bufferIndex.toNat := by
  rw [depth, holder_of_free hfree]
  rfl

lemma Guarded.depth_eq (hs : Guarded s) {t : ι} {p : Place α} (hp : s.place t = p)
    (hcritical : p.Critical) : depth s = s.bufferIndex.toNat + p.behind := by
  rw [depth, hs.holder_eq hp hcritical]

lemma depth_step [DecidableEq ι] (hc : Counted s) (hs : Guarded s) {x : ι × Statement α}
    (hstep : Step s x s') : depth s' + x.2.removes = depth s + x.2.adds := by
  have hs' := hs.step hstep
  have hindex := hc.index.1
  have hindex' := (hc.step hstep).index.1
  cases hstep with
  | produceWait t item empty hp _ => exact hs.depth_move hp id _
  | produceLock t item hp hfree =>
    rw [hs'.depth_eq (Function.update_self _ _ _) trivial, depth_of_free hfree]
    rfl
  | produceWrite t item hp =>
    rw [hs'.depth_eq (Function.update_self _ _ _) trivial, hs.depth_eq hp trivial]
    rfl
  | produceIncrement t item hp =>
    rw [hs'.depth_eq (Function.update_self _ _ _) trivial, hs.depth_eq hp trivial]
    exact Int.toNat_add_nat hindex 1
  | produceUnlock t hp =>
    rw [hs.depth_eq hp trivial, depth_of_free rfl]
    rfl
  | producePost t hp => exact hs.depth_move hp id _
  | consumeWait t full hp _ => exact hs.depth_move hp id _
  | consumeLock t hp hfree =>
    rw [hs'.depth_eq (Function.update_self _ _ _) trivial, depth_of_free hfree]
    rfl
  | consumeDecrement t hp =>
    have hpos : 0 ≤ s.bufferIndex - 1 := hindex'
    rw [hs'.depth_eq (Function.update_self _ _ _) trivial, hs.depth_eq hp trivial]
    show (s.bufferIndex - 1).toNat + 1 = s.bufferIndex.toNat
    omega
  | consumeRead t hp =>
    rw [hs'.depth_eq (Function.update_self _ _ _) trivial, hs.depth_eq hp trivial]
    rfl
  | consumeUnlock t item hp =>
    rw [hs.depth_eq hp trivial, depth_of_free rfl]
    rfl
  | consumePost t item hp => exact hs.depth_move hp id _
  | consumeReturn t item hp => exact hs.depth_move hp id _

/-- The index as a number of items, for the thread that uses it. -/
lemma Guarded.depth_index (hc : Counted s) (hs : Guarded s) {t : ι} {p : Place α}
    (hp : s.place t = p) (hcritical : p.Critical) :
    (depth s : ℤ) = s.bufferIndex + p.behind := by
  rw [hs.depth_eq hp hcritical, Nat.cast_add, Int.toNat_of_nonneg hc.index.1]

lemma Kept.items_step [DecidableEq ι] (hs : Kept s) {x : ι × Statement α}
    (hstep : Step s x s') :
    (s'.produced : Multiset α) = s'.consumed + firstItems s'.buffer (depth s') := by
  have hdepth := depth_step hs.counted hs.guarded hstep
  have hitems := hs.items
  cases hstep with
  | produceWrite t item hp =>
    have hindex : (depth s : ℤ) = s.bufferIndex + 0 :=
      hs.guarded.depth_index hs.counted hp trivial
    rw [show depth _ = depth s from hdepth, ← add_zero s.bufferIndex, ← hindex,
      firstItems_update]
    exact hitems
  | produceIncrement t item hp =>
    have hwritten : s.buffer (depth s) = item := hs.written item (hs.guarded.holder_eq hp trivial)
    rw [show depth _ = depth s + 1 from hdepth, firstItems_succ, ← Multiset.coe_add, hitems,
      add_assoc]
    show _ + (_ + ({item} : Multiset α)) = _ + (_ + {s.buffer (depth s)})
    rw [hwritten]
    rfl
  | consumeRead t hp =>
    have hindex : (depth s : ℤ) = s.bufferIndex + 1 :=
      hs.guarded.depth_index hs.counted hp trivial
    have hsucc : depth s = depth _ + 1 := hdepth.symm
    rw [hsucc, Nat.cast_succ, add_left_inj] at hindex
    rw [hsucc, firstItems_succ, hindex] at hitems
    show (s.produced : Multiset α) = (s.consumed ++ [s.buffer s.bufferIndex] : List α) + _
    rw [hitems, ← Multiset.coe_add, add_assoc, add_comm (firstItems _ _)]
    rfl
  | _ =>
    rw [show depth _ = depth s from hdepth]
    exact hitems

lemma Kept.written_step [DecidableEq ι] (hs : Kept s) {x : ι × Statement α}
    (hstep : Step s x s') (item : α) (hitem : holder s' = .written item) :
    s'.buffer (depth s') = item := by
  have hdepth := depth_step hs.counted hs.guarded hstep
  have hs' := hs.guarded.step hstep
  cases hstep with
  | produceWait t item' empty hp _ =>
    rw [show depth _ = depth s from hdepth]
    exact hs.written item ((hs.guarded.holder_move hp id _).symm.trans hitem)
  | produceLock t item' hp hfree =>
    rw [hs'.holder_eq (Function.update_self _ _ _) trivial] at hitem
    cases hitem
  | produceWrite t item' hp =>
    have hindex : (depth s : ℤ) = s.bufferIndex + 0 :=
      hs.guarded.depth_index hs.counted hp trivial
    rw [hs'.holder_eq (Function.update_self _ _ _) trivial] at hitem
    cases hitem
    rw [show depth _ = depth s from hdepth, hindex, add_zero]
    exact Function.update_self _ _ _
  | produceIncrement t item' hp =>
    rw [hs'.holder_eq (Function.update_self _ _ _) trivial] at hitem
    cases hitem
  | produceUnlock t hp =>
    rw [holder_of_free rfl] at hitem
    cases hitem
  | producePost t hp =>
    rw [show depth _ = depth s from hdepth]
    exact hs.written item ((hs.guarded.holder_move hp id _).symm.trans hitem)
  | consumeWait t full hp _ =>
    rw [show depth _ = depth s from hdepth]
    exact hs.written item ((hs.guarded.holder_move hp id _).symm.trans hitem)
  | consumeLock t hp hfree =>
    rw [hs'.holder_eq (Function.update_self _ _ _) trivial] at hitem
    cases hitem
  | consumeDecrement t hp =>
    rw [hs'.holder_eq (Function.update_self _ _ _) trivial] at hitem
    cases hitem
  | consumeRead t hp =>
    rw [hs'.holder_eq (Function.update_self _ _ _) trivial] at hitem
    cases hitem
  | consumeUnlock t item' hp =>
    rw [holder_of_free rfl] at hitem
    cases hitem
  | consumePost t item' hp =>
    rw [show depth _ = depth s from hdepth]
    exact hs.written item ((hs.guarded.holder_move hp id _).symm.trans hitem)
  | consumeReturn t item' hp =>
    rw [show depth _ = depth s from hdepth]
    exact hs.written item ((hs.guarded.holder_move hp id _).symm.trans hitem)

/-- A thread goes on, and what it carries changes with what was read and returned. -/
lemma Kept.carried_move [DecidableEq ι] (hs : Kept s) {t : ι} {p : Place α}
    (hplace : s'.place = Function.update s.place t p)
    (hitems : (s'.consumed : Multiset α) + s.returned + (s.place t).carried =
      s.consumed + s'.returned + p.carried) :
    ∃ carried, HasTotal (fun t => (s'.place t).carried) carried ∧
      (s'.consumed : Multiset α) = s'.returned + carried := by
  obtain ⟨carried, htotal, hconsumed⟩ := hs.carried
  obtain ⟨m, hm, htotal⟩ := htotal.update t p
  refine ⟨p.carried + m, hplace ▸ htotal, ?_⟩
  rw [hconsumed, hm] at hitems
  apply add_right_cancel (b := (s.returned : Multiset α) + (s.place t).carried)
  rw [← add_assoc, hitems]
  abel

lemma Kept.carried_step [DecidableEq ι] (hs : Kept s) {x : ι × Statement α}
    (hstep : Step s x s') : ∃ carried, HasTotal (fun t => (s'.place t).carried) carried ∧
      (s'.consumed : Multiset α) = s'.returned + carried := by
  cases hstep with
  | consumeRead t hp =>
    apply hs.carried_move rfl
    rw [hp, ← Multiset.coe_add]
    simp only [Place.carried, State.move, Multiset.coe_singleton]
    abel
  | consumeReturn t item hp =>
    apply hs.carried_move rfl
    rw [hp, ← Multiset.coe_add]
    simp only [Place.carried, State.move, Multiset.coe_singleton]
    abel
  | _ =>
    apply hs.carried_move rfl
    simp_all [Place.carried, State.move]

lemma Kept.step [DecidableEq ι] (hs : Kept s) {x : ι × Statement α} (hstep : Step s x s') :
    Kept s' :=
  ⟨hs.counted.step hstep, hs.guarded.step hstep, hs.items_step hstep, hs.written_step hstep,
    hs.carried_step hstep⟩

lemma Kept.bufferOk [DecidableEq ι] (hs : Kept s) : BufferOk s := by
  have hconsumed : (s.consumed : Multiset α) ≤ (s.produced : Multiset α) := by
    rw [hs.items]
    exact Multiset.le_add_right _ _
  have hreturned : (s.returned : Multiset α) ≤ (s.consumed : Multiset α) := by
    obtain ⟨carried, -, hcarried⟩ := hs.carried
    rw [hcarried]
    exact Multiset.le_add_right _ _
  refine ⟨hs.counted.index, fun t => hs.counted.access, ?_, hconsumed, hreturned, ?_⟩
  · intro hfree
    rw [hs.items, depth_of_free hfree]
    rfl
  · intro hnodup
    rw [← Multiset.coe_nodup] at hnodup ⊢
    exact Multiset.nodup_of_le (hreturned.trans hconsumed) hnodup

/-- However the threads interleave, the buffer keeps its promises. -/
theorem bufferOk_of_threads [DecidableEq ι] {buffer : ℤ → α}
    {run : List ((ι × Statement α) × State ι α)} (hrun : IsRun Step (init buffer) run) :
    BufferOk (lastState (init buffer) run) :=
  (hrun.invariant (fun _ _ _ hs hstep => hs.step hstep) (kept_init buffer)).bufferOk

/-- A thread produces two items while another one waits for the first and consumes the second. -/
theorem exists_threads_run : ∃ run, IsRun Step (init fun _ => (0 : ℤ) : State Bool ℤ) run ∧
    (lastState (init fun _ => 0) run).returned = [20] ∧
      BufferOk (lastState (init fun _ => 0 : State Bool ℤ) run) := by
  obtain ⟨run, hrun, hreturned⟩ : ∃ run, IsRun Step (init fun _ => (0 : ℤ) : State Bool ℤ) run ∧
      (lastState (init fun _ => 0) run).returned = [20] :=
    ⟨[((true, .produceWait 10), _), ((true, .produceLock), _), ((true, .produceWrite), _),
        ((true, .produceIncrement), _), ((true, .produceUnlock), _), ((true, .producePost), _),
        ((true, .produceWait 20), _), ((true, .produceLock), _), ((false, .consumeWait), _),
        ((true, .produceWrite), _), ((true, .produceIncrement), _), ((true, .produceUnlock), _),
        ((false, .consumeLock), _), ((false, .consumeDecrement), _), ((false, .consumeRead), _),
        ((false, .consumeUnlock), _), ((false, .consumePost), _), ((false, .consumeReturn), _)],
      ⟨.produceWait _ true 10 9 rfl rfl, .produceLock _ true 10 rfl rfl,
        .produceWrite _ true 10 rfl, .produceIncrement _ true 10 rfl, .produceUnlock _ true rfl,
        .producePost _ true rfl, .produceWait _ true 20 8 rfl rfl, .produceLock _ true 20 rfl rfl,
        .consumeWait _ false 0 rfl rfl, .produceWrite _ true 20 rfl,
        .produceIncrement _ true 20 rfl, .produceUnlock _ true rfl, .consumeLock _ false rfl rfl,
        .consumeDecrement _ false rfl, .consumeRead _ false rfl, .consumeUnlock _ false _ rfl,
        .consumePost _ false _ rfl, .consumeReturn _ false _ rfl, trivial⟩,
      rfl⟩
  exact ⟨run, hrun, hreturned, bufferOk_of_threads hrun⟩

end StyLinux.ProducerConsumer.Locked
