import StyLinux.ProducerConsumer.Model

/-!
# Interleavings of `produce` and `consume`

The semaphores bound the index. They do not keep the statements that use it apart: the buffer
keeps its promises if nothing is written between the consumer's decrement and its read, and
nothing is read between the producer's write and its increment.
-/

namespace StyLinux.ProducerConsumer

open Lib

variable {α : Type} {s s' : State α}

/-! ### Counting -/

namespace Producer

/-- 1 while the producer has taken a slot and not yet posted its item. -/
def slot : Producer α → ℕ
  | .idle => 0
  | _ => 1

/-- 1 while the index counts an item that is not posted. -/
def ahead : Producer α → ℕ
  | .incremented => 1
  | _ => 0

/-- The item that is not below the index yet. -/
def pending : Producer α → Multiset α
  | .waited item => {item}
  | .written item => {item}
  | _ => 0

end Producer

namespace Consumer

/-- 1 while the consumer has claimed an item and not yet posted its slot. -/
def slot : Consumer α → ℕ
  | .waited => 1
  | .decremented => 1
  | .read _ => 1
  | _ => 0

/-- 1 while the index counts an item that is claimed. -/
def ahead : Consumer α → ℕ
  | .waited => 1
  | _ => 0

/-- 1 while the item at the index itself is still to be read. -/
def behind : Consumer α → ℕ
  | .decremented => 1
  | _ => 0

/-- The item that is read and not returned. -/
def carried : Consumer α → Multiset α
  | .read item => {item}
  | .posted item => {item}
  | _ => 0

end Consumer

structure Counted (s : State α) : Prop where
  slots : s.empty + s.full + s.producer.slot + s.consumer.slot = BUFFER_SIZE
  index : s.bufferIndex = (s.full + s.producer.ahead + s.consumer.ahead : ℕ)

lemma counted_init (buffer : ℤ → α) : Counted (init buffer) := ⟨rfl, rfl⟩

lemma Counted.step (hs : Counted s) {x : Statement α} (hstep : Step s x s') : Counted s' := by
  obtain ⟨hslots, hindex⟩ := hs
  constructor
  · cases hstep <;> simp_all [Producer.slot, Consumer.slot] <;> omega
  · cases hstep <;> simp_all [Producer.ahead, Consumer.ahead] <;> omega

/-- The semaphores alone keep the index in range. -/
lemma Counted.accessOk (hs : Counted s) : s.AccessOk := by
  obtain ⟨hslots, hindex⟩ := hs
  unfold BUFFER_SIZE at hslots
  rintro (⟨item, hp⟩ | hc)
  · rw [hp] at hslots hindex
    have hahead : s.consumer.ahead ≤ s.consumer.slot := by
      cases s.consumer <;> simp [Consumer.ahead, Consumer.slot]
    simp only [Producer.slot, Producer.ahead] at hslots hindex
    unfold BUFFER_SIZE
    omega
  · rw [hc] at hslots hindex
    have hahead : s.producer.ahead ≤ s.producer.slot := by
      cases s.producer <;> simp [Producer.ahead, Producer.slot]
    simp only [Consumer.slot, Consumer.ahead] at hslots hindex
    unfold BUFFER_SIZE
    omega

/-! ### The contents of the buffer -/

/-- The step does not write between the consumer's decrement and its read, nor read between the
producer's write and its increment. -/
def Apart (s : State α) : Statement α → Prop
  | .produceWrite => s.consumer ≠ .decremented
  | .consumeRead => ∀ item, s.producer ≠ .written item
  | _ => True

/-- The first `n` items of the buffer. -/
def firstItems (buffer : ℤ → α) (n : ℕ) : Multiset α :=
  (Multiset.range n).map fun i : ℕ => buffer i

lemma firstItems_succ (buffer : ℤ → α) (n : ℕ) :
    firstItems buffer (n + 1) = firstItems buffer n + {buffer n} := by
  rw [firstItems, Multiset.range_succ, Multiset.map_cons, ← Multiset.singleton_add, add_comm]
  rfl

lemma firstItems_update (buffer : ℤ → α) (n : ℕ) (item : α) :
    firstItems (Function.update buffer n item) n = firstItems buffer n := by
  unfold firstItems
  apply Multiset.map_congr rfl
  intro i hi
  have hlt : i < n := Multiset.mem_range.mp hi
  rw [Function.update_of_ne (by omega)]

/-- The number of items in the buffer that are counted by the index or about to be read. -/
def depth (s : State α) : ℕ := s.full + s.producer.ahead + s.consumer.ahead + s.consumer.behind

structure Kept (s : State α) : Prop extends Counted s where
  items : (s.produced : Multiset α) =
    s.returned + s.consumer.carried + firstItems s.buffer (depth s) + s.producer.pending
  written : ∀ item, s.producer = .written item → s.buffer (depth s) = item

lemma kept_init (buffer : ℤ → α) : Kept (init buffer) := by
  refine ⟨counted_init buffer, rfl, ?_⟩
  intro item h
  cases h

lemma depth_eq (hs : Counted s) : s.bufferIndex + s.consumer.behind = depth s := by
  rw [hs.index, depth]
  push_cast
  rfl

lemma behind_eq_zero {c : Consumer α} (h : c ≠ .decremented) : c.behind = 0 := by
  cases c <;> simp_all [Consumer.behind]

namespace Statement

/-- 1 for the statement that adds an item to those in the buffer. -/
def adds : Statement α → ℕ
  | .produceIncrement => 1
  | _ => 0

/-- 1 for the statement that takes an item from those in the buffer. -/
def removes : Statement α → ℕ
  | .consumeRead => 1
  | _ => 0

end Statement

lemma depth_step {x : Statement α} (hstep : Step s x s') :
    depth s' + x.removes = depth s + x.adds := by
  unfold depth
  cases hstep <;>
    simp_all [Producer.ahead, Consumer.ahead, Consumer.behind, Statement.adds,
      Statement.removes] <;> omega

lemma Kept.items_step (hs : Kept s) {x : Statement α} (hx : Apart s x) (hstep : Step s x s') :
    (s'.produced : Multiset α) =
      s'.returned + s'.consumer.carried + firstItems s'.buffer (depth s') +
        s'.producer.pending := by
  have hdepth := depth_step hstep
  have hitems := hs.items
  have hindex := depth_eq hs.toCounted
  cases hstep with
  | produceWait item empty hp _ =>
    rw [hp] at hitems
    rw [← Multiset.coe_add, hitems, ← show depth _ = depth s from hdepth]
    simp [Producer.pending]
  | produceWrite item hp =>
    rw [hp] at hitems
    rw [behind_eq_zero hx, Nat.cast_zero, add_zero] at hindex
    rw [show depth _ = depth s from hdepth, hindex, firstItems_update]
    exact hitems
  | produceIncrement item hp =>
    rw [hp] at hitems
    rw [show depth _ = depth s + 1 from hdepth, firstItems_succ, hs.written item hp, hitems]
    simp [Producer.pending, add_assoc]
  | producePost hp =>
    rw [hp] at hitems
    rw [show depth _ = depth s from hdepth]
    exact hitems
  | consumeWait full hc _ =>
    rw [hc] at hitems
    rw [show depth _ = depth s from hdepth]
    exact hitems
  | consumeDecrement hc =>
    rw [hc] at hitems
    rw [show depth _ = depth s from hdepth]
    exact hitems
  | consumeRead hc =>
    have hsucc : depth s = depth _ + 1 := hdepth.symm
    rw [hc] at hitems hindex
    have hread : s.bufferIndex = depth { s with consumer := .read (s.buffer s.bufferIndex) } := by
      rw [hsucc] at hindex
      simpa [Consumer.behind] using hindex
    rw [hsucc, firstItems_succ, ← hread] at hitems
    rw [hitems]
    simp only [Consumer.carried]
    abel
  | consumePost item hc =>
    rw [hc] at hitems
    rw [show depth _ = depth s from hdepth]
    exact hitems
  | consumeReturn item hc =>
    rw [hc] at hitems
    rw [show depth _ = depth s from hdepth, hitems, ← Multiset.coe_add]
    simp only [Consumer.carried, Multiset.coe_singleton]
    abel

lemma Kept.written_step (hs : Kept s) {x : Statement α} (hx : Apart s x) (hstep : Step s x s')
    (item : α) (hitem : s'.producer = .written item) : s'.buffer (depth s') = item := by
  have hdepth := depth_step hstep
  have hwritten := hs.written
  have hindex := depth_eq hs.toCounted
  cases hstep with
  | produceWait item' empty hp _ => cases hitem
  | produceWrite item' hp =>
    cases hitem
    rw [behind_eq_zero hx, Nat.cast_zero, add_zero] at hindex
    rw [show depth _ = depth s from hdepth, ← hindex]
    exact Function.update_self _ _ _
  | produceIncrement item' hp => cases hitem
  | producePost hp => cases hitem
  | consumeWait full hc _ =>
    rw [show depth _ = depth s from hdepth]
    exact hwritten item hitem
  | consumeDecrement hc =>
    rw [show depth _ = depth s from hdepth]
    exact hwritten item hitem
  | consumeRead hc => exact absurd hitem (hx item)
  | consumePost item' hc =>
    rw [show depth _ = depth s from hdepth]
    exact hwritten item hitem
  | consumeReturn item' hc =>
    rw [show depth _ = depth s from hdepth]
    exact hwritten item hitem

lemma Kept.step (hs : Kept s) {x : Statement α} (hx : Apart s x) (hstep : Step s x s') :
    Kept s' :=
  ⟨hs.toCounted.step hstep, hs.items_step hx hstep, hs.written_step hx hstep⟩

lemma Kept.bufferOk (hs : Kept s) : BufferOk s := by
  have hitems := hs.items
  refine ⟨?_, ?_, hs.toCounted.accessOk⟩
  · rw [hitems, add_assoc, add_assoc]
    exact Multiset.le_add_right _ _
  · intro hp hc
    have hdepth := depth_eq hs.toCounted
    rw [hc] at hdepth
    have hindex : s.bufferIndex.toNat = depth s := by
      simp only [Consumer.behind, Nat.cast_zero, add_zero] at hdepth
      rw [hdepth, Int.toNat_natCast]
    rw [hitems, hp, hc, State.stored, hindex]
    simp [Consumer.carried, Producer.pending, firstItems]

/-- If the statements that use the buffer are kept apart, the buffer keeps its promises after
every statement. -/
theorem bufferOk_of_run {buffer : ℤ → α} {run : List (Statement α × State α)}
    (hrun : IsRun Step (init buffer) run) (hapart : StepsMeet Apart (init buffer) run) :
    BufferOk (lastState (init buffer) run) :=
  (IsRun.invariant_last (fun _ _ _ hs hx hstep => hs.step hx hstep) (kept_init buffer) hrun
    hapart).bufferOk

/-- What `main` does: an item is produced and then consumed. -/
theorem exists_bufferOk_run : ∃ run, IsRun Step (init fun _ => (0 : ℤ)) run ∧
    (lastState (init fun _ => 0) run).returned = [10] ∧
      BufferOk (lastState (init fun _ => 0) run) := by
  obtain ⟨run, hrun, hreturned, hapart⟩ : ∃ run, IsRun Step (init fun _ => (0 : ℤ)) run ∧
      (lastState (init fun _ => 0) run).returned = [10] ∧ StepsMeet Apart (init fun _ => 0) run :=
    ⟨[(.produceWait 10, _), (.produceWrite, _), (.produceIncrement, _), (.producePost, _),
        (.consumeWait, _), (.consumeDecrement, _), (.consumeRead, _), (.consumePost, _),
        (.consumeReturn, _)],
      ⟨.produceWait _ 10 9 rfl rfl, .produceWrite _ 10 rfl, .produceIncrement _ 10 rfl,
        .producePost _ rfl, .consumeWait _ 0 rfl rfl, .consumeDecrement _ rfl, .consumeRead _ rfl,
        .consumePost _ _ rfl, .consumeReturn _ _ rfl, trivial⟩,
      rfl,
      ⟨trivial, (fun h => nomatch h), trivial, trivial, trivial, trivial, (fun _ h => nomatch h),
        trivial, trivial, trivial⟩⟩
  exact ⟨run, hrun, hreturned, bufferOk_of_run hrun hapart⟩

/-- The first item is read, and returned, between the write of the second one and the increment
that counts it. The second item is lost and the first one returned again. -/
theorem not_bufferOk : ¬∀ run : List (Statement ℤ × State ℤ), IsRun Step (init fun _ => 0) run →
    BufferOk (lastState (init fun _ => 0) run) := by
  intro h
  have hok := h
    [(.produceWait 1, _), (.produceWrite, _), (.produceIncrement, _), (.producePost, _),
      (.produceWait 2, _), (.produceWrite, _), (.consumeWait, _), (.consumeDecrement, _),
      (.consumeRead, _), (.consumePost, _), (.consumeReturn, _), (.produceIncrement, _),
      (.producePost, _), (.consumeWait, _), (.consumeDecrement, _), (.consumeRead, _),
      (.consumePost, _), (.consumeReturn, _)]
    ⟨.produceWait _ 1 9 rfl rfl, .produceWrite _ 1 rfl, .produceIncrement _ 1 rfl,
      .producePost _ rfl, .produceWait _ 2 8 rfl rfl, .produceWrite _ 2 rfl,
      .consumeWait _ 0 rfl rfl, .consumeDecrement _ rfl, .consumeRead _ rfl,
      .consumePost _ _ rfl, .consumeReturn _ _ rfl, .produceIncrement _ 2 rfl,
      .producePost _ rfl, .consumeWait _ 0 rfl rfl, .consumeDecrement _ rfl,
      .consumeRead _ rfl, .consumePost _ _ rfl, .consumeReturn _ _ rfl, trivial⟩
  have hreturned : (([1, 1] : List ℤ) : Multiset ℤ) ≤ (([1, 2] : List ℤ) : Multiset ℤ) :=
    hok.returned
  revert hreturned
  decide

end StyLinux.ProducerConsumer
