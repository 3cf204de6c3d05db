import Mathlib.Tactic
import StyLinux.Lib.Run
import StyLinux.ProducerConsumer.Interleavings

/-!
# A buffer with two semaphores and a mutex

`vika9/Lab/Producer-ConsumerProblem3.c` with any number of threads, each of which calls `produce`
and `consume` in any order. Every statement, every semaphore operation, the lock and the unlock of
the mutex is one step. A call that has not passed its `sem_wait` yet counts as not begun.
-/

namespace StyLinux.ProducerConsumer.Locked

open Lib

/-- How far a thread has come in the call that it is in: in `produce(item)` behind
`sem_wait(&empty)`, the lock, the assignment to the buffer, `buffer_index++` and the unlock; in
`consume()` behind `sem_wait(&full)`, the lock, `buffer_index--`, the assignment to `item`, the
unlock and `sem_post(&empty)`. -/
inductive Place (α : Type)
  | idle
  | produceWaited (item : α)
  | produceLocked (item : α)
  | written (item : α)
  | incremented
  | produceUnlocked
  | consumeWaited
  | consumeLocked
  | decremented
  | read (item : α)
  | consumeUnlocked (item : α)
  | posted (item : α)
  deriving DecidableEq, Repr

/-- The variables of the program, who owns the mutex and where the threads are. `produced` are the
items that were added to the buffer, `consumed` those that were read from it and `returned` those
that a call of `consume` has returned. -/
structure State (ι α : Type) where
  buffer : ℤ → α
  bufferIndex : ℤ
  empty : ℕ
  full : ℕ
  mutex : Option ι
  place : ι → Place α
  produced : List α
  consumed : List α
  returned : List α

inductive Statement (α : Type)
  | produceWait (item : α)
  | produceLock
  | produceWrite
  | produceIncrement
  | produceUnlock
  | producePost
  | consumeWait
  | consumeLock
  | consumeDecrement
  | consumeRead
  | consumeUnlock
  | consumePost
  | consumeReturn
  deriving DecidableEq, Repr

variable {ι α : Type}

/-- The state after `init()`, with whatever is in the buffer. -/
def init (buffer : ℤ → α) : State ι α where
  buffer := buffer
  bufferIndex := 0
  empty := BUFFER_SIZE
  full := 0
  mutex := none
  place := fun _ => .idle
  produced := []
  consumed := []
  returned := []

/-- Thread `t` goes to the place `p`. -/
def State.move [DecidableEq ι] (s : State ι α) (t : ι) (p : Place α) : State ι α :=
  { s with place := Function.update s.place t p }

/-- One statement of `produce` or `consume` in one of the threads. -/
inductive Step [DecidableEq ι] : State ι α → ι × Statement α → State ι α → Prop
  | produceWait (s : State ι α) (t : ι) (item : α) (empty : ℕ) :
      s.place t = .idle → s.empty = empty + 1 →
      Step s (t, .produceWait item) { s.move t (.produceWaited item) with empty }
  | produceLock (s : State ι α) (t : ι) (item : α) :
      s.place t = .produceWaited item → s.mutex = none →
      Step s (t, .produceLock) { s.move t (.produceLocked item) with mutex := some t }
  | produceWrite (s : State ι α) (t : ι) (item : α) : s.place t = .produceLocked item →
      Step s (t, .produceWrite)
        { s.move t (.written item) with
          buffer := Function.update s.buffer s.bufferIndex item }
  | produceIncrement (s : State ι α) (t : ι) (item : α) : s.place t = .written item →
      Step s (t, .produceIncrement)
        { s.move t .incremented with
          bufferIndex := s.bufferIndex + 1
          produced := s.produced ++ [item] }
  | produceUnlock (s : State ι α) (t : ι) : s.place t = .incremented →
      Step s (t, .produceUnlock) { s.move t .produceUnlocked with mutex := none }
  | producePost (s : State ι α) (t : ι) : s.place t = .produceUnlocked →
      Step s (t, .producePost) { s.move t .idle with full := s.full + 1 }
  | consumeWait (s : State ι α) (t : ι) (full : ℕ) :
      s.place t = .idle → s.full = full + 1 →
      Step s (t, .consumeWait) { s.move t .consumeWaited with full }
  | consumeLock (s : State ι α) (t : ι) : s.place t = .consumeWaited → s.mutex = none →
      Step s (t, .consumeLock) { s.move t .consumeLocked with mutex := some t }
  | consumeDecrement (s : State ι α) (t : ι) : s.place t = .consumeLocked →
      Step s (t, .consumeDecrement)
        { s.move t .decremented with bufferIndex := s.bufferIndex - 1 }
  | consumeRead (s : State ι α) (t : ι) : s.place t = .decremented →
      Step s (t, .consumeRead)
        { s.move t (.read (s.buffer s.bufferIndex)) with
          consumed := s.consumed ++ [s.buffer s.bufferIndex] }
  | consumeUnlock (s : State ι α) (t : ι) (item : α) : s.place t = .read item →
      Step s (t, .consumeUnlock) { s.move t (.consumeUnlocked item) with mutex := none }
  | consumePost (s : State ι α) (t : ι) (item : α) : s.place t = .consumeUnlocked item →
      Step s (t, .consumePost) { s.move t (.posted item) with empty := s.empty + 1 }
  | consumeReturn (s : State ι α) (t : ι) (item : α) : s.place t = .posted item →
      Step s (t, .consumeReturn) { s.move t .idle with returned := s.returned ++ [item] }

/-! ### What the buffer promises -/

namespace State

/-- The items in the cells below `buffer_index`. -/
def stored (s : State ι α) : Multiset α := firstItems s.buffer s.bufferIndex.toNat

/-- The next statement of thread `t` accesses `buffer[buffer_index]`. -/
def Accesses (s : State ι α) (t : ι) : Prop :=
  (∃ item, s.place t = .produceLocked item) ∨ s.place t = .decremented

end State

/-- The index stays within the buffer, so does every access; while the mutex is free the buffer
holds what is produced and not consumed; and each item is returned at most as often as it was
produced, so that items which differ are returned once. -/
structure BufferOk (s : State ι α) : Prop where
  index : 0 ≤ s.bufferIndex ∧ s.bufferIndex ≤ BUFFER_SIZE
  access : ∀ t, s.Accesses t → 0 ≤ s.bufferIndex ∧ s.bufferIndex < BUFFER_SIZE
  stored : s.mutex = none → (s.produced : Multiset α) = s.consumed + s.stored
  consumed : (s.consumed : Multiset α) ≤ (s.produced : Multiset α)
  returned : (s.returned : Multiset α) ≤ (s.consumed : Multiset α)
  once : s.produced.Nodup → s.returned.Nodup

end StyLinux.ProducerConsumer.Locked
