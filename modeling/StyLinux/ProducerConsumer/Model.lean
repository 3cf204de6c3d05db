import Mathlib.Tactic
import StyLinux.Lib.Run

/-!
# A buffer with two semaphores

`vika9/Lab/Producer-ConsumerProblem3simplified.c` with one thread that calls `produce` and one
that calls `consume`. Every statement and every semaphore operation is one step. A call that has
not passed its `sem_wait` yet counts as not begun.
-/

namespace StyLinux.ProducerConsumer

open Lib

def BUFFER_SIZE : ℕ := 10

/-- How far `produce(item)` has come: behind `sem_wait(&empty)`, behind the assignment to the
buffer, behind `buffer_index++`. -/
inductive Producer (α : Type)
  | idle
  | waited (item : α)
  | written (item : α)
  | incremented
  deriving DecidableEq, Repr

/-- How far `consume()` has come: behind `sem_wait(&full)`, behind `buffer_index--`, behind the
assignment to `item`, behind `sem_post(&empty)`. -/
inductive Consumer (α : Type)
  | idle
  | waited
  | decremented
  | read (item : α)
  | posted (item : α)
  deriving DecidableEq, Repr

/-- The variables of the program, the two threads, and which items `produce` was called with and
`consume` has returned. -/
structure State (α : Type) where
  buffer : ℤ → α
  bufferIndex : ℤ
  empty : ℕ
  full : ℕ
  producer : Producer α
  consumer : Consumer α
  produced : List α
  returned : List α

inductive Statement (α : Type)
  | produceWait (item : α)
  | produceWrite
  | produceIncrement
  | producePost
  | consumeWait
  | consumeDecrement
  | consumeRead
  | consumePost
  | consumeReturn
  deriving DecidableEq, Repr

variable {α : Type}

/-- The state after `init()`, with whatever is in the buffer. -/
def init (buffer : ℤ → α) : State α where
  buffer := buffer
  bufferIndex := 0
  empty := BUFFER_SIZE
  full := 0
  producer := .idle
  consumer := .idle
  produced := []
  returned := []

/-- One statement of `produce` or `consume`. -/
inductive Step : State α → Statement α → State α → Prop
  | produceWait (s : State α) (item : α) (empty : ℕ) :
      s.producer = .idle → s.empty = empty + 1 →
      Step s (.produceWait item)
        { s with empty, producer := .waited item, produced := s.produced ++ [item] }
  | produceWrite (s : State α) (item : α) : s.producer = .waited item →
      Step s .produceWrite
        { s with
          buffer := Function.update s.buffer s.bufferIndex item
          producer := .written item }
  | produceIncrement (s : State α) (item : α) : s.producer = .written item →
      Step s .produceIncrement
        { s with bufferIndex := s.bufferIndex + 1, producer := .incremented }
  | producePost (s : State α) : s.producer = .incremented →
      Step s .producePost { s with full := s.full + 1, producer := .idle }
  | consumeWait (s : State α) (full : ℕ) : s.consumer = .idle → s.full = full + 1 →
      Step s .consumeWait { s with full, consumer := .waited }
  | consumeDecrement (s : State α) : s.consumer = .waited →
      Step s .consumeDecrement
        { s with bufferIndex := s.bufferIndex - 1, consumer := .decremented }
  | consumeRead (s : State α) : s.consumer = .decremented →
      Step s .consumeRead { s with consumer := .read (s.buffer s.bufferIndex) }
  | consumePost (s : State α) (item : α) : s.consumer = .read item →
      Step s .consumePost { s with empty := s.empty + 1, consumer := .posted item }
  | consumeReturn (s : State α) (item : α) : s.consumer = .posted item →
      Step s .consumeReturn { s with consumer := .idle, returned := s.returned ++ [item] }

/-! ### What the buffer promises -/

namespace State

/-- The items below `buffer_index`. -/
def stored (s : State α) : Multiset α :=
  (Multiset.range s.bufferIndex.toNat).map fun i : ℕ => s.buffer i

/-- The index of the access to the buffer that one of the threads makes next is in range. -/
def AccessOk (s : State α) : Prop :=
  ((∃ item, s.producer = .waited item) ∨ s.consumer = .decremented) →
    0 ≤ s.bufferIndex ∧ s.bufferIndex < BUFFER_SIZE

end State

/-- Only produced items are returned, each at most once; between the calls the buffer holds what
is produced and not returned; and the buffer is accessed within its bounds. -/
structure BufferOk (s : State α) : Prop where
  returned : (s.returned : Multiset α) ≤ (s.produced : Multiset α)
  stored : s.producer = .idle → s.consumer = .idle →
    (s.produced : Multiset α) = s.returned + s.stored
  access : s.AccessOk

end StyLinux.ProducerConsumer
