import StyLinux.Lib.Chain
import StyLinux.Lib.Fuel

/-!
# The heap of the allocators

The allocators of `vika4`, `vika5` and `vika9` share the block header, the free list
reached from `_firstFreeBlock`, and the text of every function except the search of
`my_malloc`. This file models the shared part. Addresses are natural numbers, `NULL` is
`none`, and `uint64_t` and pointer arithmetic is taken modulo `2 ^ 64`. Memory is seen
through the block header that starts at an address; the allocators place every header a
multiple of 16 bytes after `_heapStart`, so that two headers never overlap in part.
-/

namespace StyLinux.Malloc

open Lib

def HEADER_SIZE : ℕ := 16

def HEAP_SIZE : ℕ := 32 * 1024 * 1024

lemma HEADER_SIZE_eq : HEADER_SIZE = 16 := rfl

lemma HEAP_SIZE_eq : HEAP_SIZE = 33554432 := rfl

/-- The value modulo `2 ^ 64` that a `uint64_t` or a pointer holds. -/
def wrap64 (n : ℕ) : ℕ := n % 2 ^ 64

def sub64 (a b : ℕ) : ℕ := wrap64 (a + (2 ^ 64 - b))

/-- What keeps a call from returning: a dereferenced `NULL`, a failed `assert`, or a
loop that is not finished within the given number of iterations. -/
inductive Fault
  | nullDeref
  | assertFailed
  | outOfFuel
  deriving DecidableEq, Repr

structure Block where
  size : ℕ
  next : Option ℕ
  deriving DecidableEq, Repr

/-- A cell of type `Block *`: `_firstFreeBlock` or the `next` field of a block. -/
inductive Link
  | first
  | next (a : ℕ)
  deriving DecidableEq, Repr

/-- `prev ? &prev->next : &_firstFreeBlock`. -/
def linkOf : Option ℕ → Link
  | none => .first
  | some prev => .next prev

/-- The global variables of the allocator, the memory, and the state `os` behind
`allocHeap`. -/
structure Heap (σ : Type) where
  heapStart : ℕ
  heapSize : ℕ
  firstFreeBlock : Option ℕ
  mem : ℕ → Block
  os : σ

/-- `allocHeap(currentHeap, size)`: the returned pointer and the new state behind it. -/
abbrev AllocHeap (σ : Type) := Option ℕ → ℕ → σ → Option ℕ × σ

variable {σ : Type}

/-- Every successful call of `allocHeap` gives memory directly behind the heap: the first
one gives a start with room for `HEAP_SIZE` bytes, and an extension of a heap of `size`
bytes adds `HEAP_SIZE` bytes that still lie in the address space. -/
structure Contiguous (allocHeap : AllocHeap σ) : Prop where
  first : ∀ os p os', allocHeap none HEAP_SIZE os = (some p, os') → p + HEAP_SIZE < 2 ^ 64
  extend : ∀ start size os p os', start + size < 2 ^ 64 →
    allocHeap (some start) (wrap64 (size + HEAP_SIZE)) os = (some p, os') →
    start + (size + HEAP_SIZE) < 2 ^ 64

namespace Heap

def read (h : Heap σ) : Link → Option ℕ
  | .first => h.firstFreeBlock
  | .next a => (h.mem a).next

def size (h : Heap σ) (a : ℕ) : ℕ := (h.mem a).size

def write (h : Heap σ) (l : Link) (v : Option ℕ) : Heap σ :=
  match l with
  | .first => { h with firstFreeBlock := v }
  | .next a => { h with mem := Function.update h.mem a { h.mem a with next := v } }

def withOs (h : Heap σ) (os : σ) : Heap σ := { h with os }

def setSize (h : Heap σ) (a : ℕ) (n : ℕ) : Heap σ :=
  { h with mem := Function.update h.mem a { h.mem a with size := n } }

end Heap

/-- `(n + 15) & ~15`, where `~15` is the `int` -16 converted to `uint64_t`. -/
def roundUp (n : ℕ) : ℕ := wrap64 (n + 15) &&& (2 ^ 64 - 16)

/-- `HEADER_SIZE + roundUp(size)`, the size of the block for a request. -/
def paddedSize (n : ℕ) : ℕ := wrap64 (HEADER_SIZE + roundUp n)

/-- The heap after `initAllocator()`, whose first write dereferences the pointer
returned by `allocHeap`. -/
def initAllocator (allocHeap : AllocHeap σ) (mem : ℕ → Block) (os : σ) :
    Except Fault (Heap σ) :=
  match allocHeap none HEAP_SIZE os with
  | (none, _) => .error .nullDeref
  | (some start, os) =>
    let h : Heap σ :=
      { heapStart := start, heapSize := HEAP_SIZE, firstFreeBlock := some start, mem, os }
    .ok ((h.setSize start HEAP_SIZE).write (.next start) none)

def getNextBlockBySize (h : Heap σ) (current : ℕ) : Except Fault (Option ℕ) :=
  let stop := wrap64 (h.heapStart + h.heapSize)
  let next := wrap64 (current + h.size current)
  if next ≤ stop then .ok (if next = stop then none else some next) else .error .assertFailed

/-- The first loop of `dumpAllocator`: the blocks found by walking by size. -/
def walkBlocks (h : Heap σ) : ℕ → Option ℕ → Except Fault (List ℕ)
  | 0, _ => .error .outOfFuel
  | _ + 1, none => .ok []
  | fuel + 1, some current => do
    let next ← getNextBlockBySize h current
    let blocks ← walkBlocks h fuel next
    pure (current :: blocks)

/-- The second loop of `dumpAllocator`: the blocks found by following `next`. -/
def walkFree (h : Heap σ) : ℕ → Option ℕ → Except Fault (List ℕ)
  | 0, _ => .error .outOfFuel
  | _ + 1, none => .ok []
  | fuel + 1, some curr => do
    let blocks ← walkFree h fuel (h.read (.next curr))
    pure (curr :: blocks)

/-- `allocate_block(update_next, block, new_size)`. -/
def allocateBlock (h : Heap σ) (updateNext : Link) (block : ℕ) (newSize : ℕ) :
    ℕ × Heap σ :=
  let h :=
    if h.size block = newSize then h.write updateNext (h.read (.next block))
    else
      let newFreeBlock := wrap64 (block + newSize)
      let h := h.setSize newFreeBlock (sub64 (h.size block) newSize)
      let h := h.write (.next newFreeBlock) (h.read (.next block))
      let h := h.write updateNext (some newFreeBlock)
      h.setSize block newSize
  (wrap64 (block + HEADER_SIZE), h.write (.next block) none)

/-- The loop that moves `insert_pos` to the cell of the address order in which
`new_block` belongs. -/
def findInsertPos (h : Heap σ) (newBlock : ℕ) : ℕ → Link → Except Fault Link
  | 0, _ => .error .outOfFuel
  | fuel + 1, insertPos =>
    match h.read insertPos with
    | none => .ok insertPos
    | some a => if a < newBlock then findInsertPos h newBlock fuel (.next a) else .ok insertPos

/-- The part of `my_malloc` that turns a successful `allocHeap` into a free block. -/
def addHeapBlock (fuel : ℕ) (h : Heap σ) : Except Fault (Heap σ) := do
  let originalHeapSize := h.heapSize
  let h := { h with heapSize := wrap64 (h.heapSize + HEAP_SIZE) }
  let newBlock := wrap64 (h.heapStart + originalHeapSize)
  let h := h.setSize newBlock HEAP_SIZE
  let h := h.write (.next newBlock) none
  let insertPos ← findInsertPos h newBlock fuel .first
  let h := h.write (.next newBlock) (h.read insertPos)
  pure (h.write insertPos (some newBlock))

/-- The extension of the heap in `my_malloc`. The flag tells whether `allocHeap` returned
memory. -/
def extendHeap (allocHeap : AllocHeap σ) (fuel : ℕ) (h : Heap σ) :
    Except Fault (Bool × Heap σ) :=
  match allocHeap (some h.heapStart) (wrap64 (h.heapSize + HEAP_SIZE)) h.os with
  | (none, os) => .ok (false, h.withOs os)
  | (some _, os) => do
    let h ← addHeapBlock fuel (h.withOs os)
    pure (true, h)

def mergeBlocks (h : Heap σ) (block1 block2 : ℕ) : Heap σ :=
  if wrap64 (block1 + h.size block1) = block2 then
    let h := h.setSize block1 (wrap64 (h.size block1 + h.size block2))
    h.write (.next block1) (h.read (.next block2))
  else h

/-- The loop of `my_free` that looks for the free blocks around `block_to_free`. -/
def findFreePos (h : Heap σ) (blockToFree : ℕ) :
    ℕ → Option ℕ → Option ℕ → Except Fault (Option ℕ × Option ℕ)
  | 0, _, _ => .error .outOfFuel
  | _ + 1, prev, none => .ok (prev, none)
  | fuel + 1, prev, some current =>
    if current < blockToFree then
      findFreePos h blockToFree fuel (some current) (h.read (.next current))
    else .ok (prev, some current)

def insertFree (h : Heap σ) (blockToFree : ℕ) (prev current : Option ℕ) : Heap σ :=
  match prev with
  | none => (h.write (.next blockToFree) h.firstFreeBlock).write .first (some blockToFree)
  | some p => (h.write (.next p) (some blockToFree)).write (.next blockToFree) current

/-- The merge with the previous free block, which then takes the part of
`block_to_free`. -/
def mergePrev (h : Heap σ) (blockToFree : ℕ) (prev : Option ℕ) : ℕ × Heap σ :=
  match prev with
  | none => (blockToFree, h)
  | some p =>
    if wrap64 (p + h.size p) = blockToFree then (p, mergeBlocks h p blockToFree)
    else (blockToFree, h)

/-- The merge with the next free block. -/
def mergeNext (h : Heap σ) (blockToFree : ℕ) (current : Option ℕ) : Heap σ :=
  match current with
  | none => h
  | some c =>
    if wrap64 (blockToFree + h.size blockToFree) = c then mergeBlocks h blockToFree c else h

/-- `my_free(address)` for a non-`NULL` address, with the final `block_to_free`. -/
def freeBlock (fuel : ℕ) (address : ℕ) (h : Heap σ) : Except Fault (ℕ × Heap σ) := do
  let blockToFree := sub64 address HEADER_SIZE
  let (prev, current) ← findFreePos h blockToFree fuel none h.firstFreeBlock
  let h := insertFree h blockToFree prev current
  let (blockToFree, h) := mergePrev h blockToFree prev
  pure (blockToFree, mergeNext h blockToFree current)

/-! ### Reading after writing -/

namespace Heap

@[simp] lemma read_write (h : Heap σ) (l : Link) (v : Option ℕ) :
    (h.write l v).read = Function.update h.read l v := by
  funext m
  cases l with
  | first => cases m <;> simp [write, read, Function.update]
  | next a =>
    cases m with
    | first => simp [write, read, Function.update]
    | next b => by_cases hb : b = a <;> simp [write, read, Function.update, hb]

@[simp] lemma read_setSize (h : Heap σ) (a : ℕ) (n : ℕ) : (h.setSize a n).read = h.read := by
  funext m
  cases m with
  | first => rfl
  | next b =>
    by_cases hb : b = a
    · subst hb
      simp [setSize, read]
    · simp [setSize, read, hb]

@[simp] lemma size_write (h : Heap σ) (l : Link) (v : Option ℕ) :
    (h.write l v).size = h.size := by
  funext b
  cases l with
  | first => rfl
  | next a =>
    by_cases hb : b = a
    · subst hb
      simp [write, size]
    · simp [write, size, hb]

@[simp] lemma size_setSize (h : Heap σ) (a : ℕ) (n : ℕ) :
    (h.setSize a n).size = Function.update h.size a n := by
  funext b
  by_cases hb : b = a
  · subst hb
    simp [setSize, size]
  · simp [setSize, size, hb]

@[simp] lemma heapStart_write (h : Heap σ) (l : Link) (v : Option ℕ) :
    (h.write l v).heapStart = h.heapStart := by cases l <;> rfl

@[simp] lemma heapSize_write (h : Heap σ) (l : Link) (v : Option ℕ) :
    (h.write l v).heapSize = h.heapSize := by cases l <;> rfl

@[simp] lemma os_write (h : Heap σ) (l : Link) (v : Option ℕ) : (h.write l v).os = h.os := by
  cases l <;> rfl

@[simp] lemma heapStart_setSize (h : Heap σ) (a : ℕ) (n : ℕ) :
    (h.setSize a n).heapStart = h.heapStart := rfl

@[simp] lemma heapSize_setSize (h : Heap σ) (a : ℕ) (n : ℕ) :
    (h.setSize a n).heapSize = h.heapSize := rfl

@[simp] lemma os_setSize (h : Heap σ) (a : ℕ) (n : ℕ) : (h.setSize a n).os = h.os := rfl

@[simp] lemma read_withOs (h : Heap σ) (os : σ) : (h.withOs os).read = h.read := by
  funext l
  cases l <;> rfl

lemma read_setHeapSize (h : Heap σ) (n : ℕ) :
    ({ h with heapSize := n } : Heap σ).read = h.read := by
  funext l
  cases l <;> rfl

@[simp] lemma size_withOs (h : Heap σ) (os : σ) : (h.withOs os).size = h.size := rfl

@[simp] lemma heapStart_withOs (h : Heap σ) (os : σ) : (h.withOs os).heapStart = h.heapStart := rfl

@[simp] lemma heapSize_withOs (h : Heap σ) (os : σ) : (h.withOs os).heapSize = h.heapSize := rfl

@[simp] lemma os_withOs (h : Heap σ) (os : σ) : (h.withOs os).os = os := rfl

lemma firstFreeBlock_eq_read (h : Heap σ) : h.firstFreeBlock = h.read .first := rfl

end Heap

lemma Link.next_injective : Function.Injective Link.next := fun _ _ h => Link.next.inj h

lemma Link.next_ne_first (a : ℕ) : Link.next a ≠ Link.first := by simp

lemma linkOf_getLast? (xs : List ℕ) :
    linkOf xs.getLast? = endLink Link.next Link.first xs := by
  rcases List.eq_nil_or_concat xs with rfl | ⟨ys, y, rfl⟩
  · rfl
  · simp [linkOf, List.concat_eq_append]

/-! ### Rounding -/

lemma wrap64_of_lt {n : ℕ} (h : n < 2 ^ 64) : wrap64 n = n := Nat.mod_eq_of_lt h

lemma wrap64_lt (n : ℕ) : wrap64 n < 2 ^ 64 := Nat.mod_lt _ (by norm_num)

lemma sub64_of_le {a b : ℕ} (hab : b ≤ a) (ha : a < 2 ^ 64) : sub64 a b = a - b := by
  unfold sub64 wrap64
  omega

lemma and_mask_eq {n : ℕ} (h : n < 2 ^ 64) : n &&& (2 ^ 64 - 16) = n / 16 * 16 := by
  have hmask : 2 ^ 64 - 16 = (2 ^ 60 - 1) <<< 4 := by norm_num [Nat.shiftLeft_eq]
  have hdiv : n / 16 * 16 = (n >>> 4) <<< 4 := by
    simp [Nat.shiftLeft_eq, Nat.shiftRight_eq_div_pow]
  rw [hmask, hdiv]
  apply Nat.eq_of_testBit_eq
  intro i
  simp only [Nat.testBit_and, Nat.testBit_shiftLeft, Nat.testBit_shiftRight,
    Nat.testBit_two_pow_sub_one]
  by_cases hi : 4 ≤ i
  · have he : 4 + (i - 4) = i := by omega
    by_cases hlt : i - 4 < 60
    · simp [hi, hlt, he]
    · have hbit : n.testBit i = false :=
        Nat.testBit_lt_two_pow (h.trans_le (Nat.pow_le_pow_right (by norm_num) (by omega)))
      simp [hlt, he, hbit]
  · simp [hi]

lemma roundUp_eq (n : ℕ) : roundUp n = wrap64 (n + 15) / 16 * 16 :=
  and_mask_eq (wrap64_lt _)

lemma dvd_paddedSize (n : ℕ) : 16 ∣ paddedSize n := by
  unfold paddedSize wrap64
  rw [roundUp_eq, HEADER_SIZE_eq]
  omega

/-- A size that the heap can be extended by is padded without overflow. -/
lemma add_32_le_of_le {n : ℕ} (hn : n ≤ HEAP_SIZE) : n + 32 ≤ 2 ^ 64 := by
  rw [HEAP_SIZE_eq] at hn
  omega

lemma paddedSize_eq {n : ℕ} (h : n + 32 ≤ 2 ^ 64) : paddedSize n = 16 + (n + 15) / 16 * 16 := by
  unfold paddedSize
  rw [roundUp_eq, HEADER_SIZE_eq]
  unfold wrap64
  omega

lemma le_paddedSize {n : ℕ} (h : n + 32 ≤ 2 ^ 64) : n + 16 ≤ paddedSize n := by
  rw [paddedSize_eq h]
  omega

lemma paddedSize_pos {n : ℕ} (h : n + 32 ≤ 2 ^ 64) : 0 < paddedSize n := by
  have := le_paddedSize h
  omega

/-- The last requests of the 64-bit range are padded to a block without room for them. -/
lemma paddedSize_of_wrap {n : ℕ} (h : 2 ^ 64 < n + 32) (hn : n < 2 ^ 64) : paddedSize n ≤ 16 := by
  unfold paddedSize
  rw [roundUp_eq, HEADER_SIZE_eq]
  unfold wrap64
  omega

lemma paddedSize_of_dvd {n : ℕ} (h : 16 ∣ n) (hn : n + 32 ≤ 2 ^ 64) : paddedSize n = n + 16 := by
  rw [paddedSize_eq hn]
  omega

/-- The retry of `my_malloc` pads the size once more. -/
lemma paddedSize_paddedSize {n : ℕ} (hn : paddedSize n ≤ HEAP_SIZE) :
    paddedSize (paddedSize n) = paddedSize n + 16 := by
  rw [HEAP_SIZE_eq] at hn
  exact paddedSize_of_dvd (dvd_paddedSize n) (by omega)

end StyLinux.Malloc
