import StyLinux.Lib.Prog
import StyLinux.Malloc.Heap

/-!
# The allocator with a mutex

`vika9/malloc.c`, whose `my_malloc`, `my_free` and `dumpAllocator` lock the recursive
`alloc_mutex`. Every read and write of a global variable or of a field of a block header is an
access of its own, also those that only `printf` needs; the printed lines are left out. The calls
of `my_malloc` and `dumpAllocator` within `my_malloc` are nested calls. `debug` does not change
while the threads run.
-/

namespace StyLinux.Malloc.Vika9

open Lib Lib.Prog

variable {σ : Type}

inductive Access
  | heapStart
  | heapSize
  | setHeapSize (n : ℕ)
  | read (l : Link)
  | write (l : Link) (v : Option ℕ)
  | size (a : ℕ)
  | setSize (a n : ℕ)
  | allocHeap (currentHeap : Option ℕ) (size : ℕ)
  deriving DecidableEq, Repr

/-- The type of what an access returns. -/
abbrev Access.Result : Access → Type
  | .heapStart => ℕ
  | .heapSize => ℕ
  | .setHeapSize _ => Unit
  | .read _ => Option ℕ
  | .write _ _ => Unit
  | .size _ => ℕ
  | .setSize _ _ => Unit
  | .allocHeap _ _ => Option ℕ

def Access.exec (allocHeap : AllocHeap σ) : (x : Access) → Heap σ → x.Result × Heap σ
  | .heapStart, h => (h.heapStart, h)
  | .heapSize, h => (h.heapSize, h)
  | .setHeapSize n, h => ((), { h with heapSize := n })
  | .read l, h => (h.read l, h)
  | .write l v, h => ((), h.write l v)
  | .size a, h => (h.size a, h)
  | .setSize a n, h => ((), h.setSize a n)
  | .allocHeap currentHeap n, h =>
    let (p, os) := allocHeap currentHeap n h.os
    (p, h.withOs os)

abbrev Code := Prog Access Access.Result Fault

def heapStart : Code ℕ := perform Access.heapStart

def heapSize : Code ℕ := perform Access.heapSize

def setHeapSize (n : ℕ) : Code Unit := perform (Access.setHeapSize n)

def read (l : Link) : Code (Option ℕ) := perform (Access.read l)

def write (l : Link) (v : Option ℕ) : Code Unit := perform (Access.write l v)

def size (a : ℕ) : Code ℕ := perform (Access.size a)

def setSize (a n : ℕ) : Code Unit := perform (Access.setSize a n)

def allocHeap (currentHeap : Option ℕ) (size : ℕ) : Code (Option ℕ) :=
  perform (Access.allocHeap currentHeap size)

/-! ### `dumpAllocator` -/

def getNextBlockBySize (current : ℕ) : Code (Option ℕ) := do
  let start ← heapStart
  let heapSize ← heapSize
  let stop := wrap64 (start + heapSize)
  let size ← size current
  let next := wrap64 (current + size)
  if next ≤ stop then pure (if next = stop then none else some next) else fail .assertFailed

/-- The first loop of `dumpAllocator`. -/
def walkBlocks : ℕ → Option ℕ → Code Unit
  | 0, _ => fail .outOfFuel
  | _ + 1, none => pure ()
  | fuel + 1, some current => do
    let _ ← size current
    let next ← getNextBlockBySize current
    walkBlocks fuel next

/-- The second loop of `dumpAllocator`. -/
def walkFree : ℕ → Option ℕ → Code Unit
  | 0, _ => fail .outOfFuel
  | _ + 1, none => pure ()
  | fuel + 1, some curr => do
    let _ ← size curr
    let next ← read (.next curr)
    walkFree fuel next

def dumpAllocator (fuel : ℕ) : Code Unit := do
  mutexLock
  let start ← heapStart
  walkBlocks fuel (some start)
  let first ← read .first
  walkFree fuel first
  mutexUnlock
  pure ()

/-- `if (debug) dumpAllocator();`. -/
def dumpIfDebug (debug : Bool) (fuel : ℕ) : Code Unit :=
  if debug then call (dumpAllocator fuel) else pure ()

/-! ### `my_malloc` -/

/-- The two cases of `allocate_block`: an exact fit, which leaves the free list, and a block
that is split. -/
def takeBlock (updateNext : Link) (block newSize : ℕ) : Code Unit := do
  let blockSize ← size block
  if blockSize = newSize then do
    let next ← read (.next block)
    write updateNext next
  else do
    let newFreeBlock := wrap64 (block + newSize)
    let blockSize ← size block
    setSize newFreeBlock (sub64 blockSize newSize)
    let next ← read (.next block)
    write (.next newFreeBlock) next
    let _ ← size newFreeBlock
    write updateNext (some newFreeBlock)
    setSize block newSize

def allocateBlock (updateNext : Link) (block newSize : ℕ) : Code ℕ := do
  takeBlock updateNext block newSize
  write (.next block) none
  pure (wrap64 (block + HEADER_SIZE))

/-- The body of the search loop of `my_malloc`, for a request of `request` bytes. -/
def updateBest (request : ℕ) (best : Option (ℕ × Link)) (prev : Option ℕ) (current : ℕ) :
    Code (Option (ℕ × Link)) := do
  let currentSize ← size current
  if request ≤ currentSize then
    match best with
    | none => do
      let _ ← size current
      pure (some (current, linkOf prev))
    | some (block, link) => do
      let currentSize ← size current
      let bestSize ← size block
      if currentSize < bestSize then do
        let _ ← size current
        pure (some (current, linkOf prev))
      else pure (some (block, link))
  else pure best

def fitLoop (request : ℕ) :
    ℕ → Option (ℕ × Link) → Option ℕ → Option ℕ → Code (Option (ℕ × Link))
  | 0, _, _, _ => fail .outOfFuel
  | _ + 1, best, _, none => pure best
  | fuel + 1, best, prev, some current => do
    let _ ← size current
    let best ← updateBest request best prev current
    let next ← read (.next current)
    fitLoop request fuel best (some current) next

/-- `*insert_pos != NULL && *insert_pos < new_block`, and the step to the next link. -/
def findInsertPos (newBlock : ℕ) : ℕ → Link → Code Link
  | 0, _ => fail .outOfFuel
  | fuel + 1, insertPos => do
    let a ← read insertPos
    if a = none then pure insertPos
    else do
      let a ← read insertPos
      -- a pointer read as an address, with `NULL` as the smallest one
      if a.getD 0 < newBlock then do
        let a ← read insertPos
        match a with
        | none => fail .nullDeref
        | some a => findInsertPos newBlock fuel (.next a)
      else pure insertPos

def addHeapBlock (fuel : ℕ) : Code Unit := do
  let originalHeapSize ← heapSize
  let size ← heapSize
  setHeapSize (wrap64 (size + HEAP_SIZE))
  let start ← heapStart
  let newBlock := wrap64 (start + originalHeapSize)
  setSize newBlock HEAP_SIZE
  write (.next newBlock) none
  let insertPos ← findInsertPos newBlock fuel .first
  let next ← read insertPos
  write (.next newBlock) next
  write insertPos (some newBlock)
  let _ ← Vika9.size newBlock

/-- The part of `my_malloc` behind a search that has found no block, with the recursive call as
`retry`. -/
def extendHeap (retry : Code (Option ℕ)) (fuel : ℕ) : Code (Option ℕ) := do
  let start ← heapStart
  let size ← heapSize
  let newHeapStart ← allocHeap (some start) (wrap64 (size + HEAP_SIZE))
  match newHeapStart with
  | none => do
    mutexUnlock
    pure none
  | some _ => do
    addHeapBlock fuel
    let ptr ← call retry
    mutexUnlock
    pure ptr

/-- The part of `my_malloc` behind the search. -/
def afterSearch (debug : Bool) (retry : Code (Option ℕ)) (request fuel : ℕ) :
    Option (ℕ × Link) → Code (Option ℕ)
  | none => extendHeap retry fuel
  | some (block, link) => do
    let _ ← size block
    let allocated ← allocateBlock link block request
    dumpIfDebug debug fuel
    mutexUnlock
    pure (some allocated)

def myMalloc (debug : Bool) : ℕ → ℕ → Code (Option ℕ)
  | 0, _ => fail .outOfFuel
  | fuel + 1, n =>
    let request := paddedSize n
    if HEAP_SIZE < request then pure none
    else do
      mutexLock
      dumpIfDebug debug fuel
      let first ← read .first
      let selected ← fitLoop request fuel none none first
      afterSearch debug (myMalloc debug fuel request) request fuel selected

/-! ### `my_free` -/

def mergeBlocks (block1 block2 : ℕ) : Code Unit := do
  let size1 ← size block1
  if wrap64 (block1 + size1) = block2 then do
    let size1 ← size block1
    let size2 ← size block2
    setSize block1 (wrap64 (size1 + size2))
    let next ← read (.next block2)
    write (.next block1) next
  else pure ()

/-- The loop of `my_free`. -/
def findFreePos (blockToFree : ℕ) :
    ℕ → Option ℕ → Option ℕ → Code (Option ℕ × Option ℕ)
  | 0, _, _ => fail .outOfFuel
  | _ + 1, prev, none => pure (prev, none)
  | fuel + 1, prev, some current =>
    if current < blockToFree then do
      let next ← read (.next current)
      findFreePos blockToFree fuel (some current) next
    else pure (prev, some current)

def insertFree (blockToFree : ℕ) (prev current : Option ℕ) : Code Unit :=
  match prev with
  | none => do
    let first ← read .first
    write (.next blockToFree) first
    write .first (some blockToFree)
  | some p => do
    write (.next p) (some blockToFree)
    write (.next blockToFree) current

def mergePrev (blockToFree : ℕ) (prev : Option ℕ) : Code ℕ :=
  match prev with
  | none => pure blockToFree
  | some p => do
    let prevSize ← size p
    if wrap64 (p + prevSize) = blockToFree then do
      mergeBlocks p blockToFree
      pure p
    else pure blockToFree

def mergeNext (blockToFree : ℕ) (current : Option ℕ) : Code Unit :=
  match current with
  | none => pure ()
  | some c => do
    let blockSize ← size blockToFree
    if wrap64 (blockToFree + blockSize) = c then mergeBlocks blockToFree c else pure ()

def myFree (fuel : ℕ) (address : Option ℕ) : Code Unit :=
  match address with
  | none => pure ()
  | some address => do
    mutexLock
    let blockToFree := sub64 address HEADER_SIZE
    let _ ← size blockToFree
    let first ← read .first
    let (prev, current) ← findFreePos blockToFree fuel none first
    insertFree blockToFree prev current
    let blockToFree ← mergePrev blockToFree prev
    mergeNext blockToFree current
    mutexUnlock
    pure ()

/-! ### Calls -/

inductive Call
  | malloc (n : ℕ)
  | free (address : Option ℕ)
  | dump
  deriving DecidableEq, Repr

/-- The program of a call, with a bound on the iterations of its loops. -/
def code (debug : Bool) : Call × ℕ → Code (Option ℕ)
  | (.malloc n, fuel) => myMalloc debug fuel n
  | (.free address, fuel) => do
    myFree fuel address
    pure none
  | (.dump, fuel) => do
    dumpAllocator fuel
    pure none

end StyLinux.Malloc.Vika9
