import StyLinux.Malloc.Release
import StyLinux.Malloc.Search

/-!
# The second best-fit allocator

`vika9/savesolmalloc.c`, without the mutex. The global variables, the block header and
`allocHeap` are those of the other allocators. The search of `my_malloc` remembers the size and
the link of the best block, an extension hands out the new block at once, and `my_free` starts
its walk in the first free block.
-/

namespace StyLinux.Malloc.Savesol

variable {σ : Type}

def ALLOCATED_BLOCK_MAGIC : Option ℕ := some 0xfeedcafecafe

/-- `&current->data[current->size - HEADER_SIZE]`, if it is in front of the end of the heap. -/
def getNextBlockBySize (h : Heap σ) (current : ℕ) : Except Fault (Option ℕ) :=
  let stop := wrap64 (h.heapStart + h.heapSize)
  let next := wrap64 (current + HEADER_SIZE + sub64 (h.size current) HEADER_SIZE)
  if next ≤ stop then .ok (if next = stop then none else some next) else .error .assertFailed

def allocateBlock (h : Heap σ) (updateNext : Link) (block newSize : ℕ) :
    Except Fault (ℕ × Heap σ) :=
  if ¬newSize ≤ h.size block then .error .assertFailed
  else if h.size block = newSize then
    let h := h.write updateNext (h.read (.next block))
    .ok (wrap64 (block + HEADER_SIZE), h.write (.next block) ALLOCATED_BLOCK_MAGIC)
  else do
    let newFreeSize := sub64 (h.size block) newSize
    let h := h.setSize block newSize
    match ← getNextBlockBySize h block with
    | none => .error .nullDeref
    | some newfree =>
      let h := h.setSize newfree newFreeSize
      let h := h.write (.next newfree) (h.read (.next block))
      let h := h.write (.next block) ALLOCATED_BLOCK_MAGIC
      .ok (wrap64 (block + HEADER_SIZE), h.write updateNext (some newfree))

/-- `bestSize`, `bestBlock` and `bestLink`. -/
abbrev Best := ℕ × ℕ × Link

/-- The update of the best block so far by the current one, to which `prevptr` points. -/
def updateBest (h : Heap σ) (size : ℕ) (best : Option Best) (prevptr : Link) (block : ℕ) :
    Option Best :=
  if size ≤ h.size block then
    match best with
    | none => some (h.size block, block, prevptr)
    | some (bestSize, bestBlock, bestLink) =>
      if h.size block < bestSize then some (h.size block, block, prevptr)
      else some (bestSize, bestBlock, bestLink)
  else best

/-- The search of `my_malloc`, with the value of `prevptr` behind the loop. -/
def searchLoop (h : Heap σ) (size : ℕ) :
    ℕ → Option Best → Link → Option ℕ → Except Fault (Option Best × Link)
  | 0, _, _, _ => .error .outOfFuel
  | _ + 1, best, prevptr, none => .ok (best, prevptr)
  | fuel + 1, best, prevptr, some block =>
    searchLoop h size fuel (updateBest h size best prevptr block) (.next block)
      (h.read (.next block))

/-- The new block of an extended heap, linked into `prevptr`. -/
def addHeapBlock (h : Heap σ) (prevptr : Link) : ℕ × Heap σ :=
  let newfree := wrap64 (h.heapStart + h.heapSize)
  let h := h.setSize newfree HEAP_SIZE
  let h := h.write (.next newfree) none
  let h := h.write prevptr (some newfree)
  (newfree, { h with heapSize := wrap64 (h.heapSize + HEAP_SIZE) })

/-- The part of `my_malloc` behind the search. -/
def afterSearch (allocHeap : AllocHeap σ) (size : ℕ) (h : Heap σ) (best : Option Best)
    (prevptr : Link) : Except Fault (Option ℕ × Heap σ) :=
  match best with
  | some (_, bestBlock, bestLink) => do
    let (p, h) ← allocateBlock h bestLink bestBlock size
    pure (some p, h)
  | none =>
    if HEAP_SIZE - HEADER_SIZE < size then .ok (none, h)
    else
      match allocHeap (some h.heapStart) (wrap64 (h.heapSize + HEAP_SIZE)) h.os with
      | (none, os) => .ok (none, h.withOs os)
      | (some _, os) => do
        let (newfree, h) := addHeapBlock (h.withOs os) prevptr
        let (p, h) ← allocateBlock h prevptr newfree size
        pure (some p, h)

def myMalloc (allocHeap : AllocHeap σ) (fuel size : ℕ) (h : Heap σ) :
    Except Fault (Option ℕ × Heap σ) := do
  let size := wrap64 (roundUp size + HEADER_SIZE)
  let (best, prevptr) ← searchLoop h size fuel none .first h.firstFreeBlock
  afterSearch allocHeap size h best prevptr

def mergeBlocks (h : Heap σ) (block1 : ℕ) (block2 : Option ℕ) : Except Fault (Heap σ) :=
  if wrap64 (block1 + h.size block1) ≠ block2.getD 0 then .ok h
  else if h.read (.next block1) ≠ block2 then .error .assertFailed
  else
    match block2 with
    | none => .error .nullDeref
    | some block2 =>
      let h := h.setSize block1 (wrap64 (h.size block1 + h.size block2))
      .ok (h.write (.next block1) (h.read (.next block2)))

/-- The loop of `my_free` behind `freeblock`. -/
def insertLoop (h : Heap σ) (block : ℕ) : ℕ → ℕ → Except Fault ℕ
  | 0, _ => .error .outOfFuel
  | fuel + 1, freeblock =>
    match h.read (.next freeblock) with
    -- `NULL < block` holds, and the loop ends with its second condition
    | none => .ok freeblock
    | some next => if next < block then insertLoop h block fuel next else .ok freeblock

/-- The insertion of `block` behind `freeblock`. -/
def insertAfter (h : Heap σ) (block freeblock : ℕ) : Heap σ :=
  match h.read (.next freeblock) with
  | none => (h.write (.next block) none).write (.next freeblock) (some block)
  | some next => (h.write (.next block) (some next)).write (.next freeblock) (some block)

/-- The part of `my_free` behind the loop. -/
def freeBehind (h : Heap σ) (block freeblock : ℕ) : Except Fault (Heap σ) := do
  let h := insertAfter h block freeblock
  let h ← mergeBlocks h block (h.read (.next block))
  mergeBlocks h freeblock (some block)

def myFree (fuel : ℕ) (address : Option ℕ) (h : Heap σ) : Except Fault (Heap σ) :=
  match address with
  | none => .ok h
  | some address =>
    let block := sub64 address HEADER_SIZE
    match h.firstFreeBlock with
    -- `block < NULL` does not hold, and the loop starts with `freeblock->next`
    | none => .error .nullDeref
    | some freeblock =>
      if block < freeblock then
        let h := (h.write (.next block) (some freeblock)).write .first (some block)
        mergeBlocks h block (h.read (.next block))
      else do
        let freeblock ← insertLoop h block fuel freeblock
        freeBehind h block freeblock

end StyLinux.Malloc.Savesol
