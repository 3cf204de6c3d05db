import Mathlib.Data.List.Infix
import Mathlib.Tactic
import StyLinux.Lib.Python
import StyLinux.Lib.Scan

/-!
# Page traces and their simulation

`vika6/P6/assignment06-templates/p1`: `get_page_list` and `export_page_trace` of `sim-paging.py` and
the replacement loop of `paging-policy.py`. The policy `CLOCK` has a module of its own, and with it
the reference bits that only this policy reads.
-/

namespace StyLinux.PageTrace

open Lib

/-! ### `sim-paging.py` -/

/-- What `get_page_list` returns. -/
structure PageLists where
  pageAccessList : List ℤ
  instructionPageSet : Finset ℤ
  deriving DecidableEq

section Reader

open Lib.Python

variable (interpreter : Interpreter)

/-- The body of the loop over the lines of the file. -/
def readLine (s : PageLists) (line : List Char) : Except Exception PageLists :=
  let line := strip line
  if line = [] then .ok s
  else
    match split line with
    | [type, field] =>
      if ¬type <:+: ['I', 'L', 'M', 'S'] then .ok s
      else
        match field.splitOn ',' with
        | [address, size] => do
          let address ← int interpreter 16 address
          let _ ← int interpreter 10 size
          let pageNumber := address >>> (12 : ℕ)
          .ok {
            pageAccessList := s.pageAccessList ++ [pageNumber]
            instructionPageSet :=
              if type = ['I'] then insert pageNumber s.instructionPageSet
              else s.instructionPageSet }
        | _ => .error .ValueError
    | _ => .ok s

/-- The lists for a file with the given text. -/
def getPageList (text : List Char) : Except Exception PageLists :=
  (lines text).foldlM (readLine interpreter) ⟨[], ∅⟩

end Reader

/-- The loop of `export_page_trace`, behind the page `prev` of the list. -/
def exportLoop (prev : ℕ) : List ℕ → List ℕ
  | [] => []
  | page :: pageAccessList =>
    if page ≠ prev then page :: exportLoop page pageAccessList
    else exportLoop page pageAccessList

/-- The lines that `export_page_trace` writes to the output file. -/
def exportPageTrace : List ℕ → List String
  | [] => []
  | page :: pageAccessList => (page :: exportLoop page pageAccessList).map Nat.repr

/-! ### `paging-policy.py` -/

/-- The address list that is read from the address file. There is none if `int` raises. The bound
of the interpreter on the number of decimal digits is left out. -/
def readAddresses (lines : List String) : Option (List ℕ) := lines.mapM String.toNat?

inductive Policy
  | FIFO
  | LRU
  | MRU
  | OPT
  | UNOPT
  | RAND
  deriving DecidableEq, Repr

/-- The random numbers: `pick k count` is `int(random.random() * count)` for the number drawn
after `k` others. -/
structure RandomStream where
  pick : ℕ → ℕ → ℕ
  pick_lt : ∀ k count, 0 < count → pick k count < count

/-- What is printed for one access. -/
structure Access where
  page : ℕ
  idx : ℤ
  memory : List ℕ
  victim : ℤ
  hits : ℕ
  miss : ℕ
  deriving DecidableEq, Repr

/-- The variables of the loop, the number of random numbers drawn and the lines printed. -/
structure Simulation where
  count : ℕ
  memory : List ℕ
  hits : ℕ
  miss : ℕ
  draws : ℕ
  trace : List Access
  deriving DecidableEq, Repr

def start : Simulation where
  count := 0
  memory := []
  hits := 0
  miss := 0
  draws := 0
  trace := []

/-- The pages evicted so far. -/
def Simulation.evicted (s : Simulation) : List ℤ :=
  (s.trace.map Access.victim).filter fun victim => victim ≠ -1

/-- `memory.pop(i)`, which raises if there is no such element. -/
def pop (memory : List ℕ) (i : ℤ) : Option (ℕ × List ℕ) :=
  let j := if i < 0 then i + memory.length else i
  if 0 ≤ j then memory[j.toNat]?.map fun page => (page, memory.eraseIdx j.toNat) else none

/-- When the page is referenced next, `len(addrList)` if it is not. -/
def whenReferenced (addrList : List ℕ) (addrIndex page : ℕ) : ℤ :=
  let future := addrList.drop (addrIndex + 1)
  if page ∈ future then addrIndex + 1 + future.idxOf page else addrList.length

section Loop

variable (policy : Policy) (cachesize : ℕ) (random : RandomStream) (addrList : List ℕ)

/-- The index of the page that is replaced. -/
def replaceIdx (addrIndex : ℕ) (s : Simulation) : ℤ :=
  match policy with
  | .FIFO => 0
  | .LRU => 0
  | .MRU => s.count - 1
  | .RAND => random.pick s.draws s.count
  | .OPT =>
    scan (fun maxReplace referenced => referenced ≥ maxReplace)
      (whenReferenced addrList addrIndex) (s.memory.take s.count) 0 (-1) (-1)
  | .UNOPT =>
    scan (fun minReplace referenced => referenced < minReplace)
      (whenReferenced addrList addrIndex) (s.memory.take s.count) 0 (-1) (addrList.length + 1)

/-- The body of the loop. There is no result if it raises. -/
def access (addrIndex n : ℕ) (s : Simulation) : Option Simulation :=
  if n ∈ s.memory then
    let memory := if policy = .LRU ∨ policy = .MRU then s.memory.erase n ++ [n] else s.memory
    some { s with
      memory
      hits := s.hits + 1
      trace := s.trace ++ [⟨n, s.memory.idxOf n, memory, -1, s.hits + 1, s.miss⟩] }
  else if s.count = cachesize then do
    let (victim, memory) ← pop s.memory (replaceIdx policy random addrList addrIndex s)
    -- `assert(victim not in memory)`
    if victim ∈ memory ++ [n] then none
    else some { s with
      memory := memory ++ [n]
      miss := s.miss + 1
      draws := if policy = .RAND then s.draws + 1 else s.draws
      trace := s.trace ++ [⟨n, -1, memory ++ [n], victim, s.hits, s.miss + 1⟩] }
  else
    some { s with
      count := s.count + 1
      memory := s.memory ++ [n]
      miss := s.miss + 1
      trace := s.trace ++ [⟨n, -1, s.memory ++ [n], -1, s.hits, s.miss + 1⟩] }

/-- The loop over the addresses from the index on. -/
def accessLoop : List ℕ → ℕ → Simulation → Option Simulation
  | [], _, s => some s
  | n :: rest, addrIndex, s => do
    let s' ← access policy cachesize random addrList addrIndex n s
    accessLoop rest (addrIndex + 1) s'

def simulate : Option Simulation :=
  accessLoop policy cachesize random addrList addrList 0 start

end Loop

/-- The `hitrate` of the final statistics, with the removed duplicates of option `-x`. -/
def Simulation.hitrate (s : Simulation) (xdups : ℕ) : ℚ :=
  100 * (s.hits + xdups) / (s.hits + xdups + s.miss)

/-! ### The address list and the policy `OPT` of `paging-policy.py`

The elements of the address list are strings where they are given with option `-a`, and the search
of the policy `OPT` compares them with the pages in memory, which are not. -/

/-- An element of the address list. -/
inductive Element
  | int (n : ℤ)
  | str (text : List Char)
  deriving DecidableEq, Repr

section Elements

open Lib.Python

variable (interpreter : Interpreter)

/-- `int(element)` -/
def Element.toInt : Element → Except Exception ℤ
  | .int n => .ok n
  | .str text => Python.int interpreter 10 text

/-- The address list: the lines of the address file if there is one, else the addresses. They are
generated at random if there are no addresses. -/
def addressList (addresses : List Char) (addressFile : Option (List Char))
    (generated : List ℤ) : Except Exception (List Element) :=
  match addressFile with
  | some text => do
    let ns ← (lines text).mapM (Python.int interpreter 10)
    .ok (ns.map .int)
  | none =>
    if addresses = ['-', '1'] then .ok (generated.map .int)
    else .ok ((addresses.splitOn ',').map .str)

/-- `addrList.index(page, start)` -/
def index (addrList : List Element) (page : ℤ) (start : ℕ) : Except Exception ℕ :=
  match (addrList.drop start).idxOf? (.int page) with
  | some i => .ok (start + i)
  | none => .error .ValueError

/-- `whenReferenced` as the policy `OPT` computes it. -/
def fastReferenced (addrList : List Element) (addrIndex : ℕ) (page : ℤ) : ℕ :=
  match index addrList page (addrIndex + 1) with
  | .ok futureIdx => futureIdx
  | .error _ => addrList.length

/-- The loop of the plain scan over the elements from the index on. -/
def scanLoop (page : ℤ) (length : ℕ) : List Element → ℕ → Except Exception ℕ
  | [], _ => .ok length
  | element :: future, futureIdx => do
    let futurePage ← element.toInt interpreter
    if page = futurePage then .ok futureIdx else scanLoop page length future (futureIdx + 1)

/-- `whenReferenced` as the plain scan computes it. -/
def plainReferenced (addrList : List Element) (addrIndex : ℕ) (page : ℤ) : Except Exception ℕ :=
  scanLoop interpreter page addrList.length (addrList.drop (addrIndex + 1)) (addrIndex + 1)

/-- The variables of the loop over the accesses. -/
structure Cache where
  count : ℕ
  memory : List ℤ
  hits : ℕ
  miss : ℕ
  deriving DecidableEq, Repr

def emptyCache : Cache where
  count := 0
  memory := []
  hits := 0
  miss := 0

/-- The index of the page that the policy `OPT` replaces. -/
def optIdx (addrList : List Element) (addrIndex : ℕ) (s : Cache) : ℤ :=
  scan (fun maxReplace referenced => referenced ≥ maxReplace)
    (fun page => (fastReferenced addrList addrIndex page : ℤ)) (s.memory.take s.count) 0 (-1) (-1)

/-- The body of the loop with the policy `OPT`, and the victim. -/
def accessOpt (cachesize : ℕ) (addrList : List Element) (addrIndex : ℕ) (n : ℤ) (s : Cache) :
    Except Exception (ℤ × Cache) :=
  if n ∈ s.memory then .ok (-1, { s with hits := s.hits + 1 })
  else if s.count = cachesize then do
    let (victim, memory) ← Python.pop s.memory (optIdx addrList addrIndex s)
    let s' := { s with memory := memory ++ [n], miss := s.miss + 1 }
    if victim ≠ -1 ∧ victim ∈ s'.memory then .error .AssertionError else .ok (victim, s')
  else
    .ok (-1, { s with count := s.count + 1, memory := s.memory ++ [n], miss := s.miss + 1 })

/-- The loop over the elements from the index on. -/
def optLoop (cachesize : ℕ) (addrList : List Element) :
    List Element → ℕ → Cache → Except Exception Cache
  | [], _, s => .ok s
  | nStr :: rest, addrIndex, s => do
    let n ← nStr.toInt interpreter
    let (_, s) ← accessOpt cachesize addrList addrIndex n s
    optLoop cachesize addrList rest (addrIndex + 1) s

end Elements

end StyLinux.PageTrace
