import Mathlib.Tactic
import StyLinux.Lib.Descriptors
import StyLinux.Lib.Run

/-!
# A program started through `fork` and `execvp`

`execute` of `vika8/assignment08-templates/p1/pipe.c`. The parent waits for the child and then
looks into a pipe, on which the child reports why `execvp` failed. A step is a system call of one
of the two processes together with the local computation behind it. The operating system decides
whether the calls succeed.
-/

namespace StyLinux.Pipe

open Lib

/-! ### Values -/

/-- `sizeof(int)` -/
def SIZEOF_INT : ℕ := 4

/-- The bytes of a variable of type `int`. -/
def toBytes (n : BitVec 32) : List (BitVec 8) :=
  [n.extractLsb' 0 8, n.extractLsb' 8 8, n.extractLsb' 16 8, n.extractLsb' 24 8]

/-- The variable of type `int` whose first bytes are overwritten. -/
def overwrite (n : BitVec 32) (bytes : List (BitVec 8)) : BitVec 32 :=
  match bytes ++ (toBytes n).drop bytes.length with
  | [b₀, b₁, b₂, b₃] => (b₃ ++ b₂ ++ b₁ ++ b₀ : BitVec (8 + 8 + 8 + 8))
  | _ => n

def ECANCELED : BitVec 32 := 125

def SIGPIPE : ℕ := 13

/-- What `waitpid` reports of a process that has called `exit(code)`. -/
def exitedStatus (code : BitVec 8) : ℕ := code.toNat * 256

/-- What `waitpid` reports of a process that a signal has killed. -/
def killedStatus (signal : ℕ) : ℕ := signal

def WIFEXITED (status : ℕ) : Bool := status % 128 == 0

def WEXITSTATUS (status : ℕ) : ℕ := status / 256 % 256

/-- What comes of `execvp`: it fails with an `errno`, or the program runs and exits with a
status. -/
inductive Exec
  | failure (errno : BitVec 32)
  | success (status : BitVec 8)
  deriving DecidableEq, Repr

/-! ### The two processes -/

/-- What the parent does next. -/
inductive Parent
  | start
  | pipe2
  | fork
  | closeWrite
  | waitpid
  | read (status : ℕ)
  | closeRead (status : ℕ) (hadError : Bool)
  | returned (result : ℤ)
  deriving DecidableEq, Repr

/-- What the child does next, once there is one. -/
inductive Child
  | none
  | closeRead
  | execvp
  | write (exec_error : BitVec 32)
  | closeWrite
  | exit
  | program (status : BitVec 8)
  | exited (status : ℕ)
  | reaped
  deriving DecidableEq, Repr

/-- The two processes with their `errno` and the ends of the pipe that they have open, and the
bytes in the pipe. -/
structure State where
  parent : Parent
  child : Child
  errno : BitVec 32
  childErrno : BitVec 32
  parentRead : Bool
  parentWrite : Bool
  childRead : Bool
  childWrite : Bool
  pipe : List (BitVec 8)
  deriving DecidableEq, Repr

/-- Steps of the system. Those of the calls that may fail say with which `errno` they do. -/
inductive Call
  | start
  | pipe2 (error : Option (BitVec 32))
  | fork (error : Option (BitVec 32))
  | parentCloseWrite
  | waitpid (error : Option (BitVec 32))
  | read (error : Option (BitVec 32))
  | parentCloseRead
  | childCloseRead
  | execvp
  | write (error : Option (BitVec 32))
  | sigpipe
  | childCloseWrite
  | exit
  | programExit
  deriving DecidableEq, Repr

/-- The call does not fail; what comes of `execvp` is left open. -/
def Call.Succeeds : Call → Prop
  | .pipe2 error | .fork error | .waitpid error | .read error | .write error => error = .none
  | _ => True

/-- `execute` is called. -/
def initial (errno : BitVec 32) : State where
  parent := .start
  child := .none
  errno := errno
  childErrno := 0
  parentRead := false
  parentWrite := false
  childRead := false
  childWrite := false
  pipe := []

namespace State

/-- The child ends, and with it its descriptors. -/
def childEnds (s : State) (status : ℕ) : State :=
  { s with child := .exited status, childRead := false, childWrite := false }

/-- The bytes have been read; `exec_error` is 0 before. -/
def afterRead (s : State) (status : ℕ) (bytes : List (BitVec 8)) : State :=
  if 0 < bytes.length then
    { s with errno := overwrite 0 bytes, parent := .closeRead status true }
  else { s with parent := .closeRead status false }

end State

variable {A : Type}

/-- The steps of `execute(argv)`, where `execvp` says what comes of executing an `argv`, and the
pipe has room for `capacity` bytes. -/
inductive Step (execvp : A → Exec) (argv : Option A) (capacity : ℕ) : State → Call → State → Prop
  | startNull (s : State) : s.parent = .start → argv = none →
      Step execvp argv capacity s .start { s with parent := .returned (-1) }
  | start (s : State) : s.parent = .start → argv ≠ none →
      Step execvp argv capacity s .start { s with parent := .pipe2 }
  | pipe2 (s : State) : s.parent = .pipe2 →
      Step execvp argv capacity s (.pipe2 none)
        { s with parent := .fork, parentRead := true, parentWrite := true, pipe := [] }
  | pipe2Fails (s : State) (e : BitVec 32) : s.parent = .pipe2 →
      Step execvp argv capacity s (.pipe2 (some e)) { s with errno := e, parent := .returned (-1) }
  | fork (s : State) : s.parent = .fork → s.child = .none →
      Step execvp argv capacity s (.fork none)
        { s with
          parent := .closeWrite
          child := .closeRead
          childErrno := s.errno
          childRead := s.parentRead
          childWrite := s.parentWrite }
  | forkFails (s : State) (e : BitVec 32) : s.parent = .fork →
      Step execvp argv capacity s (.fork (some e)) { s with errno := e, parent := .returned (-1) }
  | parentCloseWrite (s : State) : s.parent = .closeWrite →
      Step execvp argv capacity s .parentCloseWrite
        { s with parent := .waitpid, parentWrite := false }
  | waitpid (s : State) (status : ℕ) : s.parent = .waitpid → s.child = .exited status →
      WIFEXITED status →
      Step execvp argv capacity s (.waitpid none)
        { s with parent := .read status, child := .reaped }
  | waitpidSignaled (s : State) (status : ℕ) : s.parent = .waitpid → s.child = .exited status →
      ¬WIFEXITED status →
      Step execvp argv capacity s (.waitpid none)
        { s with parent := .closeRead status true, child := .reaped, errno := ECANCELED }
  | waitpidFails (s : State) (e : BitVec 32) (status : ℕ) : s.parent = .waitpid →
      -- `status` stays uninitialised and is not used
      Step execvp argv capacity s (.waitpid (some e))
        { s with parent := .closeRead status true, errno := e }
  | read (s : State) (status : ℕ) : s.parent = .read status → s.parentRead →
      -- the call waits as long as there is nothing to read and somebody may still write
      (s.pipe ≠ [] ∨ s.parentWrite = false ∧ s.childWrite = false) →
      Step execvp argv capacity s (.read none)
        { s.afterRead status (s.pipe.take SIZEOF_INT) with pipe := s.pipe.drop SIZEOF_INT }
  | readFails (s : State) (e : BitVec 32) (status : ℕ) : s.parent = .read status →
      Step execvp argv capacity s (.read (some e))
        { s with parent := .closeRead status true, errno := ECANCELED }
  | parentCloseRead (s : State) (status : ℕ) (hadError : Bool) :
      s.parent = .closeRead status hadError →
      Step execvp argv capacity s .parentCloseRead
        { s with
          parent := .returned (if hadError then -1 else WEXITSTATUS status)
          parentRead := false }
  | childCloseRead (s : State) : s.child = .closeRead →
      Step execvp argv capacity s .childCloseRead { s with child := .execvp, childRead := false }
  | execvp (s : State) (a : A) (status : BitVec 8) : s.child = .execvp → argv = some a →
      execvp a = .success status →
      -- `O_CLOEXEC`
      Step execvp argv capacity s .execvp
        { s with child := .program status, childRead := false, childWrite := false }
  | execvpFails (s : State) (a : A) (e : BitVec 32) : s.child = .execvp → argv = some a →
      execvp a = .failure e →
      Step execvp argv capacity s .execvp { s with child := .write e, childErrno := e }
  | write (s : State) (exec_error : BitVec 32) : s.child = .write exec_error → s.childWrite →
      (s.parentRead ∨ s.childRead) → s.pipe.length + SIZEOF_INT ≤ capacity →
      Step execvp argv capacity s (.write none)
        { s with child := .closeWrite, pipe := s.pipe ++ toBytes exec_error }
  | writeFails (s : State) (exec_error e : BitVec 32) : s.child = .write exec_error →
      Step execvp argv capacity s (.write (some e)) { s with child := .closeWrite, childErrno := e }
  | sigpipe (s : State) (exec_error : BitVec 32) : s.child = .write exec_error →
      s.parentRead = false → s.childRead = false →
      Step execvp argv capacity s .sigpipe (s.childEnds (killedStatus SIGPIPE))
  | childCloseWrite (s : State) : s.child = .closeWrite →
      Step execvp argv capacity s .childCloseWrite { s with child := .exit, childWrite := false }
  | exit (s : State) : s.child = .exit →
      Step execvp argv capacity s .exit (s.childEnds (exitedStatus 0))
  | programExit (s : State) (status : BitVec 8) : s.child = .program status →
      Step execvp argv capacity s .programExit (s.childEnds (exitedStatus status))

/-! ### The calling process

The parent alone, which runs through `execute` as its system calls are answered. -/

/-- The answers to the system calls of the parent: the `errno` of those that fail, the status of
the child and the bytes that are read. -/
structure Answers where
  pipe2 : Option (BitVec 32)
  fork : Option (BitVec 32)
  waitpid : Except (BitVec 32) ℕ
  read : Except (BitVec 32) (List (BitVec 8))

/-- The `errno` of a process and its open file descriptors. -/
structure Process where
  errno : BitVec 32
  opened : Finset ℕ
  deriving DecidableEq

namespace Process

/-- The two ends that `pipe2` opens: the one to read and the one to write. -/
def pipefd (s : Process) : ℕ × ℕ :=
  (lowestFree s.opened, lowestFree (insert (lowestFree s.opened) s.opened))

def openPipe (s : Process) : Process :=
  { s with opened := insert s.pipefd.2 (insert s.pipefd.1 s.opened) }

def close (s : Process) (fd : ℕ) : Process := { s with opened := s.opened.erase fd }

end Process

/-- From `waitpid` to the last `close`: `hadError`, `status` and `errno`. -/
def awaitChild (answers : Answers) (errno : BitVec 32) : Bool × ℕ × BitVec 32 :=
  match answers.waitpid with
  | .error e =>
    -- `status` stays uninitialised and is not used
    (true, 0, e)
  | .ok status =>
    if ¬WIFEXITED status then (true, status, ECANCELED)
    else
      match answers.read with
      | .ok bytes =>
        if 0 < bytes.length then (true, status, overwrite 0 bytes) else (false, status, errno)
      | .error _ => (true, status, ECANCELED)

/-- `execute(argv)` in the calling process. -/
def execute (argv : Option A) (answers : Answers) (s : Process) : ℤ × Process :=
  match argv with
  | none => (-1, s)
  | some _ =>
    match answers.pipe2 with
    | some e => (-1, { s with errno := e })
    | none =>
      let (pipefd₀, pipefd₁) := s.pipefd
      let s := s.openPipe
      match answers.fork with
      | some e => (-1, { s with errno := e })
      | none =>
        let s := s.close pipefd₁
        let (hadError, status, errno) := awaitChild answers s.errno
        let s := { s with errno }.close pipefd₀
        (if hadError then -1 else WEXITSTATUS status, s)

end StyLinux.Pipe
