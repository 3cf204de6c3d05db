import Mathlib.Tactic
import StyLinux.Lib.Run

/-!
# Two programs and a pipe

`vika8/assignment08-templates/Lab/3.c` starts `ls` and `less` as two child processes and connects
them with a pipe. A step is a system call of one of the three processes, or one of the two programs
after `execlp`: `ls` writes its output and exits, and `less` reads until there is no more to come,
unless its user quits before.
-/

namespace StyLinux.Pipeline

open Lib

abbrev Byte := BitVec 8

/-- What a descriptor refers to. -/
inductive File
  | readEnd
  | writeEnd
  | other
  deriving DecidableEq, Repr

/-- The open descriptors of a process. -/
abbrev Table := ℕ → Option File

def STDIN_FILENO : ℕ := 0

def STDOUT_FILENO : ℕ := 1

namespace Table

def close (t : Table) (fd : ℕ) : Table := Function.update t fd none

/-- A call with a descriptor that is not open fails. -/
def dup2 (t : Table) (oldfd newfd : ℕ) : Table :=
  if t oldfd = none then t else Function.update t newfd (t oldfd)

/-- The table of a process that has ended. -/
def closed : Table := fun _ => none

end Table

/-- The two children. -/
inductive Who
  | ls
  | less
  deriving DecidableEq, Repr

/-- The end that the child does not need, the one that it uses, and the descriptor that it uses it
as. -/
def Who.unused (pipefd : ℕ × ℕ) : Who → ℕ
  | .ls => pipefd.1
  | .less => pipefd.2

def Who.used (pipefd : ℕ × ℕ) : Who → ℕ
  | .ls => pipefd.2
  | .less => pipefd.1

def Who.standard : Who → ℕ
  | .ls => STDOUT_FILENO
  | .less => STDIN_FILENO

/-- What `main` does next. -/
inductive Parent
  | pipe
  | fork (who : Who)
  | closeRead
  | closeWrite
  | waitpid (who : Who)
  | exited (code : ℕ)
  deriving DecidableEq, Repr

def Parent.afterFork : Who → Parent
  | .ls => .fork .less
  | .less => .closeRead

/-- How a child has ended: with `exit(1)` behind a failed `execlp`, with its program, or by
`SIGPIPE`. -/
inductive Status
  | execFailed
  | finished
  | killed
  deriving DecidableEq, Repr

/-- What a child does next. -/
inductive Child
  | absent
  | closeUnused
  | dup2
  | closeUsed
  | execlp
  | program
  | ended (status : Status)
  | reaped (status : Status)
  deriving DecidableEq, Repr

/-- The processes with their descriptors, the bytes in the pipe, those that `ls` has still to write
and those that `less` has read, and whether `less` has seen their end. -/
structure State where
  parent : Parent
  parentFds : Table
  child : Who → Child
  fds : Who → Table
  pipefd : ℕ × ℕ
  pipe : List Byte
  out : List Byte
  received : List Byte
  eof : Bool

/-- `main` begins, and `ls` is to print `output`. -/
def initial (t : Table) (output : List Byte) : State where
  parent := .pipe
  parentFds := t
  child := fun _ => .absent
  fds := fun _ => Table.closed
  pipefd := (0, 0)
  pipe := []
  out := output
  received := []
  eof := false

namespace State

/-- Some process has the end of the pipe open. -/
def Opened (s : State) (f : File) : Prop :=
  (∃ fd, s.parentFds fd = some f) ∨ ∃ who fd, s.fds who fd = some f

def parentExits (s : State) (code : ℕ) : State :=
  { s with parent := .exited code, parentFds := Table.closed }

/-- The child has changed its table and goes on. -/
def childGoes (s : State) (who : Who) (next : Child) (t : Table) : State :=
  { s with
    child := Function.update s.child who next
    fds := Function.update s.fds who t }

def childEnds (s : State) (who : Who) (status : Status) : State :=
  s.childGoes who (.ended status) Table.closed

end State

/-- Steps of the system, with the answers of the kernel. -/
inductive Call
  | pipe (fds : Option (ℕ × ℕ))
  | fork (who : Who) (success : Bool)
  | parentCloseRead
  | parentCloseWrite
  | waitpid (who : Who)
  | childCloseUnused (who : Who)
  | childDup2 (who : Who)
  | childCloseUsed (who : Who)
  | execlp (who : Who) (success : Bool)
  | write (chunk : List Byte)
  | sigpipe
  | lsExit
  | read (chunk : List Byte)
  | eof
  | leave
  | quit
  deriving DecidableEq, Repr

/-- The steps, where the pipe has room for `capacity` bytes. -/
inductive Step (capacity : ℕ) : State → Call → State → Prop
  | pipe (s : State) (r w : ℕ) : s.parent = .pipe → s.parentFds r = none →
      s.parentFds w = none → r ≠ w →
      Step capacity s (.pipe (some (r, w)))
        { s with
          parent := .fork .ls
          parentFds := Function.update (Function.update s.parentFds r (some .readEnd)) w
            (some .writeEnd)
          pipefd := (r, w) }
  | pipeFails (s : State) : s.parent = .pipe → Step capacity s (.pipe none) (s.parentExits 1)
  | fork (s : State) (who : Who) : s.parent = .fork who →
      Step capacity s (.fork who true)
        { s.childGoes who .closeUnused s.parentFds with parent := .afterFork who }
  | forkFails (s : State) (who : Who) : s.parent = .fork who →
      Step capacity s (.fork who false) (s.parentExits 1)
  | parentCloseRead (s : State) : s.parent = .closeRead →
      Step capacity s .parentCloseRead
        { s with parent := .closeWrite, parentFds := s.parentFds.close s.pipefd.1 }
  | parentCloseWrite (s : State) : s.parent = .closeWrite →
      Step capacity s .parentCloseWrite
        { s with parent := .waitpid .ls, parentFds := s.parentFds.close s.pipefd.2 }
  | waitpidLs (s : State) (status : Status) : s.parent = .waitpid .ls →
      s.child .ls = .ended status →
      Step capacity s (.waitpid .ls)
        { s.childGoes .ls (.reaped status) (s.fds .ls) with parent := .waitpid .less }
  | waitpidLess (s : State) (status : Status) : s.parent = .waitpid .less →
      s.child .less = .ended status →
      -- `main` returns 0
      Step capacity s (.waitpid .less)
        ((s.childGoes .less (.reaped status) (s.fds .less)).parentExits 0)
  | childCloseUnused (s : State) (who : Who) : s.child who = .closeUnused →
      Step capacity s (.childCloseUnused who)
        (s.childGoes who .dup2 ((s.fds who).close (who.unused s.pipefd)))
  | childDup2 (s : State) (who : Who) : s.child who = .dup2 →
      Step capacity s (.childDup2 who)
        (s.childGoes who .closeUsed ((s.fds who).dup2 (who.used s.pipefd) who.standard))
  | childCloseUsed (s : State) (who : Who) : s.child who = .closeUsed →
      Step capacity s (.childCloseUsed who)
        (s.childGoes who .execlp ((s.fds who).close (who.used s.pipefd)))
  | execlp (s : State) (who : Who) : s.child who = .execlp →
      Step capacity s (.execlp who true) (s.childGoes who .program (s.fds who))
  | execlpFails (s : State) (who : Who) : s.child who = .execlp →
      Step capacity s (.execlp who false) (s.childEnds who .execFailed)
  | write (s : State) (chunk rest : List Byte) : s.child .ls = .program →
      s.fds .ls STDOUT_FILENO = some .writeEnd → s.out = chunk ++ rest → chunk ≠ [] →
      s.pipe.length + chunk.length ≤ capacity → s.Opened .readEnd →
      Step capacity s (.write chunk) { s with pipe := s.pipe ++ chunk, out := rest }
  | sigpipe (s : State) : s.child .ls = .program → s.fds .ls STDOUT_FILENO = some .writeEnd →
      s.out ≠ [] → ¬s.Opened .readEnd → Step capacity s .sigpipe (s.childEnds .ls .killed)
  | lsExit (s : State) : s.child .ls = .program → s.out = [] →
      Step capacity s .lsExit (s.childEnds .ls .finished)
  | read (s : State) (chunk rest : List Byte) : s.child .less = .program → s.eof = false →
      s.fds .less STDIN_FILENO = some .readEnd → s.pipe = chunk ++ rest → chunk ≠ [] →
      Step capacity s (.read chunk) { s with pipe := rest, received := s.received ++ chunk }
  | eof (s : State) : s.child .less = .program → s.eof = false →
      s.fds .less STDIN_FILENO = some .readEnd → s.pipe = [] → ¬s.Opened .writeEnd →
      Step capacity s .eof { s with eof := true }
  | leave (s : State) : s.child .less = .program → s.eof = true →
      Step capacity s .leave (s.childEnds .less .finished)
  | quit (s : State) : s.child .less = .program → s.eof = false →
      Step capacity s .quit (s.childEnds .less .finished)

end StyLinux.Pipeline
