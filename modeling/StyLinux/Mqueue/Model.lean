import Mathlib.Tactic
import StyLinux.Lib.Run

/-!
# The message queue calculator

`vika8/assignment08-templates/p2/message_queue.c`: a server that adds the operands of the messages
on a POSIX message queue, and any number of clients that send to it. The operating system decides
whether `mq_open`, `mq_receive`, `mq_close` and `mq_unlink` succeed; a client that sends to a full
queue waits.
-/

namespace StyLinux.Mqueue

open Lib

def CmdAdd : ℤ := 0

def CmdQuit : ℤ := 1

structure Message where
  command : ℤ
  parameter1 : ℤ
  parameter2 : ℤ
  deriving DecidableEq, Repr

/-- `attr.mq_maxmsg`. -/
def mq_maxmsg : ℕ := 10

/-- A call of `sendAddTask` or `sendQuitTask`. -/
inductive Task
  | add (operand1 operand2 : ℤ)
  | quit
  deriving DecidableEq, Repr

def sendQuitTask : Message := ⟨CmdQuit, 0, 0⟩

def sendAddTask (operand1 operand2 : ℤ) : Message := ⟨CmdAdd, operand1, operand2⟩

def Task.message : Task → Message
  | .add operand1 operand2 => sendAddTask operand1 operand2
  | .quit => sendQuitTask

/-- The value is one of type `int`. -/
def IsInt (n : ℤ) : Prop := -2 ^ 31 ≤ n ∧ n < 2 ^ 31

instance (n : ℤ) : Decidable (IsInt n) := inferInstanceAs (Decidable (_ ∧ _))

/-- The three numbers of a line printed with `FORMAT_STRING_ADD`. -/
structure Line where
  operand1 : ℤ
  operand2 : ℤ
  sum : ℤ
  deriving DecidableEq, Repr

/-- Where `runServer` is. -/
inductive Server
  | opening
  | receiving
  | switching (msg : Message)
  | testing
  | closing
  | unlinking
  | returned (code : ℤ)
  deriving DecidableEq, Repr

/-- The server with its local flags and its output, the queue with its name, the tasks that the
clients have not sent yet, and all messages that were enqueued, with their senders. -/
structure State (ι : Type) where
  server : Server
  didQuit : Bool
  hadError : Bool
  printed : List Line
  queue : Option (List Message)
  linked : Bool
  tasks : ι → List Task
  enqueued : List (ι × Message)

variable {ι : Type}

def initial (tasks : ι → List Task) : State ι where
  server := .opening
  didQuit := false
  hadError := false
  printed := []
  queue := none
  linked := false
  tasks := tasks
  enqueued := []

/-- The `switch` over the command. There is no result where the addition overflows. -/
def switchCommand (msg : Message) (s : State ι) : Option (State ι) :=
  if msg.command = CmdQuit then some { s with didQuit := true }
  else if msg.command = CmdAdd then
    if IsInt (msg.parameter1 + msg.parameter2) then
      some { s with printed := s.printed ++
        [⟨msg.parameter1, msg.parameter2, msg.parameter1 + msg.parameter2⟩] }
    else none
  else some { s with hadError := true }

/-- The steps of the system, with the success of the calls of the operating system. -/
inductive Event (ι : Type)
  | send (client : ι)
  | mqOpen (success : Bool)
  | mqReceive (success : Bool)
  | switch
  | test
  | mqClose (success : Bool)
  | mqUnlink (success : Bool)
  deriving DecidableEq, Repr

variable [DecidableEq ι]

inductive Step : State ι → Event ι → State ι → Prop
  | send (s : State ι) (client : ι) (task : Task) (rest : List Task) (messages : List Message) :
      s.tasks client = task :: rest → s.queue = some messages → messages.length < mq_maxmsg →
      Step s (.send client)
        { s with
          queue := some (messages ++ [task.message])
          tasks := Function.update s.tasks client rest
          enqueued := s.enqueued ++ [(client, task.message)] }
  | mqOpen (s : State ι) : s.server = .opening →
      Step s (.mqOpen true) { s with server := .receiving, queue := some [], linked := true }
  | mqOpenFails (s : State ι) : s.server = .opening →
      Step s (.mqOpen false) { s with server := .returned (-1) }
  | mqReceive (s : State ι) (msg : Message) (messages : List Message) :
      s.server = .receiving → s.queue = some (msg :: messages) →
      Step s (.mqReceive true) { s with server := .switching msg, queue := some messages }
  | mqReceiveFails (s : State ι) : s.server = .receiving →
      -- `continue` goes on with the test of the loop
      Step s (.mqReceive false) { s with server := .testing, hadError := true }
  | switch (s s' : State ι) (msg : Message) : s.server = .switching msg →
      switchCommand msg s = some s' → Step s .switch { s' with server := .testing }
  | test (s : State ι) : s.server = .testing →
      Step s .test { s with
        server := if !s.didQuit && !s.hadError then .receiving else .closing }
  | mqClose (s : State ι) (success : Bool) : s.server = .closing →
      Step s (.mqClose success)
        { s with server := .unlinking, hadError := s.hadError || !success }
  | mqUnlink (s : State ι) (success : Bool) : s.server = .unlinking →
      Step s (.mqUnlink success)
        { s with
          server := .returned (if s.hadError || !success then -1 else 0)
          hadError := s.hadError || !success
          linked := s.linked && !success }

/-- The call of the operating system, if there is one, succeeds. -/
def Succeeds (_ : State ι) : Event ι → Prop
  | .mqOpen success => success = true
  | .mqReceive success => success = true
  | .mqClose success => success = true
  | .mqUnlink success => success = true
  | _ => True

end StyLinux.Mqueue
