import StyLinux.Pipe.Model

/-!
# What `execute` returns

While the child lives the pipe is empty or holds its error, and the parent's copy of the write end
is closed before the parent reads. So the read finds either the error or the end of the file.
-/

namespace StyLinux.Pipe

open Lib

/-! ### Values -/

lemma overwrite_toBytes (n m : BitVec 32) : overwrite n (toBytes m) = m := by
  show (m.extractLsb' 24 8 ++ m.extractLsb' 16 8 ++ m.extractLsb' 8 8 ++ m.extractLsb' 0 8 :
    BitVec (8 + 8 + 8 + 8)) = m
  ext i hi
  simp only [BitVec.getElem_append, BitVec.getElem_extractLsb']
  grind

lemma WIFEXITED_exitedStatus (code : BitVec 8) : WIFEXITED (exitedStatus code) := by
  simp [WIFEXITED, exitedStatus]
  omega

lemma WEXITSTATUS_exitedStatus (code : BitVec 8) :
    WEXITSTATUS (exitedStatus code) = code.toNat := by
  have hlt : code.toNat < 256 := code.isLt
  simp only [WEXITSTATUS, exitedStatus]
  omega

/-! ### The run is finite -/

def Parent.left : Parent → ℕ
  | .start => 7
  | .pipe2 => 6
  | .fork => 5
  | .closeWrite => 4
  | .waitpid => 3
  | .read _ => 2
  | .closeRead _ _ => 1
  | .returned _ => 0

def Child.left : Child → ℕ
  | .none => 6
  | .closeRead => 6
  | .execvp => 5
  | .write _ => 4
  | .closeWrite => 3
  | .exit => 2
  | .program _ => 2
  | .exited _ => 1
  | .reaped => 0

/-- How many steps the two processes have left at most. -/
def State.left (s : State) : ℕ := s.parent.left + s.child.left

variable {A : Type} {execvp : A → Exec} {argv : Option A} {capacity : ℕ} {s s' : State}

lemma Step.left_lt {x : Call} (hstep : Step execvp argv capacity s x s') : s'.left < s.left := by
  unfold State.left
  cases hstep with
  | read status hp _ _ =>
    rw [hp]
    unfold State.afterRead
    split_ifs <;> simp [Parent.left]
  | _ => simp_all [Parent.left, Child.left, State.childEnds]

/-! ### What the pipe holds -/

/-- The child has ended with this status and left these bytes. -/
def Ended (outcome : Exec) (status : ℕ) (bytes : List (BitVec 8)) : Prop :=
  match outcome with
  | .failure e => status = exitedStatus 0 ∧ bytes = toBytes e
  | .success code => status = exitedStatus code ∧ bytes = []

/-- Where the child is, and what it has written until then. -/
def ChildOk (outcome : Exec) (s : State) : Prop :=
  match s.child with
  | .none => s.pipe = []
  | .closeRead => s.pipe = [] ∧ s.childWrite = true
  | .execvp => s.pipe = [] ∧ s.childWrite = true
  | .write e => outcome = .failure e ∧ s.pipe = [] ∧ s.childWrite = true
  | .closeWrite => ∃ e, outcome = .failure e ∧ s.pipe = toBytes e
  | .exit => ∃ e, outcome = .failure e ∧ s.pipe = toBytes e
  | .program code => outcome = .success code ∧ s.pipe = []
  | .exited status => Ended outcome status s.pipe ∧ s.childWrite = false
  | .reaped => s.childWrite = false

/-- What `execute` returns and what becomes of `errno`. -/
def Result (outcome : Exec) (errno : BitVec 32) (result : ℤ) (errno' : BitVec 32) : Prop :=
  match outcome with
  | .failure e => result = -1 ∧ errno' = e
  | .success code => result = code.toNat ∧ errno' = errno

/-- The child runs, or has ended and is not waited for. -/
def Child.Started : Child → Prop
  | .none => False
  | .reaped => False
  | _ => True

/-- Where the parent is, and which ends of the pipe it has open. -/
def ParentOk (outcome : Exec) (errno : BitVec 32) (s : State) : Prop :=
  match s.parent with
  | .start => s.child = .none ∧ s.errno = errno
  | .pipe2 => s.child = .none ∧ s.errno = errno
  | .fork => s.child = .none ∧ s.errno = errno ∧ s.parentRead = true ∧ s.parentWrite = true
  | .closeWrite => s.child.Started ∧ s.errno = errno ∧ s.parentRead = true
  | .waitpid => s.child.Started ∧ s.errno = errno ∧ s.parentRead = true ∧ s.parentWrite = false
  | .read status => s.child = .reaped ∧ s.errno = errno ∧ s.parentRead = true ∧
      s.parentWrite = false ∧ Ended outcome status s.pipe
  | .closeRead status hadError => s.child = .reaped ∧
      Result outcome errno (if hadError then -1 else WEXITSTATUS status) s.errno
  | .returned result => s.child = .reaped ∧ Result outcome errno result s.errno

structure Executing (outcome : Exec) (errno : BitVec 32) (s : State) : Prop where
  parent : ParentOk outcome errno s
  child : ChildOk outcome s

variable {outcome : Exec} {errno : BitVec 32} {a : A}

lemma executing_initial : Executing outcome errno (initial errno) := ⟨⟨rfl, rfl⟩, rfl⟩

/-- A step of the child leaves the parent alone. -/
lemma ParentOk.of_child (hs : ParentOk outcome errno s) (hstarted : s.child.Started)
    (hstarted' : s'.child.Started) (hparent : s'.parent = s.parent) (herrno : s'.errno = s.errno)
    (hread : s'.parentRead = s.parentRead) (hwrite : s'.parentWrite = s.parentWrite) :
    ParentOk outcome errno s' := by
  unfold ParentOk at hs ⊢
  rw [hparent, herrno, hread, hwrite]
  cases hp : s.parent <;> rw [hp] at hs <;> simp_all [Child.Started]

/-- As long as the child is not waited for the parent can still read. -/
lemma ParentOk.reader (hs : ParentOk outcome errno s) (hstarted : s.child.Started) :
    s.parentRead = true := by
  unfold ParentOk at hs
  cases hp : s.parent <;> rw [hp] at hs <;> simp_all [Child.Started]

lemma Ended.wifexited {status : ℕ} {bytes : List (BitVec 8)}
    (h : Ended outcome status bytes) : WIFEXITED status := by
  cases outcome with
  | failure e => exact h.1 ▸ WIFEXITED_exitedStatus 0
  | success code => exact h.1 ▸ WIFEXITED_exitedStatus code

/-- The parent reads what the child has left. -/
lemma Ended.result {status : ℕ} (h : Ended outcome status s.pipe)
    (herrno : s.errno = errno) :
    ∃ hadError, (s.afterRead status (s.pipe.take SIZEOF_INT)).parent = .closeRead status hadError ∧
      Result outcome errno (if hadError then -1 else WEXITSTATUS status)
        (s.afterRead status (s.pipe.take SIZEOF_INT)).errno := by
  cases outcome with
  | failure e =>
    obtain ⟨-, hpipe⟩ := h
    have htake : s.pipe.take SIZEOF_INT = toBytes e := by rw [hpipe]; rfl
    rw [htake]
    exact ⟨true, rfl, rfl, overwrite_toBytes 0 e⟩
  | success code =>
    obtain ⟨hstatus, hpipe⟩ := h
    rw [hpipe]
    refine ⟨false, rfl, ?_, herrno⟩
    rw [hstatus, WEXITSTATUS_exitedStatus]
    rfl

lemma Executing.step (hs : Executing (execvp a) errno s) {x : Call} (hx : x.Succeeds)
    (hstep : Step execvp (some a) capacity s x s') : Executing (execvp a) errno s' := by
  obtain ⟨hparent, hchild⟩ := hs
  cases hstep with
  | startNull hp hnull => cases hnull
  | start hp _ =>
    rw [ParentOk, hp] at hparent
    exact ⟨hparent, hchild⟩
  | pipe2 hp =>
    rw [ParentOk, hp] at hparent
    rw [ChildOk, hparent.1] at hchild
    refine ⟨⟨hparent.1, hparent.2, rfl, rfl⟩, ?_⟩
    rw [ChildOk, hparent.1]
  | fork hp _ =>
    rw [ParentOk, hp] at hparent
    rw [ChildOk, hparent.1] at hchild
    exact ⟨⟨trivial, hparent.2.1, hparent.2.2.1⟩, hchild, hparent.2.2.2⟩
  | parentCloseWrite hp =>
    rw [ParentOk, hp] at hparent
    exact ⟨⟨hparent.1, hparent.2.1, hparent.2.2, rfl⟩, hchild⟩
  | waitpid status hp hc _ =>
    rw [ParentOk, hp] at hparent
    rw [ChildOk, hc] at hchild
    exact ⟨⟨rfl, hparent.2.1, hparent.2.2.1, hparent.2.2.2, hchild.1⟩, hchild.2⟩
  | waitpidSignaled status hp hc hsignaled =>
    rw [ChildOk, hc] at hchild
    exact absurd hchild.1.wifexited hsignaled
  | read status hp _ _ =>
    rw [ParentOk, hp] at hparent
    obtain ⟨hreaped, herrno, -, -, hended⟩ := hparent
    rw [ChildOk, hreaped] at hchild
    obtain ⟨hadError, hclose, hresult⟩ := hended.result herrno
    have hkept : (s.afterRead status (s.pipe.take SIZEOF_INT)).child = .reaped ∧
        (s.afterRead status (s.pipe.take SIZEOF_INT)).childWrite = false := by
      unfold State.afterRead
      split_ifs
      · exact ⟨hreaped, hchild⟩
      · exact ⟨hreaped, hchild⟩
    constructor
    · rw [ParentOk, hclose]
      exact ⟨hkept.1, hresult⟩
    · rw [ChildOk, hkept.1]
      exact hkept.2
  | parentCloseRead status hadError hp =>
    rw [ParentOk, hp] at hparent
    exact ⟨hparent, hchild⟩
  | childCloseRead hc =>
    rw [ChildOk, hc] at hchild
    exact ⟨hparent.of_child (hc ▸ trivial) trivial rfl rfl rfl rfl, hchild⟩
  | execvp b status hc hb hsuccess =>
    cases hb
    rw [ChildOk, hc] at hchild
    exact ⟨hparent.of_child (hc ▸ trivial) trivial rfl rfl rfl rfl, hsuccess, hchild.1⟩
  | execvpFails b e hc hb hfailure =>
    cases hb
    rw [ChildOk, hc] at hchild
    exact ⟨hparent.of_child (hc ▸ trivial) trivial rfl rfl rfl rfl, hfailure, hchild⟩
  | write exec_error hc _ _ _ =>
    rw [ChildOk, hc] at hchild
    obtain ⟨hfailure, hempty, -⟩ := hchild
    refine ⟨hparent.of_child (hc ▸ trivial) trivial rfl rfl rfl rfl, exec_error, hfailure, ?_⟩
    show s.pipe ++ toBytes exec_error = toBytes exec_error
    rw [hempty, List.nil_append]
  | sigpipe exec_error hc hclosed _ =>
    have hopen := hparent.reader (hc ▸ trivial)
    rw [hclosed] at hopen
    cases hopen
  | childCloseWrite hc =>
    rw [ChildOk, hc] at hchild
    exact ⟨hparent.of_child (hc ▸ trivial) trivial rfl rfl rfl rfl, hchild⟩
  | exit hc =>
    rw [ChildOk, hc] at hchild
    obtain ⟨e, hfailure, hpipe⟩ := hchild
    refine ⟨hparent.of_child (hc ▸ trivial) trivial rfl rfl rfl rfl, ?_, rfl⟩
    rw [hfailure]
    exact ⟨rfl, hpipe⟩
  | programExit status hc =>
    rw [ChildOk, hc] at hchild
    obtain ⟨hsuccess, hpipe⟩ := hchild
    refine ⟨hparent.of_child (hc ▸ trivial) trivial rfl rfl rfl rfl, ?_, rfl⟩
    rw [hsuccess]
    exact ⟨rfl, hpipe⟩
  | pipe2Fails e hp => cases hx
  | forkFails e hp => cases hx
  | waitpidFails e status hp => cases hx
  | readFails e status hp => cases hx
  | writeFails exec_error e hc => cases hx

/-! ### Nobody waits for ever -/

/-- `execute` has returned and the child is gone. -/
def Finished (s : State) : Prop := (∃ result, s.parent = .returned result) ∧ s.child = .reaped

/-- A child that has not ended can go on, whatever the parent does. -/
lemma Executing.child_progress (hcap : SIZEOF_INT ≤ capacity) (hs : Executing (execvp a) errno s)
    (hstarted : s.child.Started) : (∃ status, s.child = .exited status) ∨
      ∃ x s', x.Succeeds ∧ Step execvp (some a) capacity s x s' := by
  have hchild := hs.child
  unfold ChildOk at hchild
  cases hc : s.child with
  | none => exact absurd hstarted (hc ▸ id)
  | closeRead => exact .inr ⟨.childCloseRead, _, trivial, .childCloseRead s hc⟩
  | execvp =>
    cases houtcome : execvp a with
    | failure e => exact .inr ⟨.execvp, _, trivial, .execvpFails s a e hc rfl houtcome⟩
    | success code => exact .inr ⟨.execvp, _, trivial, .execvp s a code hc rfl houtcome⟩
  | write e =>
    rw [hc] at hchild
    obtain ⟨-, hempty, hwrite⟩ := hchild
    refine .inr ⟨.write none, _, rfl, .write s e hc hwrite (.inl (hs.parent.reader hstarted)) ?_⟩
    rw [hempty]
    simpa using hcap
  | closeWrite => exact .inr ⟨.childCloseWrite, _, trivial, .childCloseWrite s hc⟩
  | exit => exact .inr ⟨.exit, _, trivial, .exit s hc⟩
  | program code => exact .inr ⟨.programExit, _, trivial, .programExit s code hc⟩
  | exited status => exact .inl ⟨status, rfl⟩
  | reaped => exact absurd hstarted (hc ▸ id)

lemma Executing.progress (hcap : SIZEOF_INT ≤ capacity) (hs : Executing (execvp a) errno s) :
    Finished s ∨ ∃ x s', x.Succeeds ∧ Step execvp (some a) capacity s x s' := by
  have hparent := hs.parent
  have hchild := hs.child
  unfold ParentOk at hparent
  cases hp : s.parent with
  | start => exact .inr ⟨.start, _, trivial, .start s hp nofun⟩
  | pipe2 => exact .inr ⟨.pipe2 none, _, rfl, .pipe2 s hp⟩
  | fork =>
    rw [hp] at hparent
    exact .inr ⟨.fork none, _, rfl, .fork s hp hparent.1⟩
  | closeWrite => exact .inr ⟨.parentCloseWrite, _, trivial, .parentCloseWrite s hp⟩
  | waitpid =>
    rw [hp] at hparent
    rcases hs.child_progress hcap hparent.1 with ⟨status, hc⟩ | hstep
    · rw [ChildOk, hc] at hchild
      exact .inr ⟨.waitpid none, _, rfl, .waitpid s status hp hc hchild.1.wifexited⟩
    · exact .inr hstep
  | read status =>
    rw [hp] at hparent
    obtain ⟨hreaped, -, hread, hwrite, -⟩ := hparent
    rw [ChildOk, hreaped] at hchild
    exact .inr ⟨.read none, _, rfl, .read s status hp hread (.inr ⟨hwrite, hchild⟩)⟩
  | closeRead status hadError =>
    exact .inr ⟨.parentCloseRead, _, trivial, .parentCloseRead s status hadError hp⟩
  | returned result =>
    rw [hp] at hparent
    exact .inl ⟨⟨result, hp⟩, hparent.1⟩

/-! ### Runs -/

/-- What `execute` promises in a state that it reaches when `execvp` has this outcome: it returns
-1 with the `errno` of `execvp`, or the exit status with `errno` untouched, and until then one of
the processes can go on. -/
structure ExecuteOk (execvp : A → Exec) (a : A) (capacity : ℕ) (errno : BitVec 32) (s : State) :
    Prop where
  failure : ∀ result, s.parent = .returned result → ∀ e,
    (result = -1 ∧ s.errno = e ↔ execvp a = .failure e)
  success : ∀ result, s.parent = .returned result → ∀ status,
    execvp a = .success status → result = status.toNat ∧ s.errno = errno
  progress : Finished s ∨ ∃ x s', x.Succeeds ∧ Step execvp (some a) capacity s x s'

lemma Executing.executeOk (hcap : SIZEOF_INT ≤ capacity) (hs : Executing (execvp a) errno s) :
    ExecuteOk execvp a capacity errno s := by
  have hparent := hs.parent
  unfold ParentOk at hparent
  refine ⟨?_, ?_, hs.progress hcap⟩
  · intro result hp e
    rw [hp] at hparent
    obtain ⟨-, hresult⟩ := hparent
    cases houtcome : execvp a with
    | failure e' =>
      rw [houtcome] at hresult
      obtain ⟨hminus, herrno⟩ := hresult
      simp [hminus, herrno]
    | success status =>
      rw [houtcome] at hresult
      obtain ⟨hstatus, -⟩ := hresult
      have hne : result ≠ -1 := by omega
      simp [hne]
  · intro result hp status houtcome
    rw [hp, houtcome] at hparent
    exact hparent.2

/-- However the two processes interleave, `execute` tells a failed `execvp` from a program that
ran, and after at most 13 steps both are done. -/
theorem executeOk_of_run (hcap : SIZEOF_INT ≤ capacity) {run : List (Call × State)}
    (hrun : IsRun (Step execvp (some a) capacity) (initial errno) run)
    (hsucceeds : StepsMeet (fun _ x => x.Succeeds) (initial errno) run) :
    ExecuteOk execvp a capacity errno (lastState (initial errno) run) ∧ run.length ≤ 13 := by
  have hlast : Executing (execvp a) errno (lastState (initial errno) run) :=
    IsRun.invariant_last (fun _ _ _ hs hx hstep => hs.step hx hstep) executing_initial hrun
      hsucceeds
  have hlength := hrun.length_add_le (μ := State.left) fun _ _ _ hstep => hstep.left_lt
  refine ⟨hlast.executeOk hcap, ?_⟩
  exact (Nat.le_add_right _ _).trans hlength

/-- A program that does not exist (`ENOENT`); the child writes while the parent is still to close
its copy of the write end. -/
theorem exists_failing_run : ∃ run,
    IsRun (Step (fun _ : String => .failure 2) (some "missing") 4) (initial 0) run ∧
      (lastState (initial 0) run).parent = .returned (-1) ∧
      ExecuteOk (fun _ : String => .failure 2) "missing" 4 0 (lastState (initial 0) run) ∧
      run.length ≤ 13 := by
  obtain ⟨run, hrun, hreturned, hsucceeds⟩ : ∃ run,
      IsRun (Step (fun _ : String => .failure 2) (some "missing") 4) (initial 0) run ∧
        (lastState (initial 0) run).parent = .returned (-1) ∧
        StepsMeet (fun _ x => x.Succeeds) (initial 0) run :=
    ⟨[(.start, _), (.pipe2 none, _), (.fork none, _), (.childCloseRead, _), (.execvp, _),
        (.write none, _), (.parentCloseWrite, _), (.childCloseWrite, _), (.exit, _),
        (.waitpid none, _), (.read none, _), (.parentCloseRead, _)],
      ⟨.start _ rfl nofun, .pipe2 _ rfl, .fork _ rfl rfl, .childCloseRead _ rfl,
        .execvpFails _ _ 2 rfl rfl rfl, .write _ _ rfl rfl (.inl rfl) (by decide),
        .parentCloseWrite _ rfl, .childCloseWrite _ rfl, .exit _ rfl,
        .waitpid _ _ rfl rfl (WIFEXITED_exitedStatus 0),
        .read _ _ rfl rfl (.inl nofun), .parentCloseRead _ _ true rfl, trivial⟩,
      rfl,
      ⟨trivial, rfl, rfl, trivial, trivial, rfl, trivial, trivial, trivial, rfl, rfl, trivial,
        trivial⟩⟩
  exact ⟨run, hrun, hreturned, executeOk_of_run (by decide) hrun hsucceeds⟩

end StyLinux.Pipe
