import Mathlib.Tactic
import StyLinux.Pipe.Model

/-!
# The descriptors of the calling process

`execute` opens two descriptors and closes both of them, except where `fork` fails. A sequence of
calls keeps the descriptors of the calling process exactly if this never happens, and else two
more stay open for each such call.
-/

namespace StyLinux.Pipe

open Lib

variable {A : Type}

/-- A call of `execute` with the answers that it gets. -/
structure Execution (A : Type) where
  argv : Option A
  answers : Answers

/-- The calling process after the call. -/
def Execution.after (x : Execution A) (s : Process) : Process := (execute x.argv x.answers s).2

/-- After each of the calls, one behind the other, the process has the descriptors open that it had
before the call. -/
def KeepsDescriptors : Process → List (Execution A) → Prop
  | _, [] => True
  | s, x :: calls => (x.after s).opened = s.opened ∧ KeepsDescriptors (x.after s) calls

/-- The pipe is open and `fork` fails. -/
def Execution.ForkFails (x : Execution A) : Prop :=
  x.argv ≠ none ∧ x.answers.pipe2 = none ∧ x.answers.fork ≠ none

instance (x : Execution A) : Decidable x.ForkFails :=
  inferInstanceAs (Decidable (_ ∧ _ ∧ _))

variable {x : Execution A} {s : Process} {calls : List (Execution A)}

/-! ### One call -/

namespace Process

lemma read_notMem (s : Process) : s.pipefd.1 ∉ s.opened := lowestFree_notMem s.opened

lemma write_notMem (s : Process) : s.pipefd.2 ∉ insert s.pipefd.1 s.opened :=
  lowestFree_notMem (insert s.pipefd.1 s.opened)

lemma card_openPipe (s : Process) : s.openPipe.opened.card = s.opened.card + 2 := by
  rw [openPipe, Finset.card_insert_of_notMem s.write_notMem,
    Finset.card_insert_of_notMem s.read_notMem]

@[simp] lemma errno_openPipe (s : Process) : s.openPipe.errno = s.errno := rfl

@[simp] lemma errno_close (s : Process) (fd : ℕ) : (s.close fd).errno = s.errno := rfl

/-- Closing both ends undoes the opening. -/
lemma erase_openPipe (s : Process) :
    (s.openPipe.opened.erase s.pipefd.2).erase s.pipefd.1 = s.opened := by
  rw [openPipe, Finset.erase_insert s.write_notMem, Finset.erase_insert s.read_notMem]

end Process

lemma Execution.opened_after_of_forkFails (hx : x.ForkFails) :
    (x.after s).opened = s.openPipe.opened := by
  obtain ⟨hargv, hpipe2, hfork⟩ := hx
  obtain ⟨a, hargv⟩ := Option.ne_none_iff_exists'.mp hargv
  obtain ⟨e, hfork⟩ := Option.ne_none_iff_exists'.mp hfork
  simp only [after, execute, hargv, hpipe2, hfork]

lemma Execution.opened_after (hx : ¬x.ForkFails) : (x.after s).opened = s.opened := by
  unfold after execute
  cases hargv : x.argv with
  | none => rfl
  | some a =>
    cases hpipe2 : x.answers.pipe2 with
    | some e => rfl
    | none =>
      cases hfork : x.answers.fork with
      | some e => exact absurd ⟨by simp [hargv], hpipe2, by simp [hfork]⟩ hx
      | none => exact s.erase_openPipe

/-! ### Sequences of calls -/

/-- The calls keep the descriptors of the calling process exactly if none of them opens the pipe
and fails to fork. -/
theorem keepsDescriptors_iff (s : Process) (calls : List (Execution A)) :
    KeepsDescriptors s calls ↔ ∀ x ∈ calls, ¬x.ForkFails := by
  induction calls generalizing s with
  | nil => simp [KeepsDescriptors]
  | cons x calls ih =>
    rw [KeepsDescriptors, ih, List.forall_mem_cons]
    refine and_congr_left fun _ => ?_
    constructor
    · intro hsame hx
      have hcard := s.card_openPipe
      rw [← Execution.opened_after_of_forkFails hx, hsame] at hcard
      omega
    · exact fun hx => x.opened_after hx

/-- Two more descriptors stay open for each call that fails to fork. -/
lemma card_opened_foldl (s : Process) (calls : List (Execution A)) :
    (calls.foldl (fun s x => x.after s) s).opened.card =
      s.opened.card + 2 * calls.countP fun x => x.ForkFails := by
  induction calls generalizing s with
  | nil => simp
  | cons x calls ih =>
    rw [List.foldl_cons, ih]
    by_cases hx : x.ForkFails
    · rw [Execution.opened_after_of_forkFails hx, s.card_openPipe,
        List.countP_cons_of_pos (by simpa using hx)]
      ring
    · rw [x.opened_after hx, List.countP_cons_of_neg (by simpa using hx)]

/-- `fork` fails with `EAGAIN`. -/
def forkFailure : Execution Unit where
  argv := some ()
  answers := ⟨none, some 11, .ok 0, .ok []⟩

/-- The descriptors 3 and 4 stay open. -/
theorem not_keepsDescriptors_forkFailure :
    (forkFailure.after ⟨0, {0, 1, 2}⟩).opened = {0, 1, 2, 3, 4} ∧
      ¬KeepsDescriptors ⟨0, {0, 1, 2}⟩ [forkFailure] := by
  have hopened : (forkFailure.after ⟨0, {0, 1, 2}⟩).opened = {0, 1, 2, 3, 4} := by decide
  refine ⟨hopened, ?_⟩
  rintro ⟨hsame, -⟩
  rw [hopened] at hsame
  revert hsame
  decide

/-! ### Runs of both processes -/

/-- What the parent has been answered in a run of both processes. -/
def Follows (argv : Option A) (errno : BitVec 32) (s : State) : Prop :=
  match s.parent with
  | .start => s.errno = errno
  | .pipe2 | .fork | .closeWrite | .waitpid => argv ≠ none ∧ s.errno = errno
  | .read status => argv ≠ none ∧ s.errno = errno ∧ WIFEXITED status
  | .closeRead status hadError => argv ≠ none ∧
      ∃ answers : Answers, answers.pipe2 = none ∧ answers.fork = none ∧
        (awaitChild answers errno).1 = hadError ∧
        (hadError = false → (awaitChild answers errno).2.1 = status) ∧
        (awaitChild answers errno).2.2 = s.errno
  | .returned result => ∃ answers, ∀ opened,
      (execute argv answers ⟨errno, opened⟩).1 = result ∧
        (execute argv answers ⟨errno, opened⟩).2.errno = s.errno

lemma Follows.step {execvp : A → Exec} {argv : Option A} {capacity : ℕ} {errno : BitVec 32}
    {s s' : State} {c : Call} (hs : Follows argv errno s)
    (hstep : Step execvp argv capacity s c s') : Follows argv errno s' := by
  unfold Follows at hs
  cases hstep with
  | startNull hp hnull =>
    rw [hp] at hs
    subst hnull
    exact ⟨⟨none, none, .ok 0, .ok []⟩, fun opened => ⟨rfl, hs.symm⟩⟩
  | start hp hargv =>
    rw [hp] at hs
    exact ⟨hargv, hs⟩
  | pipe2 hp | fork hp _ | parentCloseWrite hp =>
    rw [hp] at hs
    exact hs
  | waitpid status hp hc hexited =>
    rw [hp] at hs
    exact ⟨hs.1, hs.2, hexited⟩
  | waitpidSignaled status hp hc hsignaled =>
    rw [hp] at hs
    refine ⟨hs.1, ⟨none, none, .ok status, .ok []⟩, rfl, rfl, ?_⟩
    simp [awaitChild, hsignaled]
  | waitpidFails e status hp =>
    rw [hp] at hs
    exact ⟨hs.1, ⟨none, none, .error e, .ok []⟩, rfl, rfl, rfl, nofun, rfl⟩
  | read status hp _ _ =>
    rw [hp] at hs
    obtain ⟨hargv, herrno, hexited⟩ := hs
    unfold State.afterRead Follows
    split_ifs with hbytes
    · refine ⟨hargv, ⟨none, none, .ok status, .ok (s.pipe.take SIZEOF_INT)⟩, rfl, rfl, ?_⟩
      simp only [awaitChild, hexited, not_true, if_false, if_pos hbytes]
      simp
    · refine ⟨hargv, ⟨none, none, .ok status, .ok (s.pipe.take SIZEOF_INT)⟩, rfl, rfl, ?_⟩
      simp only [awaitChild, hexited, not_true, if_false, if_neg hbytes]
      exact ⟨trivial, fun _ => trivial, herrno.symm⟩
  | readFails e status hp =>
    rw [hp] at hs
    refine ⟨hs.1, ⟨none, none, .ok status, .error e⟩, rfl, rfl, ?_⟩
    simp [awaitChild, hs.2.2]
  | parentCloseRead status hadError hp =>
    rw [hp] at hs
    obtain ⟨hargv, answers, hpipe2, hfork, hadErr, hstatus, herrno⟩ := hs
    obtain ⟨a, rfl⟩ := Option.ne_none_iff_exists'.mp hargv
    refine ⟨answers, fun opened => ?_⟩
    simp only [execute, hpipe2, hfork, Process.errno_openPipe, Process.errno_close]
    refine ⟨?_, herrno⟩
    cases hadError with
    | false => simp [hadErr, hstatus rfl]
    | true => simp [hadErr]
  | pipe2Fails e hp =>
    rw [hp] at hs
    obtain ⟨a, rfl⟩ := Option.ne_none_iff_exists'.mp hs.1
    exact ⟨⟨some e, none, .ok 0, .ok []⟩, fun opened => ⟨rfl, rfl⟩⟩
  | forkFails e hp =>
    rw [hp] at hs
    obtain ⟨a, rfl⟩ := Option.ne_none_iff_exists'.mp hs.1
    exact ⟨⟨none, some e, .ok 0, .ok []⟩, fun opened => ⟨rfl, rfl⟩⟩
  | _ => exact hs

/-- In each run of both processes `execute` returns what the calling process alone computes from
some answers. -/
theorem execute_of_run {execvp : A → Exec} {argv : Option A} {capacity : ℕ} {errno : BitVec 32}
    {run : List (Call × State)} {result : ℤ}
    (hrun : IsRun (Step execvp argv capacity) (initial errno) run)
    (hreturned : (lastState (initial errno) run).parent = .returned result) :
    ∃ answers, ∀ opened, (execute argv answers ⟨errno, opened⟩).1 = result ∧
      (execute argv answers ⟨errno, opened⟩).2.errno = (lastState (initial errno) run).errno := by
  have hinitial : Follows argv errno (initial errno) := rfl
  have hfollows : Follows argv errno (lastState (initial errno) run) :=
    hrun.invariant (I := Follows argv errno) (fun s c s' hs hstep => hs.step hstep) hinitial
  rw [Follows, hreturned] at hfollows
  exact hfollows

end StyLinux.Pipe
