import StyLinux.Pipeline.Delivery

/-!
# The end of `main`

Whatever the interleaving, `main` and its children come to an end, also when `ls` writes more than
the pipe has room for, and whichever of the calls fail.
-/

namespace StyLinux.Pipeline

open Lib

variable {capacity : ℕ} {s s' : State} {call : Call} {t : Table} {who : Who}
  {output : List Byte}

/-! ### Steps that are left -/

/-- How many steps are left at most. -/
def Parent.left : Parent → ℕ
  | .pipe => 7
  | .fork .ls => 6
  | .fork .less => 5
  | .closeRead => 4
  | .closeWrite => 3
  | .waitpid .ls => 2
  | .waitpid .less => 1
  | .exited _ => 0

def Child.left : Child → ℕ
  | .absent => 7
  | .closeUnused => 6
  | .dup2 => 5
  | .closeUsed => 4
  | .execlp => 3
  | .program => 2
  | .ended _ => 1
  | .reaped _ => 0

/-- A byte is written and read once each. -/
def State.left (s : State) : ℕ :=
  s.parent.left + (s.child .ls).left + (s.child .less).left + (2 * s.out.length + s.pipe.length) +
    (!s.eof).toNat

lemma left_childGoes (s : State) (who : Who) (next : Child) (t : Table) :
    (s.childGoes who next t).left + (s.child who).left = s.left + next.left := by
  cases who with
  | ls =>
    simp only [State.left, State.childGoes, Function.update_self, ne_eq, reduceCtorEq,
      not_false_eq_true, Function.update_of_ne]
    omega
  | less =>
    simp only [State.left, State.childGoes, Function.update_self, ne_eq, reduceCtorEq,
      not_false_eq_true, Function.update_of_ne]
    omega

lemma left_parentGoes (s : State) (p : Parent) (t : Table) (fds : ℕ × ℕ) :
    { s with parent := p, parentFds := t, pipefd := fds : State }.left + s.parent.left =
      s.left + p.left := by
  simp only [State.left]
  omega

lemma left_childGoes_lt {next : Child} (hlt : next.left < (s.child who).left) (t : Table) :
    (s.childGoes who next t).left < s.left := by
  have hleft := left_childGoes s who next t
  omega

lemma left_parentGoes_lt {p : Parent} (hlt : p.left < s.parent.left) (t : Table) (fds : ℕ × ℕ) :
    { s with parent := p, parentFds := t, pipefd := fds : State }.left < s.left := by
  have hleft := left_parentGoes s p t fds
  omega

/-- The child that is to be started does not exist. -/
lemma Placed.absent_of_fork (hp : Placed s) (hfork : s.parent = .fork who) :
    s.child who = .absent := by
  have hchildren := hp.children
  rw [hfork] at hchildren
  cases who with
  | ls => exact hchildren.1
  | less => exact hchildren.2

lemma left_step (hp : Placed s) (hstep : Step capacity s call s') : s'.left < s.left := by
  cases hstep with
  | pipe r w hpipe _ _ _ =>
    exact left_parentGoes_lt (p := .fork .ls) (by simp [hpipe, Parent.left]) _ _
  | pipeFails hpipe =>
    exact left_parentGoes_lt (p := .exited 1) (by simp [hpipe, Parent.left]) _ _
  | fork who hfork =>
    have habsent := hp.absent_of_fork hfork
    have hchild : (s.childGoes who .closeUnused s.parentFds).left < s.left :=
      left_childGoes_lt (by simp [habsent, Child.left]) _
    refine lt_trans (left_parentGoes_lt (p := .afterFork who) ?_ _ _) hchild
    cases who <;> simp [State.childGoes, hfork, Parent.afterFork, Parent.left]
  | forkFails who hfork =>
    refine left_parentGoes_lt (p := .exited 1) ?_ _ _
    cases who <;> simp [hfork, Parent.left]
  | parentCloseRead hclose =>
    exact left_parentGoes_lt (p := .closeWrite) (by simp [hclose, Parent.left]) _ _
  | parentCloseWrite hclose =>
    exact left_parentGoes_lt (p := .waitpid .ls) (by simp [hclose, Parent.left]) _ _
  | waitpidLs status hwait hended =>
    have hchild : (s.childGoes .ls (.reaped status) (s.fds .ls)).left < s.left :=
      left_childGoes_lt (by simp [hended, Child.left]) _
    refine lt_trans (left_parentGoes_lt (p := .waitpid .less) ?_ _ _) hchild
    simp [State.childGoes, hwait, Parent.left]
  | waitpidLess status hwait hended =>
    have hchild : (s.childGoes .less (.reaped status) (s.fds .less)).left < s.left :=
      left_childGoes_lt (by simp [hended, Child.left]) _
    refine lt_trans (left_parentGoes_lt (p := .exited 0) ?_ _ _) hchild
    simp [State.childGoes, hwait, Parent.left]
  | childCloseUnused who hchild => exact left_childGoes_lt (by simp [hchild, Child.left]) _
  | childDup2 who hchild => exact left_childGoes_lt (by simp [hchild, Child.left]) _
  | childCloseUsed who hchild => exact left_childGoes_lt (by simp [hchild, Child.left]) _
  | execlp who hchild => exact left_childGoes_lt (by simp [hchild, Child.left]) _
  | execlpFails who hchild => exact left_childGoes_lt (by simp [hchild, Child.left]) _
  | write chunk rest _ _ hout hne _ _ =>
    have hpos := List.length_pos_of_ne_nil hne
    simp only [State.left, hout, List.length_append]
    omega
  | sigpipe hchild _ _ _ => exact left_childGoes_lt (by simp [hchild, Child.left]) _
  | lsExit hchild _ => exact left_childGoes_lt (by simp [hchild, Child.left]) _
  | read chunk rest _ _ _ hpipe hne =>
    have hpos := List.length_pos_of_ne_nil hne
    simp only [State.left, hpipe, List.length_append]
    omega
  | eof _ heof _ _ _ => simp [State.left, heof]
  | leave hchild _ => exact left_childGoes_lt (by simp [hchild, Child.left]) _
  | quit hchild _ => exact left_childGoes_lt (by simp [hchild, Child.left]) _

lemma length_add_left_le {run : List (Call × State)} (hp : Placed s)
    (hrun : IsRun (Step capacity) s run) : run.length + (lastState s run).left ≤ s.left := by
  induction run generalizing s with
  | nil => simp
  | cons x run ih =>
    have hlt := left_step hp hrun.1
    have hle := ih (hp.step hrun.1) hrun.2
    rw [List.length_cons, lastState_cons]
    omega

/-! ### No process waits for ever -/

/-- Some process goes on, and not because the user of `less` quits. -/
def GoesOn (capacity : ℕ) (s : State) : Prop := ∃ call s', call ≠ .quit ∧ Step capacity s call s'

/-- The processes have ended. -/
structure Ended (s : State) : Prop where
  parent : ∃ code, s.parent = .exited code
  children : ∀ who, ¬(s.child who).Alive
  closed : ¬s.Opened .readEnd ∧ ¬s.Opened .writeEnd

/-- `main` does not use the pipe any more. -/
def Parent.Past : Parent → Prop
  | .waitpid _ | .exited _ => True
  | _ => False

/-- A child that has not executed its program goes on. -/
lemma goesOn_or_program (halive : (s.child who).Alive) :
    GoesOn capacity s ∨ s.child who = .program := by
  obtain ⟨hpresent, hstatus⟩ := halive
  cases hc : s.child who with
  | absent => exact absurd hc hpresent
  | closeUnused => exact .inl ⟨_, _, by simp, .childCloseUnused s who hc⟩
  | dup2 => exact .inl ⟨_, _, by simp, .childDup2 s who hc⟩
  | closeUsed => exact .inl ⟨_, _, by simp, .childCloseUsed s who hc⟩
  | execlp => exact .inl ⟨_, _, by simp, .execlp s who hc⟩
  | program => exact .inr rfl
  | ended status => simp [hc, Child.status] at hstatus
  | reaped status => simp [hc, Child.status] at hstatus

lemma Child.ends_of_not_alive {c : Child} (hc : ¬c.Alive) {pipefd : ℕ × ℕ} :
    c.ends pipefd who = (∅, ∅) := by
  cases c with
  | absent => rfl
  | ended status => rfl
  | reaped status => rfl
  | _ => simp [Child.Alive, Child.status] at hc

section Waiting

variable (hp : Placed s) (hpast : s.parent.Past)

include hp hpast

lemma parent_closed : Holds s.parentFds (∅, ∅) := by
  have hparent := hp.parent
  cases hc : s.parent with
  | waitpid who => rwa [hc] at hparent
  | exited code => rwa [hc] at hparent
  | _ => simp [hc, Parent.Past] at hpast

/-- When `less` has executed its program or has ended, the end to write is open in `ls` only. -/
lemma ls_alive_of_opened (hopen : s.Opened .writeEnd)
    (hless : ¬(s.child .less).Alive ∨ s.child .less = .program) : (s.child .ls).Alive := by
  by_contra hls
  rcases hopen with ⟨fd, hfd⟩ | ⟨who, fd, hfd⟩
  · exact absurd (((parent_closed hp hpast).write fd).mp hfd) (by simp)
  · have hmem := ((hp.tables who).write fd).mp hfd
    cases who with
    | ls => simp [Child.ends_of_not_alive hls] at hmem
    | less =>
      rcases hless with hless | hless
      · simp [Child.ends_of_not_alive hless] at hmem
      · simp [hless, Child.ends, Who.ends] at hmem

/-- When `ls` has executed its program, the end to read is open in `less` only. -/
lemma less_alive_of_opened (hopen : s.Opened .readEnd) (hls : s.child .ls = .program) :
    (s.child .less).Alive := by
  by_contra hless
  rcases hopen with ⟨fd, hfd⟩ | ⟨who, fd, hfd⟩
  · exact absurd (((parent_closed hp hpast).read fd).mp hfd) (by simp)
  · have hmem := ((hp.tables who).read fd).mp hfd
    cases who with
    | ls => simp [hls, Child.ends, Who.ends] at hmem
    | less => simp [Child.ends_of_not_alive hless] at hmem

omit hpast in
/-- `ls` goes on when the pipe is empty. -/
lemma goesOn_of_ls (hcap : 0 < capacity) (halive : (s.child .ls).Alive) (hpipe : s.pipe = []) :
    GoesOn capacity s := by
  rcases goesOn_or_program halive with hgoes | hls
  · exact hgoes
  cases hout : s.out with
  | nil => exact ⟨_, _, by simp, .lsExit s hls hout⟩
  | cons b rest =>
    have htable := hp.tables .ls
    rw [hls] at htable
    have hstdout : s.fds .ls STDOUT_FILENO = some .writeEnd := (htable.write _).mpr rfl
    by_cases hopen : s.Opened .readEnd
    · refine ⟨_, _, by simp, .write s [b] rest hls hstdout hout (by simp) ?_ hopen⟩
      rw [hpipe]
      exact hcap
    · exact ⟨_, _, by simp, .sigpipe s hls hstdout (by simp [hout]) hopen⟩

lemma goesOn_of_less (hcap : 0 < capacity) (hless : s.child .less = .program) :
    GoesOn capacity s := by
  have htable := hp.tables .less
  rw [hless] at htable
  have hstdin : s.fds .less STDIN_FILENO = some .readEnd := (htable.read _).mpr rfl
  cases heof : s.eof with
  | true => exact ⟨_, _, by simp, .leave s hless heof⟩
  | false =>
    by_cases hpipe : s.pipe = []
    · by_cases hopen : s.Opened .writeEnd
      · exact goesOn_of_ls hp hcap (ls_alive_of_opened hp hpast hopen (.inr hless)) hpipe
      · exact ⟨_, _, by simp, .eof s hless heof hstdin hpipe hopen⟩
    · exact ⟨_, _, by simp, .read s s.pipe [] hless heof hstdin (by simp) hpipe⟩

lemma goesOn_of_alive (hcap : 0 < capacity) (halive : (s.child who).Alive) :
    GoesOn capacity s := by
  by_cases hless : (s.child .less).Alive
  · rcases goesOn_or_program hless with hgoes | hprogram
    · exact hgoes
    · exact goesOn_of_less hp hpast hcap hprogram
  · cases who with
    | less => exact absurd halive hless
    | ls =>
      rcases goesOn_or_program halive with hgoes | hls
      · exact hgoes
      -- nobody reads what `ls` would write
      have hclosed : ¬s.Opened .readEnd := fun hopen =>
        hless (less_alive_of_opened hp hpast hopen hls)
      cases hout : s.out with
      | nil => exact ⟨_, _, by simp, .lsExit s hls hout⟩
      | cons b rest =>
        have htable := hp.tables .ls
        rw [hls] at htable
        exact ⟨_, _, by simp, .sigpipe s hls ((htable.write _).mpr rfl) (by simp [hout]) hclosed⟩

/-- `main` can wait for a child or goes on behind it. -/
lemma goesOn_of_waits (hcap : 0 < capacity) (hwaits : (s.child who).Waits)
    (hwaitpid : s.parent = .waitpid who) : GoesOn capacity s := by
  by_cases halive : (s.child who).Alive
  · exact goesOn_of_alive hp hpast hcap halive
  · have hended : ∃ status, s.child who = .ended status := by
      cases hc : s.child who with
      | ended status => exact ⟨status, rfl⟩
      | absent => exact absurd hc hwaits.1
      | reaped status => exact absurd hc (hwaits.2 status)
      | _ => simp [hc, Child.Alive, Child.status] at halive
    obtain ⟨status, hended⟩ := hended
    cases who with
    | ls => exact ⟨_, _, by simp, .waitpidLs s status hwaitpid hended⟩
    | less => exact ⟨_, _, by simp, .waitpidLess s status hwaitpid hended⟩

end Waiting

lemma ended_of_exited (hp : Placed s) {code : ℕ} (hexited : s.parent = .exited code)
    (hnone : ∀ who, ¬(s.child who).Alive) : Ended s := by
  have hparent := parent_closed hp (by rw [hexited]; trivial)
  refine ⟨⟨code, hexited⟩, hnone, ?_, ?_⟩
  · rintro (⟨fd, hfd⟩ | ⟨who, fd, hfd⟩)
    · exact absurd ((hparent.read fd).mp hfd) (by simp)
    · have hmem := ((hp.tables who).read fd).mp hfd
      simp [Child.ends_of_not_alive (hnone who)] at hmem
  · rintro (⟨fd, hfd⟩ | ⟨who, fd, hfd⟩)
    · exact absurd ((hparent.write fd).mp hfd) (by simp)
    · have hmem := ((hp.tables who).write fd).mp hfd
      simp [Child.ends_of_not_alive (hnone who)] at hmem

lemma goesOn_or_ended (hp : Placed s) (hcap : 0 < capacity) : GoesOn capacity s ∨ Ended s := by
  have hchildren := hp.children
  cases hparent : s.parent with
  | pipe => exact .inl ⟨_, _, by simp, .pipeFails s hparent⟩
  | fork who => exact .inl ⟨_, _, by simp, .fork s who hparent⟩
  | closeRead => exact .inl ⟨_, _, by simp, .parentCloseRead s hparent⟩
  | closeWrite => exact .inl ⟨_, _, by simp, .parentCloseWrite s hparent⟩
  | waitpid who =>
    rw [hparent] at hchildren
    have hpast : s.parent.Past := by rw [hparent]; trivial
    cases who with
    | ls => exact .inl (goesOn_of_waits hp hpast hcap hchildren.1 hparent)
    | less => exact .inl (goesOn_of_waits hp hpast hcap hchildren.2 hparent)
  | exited code =>
    by_cases hnone : ∀ who, ¬(s.child who).Alive
    · exact .inr (ended_of_exited hp hparent hnone)
    · push Not at hnone
      obtain ⟨who, halive⟩ := hnone
      exact .inl (goesOn_of_alive hp (by rw [hparent]; trivial) hcap halive)

/-! ### Runs in which nothing fails -/

/-- The call succeeds, and the user of `less` does not quit. -/
def Call.Smooth : Call → Prop
  | .pipe fds => fds ≠ none
  | .fork _ success | .execlp _ success => success = true
  | .quit => False
  | _ => True

structure Smooth (s : State) : Prop where
  parent : ∀ code, s.parent = .exited code → code = 0
  ls : (s.child .ls).status ≠ some .execFailed
  less : (s.child .less).status ≠ none → s.eof = true

lemma Smooth.childGoes (h : Smooth s) {next : Child} (hls : next.status ≠ some .execFailed)
    (hless : who = .less → next.status ≠ none → s.eof = true) (t : Table) :
    Smooth (s.childGoes who next t) := by
  cases who with
  | ls => exact ⟨h.parent, by simpa [State.childGoes] using hls, h.less⟩
  | less => exact ⟨h.parent, h.ls, by simpa [State.childGoes] using hless rfl⟩

lemma Smooth.parentGoes (h : Smooth s) {p : Parent} (hp : ∀ code, p = .exited code → code = 0)
    (t : Table) (fds : ℕ × ℕ) :
    Smooth { s with parent := p, parentFds := t, pipefd := fds } :=
  ⟨hp, h.ls, h.less⟩

lemma Smooth.step (h : Smooth s) (hcall : call.Smooth) (hstep : Step capacity s call s') :
    Smooth s' := by
  cases hstep with
  | pipe r w _ _ _ _ => exact h.parentGoes (by simp) _ _
  | pipeFails _ => exact absurd rfl hcall
  | fork who _ =>
    have hchild : Smooth (s.childGoes who .closeUnused s.parentFds) :=
      h.childGoes (by simp [Child.status]) (by simp [Child.status]) _
    exact hchild.parentGoes (by cases who <;> simp [Parent.afterFork]) _ _
  | forkFails who _ => cases hcall
  | parentCloseRead _ => exact h.parentGoes (by simp) _ _
  | parentCloseWrite _ => exact h.parentGoes (by simp) _ _
  | waitpidLs status _ hended =>
    have hchild : Smooth (s.childGoes .ls (.reaped status) (s.fds .ls)) :=
      h.childGoes (fun hfailed => h.ls (by rw [hended]; exact hfailed)) (by simp) _
    exact hchild.parentGoes (by simp) _ _
  | waitpidLess status _ hended =>
    have hchild : Smooth (s.childGoes .less (.reaped status) (s.fds .less)) := by
      refine ⟨h.parent, h.ls, fun _ => h.less ?_⟩
      simp [hended, Child.status]
    exact hchild.parentGoes (by simp) _ _
  | childCloseUnused who _ =>
    exact h.childGoes (by simp [Child.status]) (by simp [Child.status]) _
  | childDup2 who _ => exact h.childGoes (by simp [Child.status]) (by simp [Child.status]) _
  | childCloseUsed who _ =>
    exact h.childGoes (by simp [Child.status]) (by simp [Child.status]) _
  | execlp who _ => exact h.childGoes (by simp [Child.status]) (by simp [Child.status]) _
  | execlpFails who _ => cases hcall
  | write chunk rest _ _ _ _ _ _ => exact ⟨h.parent, h.ls, h.less⟩
  | sigpipe _ _ _ _ => exact h.childGoes (by simp [Child.status]) (by simp) _
  | lsExit _ _ => exact h.childGoes (by simp [Child.status]) (by simp) _
  | read chunk rest _ _ _ _ _ => exact ⟨h.parent, h.ls, h.less⟩
  | eof _ _ _ _ _ => exact ⟨h.parent, h.ls, fun _ => rfl⟩
  | leave _ heof => exact ⟨h.parent, h.ls, fun _ => heof⟩
  | quit _ _ => exact hcall.elim

lemma smooth_initial (t : Table) (output : List Byte) : Smooth (initial t output) :=
  ⟨by simp [initial], by simp [initial, Child.status], by simp [initial, Child.status]⟩

/-- All of the output has arrived. -/
lemma Smooth.ended (h : Smooth s) (hp : Placed s) (hd : Delivered output s) (he : Ended s) :
    s.parent = .exited 0 ∧ (∀ who, (s.child who).Reaped) ∧ s.received = output := by
  obtain ⟨code, hexited⟩ := he.parent
  obtain rfl := h.parent code hexited
  have hchildren := hp.children
  rw [hexited] at hchildren
  obtain ⟨-, hls, hless⟩ | ⟨hcode, -⟩ := hchildren
  · refine ⟨hexited, ?_, ?_⟩
    · rintro (_ | _)
      · exact hls
      · exact hless
    · obtain ⟨status, hstatus⟩ := hless
      have heof := h.less (by simp [hstatus, Child.status])
      rcases hd.received.complete heof with ⟨-, hall⟩ | ⟨hfailed, -⟩
      · exact hall
      · exact absurd hfailed h.ls
  · cases hcode

/-! ### Runs -/

/-- `main` and its children make only so many steps, and as long as they have not ended, one of them
goes on. If none of the calls fails and the user of `less` does not quit, then `main` exits with 0
behind both children, and `less` has read all the output. -/
theorem completes_of_run (ht : Standard t) (hcap : 0 < capacity) {run : List (Call × State)}
    (hrun : IsRun (Step capacity) (initial t output) run) :
    run.length ≤ 22 + 2 * output.length ∧
      (GoesOn capacity (lastState (initial t output) run) ∨
        Ended (lastState (initial t output) run)) ∧
      (StepsMeet (fun _ call => call.Smooth) (initial t output) run →
        Ended (lastState (initial t output) run) →
        (lastState (initial t output) run).parent = .exited 0 ∧
        (∀ who, ((lastState (initial t output) run).child who).Reaped) ∧
        (lastState (initial t output) run).received = output) := by
  obtain ⟨hp, hd⟩ := placed_delivered_of_run ht hrun
  refine ⟨?_, goesOn_or_ended hp hcap, ?_⟩
  · have hle := length_add_left_le (placed_initial ht output) hrun
    have hleft : (initial t output).left = 22 + 2 * output.length := by
      simp [State.left, initial, Parent.left, Child.left]
      omega
    omega
  · intro hsmooth hended
    have hlast : Smooth (lastState (initial t output) run) :=
      hrun.invariant_last (fun _ _ _ h hcall hstep => h.step hcall hstep)
        (smooth_initial t output) hsmooth
    exact hlast.ended hp hd hended

theorem completes_helloRun : ∃ run : List (Call × State),
    (lastState hello run).received = [104#8] ∧
    run.length ≤ 24 ∧ (GoesOn 1 (lastState hello run) ∨ Ended (lastState hello run)) := by
  obtain ⟨run, hrun, hreceived⟩ := exists_helloRun
  obtain ⟨hlength, hgoes, -⟩ := completes_of_run standard_hello Nat.one_pos hrun
  exact ⟨run, hreceived, hlength, hgoes⟩

end StyLinux.Pipeline
