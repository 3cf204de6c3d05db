import StyLinux.Pipeline.Model

/-!
# What `less` reads

Each process closes the ends of the pipe that it does not use. So `less` sees the end of its input
only when `ls` has ended, and has then read all that `ls` has written.
-/

namespace StyLinux.Pipeline

open Lib

variable {capacity : ℕ} {s s' : State} {call : Call} {t : Table} {R W : Set ℕ} {who : Who}
  {output : List Byte}

/-! ### Tables -/

/-- The descriptors for the two ends of the pipe are these. -/
structure Holds (t : Table) (ends : Set ℕ × Set ℕ) : Prop where
  read : ∀ fd, t fd = some .readEnd ↔ fd ∈ ends.1
  write : ∀ fd, t fd = some .writeEnd ↔ fd ∈ ends.2

lemma holds_closed : Holds Table.closed (∅, ∅) :=
  ⟨by simp [Table.closed], by simp [Table.closed]⟩

lemma Holds.close (h : Holds t (R, W)) (fd : ℕ) : Holds (t.close fd) (R \ {fd}, W \ {fd}) := by
  have hfd : ∀ (f : File) (S : Set ℕ), (∀ x, t x = some f ↔ x ∈ S) →
      ∀ x, t.close fd x = some f ↔ x ∈ S \ {fd} := by
    intro f S hS x
    by_cases hx : x = fd
    · simp [Table.close, hx]
    · simp [Table.close, hx, hS]
  exact ⟨hfd _ _ h.read, hfd _ _ h.write⟩

lemma Holds.dup2_write (h : Holds t (R, W)) {oldfd : ℕ} (hold : oldfd ∈ W) (newfd : ℕ) :
    Holds (t.dup2 oldfd newfd) (R \ {newfd}, insert newfd W) := by
  have hfile := (h.write oldfd).mpr hold
  have hdup : t.dup2 oldfd newfd = Function.update t newfd (some .writeEnd) := by
    rw [Table.dup2, hfile, if_neg (by simp)]
  constructor
  · intro x
    by_cases hx : x = newfd
    · simp [hdup, hx]
    · simp [hdup, hx, h.read]
  · intro x
    by_cases hx : x = newfd
    · simp [hdup, hx]
    · simp [hdup, hx, h.write]

lemma Holds.dup2_read (h : Holds t (R, W)) {oldfd : ℕ} (hold : oldfd ∈ R) (newfd : ℕ) :
    Holds (t.dup2 oldfd newfd) (insert newfd R, W \ {newfd}) := by
  have hfile := (h.read oldfd).mpr hold
  have hdup : t.dup2 oldfd newfd = Function.update t newfd (some .readEnd) := by
    rw [Table.dup2, hfile, if_neg (by simp)]
  constructor
  · intro x
    by_cases hx : x = newfd
    · simp [hdup, hx]
    · simp [hdup, hx, h.read]
  · intro x
    by_cases hx : x = newfd
    · simp [hdup, hx]
    · simp [hdup, hx, h.write]

lemma Holds.pipe (h : Holds t (∅, ∅)) {r w : ℕ} (hne : r ≠ w) :
    Holds (Function.update (Function.update t r (some .readEnd)) w (some .writeEnd))
      ({r}, {w}) := by
  constructor
  · intro x
    by_cases hw : x = w
    · simp [hw, hne.symm]
    · by_cases hr : x = r
      · simp [hr, hne]
      · simp [hw, hr, h.read]
  · intro x
    by_cases hw : x = w
    · simp [hw]
    · by_cases hr : x = r
      · simp [hr, hne]
      · simp [hw, hr, h.write]

/-! ### Which process has which ends -/

/-- The child uses these descriptors for its end. -/
def Who.ends (fds : Set ℕ) : Who → Set ℕ × Set ℕ
  | .ls => (∅, fds)
  | .less => (fds, ∅)

def Parent.ends (pipefd : ℕ × ℕ) : Parent → Set ℕ × Set ℕ
  | .fork _ | .closeRead => ({pipefd.1}, {pipefd.2})
  | .closeWrite => (∅, {pipefd.2})
  | _ => (∅, ∅)

def Child.ends (pipefd : ℕ × ℕ) (who : Who) : Child → Set ℕ × Set ℕ
  | .closeUnused => ({pipefd.1}, {pipefd.2})
  | .dup2 => who.ends {who.used pipefd}
  | .closeUsed => who.ends {who.standard, who.used pipefd}
  | .execlp | .program => who.ends {who.standard}
  | _ => (∅, ∅)

/-- The ends are different from each other and from the descriptors that are redirected. -/
structure Apart (pipefd : ℕ × ℕ) : Prop where
  ends : pipefd.1 ≠ pipefd.2
  stdin : pipefd.1 ≠ STDIN_FILENO
  stdout : pipefd.2 ≠ STDOUT_FILENO

section Apart

variable {pipefd : ℕ × ℕ}

lemma Apart.used_ne (h : Apart pipefd) (who : Who) : who.used pipefd ≠ who.standard := by
  cases who with
  | ls => exact h.stdout
  | less => exact h.stdin

lemma Holds.closeUnused (h : Apart pipefd) (ht : Holds t (Child.ends pipefd who .closeUnused)) :
    Holds (t.close (who.unused pipefd)) (Child.ends pipefd who .dup2) := by
  have hends : ({pipefd.1} : Set ℕ) \ {pipefd.2} = {pipefd.1} ∧
      ({pipefd.2} : Set ℕ) \ {pipefd.1} = {pipefd.2} := by
    constructor
    · simpa using h.ends
    · simpa using h.ends.symm
  have hclose := Holds.close ht (who.unused pipefd)
  cases who with
  | ls => simpa [Who.unused, Child.ends, Who.ends, Who.used, hends] using hclose
  | less => simpa [Who.unused, Child.ends, Who.ends, Who.used, hends] using hclose

lemma Holds.dup2_used (ht : Holds t (Child.ends pipefd who .dup2)) :
    Holds (t.dup2 (who.used pipefd) who.standard) (Child.ends pipefd who .closeUsed) := by
  cases who with
  | ls => simpa [Child.ends, Who.ends] using Holds.dup2_write ht rfl Who.ls.standard
  | less => simpa [Child.ends, Who.ends] using Holds.dup2_read ht rfl Who.less.standard

lemma Holds.closeUsed (h : Apart pipefd) (ht : Holds t (Child.ends pipefd who .closeUsed)) :
    Holds (t.close (who.used pipefd)) (Child.ends pipefd who .execlp) := by
  have hrest : ({who.standard, who.used pipefd} : Set ℕ) \ {who.used pipefd} =
      {who.standard} := by
    ext x
    simp only [Set.mem_sdiff, Set.mem_insert_iff, Set.mem_singleton_iff]
    constructor
    · tauto
    · rintro rfl
      exact ⟨.inl rfl, (h.used_ne who).symm⟩
  have hclose := Holds.close ht (who.used pipefd)
  cases who with
  | ls => simpa [Child.ends, Who.ends, hrest] using hclose
  | less => simpa [Child.ends, Who.ends, hrest] using hclose

end Apart

/-! ### The children of `main` -/

def Child.status : Child → Option Status
  | .ended status | .reaped status => some status
  | _ => none

/-- The child has been started and has not ended. -/
def Child.Alive (c : Child) : Prop := c ≠ .absent ∧ c.status = none

/-- The child has been started, and `main` has not waited for it. -/
def Child.Waits (c : Child) : Prop := c ≠ .absent ∧ ∀ status, c ≠ .reaped status

def Child.Reaped (c : Child) : Prop := ∃ status, c = .reaped status

/-- The children at the places of `main`, which exits with 1 if `pipe` or `fork` fails. -/
def Children : Parent → Child → Child → Prop
  | .pipe, a, b | .fork .ls, a, b => a = .absent ∧ b = .absent
  | .fork .less, a, b => a.Waits ∧ b = .absent
  | .closeRead, a, b | .closeWrite, a, b | .waitpid .ls, a, b => a.Waits ∧ b.Waits
  | .waitpid .less, a, b => a.Reaped ∧ b.Waits
  | .exited code, a, b => code = 0 ∧ a.Reaped ∧ b.Reaped ∨
      code = 1 ∧ (a = .absent ∨ a.Waits) ∧ b = .absent

/-- The descriptors are those that the places of the processes in their code call for. -/
structure Placed (s : State) : Prop where
  start : s.parent = .pipe →
    s.parentFds STDIN_FILENO ≠ none ∧ s.parentFds STDOUT_FILENO ≠ none
  apart : (∀ who, s.child who = .absent) ∧ (∀ who, s.parent ≠ .fork who) ∨ Apart s.pipefd
  parent : Holds s.parentFds (s.parent.ends s.pipefd)
  tables : ∀ who, Holds (s.fds who) ((s.child who).ends s.pipefd who)
  children : Children s.parent (s.child .ls) (s.child .less)

section Children

variable {p : Parent} {a b c : Child}

lemma Child.Waits.not_reaped (h : c.Waits) : ¬c.Reaped := fun ⟨status, he⟩ => h.2 status he

lemma Children.ls (h : Children p a b) (ha : a.Waits) (hc : c.Waits) : Children p c b := by
  cases p with
  | pipe => exact absurd h.1 ha.1
  | fork who =>
    cases who with
    | ls => exact absurd h.1 ha.1
    | less => exact ⟨hc, h.2⟩
  | closeRead => exact ⟨hc, h.2⟩
  | closeWrite => exact ⟨hc, h.2⟩
  | waitpid who =>
    cases who with
    | ls => exact ⟨hc, h.2⟩
    | less => exact absurd h.1 ha.not_reaped
  | exited code =>
    rcases h with ⟨-, hreaped, -⟩ | ⟨hcode, -, hb⟩
    · exact absurd hreaped ha.not_reaped
    · exact .inr ⟨hcode, .inr hc, hb⟩

lemma Children.less (h : Children p a b) (hb : b.Waits) (hc : c.Waits) : Children p a c := by
  cases p with
  | pipe => exact absurd h.2 hb.1
  | fork who =>
    cases who with
    | ls => exact absurd h.2 hb.1
    | less => exact absurd h.2 hb.1
  | closeRead => exact ⟨h.1, hc⟩
  | closeWrite => exact ⟨h.1, hc⟩
  | waitpid who =>
    cases who with
    | ls => exact ⟨h.1, hc⟩
    | less => exact ⟨h.1, hc⟩
  | exited code =>
    rcases h with ⟨-, -, hreaped⟩ | ⟨-, -, habsent⟩
    · exact absurd hreaped hb.not_reaped
    · exact absurd habsent hb.1

/-- `less` is started behind `ls`. -/
lemma not_children_absent : ¬Children p .absent .program := by
  cases p with
  | fork who => cases who <;> simp [Children, Child.Waits]
  | waitpid who => cases who <;> simp [Children, Child.Waits, Child.Reaped]
  | _ => simp [Children, Child.Waits, Child.Reaped]

end Children

lemma waits_ended (status : Status) : (Child.ended status).Waits := ⟨by simp, by simp⟩

namespace Placed

variable {next : Child}

lemma childGoes (h : Placed s) (hbefore : (s.child who).Waits) (hafter : next.Waits)
    (ht : Holds t (next.ends s.pipefd who)) : Placed (s.childGoes who next t) := by
  obtain ⟨hstart, hapart, hparent, htables, hchildren⟩ := h
  refine ⟨hstart, ?_, hparent, ?_, ?_⟩
  · rcases hapart with ⟨habsent, -⟩ | hapart
    · exact absurd (habsent who) hbefore.1
    · exact .inr hapart
  · intro w
    by_cases hw : w = who
    · subst hw
      simpa [State.childGoes] using ht
    · simpa [State.childGoes, hw] using htables w
  · cases who with
    | ls => simpa [State.childGoes] using hchildren.ls hbefore hafter
    | less => simpa [State.childGoes] using hchildren.less hbefore hafter

lemma childEnds (h : Placed s) (hbefore : (s.child who).Waits) (status : Status) :
    Placed (s.childEnds who status) :=
  h.childGoes hbefore (waits_ended status) holds_closed

/-- A child is in its code. -/
lemma apart_of_waits (h : Placed s) (hwaits : (s.child who).Waits) : Apart s.pipefd :=
  h.apart.resolve_left fun habsent => hwaits.1 (habsent.1 who)

lemma apart_of_fork (h : Placed s) (hfork : s.parent = .fork who) : Apart s.pipefd :=
  h.apart.resolve_left fun habsent => habsent.2 who hfork

lemma pipe (h : Placed s) {r w : ℕ} (hpipe : s.parent = .pipe) (hr : s.parentFds r = none)
    (hw : s.parentFds w = none) (hne : r ≠ w) :
    Placed { s with
      parent := .fork .ls
      parentFds := Function.update (Function.update s.parentFds r (some .readEnd)) w
        (some .writeEnd)
      pipefd := (r, w) } := by
  have hchildren := h.children
  rw [hpipe] at hchildren
  obtain ⟨hls, hless⟩ := hchildren
  obtain ⟨hstdin, hstdout⟩ := h.start hpipe
  refine ⟨by simp, .inr ⟨hne, ?_, ?_⟩, ?_, ?_, ⟨hls, hless⟩⟩
  · rintro rfl
    exact hstdin hr
  · rintro rfl
    exact hstdout hw
  · have hparent := h.parent
    rw [hpipe] at hparent
    exact hparent.pipe hne
  · intro who
    have htable := h.tables who
    cases who with
    | ls =>
      rw [hls] at htable ⊢
      exact htable
    | less =>
      rw [hless] at htable ⊢
      exact htable

lemma fork (h : Placed s) (hfork : s.parent = .fork who) :
    Placed { s.childGoes who .closeUnused s.parentFds with parent := .afterFork who } := by
  have hparent := h.parent
  have hchildren := h.children
  rw [hfork] at hparent hchildren
  have hwaits : Child.closeUnused.Waits := ⟨by simp, by simp⟩
  refine ⟨?_, .inr (h.apart_of_fork hfork), ?_, ?_, ?_⟩
  · cases who <;> simp [Parent.afterFork]
  · cases who with
    | ls => exact hparent
    | less => exact hparent
  · intro w
    by_cases hw : w = who
    · subst hw
      have htable : Holds s.parentFds (Child.ends s.pipefd w .closeUnused) := hparent
      simpa [State.childGoes] using htable
    · simpa [State.childGoes, hw] using h.tables w
  · cases who with
    | ls => simpa [State.childGoes, Parent.afterFork, Children, hchildren.2] using hwaits
    | less =>
      simpa [State.childGoes, Parent.afterFork, Children] using ⟨hchildren.1, hwaits⟩

lemma exits (h : Placed s) {code : ℕ}
    (hchildren : Children (.exited code) (s.child .ls) (s.child .less)) :
    Placed (s.parentExits code) := by
  refine ⟨by simp [State.parentExits], ?_, holds_closed, h.tables, hchildren⟩
  rcases h.apart with ⟨habsent, -⟩ | hapart
  · exact .inl ⟨habsent, by simp [State.parentExits]⟩
  · exact .inr hapart

lemma tables_reaped (h : Placed s) {status : Status} (hended : s.child who = .ended status)
    (w : Who) : Holds ((s.childGoes who (.reaped status) (s.fds who)).fds w)
      (((s.childGoes who (.reaped status) (s.fds who)).child w).ends s.pipefd w) := by
  by_cases hw : w = who
  · subst hw
    have htable : Holds (s.fds w) (Child.ends s.pipefd w (.ended status)) := hended ▸ h.tables w
    have hreaped : Holds (s.fds w) (Child.ends s.pipefd w (.reaped status)) := htable
    simpa [State.childGoes] using hreaped
  · simpa [State.childGoes, hw] using h.tables w

lemma step (h : Placed s) (hstep : Step capacity s call s') : Placed s' := by
  have hchildren := h.children
  have hparent := h.parent
  cases hstep with
  | pipe r w hpipe hr hw hne => exact h.pipe hpipe hr hw hne
  | pipeFails hpipe =>
    rw [hpipe] at hchildren
    exact h.exits (.inr ⟨rfl, .inl hchildren.1, hchildren.2⟩)
  | fork who hfork => exact h.fork hfork
  | forkFails who hfork =>
    rw [hfork] at hchildren
    refine h.exits (.inr ⟨rfl, ?_⟩)
    cases who with
    | ls => exact ⟨.inl hchildren.1, hchildren.2⟩
    | less => exact ⟨.inr hchildren.1, hchildren.2⟩
  | parentCloseRead hclose =>
    rw [hclose] at hchildren hparent
    have hapart := h.apart_of_waits hchildren.1
    refine ⟨by simp, .inr hapart, ?_, h.tables, hchildren⟩
    have hwrite : ({s.pipefd.2} : Set ℕ) \ {s.pipefd.1} = {s.pipefd.2} := by
      simpa using hapart.ends.symm
    simpa [Parent.ends, hwrite] using Holds.close hparent s.pipefd.1
  | parentCloseWrite hclose =>
    rw [hclose] at hchildren hparent
    refine ⟨by simp, .inr (h.apart_of_waits hchildren.1), ?_, h.tables, hchildren⟩
    simpa [Parent.ends] using Holds.close hparent s.pipefd.2
  | waitpidLs status hwait hended =>
    rw [hwait] at hchildren hparent
    refine ⟨by simp, .inr (h.apart_of_waits hchildren.1), hparent, h.tables_reaped hended, ?_⟩
    exact ⟨⟨status, by simp [State.childGoes]⟩, by simpa [State.childGoes] using hchildren.2⟩
  | waitpidLess status hwait hended =>
    rw [hwait] at hchildren
    refine ⟨by simp [State.parentExits], .inr (h.apart_of_waits hchildren.2), holds_closed,
      h.tables_reaped hended, .inl ⟨rfl, ?_, ⟨status, ?_⟩⟩⟩
    · simpa [State.childGoes, State.parentExits] using hchildren.1
    · simp [State.childGoes, State.parentExits]
  | childCloseUnused who hchild =>
    have hwaits : (s.child who).Waits := by simp [Child.Waits, hchild]
    refine h.childGoes hwaits (by simp [Child.Waits]) ?_
    exact Holds.closeUnused (h.apart_of_waits hwaits) (hchild ▸ h.tables who)
  | childDup2 who hchild =>
    have hwaits : (s.child who).Waits := by simp [Child.Waits, hchild]
    exact h.childGoes hwaits (by simp [Child.Waits]) (Holds.dup2_used (hchild ▸ h.tables who))
  | childCloseUsed who hchild =>
    have hwaits : (s.child who).Waits := by simp [Child.Waits, hchild]
    refine h.childGoes hwaits (by simp [Child.Waits]) ?_
    exact Holds.closeUsed (h.apart_of_waits hwaits) (hchild ▸ h.tables who)
  | execlp who hchild =>
    have hwaits : (s.child who).Waits := by simp [Child.Waits, hchild]
    have htable := h.tables who
    rw [hchild] at htable
    exact h.childGoes hwaits (by simp [Child.Waits]) htable
  | execlpFails who hchild => exact h.childEnds (by simp [Child.Waits, hchild]) _
  | write chunk rest _ _ _ _ _ _ => exact ⟨h.start, h.apart, h.parent, h.tables, h.children⟩
  | sigpipe hchild _ _ _ => exact h.childEnds (by simp [Child.Waits, hchild]) _
  | lsExit hchild _ => exact h.childEnds (by simp [Child.Waits, hchild]) _
  | read chunk rest _ _ _ _ _ => exact ⟨h.start, h.apart, h.parent, h.tables, h.children⟩
  | eof _ _ _ _ _ => exact ⟨h.start, h.apart, h.parent, h.tables, h.children⟩
  | leave hchild _ => exact h.childEnds (by simp [Child.Waits, hchild]) _
  | quit hchild _ => exact h.childEnds (by simp [Child.Waits, hchild]) _

end Placed

/-! ### The ends that are open -/

/-- A child that has not ended uses its end of the pipe. -/
lemma Placed.opened_of_alive (h : Placed s) (halive : (s.child who).Alive) :
    ∃ fd, s.fds who fd = some (match who with | .ls => File.writeEnd | .less => File.readEnd) := by
  have htable := h.tables who
  obtain ⟨hpresent, hstatus⟩ := halive
  cases who with
  | ls =>
    have hends : ∃ fd, fd ∈ (Child.ends s.pipefd .ls (s.child .ls)).2 := by
      cases hc : s.child .ls with
      | absent => exact absurd hc hpresent
      | closeUnused => exact ⟨_, rfl⟩
      | dup2 => exact ⟨_, rfl⟩
      | closeUsed => exact ⟨_, .inl rfl⟩
      | execlp => exact ⟨_, rfl⟩
      | program => exact ⟨_, rfl⟩
      | ended status => simp [hc, Child.status] at hstatus
      | reaped status => simp [hc, Child.status] at hstatus
    obtain ⟨fd, hfd⟩ := hends
    exact ⟨fd, (htable.write fd).mpr hfd⟩
  | less =>
    have hends : ∃ fd, fd ∈ (Child.ends s.pipefd .less (s.child .less)).1 := by
      cases hc : s.child .less with
      | absent => exact absurd hc hpresent
      | closeUnused => exact ⟨_, rfl⟩
      | dup2 => exact ⟨_, rfl⟩
      | closeUsed => exact ⟨_, .inl rfl⟩
      | execlp => exact ⟨_, rfl⟩
      | program => exact ⟨_, rfl⟩
      | ended status => simp [hc, Child.status] at hstatus
      | reaped status => simp [hc, Child.status] at hstatus
    obtain ⟨fd, hfd⟩ := hends
    exact ⟨fd, (htable.read fd).mpr hfd⟩

/-- While `main` has still to start a child, it has both ends open. -/
lemma Placed.opened_of_fork (h : Placed s) (hfork : s.parent = .fork who) :
    s.Opened .readEnd := by
  have hparent := h.parent
  rw [hfork] at hparent
  exact .inl ⟨s.pipefd.1, (hparent.read _).mpr rfl⟩

/-! ### Bytes -/

/-- The program of the child has been executed. -/
def Child.Executed (c : Child) : Prop :=
  c = .program ∨ ∃ status, c.status = some status ∧ status ≠ .execFailed

/-- What has become of the output of `ls`. -/
structure Delivered (output : List Byte) (s : State) : Prop where
  conserved : s.received ++ s.pipe ++ s.out = output
  untouched : ¬(s.child .ls).Executed → s.out = output
  finished : (s.child .ls).status = some .finished → s.out = []
  killed : (s.child .ls).status = some .killed →
    ¬(s.child .less).Alive ∧ (∀ who, s.parent ≠ .fork who) ∧ s.eof = false
  sawEof : s.eof = true →
    s.pipe = [] ∧ ∃ status, (s.child .ls).status = some status ∧ status ≠ .killed

namespace Delivered

variable {next : Child}

/-- A step of a child that neither ends `ls` nor makes it write. -/
lemma childGoes (h : Delivered output s) (halive : (s.child who).Alive)
    (hls : who = .ls → next.status ≠ some .finished ∧ next.status ≠ some .killed ∧
      (¬next.Executed → ¬(s.child .ls).Executed)) (t : Table) :
    Delivered output (s.childGoes who next t) := by
  cases who with
  | ls =>
    obtain ⟨hfinished, hkilled, hexecuted⟩ := hls rfl
    refine ⟨h.conserved, ?_, ?_, ?_, ?_⟩
    · simp only [State.childGoes, Function.update_self]
      exact fun hnot => h.untouched (hexecuted hnot)
    · simp only [State.childGoes, Function.update_self]
      exact fun hstatus => absurd hstatus hfinished
    · simp only [State.childGoes, Function.update_self]
      exact fun hstatus => absurd hstatus hkilled
    · intro heof
      obtain ⟨-, status, hstatus, -⟩ := h.sawEof heof
      exact absurd (halive.2.symm.trans hstatus) (by simp)
  | less =>
    refine ⟨h.conserved, h.untouched, h.finished, ?_, h.sawEof⟩
    exact fun hstatus => absurd halive (h.killed hstatus).1

lemma fork (h : Delivered output s) (hp : Placed s) (hfork : s.parent = .fork who) :
    Delivered output
      { s.childGoes who .closeUnused s.parentFds with parent := .afterFork who } := by
  have hchildren := hp.children
  rw [hfork] at hchildren
  cases who with
  | ls =>
    have hexecuted : ¬Child.Executed (s.child .ls) := by
      simp [Child.Executed, Child.status, hchildren.1]
    refine ⟨h.conserved, fun _ => h.untouched hexecuted, ?_, ?_, ?_⟩
    · simp [State.childGoes, Child.status]
    · simp [State.childGoes, Child.status]
    · intro heof
      obtain ⟨-, status, hstatus, -⟩ := h.sawEof heof
      rw [hchildren.1] at hstatus
      cases hstatus
  | less =>
    refine ⟨h.conserved, h.untouched, h.finished, ?_, h.sawEof⟩
    exact fun hstatus => absurd hfork ((h.killed hstatus).2.1 _)

/-- `main` goes on to a place that is not in front of a `fork`. -/
lemma parentGoes (h : Delivered output s) {p : Parent} (hp : ∀ who, p ≠ .fork who) (t : Table) :
    Delivered output { s with parent := p, parentFds := t } := by
  refine ⟨h.conserved, h.untouched, h.finished, ?_, h.sawEof⟩
  intro hstatus
  obtain ⟨hless, -, heof⟩ := h.killed hstatus
  exact ⟨hless, hp, heof⟩

/-- `main` has waited for a child. -/
lemma reaped (h : Delivered output s) {status : Status} (hended : s.child who = .ended status)
    (t : Table) : Delivered output (s.childGoes who (.reaped status) t) := by
  cases who with
  | ls =>
    have hstatus : (s.child .ls).status = some status := by rw [hended]; rfl
    refine ⟨h.conserved, ?_, ?_, ?_, ?_⟩
    · intro hnot
      refine h.untouched fun hexecuted => hnot ?_
      simpa [State.childGoes, Child.Executed, hended, Child.status] using hexecuted
    · intro hfinished
      exact h.finished (hstatus.trans (by simpa [State.childGoes, Child.status] using hfinished))
    · intro hkilled
      exact h.killed (hstatus.trans (by simpa [State.childGoes, Child.status] using hkilled))
    · intro heof
      obtain ⟨hpipe, status', hstatus', hne⟩ := h.sawEof heof
      cases hstatus.symm.trans hstatus'
      exact ⟨hpipe, status, by simp [State.childGoes, Child.status], hne⟩
  | less =>
    refine ⟨h.conserved, h.untouched, h.finished, ?_, h.sawEof⟩
    intro hkilled
    refine ⟨?_, (h.killed hkilled).2⟩
    simp [State.childGoes, Child.Alive, Child.status]

lemma write (h : Delivered output s) {chunk rest : List Byte} (hls : s.child .ls = .program)
    (hout : s.out = chunk ++ rest) :
    Delivered output { s with pipe := s.pipe ++ chunk, out := rest } := by
  have hstatus : (s.child .ls).status = none := by rw [hls]; rfl
  refine ⟨?_, fun hnot => absurd (.inl hls) hnot, ?_, ?_, ?_⟩
  · have hconserved := h.conserved
    rw [hout] at hconserved
    simpa using hconserved
  · exact fun hfinished => absurd (hstatus.symm.trans hfinished) (by simp)
  · exact fun hkilled => absurd (hstatus.symm.trans hkilled) (by simp)
  · intro heof
    obtain ⟨-, status, hsome, -⟩ := h.sawEof heof
    exact absurd (hstatus.symm.trans hsome) (by simp)

lemma read (h : Delivered output s) {chunk rest : List Byte} (heof : s.eof = false)
    (hpipe : s.pipe = chunk ++ rest) :
    Delivered output { s with pipe := rest, received := s.received ++ chunk } := by
  refine ⟨?_, h.untouched, h.finished, h.killed, ?_⟩
  · have hconserved := h.conserved
    rw [hpipe] at hconserved
    simpa using hconserved
  · exact fun htrue => absurd (heof.symm.trans htrue) (by simp)

/-- `ls` ends. -/
lemma lsEnds (h : Delivered output s) (hls : s.child .ls = .program) {status : Status}
    (hexecuted : status ≠ .execFailed) (hfinished : status = .finished → s.out = [])
    (hkilled : status = .killed →
      ¬(s.child .less).Alive ∧ (∀ who, s.parent ≠ .fork who) ∧ s.eof = false) :
    Delivered output (s.childEnds .ls status) := by
  have hended : ((s.childEnds .ls status).child .ls).status = some status := by
    simp [State.childEnds, State.childGoes, Child.status]
  refine ⟨h.conserved, fun hnot => absurd (.inr ⟨status, hended, hexecuted⟩) hnot, ?_, ?_, ?_⟩
  · exact fun hstatus => hfinished (Option.some.inj (hended.symm.trans hstatus))
  · exact fun hstatus => hkilled (Option.some.inj (hended.symm.trans hstatus))
  · intro heof
    obtain ⟨-, status', hsome, -⟩ := h.sawEof heof
    rw [hls] at hsome
    cases hsome

/-- Where `ls` may be when no process has the end to write open. -/
lemma eof (h : Delivered output s) (hp : Placed s) (hless : s.child .less = .program)
    (hpipe : s.pipe = []) (hclosed : ¬s.Opened .writeEnd) :
    Delivered output { s with eof := true } := by
  have halive : (s.child .less).Alive := by simp [hless, Child.Alive, Child.status]
  have hkilled : (s.child .ls).status ≠ some .killed := fun hstatus =>
    absurd halive (h.killed hstatus).1
  refine ⟨h.conserved, h.untouched, h.finished, fun hstatus => absurd hstatus hkilled, ?_⟩
  intro _
  refine ⟨hpipe, ?_⟩
  cases hstatus : (s.child .ls).status with
  | some status =>
    refine ⟨status, rfl, ?_⟩
    rintro rfl
    exact hkilled hstatus
  | none =>
    have hls : ¬(s.child .ls).Alive := by
      intro halive
      obtain ⟨fd, hfd⟩ := hp.opened_of_alive halive
      exact hclosed (.inr ⟨.ls, fd, hfd⟩)
    have habsent : s.child .ls = .absent := by
      by_contra hne
      exact hls ⟨hne, hstatus⟩
    have hchildren := hp.children
    rw [habsent, hless] at hchildren
    exact absurd hchildren not_children_absent

lemma step (h : Delivered output s) (hp : Placed s) (hstep : Step capacity s call s') :
    Delivered output s' := by
  cases hstep with
  | pipe r w hpipe _ _ _ =>
    have hchildren := hp.children
    rw [hpipe] at hchildren
    refine ⟨h.conserved, h.untouched, h.finished, ?_, h.sawEof⟩
    intro hkilled
    simp [hchildren.1, Child.status] at hkilled
  | pipeFails _ => exact h.parentGoes (by simp) _
  | fork who hfork => exact h.fork hp hfork
  | forkFails who _ => exact h.parentGoes (by simp) _
  | parentCloseRead _ => exact h.parentGoes (by simp) _
  | parentCloseWrite _ => exact h.parentGoes (by simp) _
  | waitpidLs status _ hended => exact (h.reaped hended _).parentGoes (by simp) _
  | waitpidLess status _ hended => exact (h.reaped hended _).parentGoes (by simp) _
  | childCloseUnused who hchild =>
    exact h.childGoes (by simp [hchild, Child.Alive, Child.status])
      (by rintro rfl; simp [hchild, Child.Executed, Child.status]) _
  | childDup2 who hchild =>
    exact h.childGoes (by simp [hchild, Child.Alive, Child.status])
      (by rintro rfl; simp [hchild, Child.Executed, Child.status]) _
  | childCloseUsed who hchild =>
    exact h.childGoes (by simp [hchild, Child.Alive, Child.status])
      (by rintro rfl; simp [hchild, Child.Executed, Child.status]) _
  | execlp who hchild =>
    exact h.childGoes (by simp [hchild, Child.Alive, Child.status])
      (by rintro rfl; simp [hchild, Child.Executed, Child.status]) _
  | execlpFails who hchild =>
    exact h.childGoes (by simp [hchild, Child.Alive, Child.status])
      (by rintro rfl; simp [hchild, Child.Executed, Child.status]) _
  | write chunk rest hls _ hout _ _ _ => exact h.write hls hout
  | sigpipe hls _ _ hclosed =>
    refine h.lsEnds hls (by simp) (by simp) fun _ => ⟨?_, ?_, ?_⟩
    · intro halive
      obtain ⟨fd, hfd⟩ := hp.opened_of_alive halive
      exact hclosed (.inr ⟨.less, fd, hfd⟩)
    · exact fun who hfork => hclosed (hp.opened_of_fork hfork)
    · cases heof : s.eof with
      | false => rfl
      | true =>
        obtain ⟨-, status, hsome, -⟩ := h.sawEof heof
        rw [hls] at hsome
        cases hsome
  | lsExit hls hout => exact h.lsEnds hls (by simp) (fun _ => hout) (by simp)
  | read chunk rest _ heof _ hpipe _ => exact h.read heof hpipe
  | eof hless _ _ hpipe hclosed => exact h.eof hp hless hpipe hclosed
  | leave hless _ => exact h.childGoes (by simp [hless, Child.Alive, Child.status]) (by simp) _
  | quit hless _ => exact h.childGoes (by simp [hless, Child.Alive, Child.status]) (by simp) _

end Delivered

/-! ### Runs -/

/-- A table with the standard descriptors open and no end of a pipe. -/
structure Standard (t : Table) : Prop where
  stdin : t STDIN_FILENO ≠ none
  stdout : t STDOUT_FILENO ≠ none
  other : ∀ fd f, t fd = some f → f = .other

lemma placed_initial (ht : Standard t) (output : List Byte) : Placed (initial t output) := by
  have hnot : ∀ f, f ≠ .other → ∀ fd, t fd = some f ↔ fd ∈ (∅ : Set ℕ) := by
    intro f hf fd
    simp only [Set.mem_empty_iff_false, iff_false]
    exact fun h => hf (ht.other fd f h)
  refine ⟨fun _ => ⟨ht.stdin, ht.stdout⟩, .inl ⟨fun _ => rfl, by simp [initial]⟩, ?_, ?_,
    ⟨rfl, rfl⟩⟩
  · exact ⟨hnot _ (by simp), hnot _ (by simp)⟩
  · exact fun _ => holds_closed

lemma delivered_initial (t : Table) (output : List Byte) :
    Delivered output (initial t output) := by
  refine ⟨rfl, fun _ => rfl, ?_, ?_, ?_⟩
  · simp [initial, Child.status]
  · simp [initial, Child.status]
  · simp [initial]

lemma placed_delivered_of_run (ht : Standard t) {run : List (Call × State)}
    (hrun : IsRun (Step capacity) (initial t output) run) :
    Placed (lastState (initial t output) run) ∧
      Delivered output (lastState (initial t output) run) :=
  hrun.invariant (I := fun s => Placed s ∧ Delivered output s)
    (fun _ _ _ h hstep => ⟨h.1.step hstep, h.2.step h.1 hstep⟩)
    ⟨placed_initial ht output, delivered_initial t output⟩

/-- The output of `ls` so far as `less` has read it, as it is in the pipe and as it is still to be
written. The end is seen only behind an `ls` that has ended by itself, and all that it has written
has then been read. -/
structure Received (output : List Byte) (s : State) : Prop where
  inOrder : s.received ++ s.pipe ++ s.out = output
  complete : s.eof = true →
    (s.child .ls).status = some .finished ∧ s.received = output ∨
    (s.child .ls).status = some .execFailed ∧ s.received = []
  killed : (s.child .ls).status = some .killed → ¬(s.child .less).Alive ∧ s.eof = false

lemma Delivered.received (h : Delivered output s) : Received output s := by
  refine ⟨h.conserved, ?_, fun hkilled => ?_⟩
  · intro heof
    obtain ⟨hpipe, status, hstatus, hne⟩ := h.sawEof heof
    have hconserved := h.conserved
    rw [hpipe, List.append_nil] at hconserved
    cases status with
    | execFailed =>
      have hnot : ¬(s.child .ls).Executed := by
        rintro (hprogram | ⟨status, hsome, hne⟩)
        · rw [hprogram] at hstatus
          cases hstatus
        · exact hne (Option.some.inj (hsome.symm.trans hstatus))
      rw [h.untouched hnot] at hconserved
      exact .inr ⟨hstatus, by simpa using hconserved⟩
    | finished =>
      rw [h.finished hstatus, List.append_nil] at hconserved
      exact .inl ⟨hstatus, hconserved⟩
    | killed => exact absurd rfl hne
  · obtain ⟨hless, -, heof⟩ := h.killed hkilled
    exact ⟨hless, heof⟩

/-- The descriptors of a shell's child, and one byte of output. -/
def hello : State := initial (fun fd => if fd < 3 then some .other else none) [104#8]

lemma standard_hello : Standard hello.parentFds := by
  refine ⟨by decide, by decide, ?_⟩
  intro fd f hf
  simp only [hello, initial, Option.ite_none_right_eq_some, Option.some.injEq] at hf
  exact hf.2.symm

/-- The processes redirect their descriptors, and the byte goes through the pipe. -/
lemma exists_helloRun : ∃ run : List (Call × State), IsRun (Step 1) hello run ∧
    (lastState hello run).received = [104#8] := by
  refine ⟨[(.pipe (some (3, 4)), _), (.fork .ls true, _), (.fork .less true, _),
    (.parentCloseRead, _), (.childCloseUnused .ls, _), (.childDup2 .ls, _),
    (.childCloseUsed .ls, _), (.execlp .ls true, _), (.write [104#8], _), (.parentCloseWrite, _),
    (.childCloseUnused .less, _), (.childDup2 .less, _), (.childCloseUsed .less, _),
    (.execlp .less true, _), (.read [104#8], _)], ⟨.pipe _ 3 4 rfl rfl rfl (by decide),
    .fork _ .ls rfl, .fork _ .less rfl, .parentCloseRead _ rfl, .childCloseUnused _ .ls rfl,
    .childDup2 _ .ls rfl, .childCloseUsed _ .ls rfl, .execlp _ .ls rfl,
    .write _ [104#8] [] rfl rfl rfl (by decide) (by decide) (.inr ⟨.less, 3, rfl⟩),
    .parentCloseWrite _ rfl, .childCloseUnused _ .less rfl, .childDup2 _ .less rfl,
    .childCloseUsed _ .less rfl, .execlp _ .less rfl,
    .read _ [104#8] [] rfl rfl rfl rfl (by decide), trivial⟩, rfl⟩

end StyLinux.Pipeline
