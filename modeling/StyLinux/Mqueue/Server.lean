import StyLinux.Mqueue.Model

/-!
# What the server prints

For any clients and any interleaving the messages come out of the queue as they went in, and the
server stops at the first one that asks it to quit.
-/

namespace StyLinux.Mqueue

open Lib

variable {ι : Type} [DecidableEq ι] {s s' : State ι} {tasks : ι → List Task}

/-- The line printed for an add message. -/
def lineOf (msg : Message) : Line :=
  ⟨msg.parameter1, msg.parameter2, msg.parameter1 + msg.parameter2⟩

def Task.Fits : Task → Prop
  | .add operand1 operand2 => IsInt (operand1 + operand2)
  | .quit => True

/-- The messages enqueued before the first quit message, with their senders. -/
def beforeQuit (enqueued : List (ι × Message)) : List (ι × Message) :=
  enqueued.takeWhile fun x => x.2.command ≠ CmdQuit

/-! ### The clients -/

/-- Each client has sent the first part of its tasks. -/
def Sent (tasks : ι → List Task) (s : State ι) : Prop :=
  ∀ client, ((s.enqueued.filter fun x => x.1 = client).map Prod.snd) ++
    (s.tasks client).map Task.message = (tasks client).map Task.message

lemma sent_initial : Sent tasks (initial tasks) := by
  intro client
  simp [initial]

omit [DecidableEq ι] in
lemma switchCommand_frame {msg : Message} (h : switchCommand msg s = some s') :
    s'.queue = s.queue ∧ s'.linked = s.linked ∧ s'.tasks = s.tasks ∧
      s'.enqueued = s.enqueued := by
  unfold switchCommand at h
  split_ifs at h <;> cases h <;> exact ⟨rfl, rfl, rfl, rfl⟩

lemma Sent.step (hs : Sent tasks s) {x : Event ι} (hstep : Step s x s') : Sent tasks s' := by
  cases hstep with
  | send client task rest messages htask _ _ =>
    intro c
    have hc := hs c
    by_cases h : c = client
    · subst h
      rw [htask] at hc
      simpa using hc
    · simpa [h, Ne.symm h] using hc
  | switch s'' msg _ hswitch =>
    obtain ⟨-, -, htasks, henqueued⟩ := switchCommand_frame hswitch
    intro c
    rw [htasks, henqueued]
    exact hs c
  | _ => exact hs

/-- Every enqueued message is one of the tasks. -/
lemma Sent.exists_task (hs : Sent tasks s) {x : ι × Message} (hx : x ∈ s.enqueued) :
    ∃ task ∈ tasks x.1, x.2 = task.message := by
  have hmem : x.2 ∈ (tasks x.1).map Task.message := by
    rw [← hs x.1]
    apply List.mem_append_left
    exact List.mem_map.mpr ⟨x, by simpa using hx, rfl⟩
  obtain ⟨task, htask, hmessage⟩ := List.mem_map.mp hmem
  exact ⟨task, htask, hmessage.symm⟩

/-! ### The server -/

/-- Where the server is, with the message that it has taken from the queue and not answered,
and the messages in the queue. -/
inductive Place (s : State ι) : List Message → List Message → Prop
  | opening : s.server = .opening → s.queue = none → s.didQuit = false → Place s [] []
  | receiving (messages : List Message) : s.server = .receiving → s.queue = some messages →
      s.didQuit = false → Place s [] messages
  | switching (msg : Message) (messages : List Message) : s.server = .switching msg →
      s.queue = some messages → s.didQuit = false → Place s [msg] messages
  | testing (messages : List Message) : s.server = .testing → s.queue = some messages →
      s.didQuit = false → Place s [] messages
  | quitting (messages : List Message) :
      s.server = .testing ∨ s.server = .closing ∨ s.server = .unlinking ∨
        s.server = .returned 0 ∧ s.linked = false →
      s.queue = some messages → s.didQuit = true → Place s [sendQuitTask] messages

/-- The adds taken from the queue are printed; they, the message being answered and the queue are
all that was enqueued. -/
structure Progress (s : State ι) (adds taken messages : List Message) : Prop where
  printed : s.printed = adds.map lineOf
  onlyAdds : ∀ msg ∈ adds, msg.command = CmdAdd
  order : s.enqueued.map Prod.snd = adds ++ taken ++ messages
  noError : s.hadError = false
  place : Place s taken messages

omit [DecidableEq ι] in
lemma progress_initial : Progress (initial tasks) [] [] [] :=
  ⟨rfl, by simp, rfl, rfl, .opening rfl rfl rfl⟩

lemma Progress.send {adds taken messages : List Message} (hs : Progress s adds taken messages)
    {client : ι} {task : Task} {rest : List Task} {messages' : List Message}
    (hqueue : s.queue = some messages') (h : s' = { s with
      queue := some (messages' ++ [task.message])
      tasks := Function.update s.tasks client rest
      enqueued := s.enqueued ++ [(client, task.message)] }) :
    Progress s' adds taken (messages ++ [task.message]) := by
  subst h
  refine ⟨hs.printed, hs.onlyAdds, by simp [hs.order], hs.noError, ?_⟩
  cases hs.place with
  | opening hserver hnone _ =>
    rw [hnone] at hqueue
    cases hqueue
  | receiving messages hserver hsome hquit =>
    cases hqueue.symm.trans hsome
    exact .receiving _ hserver rfl hquit
  | switching msg messages hserver hsome hquit =>
    cases hqueue.symm.trans hsome
    exact .switching _ _ hserver rfl hquit
  | testing messages hserver hsome hquit =>
    cases hqueue.symm.trans hsome
    exact .testing _ hserver rfl hquit
  | quitting messages hserver hsome hquit =>
    cases hqueue.symm.trans hsome
    exact .quitting _ hserver rfl hquit

omit [DecidableEq ι] in
lemma switchCommand_quit : switchCommand sendQuitTask s = some { s with didQuit := true } := rfl

omit [DecidableEq ι] in
lemma switchCommand_add {a b : ℤ} (h : IsInt (a + b)) : switchCommand (sendAddTask a b) s =
    some { s with printed := s.printed ++ [lineOf (sendAddTask a b)] } := by
  have hcommand : (sendAddTask a b).command = CmdAdd := rfl
  have hadd : CmdAdd ≠ CmdQuit := by decide
  unfold switchCommand
  rw [hcommand, if_neg hadd, if_pos rfl]
  exact if_pos h

omit [DecidableEq ι] in
/-- Answering the message taken. -/
lemma Progress.switch {adds messages : List Message} {msg : Message} {task : Task}
    (hs : Progress s adds [msg] messages) (hserver : s.server = .switching msg)
    (hmsg : msg = task.message) (hfits : task.Fits) {s'' : State ι}
    (hswitch : switchCommand msg s = some s'') :
    ∃ adds taken, Progress { s'' with server := .testing } adds taken messages := by
  obtain ⟨hprinted, hadds, horder, herror, hplace⟩ := hs
  have hrest : s.queue = some messages ∧ s.didQuit = false := by
    cases hplace with
    | switching _ _ _ hqueue hquit => exact ⟨hqueue, hquit⟩
    | quitting _ h _ _ => simp [hserver] at h
  subst hmsg
  cases task with
  | quit =>
    cases switchCommand_quit.symm.trans hswitch
    exact ⟨adds, [sendQuitTask], hprinted, hadds, horder, herror,
      .quitting messages (.inl rfl) hrest.1 rfl⟩
  | add operand1 operand2 =>
    cases (switchCommand_add hfits).symm.trans hswitch
    refine ⟨adds ++ [sendAddTask operand1 operand2], [], ?_, ?_, ?_, herror,
      .testing messages rfl hrest.1 hrest.2⟩
    · simp [hprinted]
    · intro msg hmsg
      rcases List.mem_append.mp hmsg with hmsg | hmsg
      · exact hadds msg hmsg
      · rw [List.mem_singleton.mp hmsg]
        rfl
    · rw [List.append_nil]
      exact horder

lemma Progress.step (hfits : ∀ client, ∀ task ∈ tasks client, task.Fits) (hsent : Sent tasks s)
    {adds taken messages : List Message} (hs : Progress s adds taken messages) {x : Event ι}
    (hx : Succeeds s x) (hstep : Step s x s') :
    ∃ adds taken messages, Progress s' adds taken messages := by
  obtain ⟨hprinted, hadds, horder, herror, hplace⟩ := id hs
  cases hstep with
  | send client task rest messages' _ hqueue _ => exact ⟨_, _, _, hs.send hqueue rfl⟩
  | mqOpen hserver =>
    cases hplace with
    | opening _ _ hquit =>
      exact ⟨_, _, _, hprinted, hadds, horder, herror, .receiving [] rfl rfl hquit⟩
    | receiving _ h _ _ | switching _ _ h _ _ | testing _ h _ _ => cases hserver.symm.trans h
    | quitting _ h _ _ => simp [hserver] at h
  | mqOpenFails hserver => cases hx
  | mqReceive msg messages' hserver hqueue =>
    cases hplace with
    | receiving messages _ hsome hquit =>
      cases hqueue.symm.trans hsome
      refine ⟨adds, [msg], messages', hprinted, hadds, ?_, herror,
        .switching msg messages' rfl rfl hquit⟩
      rw [horder]
      simp
    | opening h _ _ | switching _ _ h _ _ | testing _ h _ _ => cases hserver.symm.trans h
    | quitting _ h _ _ => simp [hserver] at h
  | mqReceiveFails hserver => cases hx
  | switch s'' msg hserver hswitch =>
    cases hplace with
    | switching msg' messages h hqueue hquit =>
      cases hserver.symm.trans h
      -- the message being answered was enqueued, so it is one of the tasks
      have hmem : msg ∈ s.enqueued.map Prod.snd := by
        rw [horder]
        simp
      obtain ⟨y, hy, rfl⟩ := List.mem_map.mp hmem
      obtain ⟨task, htask, hmsg⟩ := hsent.exists_task hy
      obtain ⟨adds, taken, h⟩ := hs.switch hserver hmsg (hfits y.1 task htask) hswitch
      exact ⟨adds, taken, messages, h⟩
    | opening h _ _ | receiving _ h _ _ | testing _ h _ _ => cases hserver.symm.trans h
    | quitting _ h _ _ => simp [hserver] at h
  | test hserver =>
    cases hplace with
    | testing messages _ hqueue hquit =>
      refine ⟨_, _, _, hprinted, hadds, horder, herror, .receiving messages ?_ hqueue hquit⟩
      simp [hquit, herror]
    | quitting messages _ hqueue hquit =>
      refine ⟨_, _, _, hprinted, hadds, horder, herror, .quitting messages ?_ hqueue hquit⟩
      simp [hquit]
    | opening h _ _ | receiving _ h _ _ | switching _ _ h _ _ => cases hserver.symm.trans h
  | mqClose success hserver =>
    cases hplace with
    | quitting messages _ hqueue hquit =>
      obtain rfl : success = true := hx
      exact ⟨_, _, _, hprinted, hadds, horder, by simp [herror],
        .quitting messages (.inr (.inr (.inl rfl))) hqueue hquit⟩
    | opening h _ _ | receiving _ h _ _ | switching _ _ h _ _ | testing _ h _ _ =>
      cases hserver.symm.trans h
  | mqUnlink success hserver =>
    cases hplace with
    | quitting messages _ hqueue hquit =>
      obtain rfl : success = true := hx
      refine ⟨_, _, _, hprinted, hadds, horder, by simp [herror],
        .quitting messages (.inr (.inr (.inr ⟨?_, ?_⟩))) hqueue hquit⟩
      · simp [herror]
      · simp
    | opening h _ _ | receiving _ h _ _ | switching _ _ h _ _ | testing _ h _ _ =>
      cases hserver.symm.trans h

/-- The invariant of the system. -/
def Serving (tasks : ι → List Task) (s : State ι) : Prop :=
  Sent tasks s ∧ ∃ adds taken messages, Progress s adds taken messages

lemma serving_initial : Serving tasks (initial tasks) :=
  ⟨sent_initial, [], [], [], progress_initial⟩

lemma Serving.step (hfits : ∀ client, ∀ task ∈ tasks client, task.Fits) (s : State ι)
    (x : Event ι) (s' : State ι) (hs : Serving tasks s) (hx : Succeeds s x)
    (hstep : Step s x s') : Serving tasks s' := by
  obtain ⟨hsent, adds, taken, messages, hprogress⟩ := hs
  exact ⟨hsent.step hstep, hprogress.step hfits hsent hx hstep⟩

/-! ### When the server stops -/

omit [DecidableEq ι] in
/-- What has been printed when the quit message is the one taken. -/
lemma Progress.printed_eq {adds messages : List Message}
    (hs : Progress s adds [sendQuitTask] messages) :
    s.printed = (beforeQuit s.enqueued).map (fun x => lineOf x.2) ∧
      (∀ x ∈ beforeQuit s.enqueued, x.2.command = CmdAdd) ∧
      ∃ x ∈ s.enqueued, x.2 = sendQuitTask := by
  have hbefore : (beforeQuit s.enqueued).map Prod.snd = adds := by
    have hmap : (beforeQuit s.enqueued).map Prod.snd =
        (s.enqueued.map Prod.snd).takeWhile fun msg => msg.command ≠ CmdQuit := by
      rw [List.takeWhile_map]
      rfl
    have hadds : ∀ msg ∈ adds, decide (msg.command ≠ CmdQuit) = true := by
      intro msg hmsg
      rw [hs.onlyAdds msg hmsg]
      decide
    rw [hmap, hs.order, List.append_assoc, List.takeWhile_append_of_pos hadds]
    simp [sendQuitTask]
  refine ⟨?_, ?_, ?_⟩
  · rw [hs.printed, ← hbefore, List.map_map]
    rfl
  · intro x hx
    exact hs.onlyAdds x.2 (hbefore ▸ List.mem_map_of_mem hx)
  · have hmem : sendQuitTask ∈ s.enqueued.map Prod.snd := by
      rw [hs.order]
      simp
    obtain ⟨x, hx, hquit⟩ := List.mem_map.mp hmem
    exact ⟨x, hx, hquit⟩

/-- Each client's messages are in the order in which it sent them. -/
lemma Sent.beforeQuit_prefix (hs : Sent tasks s) (client : ι) :
    ((beforeQuit s.enqueued).filter fun x => x.1 = client).map Prod.snd <+:
      (tasks client).map Task.message := by
  have hbefore : beforeQuit s.enqueued <+: s.enqueued := List.takeWhile_prefix _
  refine ((hbefore.filter _).map _).trans ?_
  rw [← hs client]
  exact List.prefix_append _ _

/-- For any tasks of the clients whose sums are integers, a server that has stopped after a run
in which the calls of the operating system succeed has found a quit message, has printed one line
for each message before it, which are all adds, and returns 0 with the queue unlinked. -/
theorem runServer_spec (hfits : ∀ client, ∀ task ∈ tasks client, task.Fits)
    {run : List (Event ι × State ι)} (hrun : IsRun Step (initial tasks) run)
    (hos : StepsMeet Succeeds (initial tasks) run) {code : ℤ}
    (hstop : (lastState (initial tasks) run).server = .returned code) :
    let s := lastState (initial tasks) run
    code = 0 ∧ s.linked = false ∧
      (∃ x ∈ s.enqueued, x.2 = sendQuitTask) ∧
      s.printed = (beforeQuit s.enqueued).map (fun x => lineOf x.2) ∧
      (∀ x ∈ beforeQuit s.enqueued, x.2.command = CmdAdd) ∧
      ∀ client, ((beforeQuit s.enqueued).filter fun x => x.1 = client).map Prod.snd <+:
        (tasks client).map Task.message := by
  intro s
  have hlast : Serving tasks s :=
    IsRun.invariant_last (Serving.step hfits) serving_initial hrun hos
  obtain ⟨hsent, adds, taken, messages, hs⟩ := hlast
  have hserver : s.server = .returned code := hstop
  cases hs.place with
  | quitting _ h _ _ =>
    obtain ⟨hcode, hlinked⟩ : code = 0 ∧ s.linked = false := by simpa [hserver] using h
    obtain ⟨hprinted, hadds, hquit⟩ := hs.printed_eq
    exact ⟨hcode, hlinked, hquit, hprinted, hadds, hsent.beforeQuit_prefix⟩
  | opening h _ _ | receiving _ h _ _ | switching _ _ h _ _ | testing _ h _ _ =>
    cases hserver.symm.trans h

/-- Two clients, one of which quits before the other has sent all of its messages. -/
def twoClients : Bool → List Task
  | false => [.add 10 (-2), .quit]
  | true => [.add 3 4, .add 5 6]

theorem runServer_spec_twoClients : ∃ run, IsRun Step (initial twoClients) run ∧
    StepsMeet Succeeds (initial twoClients) run ∧
    (lastState (initial twoClients) run).server = .returned 0 ∧
    (lastState (initial twoClients) run).enqueued.length = 4 ∧
    (lastState (initial twoClients) run).printed = [⟨3, 4, 7⟩, ⟨10, -2, 8⟩] := by
  have hrun : ∃ run, IsRun Step (initial twoClients) run ∧
      StepsMeet Succeeds (initial twoClients) run ∧
      (lastState (initial twoClients) run).server = .returned 0 ∧
      (lastState (initial twoClients) run).enqueued =
        [(true, sendAddTask 3 4), (false, sendAddTask 10 (-2)), (false, sendQuitTask),
          (true, sendAddTask 5 6)] := by
    refine ⟨[(.mqOpen true, _), (.send true, _), (.send false, _), (.mqReceive true, _),
      (.switch, _), (.test, _), (.send false, _), (.mqReceive true, _), (.switch, _),
      (.send true, _), (.test, _), (.mqReceive true, _), (.switch, _), (.test, _),
      (.mqClose true, _), (.mqUnlink true, _)],
      ⟨.mqOpen _ rfl, .send _ _ (.add 3 4) _ _ rfl rfl (by decide),
        .send _ _ (.add 10 (-2)) _ _ rfl rfl (by decide), .mqReceive _ _ _ rfl rfl,
        .switch _ _ _ rfl rfl, .test _ rfl, .send _ _ .quit _ _ rfl rfl (by decide),
        .mqReceive _ _ _ rfl rfl, .switch _ _ _ rfl rfl,
        .send _ _ (.add 5 6) _ _ rfl rfl (by decide), .test _ rfl, .mqReceive _ _ _ rfl rfl,
        .switch _ _ _ rfl rfl, .test _ rfl, .mqClose _ true rfl, .mqUnlink _ true rfl, trivial⟩,
      ?_, rfl, rfl⟩
    simp [Succeeds]
  obtain ⟨run, hrun, hos, hstop, henqueued⟩ := hrun
  have hfits : ∀ client, ∀ task ∈ twoClients client, task.Fits := by
    intro client task htask
    cases client <;> simp only [twoClients, List.mem_cons, List.not_mem_nil, or_false] at htask <;>
      rcases htask with rfl | rfl <;> simp [Task.Fits, IsInt]
  obtain ⟨-, -, -, hprinted, -, -⟩ := runServer_spec hfits hrun hos hstop
  refine ⟨run, hrun, hos, hstop, by rw [henqueued]; rfl, ?_⟩
  rw [hprinted, henqueued]
  rfl

end StyLinux.Mqueue
