import Mathlib
import StyLinux.Mqueue.Server

/-!
# Runs of the server that complete

While the calls of the operating system succeed, every run is finite. It goes on until the server
has returned, with nothing left to send unless the queue is full, or until all messages have been
answered and none of them was a quit message.
-/

namespace StyLinux.Mqueue

open Lib

variable {ι : Type} [DecidableEq ι] {s s' : State ι} {tasks : ι → List Task}

/-! ### The number of steps that are left -/

/-- The steps of the server to its end, or to the next message. -/
def Server.left : Server → ℕ
  | .opening => 3
  | .receiving => 2
  | .switching _ => 4
  | .testing => 3
  | .closing => 2
  | .unlinking => 1
  | .returned _ => 0

variable [Fintype ι]

/-- A message is sent, received, answered and followed by the test of the loop. -/
def stepsLeft (s : State ι) : ℕ :=
  4 * ∑ client, (s.tasks client).length + 3 * (s.queue.getD []).length + s.server.left

lemma stepsLeft_step {x : Event ι} (hx : Succeeds s x) (hstep : Step s x s') :
    stepsLeft s' < stepsLeft s := by
  unfold stepsLeft
  cases hstep with
  | send client task rest messages htask hqueue _ =>
    have hsum : ∑ c, (Function.update s.tasks client rest c).length + 1 =
        ∑ c, (s.tasks c).length := by
      rw [← Finset.add_sum_erase _ _ (Finset.mem_univ client),
        ← Finset.add_sum_erase _ (fun c => (s.tasks c).length) (Finset.mem_univ client),
        Function.update_self, htask, List.length_cons]
      have hothers :
          ∑ c ∈ Finset.univ.erase client, (Function.update s.tasks client rest c).length =
            ∑ c ∈ Finset.univ.erase client, (s.tasks c).length := by
        apply Finset.sum_congr rfl
        intro c hc
        rw [Function.update_of_ne (Finset.ne_of_mem_erase hc)]
      rw [hothers]
      omega
    rw [hqueue]
    simp only [Option.getD_some, List.length_append, List.length_singleton]
    omega
  | mqOpen hserver =>
    simp only [hserver, Server.left, Option.getD_some, List.length_nil]
    omega
  | mqOpenFails => cases hx
  | mqReceive msg messages hserver hqueue =>
    simp only [hserver, hqueue, Server.left, Option.getD_some, List.length_cons]
    omega
  | mqReceiveFails => cases hx
  | switch s'' msg hserver hswitch =>
    obtain ⟨hqueue, -, htasks, -⟩ := switchCommand_frame hswitch
    simp only [hserver, hqueue, htasks, Server.left]
    omega
  | test hserver =>
    have hleft : (if !s.didQuit && !s.hadError then Server.receiving else .closing).left = 2 := by
      split <;> rfl
    simp only [hserver, hleft]
    simp only [Server.left]
    omega
  | mqClose success hserver =>
    simp only [hserver, Server.left]
    omega
  | mqUnlink success hserver =>
    simp only [hserver, Server.left]
    omega

/-! ### Where a run ends -/

omit [Fintype ι] in
lemma Sent.switchCommand_isSome (hs : Sent tasks s)
    (hfits : ∀ client, ∀ task ∈ tasks client, task.Fits) {msg : Message}
    (hmsg : msg ∈ s.enqueued.map Prod.snd) : ∃ s', switchCommand msg s = some s' := by
  obtain ⟨x, hx, rfl⟩ := List.mem_map.mp hmsg
  obtain ⟨task, htask, hmessage⟩ := hs.exists_task hx
  rw [hmessage]
  cases task with
  | quit => exact ⟨_, switchCommand_quit⟩
  | add operand1 operand2 => exact ⟨_, switchCommand_add (hfits x.1 _ htask)⟩

/-- No step in which the operating system succeeds is possible. -/
def Ended (s : State ι) : Prop := ∀ x s', Succeeds s x → ¬Step s x s'

omit [Fintype ι] in
lemma Ended.tasks_eq_nil (hs : Ended s) {messages : List Message} (hqueue : s.queue = some messages)
    (hroom : messages.length < mq_maxmsg) (client : ι) : s.tasks client = [] := by
  cases htasks : s.tasks client with
  | nil => rfl
  | cons task rest =>
    exact absurd (.send s client task rest messages htasks hqueue hroom)
      (hs (.send client) _ trivial)

omit [Fintype ι] in
/-- The server has returned and the clients have sent what they could, or it waits for a message
that nobody sends. -/
lemma Ended.returned (hfits : ∀ client, ∀ task ∈ tasks client, task.Fits) (hs : Serving tasks s)
    (hend : Ended s) (hquit : ∃ client, .quit ∈ tasks client) :
    s.server = .returned 0 ∧ ∃ messages, s.queue = some messages ∧
      (messages.length < mq_maxmsg → ∀ client, s.tasks client = []) := by
  obtain ⟨hsent, adds, taken, messages, hprogress⟩ := hs
  cases hprogress.place with
  | opening hserver _ _ => exact absurd (.mqOpen s hserver) (hend (.mqOpen true) _ rfl)
  | receiving _ hserver hqueue _ =>
    cases hmessages : messages with
    | cons msg messages =>
      exact absurd (.mqReceive s msg messages hserver (hmessages ▸ hqueue))
        (hend (.mqReceive true) _ rfl)
    | nil =>
      -- all messages are adds that were answered, the quit message among them
      obtain ⟨client, hclient⟩ := hquit
      have hall := hsent client
      rw [hend.tasks_eq_nil hqueue (by simp [hmessages, mq_maxmsg]) client, List.map_nil,
        List.append_nil] at hall
      have hmem : sendQuitTask ∈ (tasks client).map Task.message :=
        List.mem_map.mpr ⟨.quit, hclient, rfl⟩
      rw [← hall] at hmem
      obtain ⟨x, hx, hmsg⟩ := List.mem_map.mp hmem
      have henqueued : sendQuitTask ∈ s.enqueued.map Prod.snd :=
        List.mem_map.mpr ⟨x, List.mem_of_mem_filter hx, hmsg⟩
      rw [hprogress.order, hmessages, List.append_nil, List.append_nil] at henqueued
      have hcommand := hprogress.onlyAdds _ henqueued
      cases hcommand
  | switching msg _ hserver _ _ =>
    have hmem : msg ∈ s.enqueued.map Prod.snd := by
      rw [hprogress.order]
      simp
    obtain ⟨s', hswitch⟩ := hsent.switchCommand_isSome hfits hmem
    exact absurd (.switch s s' msg hserver hswitch) (hend .switch _ trivial)
  | testing _ hserver _ _ => exact absurd (.test s hserver) (hend .test _ trivial)
  | quitting _ hserver hqueue _ =>
    rcases hserver with hserver | hserver | hserver | ⟨hserver, -⟩
    · exact absurd (.test s hserver) (hend .test _ trivial)
    · exact absurd (.mqClose s true hserver) (hend (.mqClose true) _ rfl)
    · exact absurd (.mqUnlink s true hserver) (hend (.mqUnlink true) _ rfl)
    · exact ⟨hserver, messages, hqueue, fun hroom => hend.tasks_eq_nil hqueue hroom⟩

/-- If the calls of the operating system succeed and some client sends a quit message, every run is
finite and goes on until the server has returned 0; what the clients have not sent by then is held
up by a full queue. -/
theorem runServer_completes (hfits : ∀ client, ∀ task ∈ tasks client, task.Fits)
    (hquit : ∃ client, .quit ∈ tasks client) {run : List (Event ι × State ι)}
    (hrun : IsRun Step (initial tasks) run) (hos : StepsMeet Succeeds (initial tasks) run) :
    run.length ≤ 4 * ∑ client, (tasks client).length + 3 ∧
      (Ended (lastState (initial tasks) run) →
        let s := lastState (initial tasks) run
        s.server = .returned 0 ∧ ∃ messages, s.queue = some messages ∧
          (messages.length < mq_maxmsg → ∀ client, s.tasks client = [])) := by
  constructor
  · have hle := IsRun.length_add_le (μ := stepsLeft)
      (fun s x s' h => stepsLeft_step h.2 h.1) (hrun.and_stepsMeet hos)
    have hstart : stepsLeft (initial tasks) = 4 * ∑ client, (tasks client).length + 3 := rfl
    omega
  · exact fun hend => hend.returned hfits
      (IsRun.invariant_last (Serving.step hfits) serving_initial hrun hos) hquit

/-- A single client, which quits at once. -/
def oneQuit (_ : Unit) : List Task := [.quit]

theorem runServer_completes_oneQuit : ∃ run, IsRun Step (initial oneQuit) run ∧
    run.length = 4 * ∑ client, (oneQuit client).length + 3 ∧
      run.length ≤ 4 * ∑ client, (oneQuit client).length + 3 ∧
      (Ended (lastState (initial oneQuit) run) →
        let s := lastState (initial oneQuit) run
        s.server = .returned 0 ∧ ∃ messages, s.queue = some messages ∧
          (messages.length < mq_maxmsg → ∀ client, s.tasks client = [])) := by
  obtain ⟨run, hrun, hos, hlength⟩ : ∃ run, IsRun Step (initial oneQuit) run ∧
      StepsMeet Succeeds (initial oneQuit) run ∧ run.length = 7 :=
    ⟨[(.mqOpen true, _), (.send (), _), (.mqReceive true, _), (.switch, _), (.test, _),
        (.mqClose true, _), (.mqUnlink true, _)],
      ⟨.mqOpen _ rfl, .send _ _ .quit _ _ rfl rfl (by decide), .mqReceive _ _ _ rfl rfl,
        .switch _ _ _ rfl rfl, .test _ rfl, .mqClose _ true rfl, .mqUnlink _ true rfl, trivial⟩,
      by simp [Succeeds], rfl⟩
  have hfits : ∀ client, ∀ task ∈ oneQuit client, task.Fits := by
    intro client task htask
    rw [List.mem_singleton.mp htask]
    trivial
  exact ⟨run, hrun, hlength, runServer_completes hfits ⟨(), by decide⟩ hrun hos⟩

end StyLinux.Mqueue
