import SjmbSlack.Slackbot.WorkerCorrect
import SjmbSlack.SocketMode.Sessions

/-! One session as a system of its own: its worker and the health of its workspaces
make the steps of theirs, and nothing ends the worker before the session is over. -/
namespace SjmbSlack.SocketMode.Sessions
open Machine Limits Slackbot Slackbot.Worker

namespace Session

def machine : System Session Action where
  start := fun session => ∃ clock, session = new clock
  step := step

def Listener.identity (listener : Listener) : Str × Str :=
  (listener.workspace.teamId, listener.workspace.appId)

theorem has_eq_false {session : Session} {teamId appId : Str} (h : session.has teamId appId = false)
    {listener : Listener} (hmem : listener ∈ session.listeners) :
    Listener.identity listener ≠ (teamId, appId) := by
  intro hsame
  refine absurd (List.any_eq_false.mp h listener hmem) ?_
  simp only [decide_eq_true_eq, not_not]
  exact ⟨congrArg Prod.fst hsame, congrArg Prod.snd hsame⟩

inductive Stepped (session : Session) : Action → Session → Prop where
  | advanced (elapsed : Nat) : Stepped session (.advance elapsed) { session with
      worker := { session.worker with clock := session.worker.clock + elapsed } }
  | joined (workspace : Workspace) (haccepting : session.accepting = true)
      (hfresh : session.has workspace.teamId workspace.appId = false) :
      Stepped session (.join workspace) { session with
        listeners := session.listeners ++ [⟨workspace, Health.initial, false⟩]
        worker := { session.worker with senders := session.worker.senders + 1 } }
  | health (index : Nat) (action : Health.Action) (listener : Listener) (health : Health.State)
      (hlistener : session.listeners[index]? = some listener)
      (hhealth : Health.step listener.workspace listener.health action = some health) :
      Stepped session (.health index action) { session with
        listeners := session.listeners.set index { listener with health := health } }
  | shut (index : Nat) (listener : Listener) (hlistener : session.listeners[index]? = some listener) :
      Stepped session (.shut index) { session with
        listeners := session.listeners.set index { listener with closed := true } }
  | worked (world : World) (worker : Worker.State) (hlive : session.dropped = false)
      (hworker : Worker.step session.worker (.work world) = some worker) :
      Stepped session (.work world) { session with worker := worker }
  | lost (message : QueuedMessage) (hdropped : session.dropped = true) :
      Stepped session (.send message) session
  | sent (message : QueuedMessage) (worker : Worker.State) (hlive : session.dropped = false)
      (hworker : Worker.step session.worker (.send message) = some worker) :
      Stepped session (.send message) { session with worker := worker }
  | closed (haccepting : session.accepting = true) : Stepped session .close { session with
      accepting := false
      worker := { session.worker with senders := session.worker.senders - 1, drainSignal := true } }
  | dropped (haccepting : session.accepting = false) : Stepped session .drop { session with dropped := true }

theorem stepped_of_step {session changed : Session} {a : Action} (h : session.step a = some changed) :
    Stepped session a changed := by
  cases a with
  | advance elapsed =>
      cases Option.some.inj h
      exact .advanced elapsed
  | join workspace =>
      simp only [step] at h
      split at h
      · rename_i hjoin
        cases Option.some.inj h
        exact .joined workspace hjoin.1 (by simpa using hjoin.2)
      · contradiction
  | health index action =>
      obtain ⟨listener, hlistener, h⟩ := Option.bind_eq_some_iff.mp h
      obtain ⟨health, hhealth, h⟩ := Option.bind_eq_some_iff.mp h
      cases Option.some.inj h
      exact .health index action listener health hlistener hhealth
  | shut index =>
      obtain ⟨listener, hlistener, h⟩ := Option.bind_eq_some_iff.mp h
      cases Option.some.inj h
      exact .shut index listener hlistener
  | work world =>
      simp only [step] at h
      split at h
      · contradiction
      · rename_i hlive
        obtain ⟨worker, hworker, rfl⟩ := Option.map_eq_some_iff.mp h
        exact .worked world worker (by simpa using hlive) hworker
  | send message =>
      simp only [step] at h
      split at h
      · rename_i hdropped
        cases Option.some.inj h
        exact .lost message hdropped
      · rename_i hlive
        obtain ⟨worker, hworker, rfl⟩ := Option.map_eq_some_iff.mp h
        exact .sent message worker (by simpa using hlive) hworker
  | close =>
      simp only [step] at h
      split at h
      · rename_i haccepting
        cases Option.some.inj h
        exact .closed haccepting
      · contradiction
  | drop =>
      simp only [step] at h
      split at h
      · contradiction
      · rename_i haccepting
        cases Option.some.inj h
        exact .dropped (by simpa using haccepting)

structure Sound (session : Session) : Prop where
  worker : Reachable Worker.machine session.worker
  health : ∀ listener ∈ session.listeners,
    Reachable (Health.machine listener.workspace) listener.health
  distinct : (session.listeners.map Listener.identity).Nodup
  senders : session.listeners.length + (if session.accepting then 1 else 0) ≤ session.worker.senders
  running : session.accepting = true → session.dropped = false ∧ session.worker.drainSignal = false ∧
    session.worker.draining = false ∧ session.worker.queue.closed = false ∧
    session.worker.task ≠ .returned

end Session

namespace Session

theorem Sound.set_listener {session : Session} (h : session.Sound) {index : Nat}
    {listener changed : Listener} (hlistener : session.listeners[index]? = some listener)
    (hworkspace : changed.workspace = listener.workspace)
    (hhealth : Reachable (Health.machine listener.workspace) changed.health) :
    Sound { session with listeners := session.listeners.set index changed } where
  worker := h.worker
  health := by
    intro other hmem
    rcases List.mem_or_eq_of_mem_set hmem with hold | rfl
    · exact h.health other hold
    · rw [hworkspace]
      exact hhealth
  distinct := by
    obtain ⟨hlt, rfl⟩ := List.getElem?_eq_some_iff.mp hlistener
    have hsame : (session.listeners.set index changed).map Listener.identity =
        session.listeners.map Listener.identity := by
      rw [List.map_set, Listener.identity, hworkspace]
      exact (List.map_set (f := Listener.identity)).symm.trans (by rw [List.set_getElem_self])
    rw [hsame]
    exact h.distinct
  senders := by simpa using h.senders
  running := h.running

theorem sound_new (clock : Nat) : (new clock).Sound where
  worker := .start ⟨clock, MESSAGE_QUEUE_BOUND, 1, rfl⟩
  health := by simp [new]
  distinct := .nil
  senders := by simp [new, Worker.initial]
  running := fun _ => ⟨rfl, rfl, rfl, rfl, by simp [new, Worker.initial]⟩

theorem sound_step {session changed : Session} {a : Action} (h : session.Sound)
    (hstep : session.step a = some changed) : changed.Sound := by
  cases stepped_of_step hstep with
  | advanced elapsed =>
      exact ⟨.next (a := .advance elapsed) h.worker trivial rfl, h.health, h.distinct, h.senders, h.running⟩
  | joined workspace haccepting hfresh =>
      have hsenders := h.senders
      rw [haccepting, if_pos rfl] at hsenders
      refine ⟨.next (a := .cloneSender) h.worker trivial (if_neg (by omega)), ?_, ?_, ?_, h.running⟩
      · intro listener hmem
        rcases List.mem_append.mp hmem with hold | hnew
        · exact h.health listener hold
        · cases List.mem_singleton.mp hnew
          exact .start rfl
      · rw [List.map_append, List.map_singleton]
        refine List.nodup_append.mpr ⟨h.distinct, List.nodup_singleton _, ?_⟩
        intro identity hold other hnew
        obtain ⟨listener, hmem, rfl⟩ := List.mem_map.mp hold
        cases List.mem_singleton.mp hnew
        exact has_eq_false hfresh hmem
      · simp only [List.length_append, List.length_singleton, haccepting, if_true]
        omega
  | health index action listener health hlistener hhealth =>
      exact h.set_listener hlistener rfl
        (.next (h.health listener (List.mem_of_getElem? hlistener)) trivial hhealth)
  | shut index listener hlistener =>
      exact h.set_listener hlistener rfl (h.health listener (List.mem_of_getElem? hlistener))
  | worked world worker hlive hworker =>
      refine ⟨.next (a := .work world) h.worker trivial hworker, h.health, h.distinct, ?_, ?_⟩
      · rw [work_senders hworker]
        exact h.senders
      · intro haccepting
        obtain ⟨hnot, hsignal, hdraining, hopen, -⟩ := h.running haccepting
        have hsenders := h.senders
        rw [haccepting, if_pos rfl] at hsenders
        obtain ⟨-, hsignal', hdraining', hopen', htask⟩ :=
          work_running (by omega) hsignal hopen hworker
        exact ⟨hnot, hsignal', hdraining'.trans hdraining, hopen', htask⟩
  | lost message hdropped => exact h
  | sent message worker hlive hworker =>
      obtain ⟨hsenders, hsignal, hdraining, hclosed, htask⟩ := send_fields hworker
      refine ⟨.next (a := .send message) h.worker trivial hworker, h.health, h.distinct, ?_, ?_⟩
      · rw [hsenders]
        exact h.senders
      · rw [hsignal, hdraining, hclosed, htask]
        exact h.running
  | closed haccepting =>
      have hsenders := h.senders
      rw [haccepting, if_pos rfl] at hsenders
      have hleft : Reachable Worker.machine
          { session.worker with senders := session.worker.senders - 1 } :=
        .next (a := .dropSender) h.worker trivial (if_neg (by omega))
      refine ⟨.next (a := .signalDrain) hleft trivial rfl, h.health, h.distinct, ?_, fun hnot => by cases hnot⟩
      show session.listeners.length + 0 ≤ session.worker.senders - 1
      omega
  | dropped haccepting =>
      refine ⟨h.worker, h.health, h.distinct, h.senders, fun hyes => ?_⟩
      rw [haccepting] at hyes
      cases hyes

end Session

end SjmbSlack.SocketMode.Sessions
