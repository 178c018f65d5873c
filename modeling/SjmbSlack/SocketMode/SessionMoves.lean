import Mathlib.Logic.Relation
import SjmbSlack.SocketMode.SessionParts

/-! What a step of the Socket Mode backend consists of: moves of the control loop, of
one session, of a callback. What every move keeps, every run keeps. -/
namespace SjmbSlack.SocketMode.Sessions
open Machine Limits Slackbot Slackbot.Worker Ingress

/-- The actions of a session that touch neither its queue nor its clock. -/
def Session.Action.plain : Session.Action → Bool
  | .join _ | .health _ _ | .shut _ | .close | .drop => true
  | _ => false

def Delivery.fate (config : Config) (delivery : Delivery) : Pushed :=
  handlerPushEvents delivery.workspace config.dryRun delivery.event delivery.time

def State.tick (s : State) (elapsed : Nat) : State := { s with
  control := { s.control with clock := s.control.clock + elapsed }
  sessions := s.sessions.map fun session =>
    { session with worker := { session.worker with clock := session.worker.clock + elapsed } } }

inductive Move (config : Config) (s : State) : State → Prop where
  | controlled (action : Supervisor.Action) (control : Supervisor.State)
      (hquiet : ∀ elapsed, action ≠ .advance elapsed)
      (hstep : Supervisor.step config.names.length s.control action = some control) :
      Move config s { s with control := control }
  | acted (index : Nat) (action : Session.Action) (session changed : Session)
      (hplain : action.plain = true) (hsession : s.sessions[index]? = some session)
      (hstep : session.step action = some changed) :
      Move config s { s with sessions := s.sessions.set index changed }
  | advanced (elapsed : Nat) : Move config s (s.tick elapsed)
  | began : Move config s { s with sessions := s.sessions ++ [.new s.clock] }
  | worked (world : World) (session worked : Session) (hsession : s.sessions[s.current]? = some session)
      (hstep : session.step (.work (extracting config world)) = some worked) :
      Move config s { s with
        sessions := s.sessions.set s.current worked
        counters := s.counters.add (counted config session.worker worked.worker) }
  | ignored (delivery : Delivery)
      (hfate : (∃ failure, delivery.fate config = .foreign failure) ∨ delivery.fate config = .unsupported) :
      Move config s (s.deliver delivery)
  | discarded (delivery : Delivery) (discard : Discard) (hfate : delivery.fate config = .discarded discard) :
      Move config s { s.deliver delivery with counters := s.counters.discard discard }
  | waited (delivery : Delivery) (message : QueuedMessage) (session : Session)
      (hfate : delivery.fate config = .enqueue message)
      (hsession : s.sessions[delivery.session]? = some session) (haccepting : session.accepting = true)
      (hlisteners : session.listeners ≠ []) :
      Move config s { s.deliver delivery with
        waiting := s.waiting ++ [⟨delivery.session, delivery.event.eventId, message⟩] }
  | refused (delivery : Delivery) (message : QueuedMessage) (session : Session)
      (hfate : delivery.fate config = .enqueue message)
      (hsession : s.sessions[delivery.session]? = some session) (haccepting : session.accepting = false) :
      Move config s { s.deliver delivery with results := s.results ++ [.error {}] }
  | locked (position : Nat) (iteration : Iteration (Entry EventKey Unit)) (t : State)
      (hstep : lock s position iteration = some t) : Move config s t
  | reported : Move config s { s with counters := .zero, reported := s.reported.add s.counters }

abbrev Moves (config : Config) : State → State → Prop := Relation.ReflTransGen (Move config)

section

variable {config : Config} {s t : State}

theorem onSession_eq {index : Nat} {action : Session.Action} (h : s.onSession index action = some t) :
    ∃ session changed, s.sessions[index]? = some session ∧ session.step action = some changed ∧
      t = { s with sessions := s.sessions.set index changed } := by
  obtain ⟨session, hsession, h⟩ := Option.bind_eq_some_iff.mp h
  obtain ⟨changed, hchanged, h⟩ := Option.bind_eq_some_iff.mp h
  exact ⟨session, changed, hsession, hchanged, (Option.some.inj h).symm⟩

theorem controlled_eq {action : Supervisor.Action} (h : controlled config s action = some t) :
    ∃ control, Supervisor.step config.names.length s.control action = some control ∧
      t = { s with control := control } := by
  obtain ⟨control, hcontrol, h⟩ := Option.map_eq_some_iff.mp h
  exact ⟨control, hcontrol, h.symm⟩

theorem onSession_moves {index : Nat} {action : Session.Action} (hplain : action.plain = true)
    (h : s.onSession index action = some t) : Moves config s t := by
  obtain ⟨session, changed, hsession, hchanged, rfl⟩ := onSession_eq h
  exact .single (.acted index action session changed hplain hsession hchanged)

theorem controlled_moves {action : Supervisor.Action} (hquiet : ∀ elapsed, action ≠ .advance elapsed)
    (h : controlled config s action = some t) : Moves config s t := by
  obtain ⟨control, hcontrol, rfl⟩ := controlled_eq h
  exact .single (.controlled action control hquiet hcontrol)

theorem settle_moves (h : s.settle = some t) : Moves config s t := by
  unfold State.settle at h
  split at h
  · exact onSession_moves rfl h
  · cases Option.some.inj h
    exact .refl

theorem finish_moves {action : Supervisor.Action} (hquiet : ∀ elapsed, action ≠ .advance elapsed)
    (h : finish config s action = some t) : Moves config s t := by
  obtain ⟨closed, hclosed, h⟩ := Option.bind_eq_some_iff.mp h
  obtain ⟨ended, hended, h⟩ := Option.bind_eq_some_iff.mp h
  exact ((onSession_moves rfl hclosed).trans (controlled_moves hquiet hended)).trans (settle_moves h)

theorem connected_moves {teamId appId : Str} (h : connected config s teamId appId = some t) :
    Moves config s t := by
  obtain ⟨session, -, h⟩ := Option.bind_eq_some_iff.mp h
  obtain ⟨name, -, h⟩ := Option.bind_eq_some_iff.mp h
  split at h
  · split at h
    · exact finish_moves (by simp) h
    · obtain ⟨joined, hjoined, h⟩ := Option.bind_eq_some_iff.mp h
      exact (onSession_moves rfl hjoined).trans (controlled_moves (by simp) h)
  · contradiction

theorem returned_quiet {health : Health.State} {action : Supervisor.Action}
    (h : returned health = some action) (elapsed : Nat) : action ≠ .advance elapsed := by
  unfold returned at h
  split at h <;> cases h <;> simp

theorem watch_moves {index : Nat} (h : watch config s index = some t) : Moves config s t := by
  unfold watch at h
  split at h
  · obtain ⟨watched, hwatched, h⟩ := Option.bind_eq_some_iff.mp h
    obtain ⟨session, -, h⟩ := Option.bind_eq_some_iff.mp h
    obtain ⟨listener, -, h⟩ := Option.bind_eq_some_iff.mp h
    have hfirst : Moves config s watched := onSession_moves rfl hwatched
    split at h
    · cases Option.some.inj h
      exact hfirst
    · exact hfirst.trans (controlled_moves (by simp) h)
    · rename_i action _ hreturned
      exact hfirst.trans (finish_moves (returned_quiet hreturned) h)
  · contradiction

theorem work_moves {world : World} (h : work config s world = some t) : Moves config s t := by
  obtain ⟨session, hsession, h⟩ := Option.bind_eq_some_iff.mp h
  obtain ⟨worked, hworked, h⟩ := Option.bind_eq_some_iff.mp h
  have hfirst := Move.worked world session worked hsession hworked
  dsimp only at h
  split at h
  · split at h
    · exact .head hfirst (finish_moves (by simp) h)
    · cases Option.some.inj h
      exact .single hfirst
  · split at h
    · obtain ⟨ended, hended, h⟩ := Option.bind_eq_some_iff.mp h
      exact .head hfirst ((controlled_moves (by simp) hended).trans (settle_moves h))
    · cases Option.some.inj h
      exact .single hfirst
  · contradiction

theorem shut_moves {action : Supervisor.Action} {left : Nat}
    (hquiet : ∀ elapsed, action ≠ .advance elapsed) (h : shut config s action left = some t) :
    Moves config s t := by
  obtain ⟨closed, hclosed, h⟩ := Option.bind_eq_some_iff.mp h
  obtain ⟨ended, hended, h⟩ := Option.bind_eq_some_iff.mp h
  exact ((onSession_moves rfl hclosed).trans (controlled_moves hquiet hended)).trans (settle_moves h)

theorem timeout_moves (h : timeout config s = some t) : Moves config s t := by
  unfold timeout at h
  split at h
  · exact finish_moves (by simp) h
  · exact shut_moves (by simp) h
  · obtain ⟨ended, hended, h⟩ := Option.bind_eq_some_iff.mp h
    exact (controlled_moves (by simp) hended).trans (settle_moves h)

theorem push_moves {index position : Nat} {event : SlackPushEventCallback}
    (h : push config s index position event = some t) : Moves config s t := by
  obtain ⟨session, hsession, h⟩ := Option.bind_eq_some_iff.mp h
  obtain ⟨listener, hlistener, h⟩ := Option.bind_eq_some_iff.mp h
  have hsome : session.listeners ≠ [] := by
    intro hnil
    simp [hnil] at hlistener
  cases hfate : handlerPushEvents listener.workspace config.dryRun event s.clock with
  | foreign failure =>
      simp only [hfate] at h
      exact .head (.ignored ⟨index, listener.workspace, event, s.clock⟩ (.inl ⟨failure, hfate⟩))
        (onSession_moves rfl h)
  | unsupported =>
      simp only [hfate] at h
      cases Option.some.inj h
      exact .single (.ignored ⟨index, listener.workspace, event, s.clock⟩ (.inr hfate))
  | discarded discard =>
      simp only [hfate] at h
      cases Option.some.inj h
      exact .single (.discarded ⟨index, listener.workspace, event, s.clock⟩ discard hfate)
  | enqueue message =>
      simp only [hfate] at h
      split at h
      · rename_i haccepting
        cases Option.some.inj h
        exact .single (.waited ⟨index, listener.workspace, event, s.clock⟩ message session hfate hsession
          haccepting hsome)
      · rename_i haccepting
        cases Option.some.inj h
        exact .single (.refused ⟨index, listener.workspace, event, s.clock⟩ message session hfate hsession
          (by simpa using haccepting))

theorem step_moves {a : Action} (h : step config s a = some t) : Moves config s t := by
  cases a with
  | advance elapsed =>
      simp only [step] at h
      obtain ⟨advanced, hadvanced, h⟩ := Option.bind_eq_some_iff.mp h
      obtain ⟨control, hcontrol, rfl⟩ := controlled_eq hadvanced
      cases Option.some.inj hcontrol
      cases Option.some.inj h
      exact .single (.advanced elapsed)
  | signal result => exact controlled_moves (by simp) h
  | takeShutdown =>
      simp only [step] at h
      split at h
      · exact finish_moves (by simp) h
      · exact controlled_moves (by simp) h
  | connected teamId appId => exact connected_moves h
  | refused error =>
      simp only [step] at h
      split at h
      · exact finish_moves (by simp) h
      · exact finish_moves (by simp) h
      · contradiction
  | registered => exact controlled_moves (by simp) h
  | started => exact controlled_moves (by simp) h
  | watch index => exact watch_moves h
  | work world => exact work_moves h
  | closed =>
      simp only [step] at h
      split at h
      · exact shut_moves (by simp) h
      · contradiction
  | timeout => exact timeout_moves h
  | leave millis => exact controlled_moves (by simp) h
  | wake =>
      obtain ⟨woken, hwoken, h⟩ := Option.bind_eq_some_iff.mp h
      cases Option.some.inj h
      exact (controlled_moves (by simp) hwoken).trans (.single .began)
  | push index position found event =>
      simp only [step] at h
      split at h
      · exact push_moves h
      · cases Option.some.inj h
        exact .refl
  | lock position iteration => exact .single (.locked position iteration t h)
  | hello index position found appId => exact onSession_moves rfl h
  | failure index position named found error =>
      obtain ⟨session, -, h⟩ := Option.bind_eq_some_iff.mp h
      obtain ⟨listener, -, h⟩ := Option.bind_eq_some_iff.mp h
      split at h
      · exact onSession_moves rfl h
      · cases Option.some.inj h
        exact .refl
  | notify index position => exact onSession_moves rfl h
  | report =>
      cases Option.some.inj h
      exact .single .reported

/-- The invariant rule over moves. -/
theorem moves_invariant {P : State → Prop} (hstart : ∀ clock, P (initial clock))
    (hmove : ∀ s t, P s → Move config s t → P t) (h : Reachable (machine config) s) : P s := by
  refine h.invariant (P := P) ?_ fun s a t _ hP _ hstep => ?_
  · rintro s ⟨clock, rfl⟩
    exact hstart clock
  · have hmoves := step_moves hstep
    clear hstep
    induction hmoves with
    | refl => exact hP
    | tail _ hlast ih => exact hmove _ _ ih hlast

end

end SjmbSlack.SocketMode.Sessions
