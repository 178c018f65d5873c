import SjmbSlack.Harvest.Extract
import SjmbSlack.Slackbot.Worker
import SjmbSlack.SocketMode.Callbacks
import SjmbSlack.SocketMode.Health
import SjmbSlack.SocketMode.Ingress
import SjmbSlack.SocketMode.Supervisor

/-! The Socket Mode backend: the control loop with the listeners, the admission, the
worker and the health of each session. The callbacks of all sessions, also of those
that are over, run at any time between the steps of the others. -/
namespace SjmbSlack.SocketMode.Sessions
open Machine Limits Slackbot Slackbot.Worker Ingress

structure Listener where
  workspace : Workspace
  health : Health.State
  /-- Its `shutdown` ended, or timed out. -/
  closed : Bool

/-- One pass of the loop. The senders of the worker's queue are those of
`connect_and_watch` and of the listeners, which outlive the worker; the clones that
the callbacks hold make no difference. -/
structure Session where
  accepting : Bool
  worker : Worker.State
  dropped : Bool
  listeners : List Listener

namespace Session

def new (clock : Nat) : Session where
  accepting := true
  worker := Worker.initial clock MESSAGE_QUEUE_BOUND 1
  dropped := false
  listeners := []

inductive Action where
  | advance (elapsed : Nat)
  | join (workspace : Workspace)
  | health (listener : Nat) (action : Health.Action)
  | shut (listener : Nat)
  | work (world : World)
  | send (message : QueuedMessage)
  | close
  | drop

def has (session : Session) (teamId appId : Str) : Bool :=
  session.listeners.any fun listener =>
    listener.workspace.teamId = teamId ∧ listener.workspace.appId = appId

def step (session : Session) : Action → Option Session
  | .advance elapsed =>
      some { session with worker := { session.worker with clock := session.worker.clock + elapsed } }
  | .join workspace =>
      if session.accepting ∧ ¬ session.has workspace.teamId workspace.appId then some { session with
        listeners := session.listeners ++ [⟨workspace, Health.initial, false⟩]
        worker := { session.worker with senders := session.worker.senders + 1 } }
      else none
  | .health index action => do
      let listener ← session.listeners[index]?
      let health ← Health.step listener.workspace listener.health action
      return { session with listeners := session.listeners.set index { listener with health := health } }
  | .shut index => do
      let listener ← session.listeners[index]?
      return { session with listeners := session.listeners.set index { listener with closed := true } }
  | .work world =>
      if session.dropped then none
      else (Worker.step session.worker (.work world)).map fun worker => { session with worker := worker }
  | .send message =>
      if session.dropped then some session
      else (Worker.step session.worker (.send message)).map fun worker => { session with worker := worker }
  | .close =>
      if session.accepting then some { session with
        accepting := false
        worker := { session.worker with senders := session.worker.senders - 1, drainSignal := true } }
      else none
  -- A handling that is cut off here has done a part of what it does if it is completed first.
  | .drop => if session.accepting then none else some { session with dropped := true }

/-- The session as `enqueue` sees it. -/
def ingress (session : Session) : Ingress.Session where
  accepting := session.accepting
  queue := if session.dropped then session.worker.queue.dropReceiver else session.worker.queue

end Session

structure Counters where
  full : Nat
  expired : Nat
  oversizedMessages : Nat
  oversizedUrls : Nat
  invalid : Nat
  duplicates : Nat
  deriving DecidableEq

namespace Counters

def zero : Counters := ⟨0, 0, 0, 0, 0, 0⟩

def add (left right : Counters) : Counters where
  full := left.full + right.full
  expired := left.expired + right.expired
  oversizedMessages := left.oversizedMessages + right.oversizedMessages
  oversizedUrls := left.oversizedUrls + right.oversizedUrls
  invalid := left.invalid + right.invalid
  duplicates := left.duplicates + right.duplicates

def discard (counters : Counters) : Discard → Counters
  | .missing => counters
  | .oversized => { counters with oversizedMessages := counters.oversizedMessages + 1 }
  | .invalid => { counters with invalid := counters.invalid + 1 }

end Counters

/-- A call of `handler_push_events` that found its state. -/
structure Delivery where
  session : Nat
  workspace : Workspace
  event : SlackPushEventCallback
  time : Nat

/-- What the backend is configured with: the names of the workspaces, and the crates
that `extract_urls` uses. -/
structure Config where
  names : List Str
  dryRun : Bool
  crate : UrlCrate
  captures : Str → List (Option Str)

/-- The sessions are in the order in which they began. The fields from `admitted` on
record what happened: admissions, results of `enqueue`, calls of
`handler_push_events`, and the counts that were reported. -/
structure State where
  control : Supervisor.State
  seen : ExpiringCache EventKey Unit
  counters : Counters
  sessions : List Session
  waiting : List Call
  admitted : List Admission
  results : List (Except RetryEventError Unit)
  delivered : List Delivery
  reported : Counters

/-- What `reconnect_delay` finds in an error of the client. -/
def clientEnds : SlackClientError → Supervisor.SessionError
  | .rateLimitError retryAfter => .rateLimited retryAfter
  | .other => .other

inductive Action where
  | advance (elapsed : Nat)
  | signal (result : Except Str Unit)
  | takeShutdown
  | connected (teamId appId : Str)
  /-- `Workspace::connect` or `listen_for` returns an error. -/
  | refused (error : SlackClientError)
  | registered
  | started
  /-- A step of the `wait_ready` or `wait_failure` that `connect_and_watch` runs. -/
  | watch (listener : Nat)
  | work (world : World)
  | closed
  | timeout
  | leave (millis : Nat)
  | wake
  /-- The callbacks, with what `callback_state` finds. -/
  | push (session listener : Nat) (found : Bool) (event : SlackPushEventCallback)
  | lock (position : Nat) (iteration : Iteration (Entry EventKey Unit))
  | hello (session listener : Nat) (found : Bool) (appId : Str)
  | failure (session listener : Nat) (named found : Bool) (error : CallbackError)
  | notify (session listener : Nat)
  | report

namespace State

def clock (s : State) : Nat := s.control.clock

def current (s : State) : Nat := s.sessions.length - 1

def onSession (s : State) (index : Nat) (action : Session.Action) : Option State := do
  let session ← s.sessions[index]?
  let changed ← session.step action
  return { s with sessions := s.sessions.set index changed }

/-- The backend as `enqueue` sees it. -/
def ingress (s : State) : Ingress.State where
  clock := s.clock
  seen := s.seen
  counters := ⟨s.counters.full, s.counters.duplicates⟩
  sessions := s.sessions.map Session.ingress
  waiting := s.waiting
  admitted := s.admitted
  results := s.results

def deliver (s : State) (delivery : Delivery) : State :=
  { s with delivered := s.delivered ++ [delivery] }

def settle (s : State) : Option State :=
  match s.control.phase with
  | .ended _ => s.onSession s.current .drop
  | _ => some s

end State

section

variable (config : Config)

def controlled (s : State) (action : Supervisor.Action) : Option State :=
  (Supervisor.step config.names.length s.control action).map fun control => { s with control := control }

def finish (s : State) (action : Supervisor.Action) : Option State := do
  let s ← s.onSession s.current .close
  let s ← controlled config s action
  s.settle

/-- `connect_and_watch` after `Workspace::connect`. -/
def connected (s : State) (teamId appId : Str) : Option State := do
  let session ← s.sessions[s.current]?
  let name ← config.names[session.listeners.length]?
  match s.control.phase with
  | .session .connecting =>
      if session.has teamId appId then finish config s (.fail .duplicateInstallation)
      else do
        let s ← s.onSession s.current (.join ⟨name, teamId, appId⟩)
        controlled config s .connected
  | _ => none

/-- Whether `connect_and_watch` polls the watcher of a listener. -/
def polled (s : State) (index : Nat) : Bool :=
  match s.control.phase with
  | .session (.greeting _) => index + 1 = s.control.listeners
  | .session .watching => true
  | _ => false

def returned (health : Health.State) : Option Supervisor.Action :=
  match health.watcher, health.waitReady, health.waitFailure with
  | .between, _, _ => some .ready
  | .done, some (.error message), _ | .done, _, some (.error message) => some (.fail (.health message))
  | _, _, _ => none

def watch (s : State) (index : Nat) : Option State :=
  if polled s index then do
    let s ← s.onSession s.current (.health index .watch)
    let session ← s.sessions[s.current]?
    let listener ← session.listeners[index]?
    match returned listener.health with
    | none => some s
    | some .ready => controlled config s .ready
    | some action => finish config s action
  else none

def counted (before after : Worker.State) : Counters :=
  let urls := match before.task with
    | .handling message _ => (Harvest.extractUrls config.crate config.captures message.text ⟨0, 0⟩).2
    | _ => ⟨0, 0⟩
  { Counters.zero with
    expired := after.expired - before.expired
    oversizedUrls := urls.oversizedUrls
    invalid := urls.invalid }

def isLookup : Effect → Bool
  | .lookup _ => true
  | _ => false

/-- The worker extracts URLs as the configuration says, and names are only looked up. -/
def extracting (world : World) : World := { world with
  senderNick := fun sender => ((world.senderNick sender).1, (world.senderNick sender).2.filter isLookup)
  channelName := fun id => ((world.channelName id).1, (world.channelName id).2.filter isLookup)
  extractUrls := fun text => (Harvest.extractUrls config.crate config.captures text ⟨0, 0⟩).1 }

def work (s : State) (world : World) : Option State := do
  let session ← s.sessions[s.current]?
  let worked ← session.step (.work (extracting config world))
  let t := { s with
    sessions := s.sessions.set s.current worked
    counters := s.counters.add (counted config session.worker worked.worker) }
  match s.control.phase with
  | .session _ => if worked.worker.task = .returned then finish config t .workerReturned else some t
  | .draining _ _ =>
      if worked.worker.task = .returned then do
        let t ← controlled config t .workerReturned
        t.settle
      else some t
  | _ => none

def shut (s : State) (action : Supervisor.Action) (left : Nat) : Option State := do
  let s ← s.onSession s.current (.shut (s.control.listeners - 1 - left))
  let s ← controlled config s action
  s.settle

def timeout (s : State) : Option State :=
  match s.control.phase with
  | .session _ => finish config s .timeout
  | .closing _ left _ => shut config s .timeout left
  | _ => do
      let s ← controlled config s .timeout
      s.settle

def push (s : State) (index position : Nat) (event : SlackPushEventCallback) : Option State := do
  let session ← s.sessions[index]?
  let listener ← session.listeners[position]?
  let t := s.deliver ⟨index, listener.workspace, event, s.clock⟩
  match handlerPushEvents listener.workspace config.dryRun event s.clock with
  | .foreign failure => t.onSession index (.health position (.fail failure))
  | .unsupported => some t
  | .discarded discard => some { t with counters := s.counters.discard discard }
  | .enqueue message =>
      if session.accepting then some { t with waiting := s.waiting ++ [⟨index, event.eventId, message⟩] }
      else some { t with results := s.results ++ [.error {}] }

end

/-- `enqueue` under the lock. -/
def lock (s : State) (position : Nat) (iteration : Iteration (Entry EventKey Unit)) : Option State := do
  let call ← s.waiting[position]?
  let session ← s.sessions[call.session]?
  let after := Ingress.enqueue iteration { s.ingress with waiting := s.waiting.eraseIdx position } call
    session.ingress
  let s' := { s with
    seen := after.seen
    counters := { s.counters with full := after.counters.full, duplicates := after.counters.duplicates }
    waiting := after.waiting
    admitted := after.admitted
    results := after.results }
  if (s.seen.get call.key s.clock).1.isSome then some s'
  else s'.onSession call.session (.send call.message)

section

variable (config : Config)

def step (s : State) : Action → Option State
  | .advance elapsed => do
      let s ← controlled config s (.advance elapsed)
      return { s with sessions := s.sessions.map fun session =>
        { session with worker := { session.worker with clock := session.worker.clock + elapsed } } }
  | .signal result => controlled config s (.signal result)
  | .takeShutdown =>
      match s.control.phase with
      | .session _ => finish config s .takeShutdown
      | _ => controlled config s .takeShutdown
  | .connected teamId appId => connected config s teamId appId
  | .refused error =>
      match s.control.phase with
      | .session .connecting | .session (.registering _) => finish config s (.fail (clientEnds error))
      | _ => none
  | .registered => controlled config s .registered
  | .started => controlled config s .started
  | .watch index => watch config s index
  | .work world => work config s world
  | .closed =>
      match s.control.phase with
      | .closing _ left _ => shut config s .closed left
      | _ => none
  | .timeout => timeout config s
  | .leave millis => controlled config s (.leave millis)
  | .wake => do
      let s ← controlled config s .wake
      return { s with sessions := s.sessions ++ [.new s.clock] }
  | .push index position found event => if found then push config s index position event else some s
  | .lock position iteration => lock s position iteration
  | .hello index position found appId => s.onSession index (.health position (.hello found appId))
  | .failure index position named found error => do
      let session ← s.sessions[index]?
      let listener ← session.listeners[position]?
      match (handlerError listener.workspace named found error).1 with
      | some failure => s.onSession index (.health position (.fail failure))
      | none => some s
  | .notify index position => s.onSession index (.health position .notify)
  | .report => some { s with counters := .zero, reported := s.reported.add s.counters }

def initial (clock : Nat) : State where
  control := Supervisor.initial clock
  seen := .new 8192 (by decide)
  counters := .zero
  sessions := [.new clock]
  waiting := []
  admitted := []
  results := []
  delivered := []
  reported := .zero

def machine : System State Action where
  start := fun s => ∃ clock, s = initial clock
  step := step config

end

end SjmbSlack.SocketMode.Sessions
