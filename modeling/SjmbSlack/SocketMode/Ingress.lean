import SjmbSlack.Library.Machine
import SjmbSlack.Library.Mpsc
import SjmbSlack.Limits.ExpiringCache
import SjmbSlack.Slackbot.Message

/-! Socket Mode admission: the callbacks of every session call `Ingress::enqueue`
with one shared cache of seen events, while each session's worker receives from
its own queue until the session ends. -/
namespace SjmbSlack.SocketMode.Ingress
open Machine Limits Slackbot

/-- Fifteen minutes in nanoseconds. -/
def DEDUP_TTL : Nat := 900 * 1000000000

structure EventKey where
  teamId : Str
  appId : Str
  eventId : Str
  deriving DecidableEq

structure RetryEventError where
  deriving DecidableEq

structure Counters where
  full : Nat
  duplicates : Nat
  deriving DecidableEq

structure Session where
  accepting : Bool
  queue : Mpsc QueuedMessage

/-- A call of `enqueue` with the session whose `BotState` it was made with. -/
structure Call where
  session : Nat
  eventId : Str
  message : QueuedMessage
  deriving DecidableEq

def Call.key (call : Call) : EventKey :=
  ⟨call.message.workspace.teamId, call.message.workspace.appId, call.eventId⟩

structure Admission where
  key : EventKey
  admittedAt : Nat
  deriving DecidableEq

/-- `waiting` holds the calls that found the flag set and have yet to lock the
cache. `admitted` and `results` record what happened, in order. -/
structure State where
  clock : Nat
  seen : ExpiringCache EventKey Unit
  counters : Counters
  sessions : List Session
  waiting : List Call
  admitted : List Admission
  results : List (Except RetryEventError Unit)

/-- `enqueue` up to the lock. -/
def check (s : State) (call : Call) (session : Session) : State :=
  if session.accepting then { s with waiting := s.waiting ++ [call] }
  else { s with results := s.results ++ [.error {}] }

def enqueue (iteration : Iteration (Entry EventKey Unit)) (s : State) (call : Call)
    (session : Session) : State :=
  let now := s.clock
  match s.seen.get call.key now with
  | (some _, seen) => { s with
      seen := seen
      counters := { s.counters with duplicates := s.counters.duplicates + 1 }
      results := s.results ++ [.ok ()] }
  | (none, seen) =>
      match session.queue.trySend call.message with
      | .ok queue => { s with
          seen := seen.insert iteration call.key () now DEDUP_TTL
          sessions := s.sessions.set call.session { session with queue := queue }
          admitted := s.admitted ++ [⟨call.key, now⟩]
          results := s.results ++ [.ok ()] }
      | .error .full => { s with
          seen := seen
          counters := { s.counters with full := s.counters.full + 1 }
          results := s.results ++ [.ok ()] }
      | .error .closed => { s with seen := seen, results := s.results ++ [.error {}] }

inductive Action where
  | advance (elapsed : Nat)
  | newSession
  | call (call : Call)
  /-- The waiting call at a position gets the lock. -/
  | lock (position : Nat) (iteration : Iteration (Entry EventKey Unit))
  | stopAccepting (session : Nat)
  | receive (session : Nat)
  | drain (session : Nat)
  | dropWorker (session : Nat)
  | report

def onSession (s : State) (index : Nat) (change : Session → Option Session) : Option State := do
  let session ← s.sessions[index]?
  let changed ← change session
  return { s with sessions := s.sessions.set index changed }

def step (s : State) : Action → Option State
  | .advance elapsed => some { s with clock := s.clock + elapsed }
  | .newSession =>
      some { s with sessions := s.sessions ++ [⟨true, .channel MESSAGE_QUEUE_BOUND⟩] }
  | .call call => s.sessions[call.session]?.map (check s call)
  | .lock position iteration => do
      let call ← s.waiting[position]?
      let session ← s.sessions[call.session]?
      return enqueue iteration { s with waiting := s.waiting.eraseIdx position } call session
  | .stopAccepting session => onSession s session fun session =>
      some { session with accepting := false }
  | .receive session => onSession s session fun session =>
      session.queue.recv.map fun received => { session with queue := received.2 }
  | .drain session => onSession s session fun session =>
      some { session with queue := session.queue.close }
  | .dropWorker session => onSession s session fun session =>
      some { session with queue := session.queue.dropReceiver }
  | .report => some { s with counters := ⟨0, 0⟩ }

def initial (clock capacity : Nat) (h : 0 < capacity) : State where
  clock := clock
  seen := .new capacity h
  counters := ⟨0, 0⟩
  sessions := []
  waiting := []
  admitted := []
  results := []

def machine (capacity : Nat) (h : 0 < capacity) : System State Action where
  start := fun s => ∃ clock, s = initial clock capacity h
  step := step

end SjmbSlack.SocketMode.Ingress
