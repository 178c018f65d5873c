import SjmbSlack.Library.Backoff
import SjmbSlack.Library.Machine
import SjmbSlack.Text

/-! `run_socket_sessions` as a control loop: a session from its first connection to
the end of its cleanup, the wait before the next one, and the shutdown. What the
sessions do with messages is left to the module of the sessions. -/
namespace SjmbSlack.SocketMode.Supervisor
open Machine

/-- Instants and durations are nanoseconds. -/
def MILLISECOND : Nat := 1000000
def SECOND : Nat := 1000 * MILLISECOND

def API_TIMEOUT : Nat := 10 * SECOND
def HELLO_TIMEOUT : Nat := 30 * SECOND
def SHUTDOWN_TIMEOUT : Nat := 5 * SECOND
def DRAIN_TIMEOUT : Nat := 10 * SECOND

inductive SessionError where
  /-- The SDK's rate limit, which may say how long to wait. -/
  | rateLimited (retryAfter : Option Nat)
  | duplicateInstallation
  /-- A failure recorded in the health of a workspace. -/
  | health (message : Str)
  | timedOut
  | workerStopped
  | other
  deriving DecidableEq

/-- Where `connect_and_watch` is with the workspace of the newest listener, or with
the next workspace. -/
inductive Stage where
  | connecting
  | registering (since : Nat)
  | starting (since : Nat)
  | greeting (since : Nat)
  | watching
  deriving DecidableEq

def Stage.deadline : Stage → Option Nat
  | .registering since | .starting since => some (since + API_TIMEOUT)
  | .greeting since => some (since + HELLO_TIMEOUT)
  | .connecting | .watching => none

/-- `ended` is the error that ended the session; `none` is the shutdown. -/
inductive Phase where
  | session (stage : Stage)
  /-- A listener is shutting down, and so many are left after it. -/
  | closing (since : Nat) (left : Nat) (ended : Option SessionError)
  | draining (since : Nat) (ended : Option SessionError)
  | ended (ended : Option SessionError)
  | sleeping (since delay : Nat)
  | returned (result : Except Str Unit)
  deriving DecidableEq

/-- A wait before a new session: when the session before it began, for how long it
had been registered, what ended it, and when the wait began. -/
structure Wait where
  startedAt : Nat
  uptime : Option Nat
  error : SessionError
  since : Nat
  delay : Nat
  deriving DecidableEq

def Wait.long (wait : Wait) : Bool := wait.uptime.any (60 * SECOND ≤ ·)

/-- `shutdown` is the result of the shutdown future and when it was ready. `listeners`
counts those of the session. `startedAt` and `waits` record when the session began
and the waits so far, newest first; no step reads them. -/
structure State where
  clock : Nat
  shutdown : Option (Except Str Unit × Nat)
  backoff : Nat
  phase : Phase
  listeners : Nat
  registeredSince : Option Nat
  workerFinished : Bool
  startedAt : Nat
  waits : List Wait

inductive Action where
  | advance (elapsed : Nat)
  | signal (result : Except Str Unit)
  /-- A `select!` takes the branch of the shutdown. -/
  | takeShutdown
  /-- `connect_and_watch` returns an error. -/
  | fail (error : SessionError)
  | connected
  | registered
  | started
  | ready
  | workerReturned
  | closed
  | timeout
  /-- The end of a pass of the loop, with the milliseconds of the second. -/
  | leave (millis : Nat)
  | wake
  deriving DecidableEq

def reconnectDelay (backoff millis : Nat) (error : SessionError) : Nat :=
  let delay := backoff * SECOND + millis * MILLISECOND
  match error with
  | .rateLimited retryAfter => max delay (retryAfter.getD delay)
  | _ => delay

namespace State

/-- The loop over the listeners, of which so many are left. -/
def closeNext (s : State) (left : Nat) (ended : Option SessionError) : State :=
  match left with
  | left + 1 => { s with phase := .closing s.clock left ended }
  | 0 => { s with phase := if s.workerFinished then .ended ended else .draining s.clock ended }

def close (s : State) (ended : Option SessionError) : State := s.closeNext s.listeners ended

def uptime (s : State) : Option Nat := s.registeredSince.map (s.clock - ·)

def sleep (s : State) (millis : Nat) (error : SessionError) : State :=
  let backoff := if s.uptime.any (60 * SECOND ≤ ·) then 2 else s.backoff
  let delay := reconnectDelay backoff millis error
  { s with
    backoff := backoff
    phase := .sleeping s.clock delay
    waits := ⟨s.startedAt, s.uptime, error, s.clock, delay⟩ :: s.waits }

def restart (s : State) : State := { s with
  backoff := Backoff.next 30 s.backoff
  phase := .session .connecting
  listeners := 0
  registeredSince := none
  workerFinished := false
  startedAt := s.clock }

end State

section

variable (total : Nat)

def step (s : State) : Action → Option State
  | .advance elapsed => some { s with clock := s.clock + elapsed }
  | .signal result =>
      if s.shutdown.isSome then none else some { s with shutdown := some (result, s.clock) }
  | .takeShutdown =>
      match s.phase, s.shutdown with
      | .session _, some _ => some (s.close none)
      | .sleeping _ _, some (result, _) => some { s with phase := .returned result }
      | _, _ => none
  | .fail error =>
      match s.phase with
      | .session _ => some (s.close (some error))
      | _ => none
  | .connected =>
      match s.phase with
      | .session .connecting =>
          if s.listeners < total then some { s with
            listeners := s.listeners + 1
            phase := .session (.registering s.clock) }
          else none
      | _ => none
  | .registered =>
      match s.phase with
      | .session (.registering _) => some { s with phase := .session (.starting s.clock) }
      | _ => none
  | .started =>
      match s.phase with
      | .session (.starting _) => some { s with phase := .session (.greeting s.clock) }
      | _ => none
  | .ready =>
      match s.phase with
      | .session (.greeting _) =>
          if s.listeners = total then some { s with
            phase := .session .watching
            registeredSince := some s.clock }
          else some { s with phase := .session .connecting }
      | _ => none
  | .workerReturned =>
      match s.phase with
      | .session _ => some ({ s with workerFinished := true }.close (some .workerStopped))
      | .draining _ ended => some { s with phase := .ended ended }
      | _ => none
  | .closed =>
      match s.phase with
      | .closing _ left ended => some (s.closeNext left ended)
      | _ => none
  | .timeout =>
      match s.phase with
      | .session stage =>
          if stage.deadline.any (· ≤ s.clock) then some (s.close (some .timedOut)) else none
      | .closing since left ended =>
          if since + SHUTDOWN_TIMEOUT ≤ s.clock then some (s.closeNext left ended) else none
      | .draining since ended =>
          if since + DRAIN_TIMEOUT ≤ s.clock then some { s with phase := .ended ended } else none
      | _ => none
  | .leave millis =>
      match s.phase, s.shutdown with
      | .ended none, some (result, _) => some { s with phase := .returned result }
      | .ended (some error), _ => if millis < 1000 then some (s.sleep millis error) else none
      | _, _ => none
  | .wake =>
      match s.phase with
      | .sleeping since delay => if since + delay ≤ s.clock then some s.restart else none
      | _ => none

def initial (clock : Nat) : State where
  clock := clock
  shutdown := none
  backoff := 2
  phase := .session .connecting
  listeners := 0
  registeredSince := none
  workerFinished := false
  startedAt := clock
  waits := []

def machine : System State Action where
  start := fun s => ∃ clock, s = initial clock
  step := step total

end

end SjmbSlack.SocketMode.Supervisor
