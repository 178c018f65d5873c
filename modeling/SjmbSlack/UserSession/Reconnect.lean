import SjmbSlack.Library.Backoff
import SjmbSlack.UserSession.Gateway
import SjmbSlack.UserSession.Session

/-! `Session::run`: connection after connection, with a save after each and a wait
before the next, and the reconnect URLs that a connection leaves to its successor. -/
namespace SjmbSlack.UserSession.Reconnect
open Machine Api Slackbot Gateway

structure Settings where
  session : UserSession.Config
  crate : UrlCrate
  forms : FormCrate
  token : Str
  team : Str

namespace Settings

def config (settings : Settings) : UserSession.Config := { settings.session with
  validSocketUrl := fun value => (validateSocketUrl settings.crate value).toOption.isSome }

def gateway (settings : Settings) : Option Str :=
  gatewayUrl settings.crate settings.forms settings.token settings.team

end Settings

/-- `since` is when `connection` was called, or the wait began. -/
inductive Phase where
  | starting
  | connected (since : Nat)
  | saving (since : Nat) (error : ApiError)
  | sleeping (since delay : Nat)
  | returned (error : ApiError)
  deriving DecidableEq

/-- A wait before a new connection: when the connection before it was called, how
long that was ago after the save, what it returned, and when the wait began. -/
structure Wait where
  startedAt : Nat
  elapsed : Nat
  error : ApiError
  since : Nat
  delay : Nat

def Wait.long (wait : Wait) : Bool := 60 * SECOND ≤ wait.elapsed

structure Dial where
  url : Str
  ticket : Bool

/-- The last four fields record when `connection` was called last, the waits, newest
first, the URLs connected to, and the reconnect URLs accepted. -/
structure State where
  session : Session.State
  backoff : Nat
  phase : Phase
  reconnectUrl : Option Str
  startedAt : Nat
  waits : List Wait
  dials : List Dial
  tickets : List Str

inductive Action where
  | dial
  /-- A step of the session, with what `connection` returns if it is over. -/
  | act (action : Session.Action) (error : ApiError)
  | saved (ok : Bool) (millis : Nat)
  | wake

def MILLISECOND : Nat := 1000000

def retryDelay (backoff millis : Nat) (error : ApiError) : Nat :=
  let delay := backoff * SECOND + millis * MILLISECOND
  match error with
  | .rateLimited pause => max delay pause
  | _ => delay

namespace State

def clock (s : State) : Nat := s.session.clock

def sleep (s : State) (since millis : Nat) (error : ApiError) : State :=
  let elapsed := s.clock - since
  let backoff := if 60 * SECOND ≤ elapsed then 2 else s.backoff
  let delay := retryDelay backoff millis error
  { s with
    backoff := backoff
    phase := .sleeping s.clock delay
    waits := ⟨since, elapsed, error, s.clock, delay⟩ :: s.waits }

end State

def around : Session.Action → Bool
  | .advance _ | .post _ _ _ | .worker _ => true
  | _ => false

/-- What ends with the process, or belongs to the loop. -/
def apart : Session.Action → Bool
  | .connect | .saveAfter | .stop | .restart | .crash _ => true
  | _ => false

/-- The reconnect URL in the frame that the reader takes next. -/
def offered (link : Link) : Option Str :=
  match link.frames with
  | .text (some event) :: _ =>
      if hasType event "reconnect_url".toList then (event.get "url".toList).asStr else none
  | _ => none

def taken (session : Session.State) : Session.Action → Option Str
  | .read => session.connection.bind fun conn => offered conn.link
  | _ => none

section

variable (settings : Settings)

/-- `connection` up to the call of `connect_async_with_config`. -/
def dial (s : State) : Option State := do
  let session ← Session.step settings.config s.session .connect
  let url ← s.reconnectUrl.or settings.gateway
  let s' := { s with session := session, reconnectUrl := none, startedAt := s.clock }
  if settings.config.validSocketUrl url then
    return { s' with
      phase := .connected s.clock
      dials := s.dials ++ [⟨url, s.reconnectUrl.isSome⟩] }
  else
    let session ← Session.step settings.config session .fail
    return { s' with session := session, phase := .saving s.clock .other }

def act (s : State) (action : Session.Action) (error : ApiError) : Option State := do
  let session ← Session.step settings.config s.session action
  match s.phase with
  | .connected since =>
      if apart action then none
      else if session.connection.isSome then
        let ticket := taken s.session action
        some { s with
          session := session
          reconnectUrl := ticket.or s.reconnectUrl
          tickets := s.tickets ++ ticket.toList }
      else some { s with session := session, phase := .saving since error }
  | _ => if around action then some { s with session := session } else none

def step (s : State) : Action → Option State
  | .dial =>
      match s.phase with
      | .starting => dial settings s
      | _ => none
  | .act action error => act settings s action error
  | .saved ok millis =>
      match s.phase with
      | .saving since error =>
          if ok then do
            let session ← Session.step settings.config s.session .saveAfter
            let s := { s with session := session }
            if authenticationError error then return { s with phase := .returned error }
            else if millis < 1000 then return s.sleep since millis error
            else none
          else some { s with phase := .returned .other }
      | _ => none
  | .wake =>
      match s.phase with
      | .sleeping since delay =>
          if since + delay ≤ s.clock then
            some { s with backoff := Backoff.next 30 s.backoff, phase := .starting }
          else none
      | _ => none

def initial (team user : Str) (clock : Nat) : State where
  session := Session.initial team user clock
  backoff := 2
  phase := .starting
  reconnectUrl := none
  startedAt := clock
  waits := []
  dials := []
  tickets := []

def machine : System State Action where
  start := fun s => ∃ team user clock, s = initial team user clock
  step := step settings

end

end SjmbSlack.UserSession.Reconnect
