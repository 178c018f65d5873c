import SjmbSlack.Library.Machine
import SjmbSlack.Json

/-! `SessionApi::call` and the pause its concurrent callers share. A call is
suspended wherever the code awaits: for the pause lock, for the response, and
for the lock once more after a 429. -/
namespace SjmbSlack.UserSession.Api
open Machine

/-- Instants and durations are nanoseconds of the monotonic clock. -/
def fromSecs (seconds : Nat) : Nat := seconds * 1000000000

def RESPONSE_BYTES : Nat := 4 * 1024 * 1024

def METHODS : List Str :=
  ["auth.test".toList, "users.conversations".toList, "users.info".toList,
    "conversations.info".toList, "conversations.history".toList, "conversations.replies".toList]

inductive ApiError where
  | authentication (code : Str)
  | rateLimited (delay : Nat)
  | request (method code : Str)
  | other
  deriving DecidableEq

def authenticationError : ApiError → Bool
  | .authentication _ => true
  | _ => false

structure Response where
  status : Nat
  /-- The `Retry-After` header, where present and visible ASCII. -/
  retryAfter : Option Str
  contentLength : Option Nat
  /-- Lengths of the data frames of the body; `none` is a transport error. -/
  frames : List (Option Nat)
  /-- The collected body as JSON, where it parses. -/
  body : Option Json

def retryAfter (header : Option Str) : Nat :=
  fromSecs (max 1 (min ((header.bind (Str.parseUnsigned (2 ^ 64))).getD 60) 86400))

def readBody : List (Option Nat) → Nat → Bool
  | [], _ => true
  | none :: _, _ => false
  | some chunk :: rest, bytes => bytes + chunk ≤ RESPONSE_BYTES && readBody rest (bytes + chunk)

def AUTHENTICATION_CODES : List Str :=
  ["invalid_auth".toList, "not_authed".toList, "token_expired".toList, "token_revoked".toList,
    "account_inactive".toList, "session_expired".toList, "org_login_required".toList]

inductive Answer where
  | limited (delay : Nat)
  | finished (result : Except ApiError Json)

/-- What the call makes of a response; `none` is a transport error. -/
def receive (method : Str) : Option Response → Answer
  | none => .finished (.error .other)
  | some response =>
      if response.status = 401 then
        .finished (.error (.authentication "HTTP 401 Unauthorized".toList))
      else if response.status = 403 then
        .finished (.error (.authentication "HTTP 403 Forbidden".toList))
      else if response.status = 429 then .limited (retryAfter response.retryAfter)
      else if ¬ (200 ≤ response.status ∧ response.status < 300) then .finished (.error .other)
      else if ¬ response.contentLength.all (· ≤ RESPONSE_BYTES) then .finished (.error .other)
      else if ¬ readBody response.frames 0 then .finished (.error .other)
      else match response.body with
        | none => .finished (.error .other)
        | some result =>
            if (result.get "ok".toList).isTrue then .finished (.ok result)
            else
              let code := ((result.get "error".toList).asStr).getD "unknown_error".toList
              if AUTHENTICATION_CODES.contains code then
                .finished (.error (.authentication code))
              else .finished (.error (.request method code))

/-- Where a call is suspended. `recording` holds the instant and delay of which
the new deadline was computed before waiting for the lock. -/
inductive Phase where
  | checking (method : Str)
  | requesting (method : Str)
  | recording (received : Nat) (delay : Nat)
  | done (result : Except ApiError Json)

def Phase.isRecording : Phase → Bool
  | .recording _ _ => true
  | _ => false

inductive Event where
  | limited (call : Nat) (received : Nat) (delay : Nat)
  | recorded (call : Nat) (received : Nat) (delay : Nat)
  /-- The pause check: `ok` goes on to send the request. -/
  | checked (call : Nat) (clock : Nat) (result : Except ApiError Unit)
  deriving DecidableEq

structure State where
  clock : Nat
  pause : Nat
  calls : List Phase
  log : List Event

inductive Action where
  | advance (elapsed : Nat)
  | call (method : Str)
  | check (call : Nat)
  | respond (call : Nat) (response : Option Response)
  | record (call : Nat)
  /-- The call's future is dropped, or its deadline passes. -/
  | drop (call : Nat)

def pauseCheck (pause clock : Nat) : Except ApiError Unit :=
  if pause - clock ≠ 0 then .error (.rateLimited (pause - clock)) else .ok ()

def step (s : State) : Action → Option State
  | .advance elapsed => some { s with clock := s.clock + elapsed }
  | .call method =>
      if METHODS.contains method then some { s with calls := s.calls ++ [.checking method] }
      else some { s with calls := s.calls ++ [.done (.error .other)] }
  | .check call =>
      match s.calls[call]? with
      | some (.checking method) =>
          let result := pauseCheck s.pause s.clock
          let phase := match result with
            | .ok () => .requesting method
            | .error error => .done (.error error)
          some { s with
            calls := s.calls.set call phase
            log := .checked call s.clock result :: s.log }
      | _ => none
  | .respond call response =>
      match s.calls[call]? with
      | some (.requesting method) =>
          match receive method response with
          | .limited delay => some { s with
              calls := s.calls.set call (.recording s.clock delay)
              log := .limited call s.clock delay :: s.log }
          | .finished result => some { s with calls := s.calls.set call (.done result) }
      | _ => none
  | .record call =>
      match s.calls[call]? with
      | some (.recording received delay) => some { s with
          pause := received + delay
          calls := s.calls.set call (.done (.error (.rateLimited delay)))
          log := .recorded call received delay :: s.log }
      | _ => none
  | .drop call =>
      match s.calls[call]? with
      | some (.done _) => none
      | some _ => some { s with calls := s.calls.set call (.done (.error .other)) }
      | none => none

def initial (clock : Nat) : State := ⟨clock, clock, [], []⟩

def machine : System State Action where
  start := fun s => ∃ clock, s = initial clock
  step := step

end SjmbSlack.UserSession.Api
