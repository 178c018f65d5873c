import SjmbSlack.Slackbot.Message

/-! The callbacks of a Socket Mode listener, up to what they do to the state they
share: `handler_push_events` and `handler_error`. -/
namespace SjmbSlack.SocketMode
open Slackbot

structure SlackPushEventCallback where
  teamId : Str
  apiAppId : Str
  eventId : Str
  message : Option SlackMessageEvent
  deriving DecidableEq

/-- What `handler_push_events` does with an event up to the lock of `enqueue`. -/
inductive Pushed where
  /-- The health of the workspace fails with a message. -/
  | foreign (failure : Str)
  | unsupported
  | discarded (discard : Discard)
  | enqueue (message : QueuedMessage)
  deriving DecidableEq

def Pushed.enqueues : Pushed → Bool
  | .enqueue _ => true
  | _ => false

def differentInstallation (workspace : Workspace) : Str :=
  "WS ".toList ++ workspace.name ++ " received an event for a different Slack installation".toList

def handlerPushEvents (workspace : Workspace) (dryRun : Bool) (event : SlackPushEventCallback)
    (clock : Nat) : Pushed :=
  if event.teamId ≠ workspace.teamId ∨ event.apiAppId ≠ workspace.appId then
    .foreign (differentInstallation workspace)
  else match event.message with
    | none => .unsupported
    | some message =>
        if ¬ shouldProcessMessage message then .unsupported
        else match prepareMessage workspace message clock with
          | .error discard => .discarded discard
          | .ok queued =>
              if event.eventId.byteLength > 256 ∨ event.eventId = [] then .discarded .invalid
              else .enqueue { queued with dryRun := dryRun }

/-- What a callback or the SDK hands to `handler_error`. -/
inductive CallbackError where
  | socketModeProtocol
  | api (code : Str)
  | retryEvent
  | other
  deriving DecidableEq

def FATAL_CODES : List Str :=
  ["invalid_auth".toList, "not_authed".toList, "token_revoked".toList, "token_expired".toList,
    "account_inactive".toList, "missing_scope".toList]

/-- `handler_error`: the failure it reports to the health of the workspace, and the
status. `named` and `found` say whether `callback_state` has the session when it
looks for the name and for the health. -/
def handlerError (workspace : Workspace) (named found : Bool) (error : CallbackError) :
    Option Str × Nat :=
  let name := if named then workspace.name else "unknown".toList
  let failure := match error with
    | .api code =>
        if FATAL_CODES.contains code ∧ found then
          some ("WS ".toList ++ name ++ " authentication failed: ".toList ++ code)
        else none
    | _ => none
  (failure, if error = .retryEvent then 503 else 200)

end SjmbSlack.SocketMode
