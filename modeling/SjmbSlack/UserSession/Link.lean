import SjmbSlack.Library.Mpsc
import SjmbSlack.UserSession.Process

/-! The websocket of one connection: what the server puts on it, the heartbeat,
and what `read_socket` makes of the frames. -/
namespace SjmbSlack.UserSession
open Api Slackbot

inductive Frame where
  | text (event : Option Json)
  | ping
  | close
  | other

/-- What the reader hands to the consumer; a checkpoint keeps the number of the
ping it comes from. -/
inductive Event where
  | message (event : Json)
  | checkpoint (through : Int) (ping : Nat)

structure Pending where
  ping : Nat
  sent : Nat
  through : Int
  deriving DecidableEq

/-- How the consumer dealt with a message event: `process` returned `Ok`, or the
event is of a channel that is not eligible or, as `conversations.info` answered,
not joined. -/
inductive Dealt where
  | processed (event : Json)
  | foreign (event : Json)
  | unjoined (event response : Json)

def Dealt.event : Dealt → Json
  | .processed event => event
  | .foreign event => event
  | .unjoined event _ => event

/-- Pings are numbered from one; `pingId` is the number on the wire. `wire` holds
those the server has yet to receive and `unanswered` those it has yet to answer;
`writing` is the one the reader is sending. The last four fields record the
message events put on the socket before and after the hello, how many of the
latter there were when the server received each ping, and those the consumer is
done with. -/
structure Link where
  frames : List Frame
  greeted : Bool
  wire : List Nat
  unanswered : List Nat
  sequence : Nat
  writing : Option Nat
  pending : Option Pending
  queue : Mpsc Event
  early : List Json
  put : List Json
  receipts : List (Nat × Nat)
  done : List Dealt

def pingId (ping : Nat) : Nat := ping % 2 ^ 64

def PONG_TIMEOUT : Nat := 30 * SECOND

/-- When a `tokio` interval that delays after missed ticks is to tick again. A tick that
is at most five milliseconds late does not move the schedule. -/
def tickAfter (deadline now period : Nat) : Nat :=
  if deadline + 5000000 < now then now + period else deadline + period

def hasType (event : Json) (type : Str) : Bool := (event.get "type".toList).isText type

def Frame.isHello : Frame → Bool
  | .text (some event) => hasType event "hello".toList
  | _ => false

def Frame.message : Frame → Option Json
  | .text (some event) => if isMessage event then some event else none
  | _ => none

def Frame.isPong : Frame → Bool
  | .text (some event) => hasType event "pong".toList
  | _ => false

def Event.message? : Event → Option Json
  | .message event => if isMessage event then some event else none
  | .checkpoint _ _ => none

def Event.through? : Event → Option Int
  | .checkpoint through _ => some through
  | .message _ => none

@[simp] theorem Event.through?_message (event : Json) : (Event.message event).through? = none := rfl

@[simp] theorem Event.through?_checkpoint (through : Int) (ping : Nat) :
    (Event.checkpoint through ping).through? = some through := rfl

inductive ReadError where
  | messageRefused
  | other
  deriving DecidableEq

namespace Link

def opened : Link where
  frames := []
  greeted := false
  wire := []
  unanswered := []
  sequence := 0
  writing := none
  pending := none
  queue := .channel MESSAGE_QUEUE_BOUND
  early := []
  put := []
  receipts := []
  done := []

def place (link : Link) (frame : Frame) : Link :=
  { link with
    frames := link.frames ++ [frame]
    greeted := link.greeted || frame.isHello
    early := if link.greeted then link.early else link.early ++ frame.message.toList
    put := if link.greeted then link.put ++ frame.message.toList else link.put }

def receivePing (link : Link) : Option Link :=
  match link.wire with
  | [] => none
  | ping :: rest => some { link with
      wire := rest
      unanswered := link.unanswered ++ [ping]
      receipts := link.receipts ++ [(ping, link.put.length)] }

def repliesTo (pong : Json) (ping : Nat) : Bool :=
  (pong.get "reply_to".toList).asUnsigned.all fun reply => reply = pingId ping

def answer (link : Link) (ping : Nat) (pong : Json) : Option Link :=
  if link.unanswered.contains ping ∧ hasType pong "pong".toList ∧ repliesTo pong ping then
    some { link.place (.text (some pong)) with unanswered := link.unanswered.erase ping }
  else none

/-- A tick of the heartbeat. The ping can reach the server before its send time
is recorded. -/
def tick (link : Link) (clock : Nat) : Option (Except ReadError Link) :=
  match link.writing, link.pending with
  | some _, _ => none
  | none, some pending =>
      if clock - pending.sent < PONG_TIMEOUT then some (.ok link) else some (.error .other)
  | none, none => some (.ok { link with
      sequence := link.sequence + 1
      writing := some (link.sequence + 1)
      wire := link.wire ++ [link.sequence + 1] })

/-- The write has returned, and the send time is taken. -/
def recordPing (link : Link) (clock : Nat) (now : Int) : Option Link :=
  match link.writing with
  | none => none
  | some ping => some { link with writing := none, pending := some ⟨ping, clock, now⟩ }

def LIVE_TYPES : List Str :=
  ["message".toList, "channel_joined".toList, "group_joined".toList, "channel_left".toList,
    "group_left".toList]

def enqueueEvent (link : Link) (event : Event) : Except ReadError Link :=
  match link.queue.trySend event with
  | .ok queue => .ok { link with queue := queue }
  | .error _ => .error (if event.message?.isSome then .messageRefused else .other)

def readEvent (config : Config) (link : Link) (event : Json) : Except ReadError Link :=
  match checkError event with
  | .error _ => .error .other
  | .ok () =>
      if hasType event "pong".toList then
        match link.pending with
        | some pending =>
            if repliesTo event pending.ping then
              enqueueEvent { link with pending := none } (.checkpoint pending.through pending.ping)
            else .ok link
        | none => .ok link
      else if hasType event "reconnect_url".toList then
        if (event.get "url".toList).asStr.all config.validSocketUrl then .ok link
        else .error .other
      else if hasType event "goodbye".toList ∨ hasType event "disconnect".toList then .error .other
      else if LIVE_TYPES.any (hasType event) then enqueueEvent link (.message event)
      else .ok link

def read (config : Config) (link : Link) : Option (Except ReadError Link) :=
  match link.writing, link.frames with
  | none, frame :: rest =>
      let link := { link with frames := rest }
      match frame with
      | .text (some event) => some (readEvent config link event)
      | .text none | .ping | .other => some (.ok link)
      | .close => some (.error .other)
  | _, _ => none

/-- What is left of the frames before the hello when the loop that waits for it
takes the next one: `true` says that it was the hello. -/
def greet (link : Link) : Option (Except ReadError (Bool × Link)) :=
  match link.frames with
  | [] => none
  | frame :: rest =>
      let link := { link with frames := rest }
      match frame with
      | .text none | .close => some (.error .other)
      | .text (some event) =>
          match checkError event with
          | .error _ => some (.error .other)
          | .ok () => some (.ok (hasType event "hello".toList, link))
      | .ping | .other => some (.ok (false, link))

end Link

end SjmbSlack.UserSession
