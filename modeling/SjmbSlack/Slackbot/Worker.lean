import SjmbSlack.Library.Machine
import SjmbSlack.Library.Mpsc
import SjmbSlack.Slackbot.Message

/-! The worker: `handle_messages` between the senders of its queue and the drain
signal, and `handle_msg` for each message that has not expired. -/
namespace SjmbSlack.Slackbot.Worker
open Machine

structure UrlCtx where
  ts : Int
  chan : Str
  nick : Str
  url : Str
  deriving DecidableEq

inductive Effect where
  | lookup (method : Str)
  | dnsQuery (host : Str)
  | insert (record : UrlCtx)
  deriving DecidableEq

/-- Everything one handling may get from outside: names with the lookups made
for them, the extracted URLs, and for the URL at each position the filter's
verdict with its DNS query and the database's answer. -/
structure World where
  senderNick : SenderInfo → Str × List Effect
  channelName : Str → Str × List Effect
  extractUrls : Str → List Str
  check : Nat → Str → Bool × Option Str
  dbAddUrl : Nat → UrlCtx → Bool

/-- The loop of `handle_msg` over the URLs from a position on: what it does and
whether an insert failed. -/
def handleUrls (world : World) (message : QueuedMessage) (nick channel : Str) :
    Nat → List Str → List Effect × Bool
  | _, [] => ([], false)
  | position, url :: rest =>
      let record : UrlCtx := ⟨message.ts, channel, nick, url⟩
      let verdict := world.check position url
      let query := verdict.2.toList.map .dnsQuery
      let later := handleUrls world message nick channel (position + 1) rest
      if ¬ verdict.1 then (query ++ later.1, later.2)
      else if message.dryRun then (query ++ later.1, later.2)
      else (query ++ .insert record :: later.1, ¬ world.dbAddUrl position record || later.2)

def handleMsg (world : World) (message : QueuedMessage) : List Effect × Bool :=
  let nick := world.senderNick message.sender
  let channel := world.channelName message.channel
  let urls := handleUrls world message nick.1 channel.1 0 (world.extractUrls message.text)
  (nick.2 ++ channel.2 ++ urls.1, !urls.2)

inductive Task where
  | selecting
  | handling (message : QueuedMessage) (takenAt : Nat)
  | returned
  deriving DecidableEq

/-- One message taken from the queue and dealt with: `outcome` is `none` where
it had expired, and else the effects and result of its handling. -/
structure Handling where
  message : QueuedMessage
  takenAt : Nat
  outcome : Option (List Effect × Bool)
  deriving DecidableEq

/-- `drainSignal` says that the signal was sent or its sender dropped. The last
five fields record what happened, in order; only `expired` is the program's own. -/
structure State where
  clock : Nat
  queue : Mpsc QueuedMessage
  senders : Nat
  drainSignal : Bool
  draining : Bool
  task : Task
  expired : Nat
  accepted : List QueuedMessage
  handled : List Handling
  answers : List (Nat × Bool)
  effects : List Effect

inductive Action where
  | advance (elapsed : Nat)
  | cloneSender
  | dropSender
  | send (message : QueuedMessage)
  | signalDrain
  /-- The next step of the worker, which ends at its next suspension. -/
  | work (world : World)

def answer (message : QueuedMessage) (result : Bool) : List (Nat × Bool) :=
  message.completion.toList.map fun receipt => (receipt, result)

/-- One pass of the loop from the biased `select!` on. -/
def select (s : State) : Option State :=
  if s.drainSignal ∧ ¬ s.draining then
    some { s with draining := true, queue := s.queue.close }
  else match s.queue.recv with
    | none =>
        if s.queue.closed ∨ s.senders = 0 then some { s with task := .returned } else none
    | some (message, queue) =>
        if message.expiresAt ≤ s.clock then some { s with
          queue := queue
          answers := s.answers ++ answer message false
          expired := s.expired + 1
          handled := s.handled ++ [⟨message, s.clock, none⟩] }
        else some { s with queue := queue, task := .handling message s.clock }

def finish (s : State) (message : QueuedMessage) (takenAt : Nat) (world : World) : State :=
  let outcome := handleMsg world message
  { s with
    task := .selecting
    effects := s.effects ++ outcome.1
    answers := s.answers ++ answer message outcome.2
    handled := s.handled ++ [⟨message, takenAt, some outcome⟩] }

def step (s : State) : Action → Option State
  | .advance elapsed => some { s with clock := s.clock + elapsed }
  | .cloneSender => if s.senders = 0 then none else some { s with senders := s.senders + 1 }
  | .dropSender => if s.senders = 0 then none else some { s with senders := s.senders - 1 }
  | .send message =>
      if s.senders = 0 then none
      else match s.queue.trySend message with
        | .ok queue => some { s with queue := queue, accepted := s.accepted ++ [message] }
        | .error _ => some s
  | .signalDrain => some { s with drainSignal := true }
  | .work world =>
      match s.task with
      | .selecting => select s
      | .handling message takenAt => some (finish s message takenAt world)
      | .returned => none

def initial (clock capacity senders : Nat) : State where
  clock := clock
  queue := .channel capacity
  senders := senders
  drainSignal := false
  draining := false
  task := .selecting
  expired := 0
  accepted := []
  handled := []
  answers := []
  effects := []

def machine : System State Action where
  start := fun s => ∃ clock capacity senders, s = initial clock capacity senders
  step := step

end SjmbSlack.Slackbot.Worker
