import SjmbSlack.Library.Machine
import SjmbSlack.Limits.CacheHistory
import SjmbSlack.Slackbot.Names

/-! The lookups of a workspace over a whole run: the worker asks Slack for one name
at a time, while the tasks of a user session store the names of channels. -/
namespace SjmbSlack.Slackbot.Lookups
open Machine Limits ExpiringCache

def LOOKUP_TIMEOUT : Nat := 3 * 1000000000

/-- The request that the worker waits for, and when it was made. -/
inductive Task where
  | idle
  | user (id : Str) (since : Nat)
  | channel (id : Str) (since : Nat)
  deriving DecidableEq

/-- `operations` are those of the cache up to then, newest first. `limited` is the
delay of an answer in which the Slack client reports a rate limit. -/
inductive Event where
  | requested (id : Str) (clock : Nat) (operations : List (Operation Str Str))
  | answered (id : Str) (clock ttl : Nat) (limited : Option Nat)
  | named (id name : Str) (clock : Nat) (operations : List (Operation Str Str))

structure Given where
  id : Str
  name : Str
  clock : Nat

/-- What happened to one of the caches, newest first. No step reads it. -/
structure Log where
  operations : List (Operation Str Str)
  events : List Event
  given : List Given

namespace Log

def empty : Log := ⟨[], [], []⟩

def read (log : Log) (id : Str) (now : Nat) : Log :=
  { log with operations := .get id now :: log.operations }

def write (log : Log) (insertion : Insertion Str Str) : Log :=
  { log with operations := .insert insertion :: log.operations }

def give (log : Log) (id name : Str) (now : Nat) : Log := { log with given := ⟨id, name, now⟩ :: log.given }

def note (log : Log) (event : Event) : Log := { log with events := event :: log.events }

def name (log : Log) (id name : Str) (now : Nat) : Log := log.note (.named id name now log.operations)

end Log

structure State where
  clock : Nat
  workspace : Workspace
  names : Names
  task : Task
  users : Log
  channels : Log

inductive Action where
  | advance (elapsed : Nat)
  | senderNick (visit : Iteration (Entry Str Str)) (sender : SenderInfo)
  | channelName (visit : Iteration (Entry Str Str)) (id : Str)
  | userAnswered (visit : Iteration (Entry Str Str)) (fetched : Fetched SlackUser)
  | channelAnswered (visit : Iteration (Entry Str Str)) (fetched : Fetched (Option Str))
  | cacheChannel (visit : Iteration (Entry Str Str)) (id name : Str)
  /-- The worker is dropped while it waits. -/
  | abandon

def limit {α : Type} : Fetched α → Option Nat
  | .failed (.client (.rateLimitError retryAfter)) => some (retryAfter.getD NEGATIVE_TTL)
  | _ => none

def nick (fetched : Fetched SlackUser) : Option Str :=
  (fetched.response?.bind slackUserNick).map (logText · 256)

def channelNick (fetched : Fetched (Option Str)) : Option Str :=
  ((fetched.response?.bind fun name => name).bind nonEmpty).map (logText · 256)

def waited {α : Type} (fetched : Fetched α) (since now : Nat) : Bool :=
  match fetched with
  | .timedOut => since + LOOKUP_TIMEOUT ≤ now
  | _ => true

namespace Log

def refuse (log : Log) (visit : Iteration (Entry Str Str)) (id fallback : Str) (now : Nat) : Log :=
  (log.write ⟨id, fallback, now, NEGATIVE_TTL, visit⟩).name id fallback now

def answer (log : Log) (visit : Iteration (Entry Str Str)) (id : Str) (found : Option Str) (fallback : Str)
    (ttl now : Nat) (limited : Option Nat) : Log :=
  let ttl := if found.isSome then ttl else NEGATIVE_TTL
  let name := found.getD fallback
  let log := found.elim log fun name => log.give id name now
  ((log.write ⟨id, name, now, ttl, visit⟩).note (.answered id now ttl limited)).name id name now

end Log

/-- `sender_nick` up to its request, or to its end. -/
def senderNick (s : State) (visit : Iteration (Entry Str Str)) (sender : SenderInfo) : State :=
  let sought := s.names.senderNick visit sender s.clock
  let s := { s with names := sought.1 }
  match sender.user, sender.hint, sought.2 with
  | none, _, _ => s
  | some id, some hint, _ => { s with
      users := ((s.users.give id hint s.clock).write ⟨id, hint, s.clock, USER_TTL, visit⟩).name id hint s.clock }
  | some id, none, .known nick => { s with users := (s.users.read id s.clock).name id nick s.clock }
  | some id, none, .unknown _ =>
      let users := s.users.read id s.clock
      if lookupAllowed s.names.userRetryAt s.clock then { s with
        task := .user id s.clock
        users := users.note (.requested id s.clock users.operations) }
      else { s with
        names := (s.names.fetchedNick visit id none s.clock).1
        users := users.refuse visit id (slackUserFallback id) s.clock }

/-- `channel_name` up to its request, or to its end. -/
def channelName (s : State) (visit : Iteration (Entry Str Str)) (id : Str) : State :=
  let cached := (s.names.channels.get id s.clock).1
  let s := { s with names := (s.names.channelName s.workspace id s.clock).1 }
  let channels := s.channels.read id s.clock
  match cached with
  | some name => { s with channels := channels.name id name s.clock }
  | none =>
      if lookupAllowed s.names.channelRetryAt s.clock then { s with
        task := .channel id s.clock
        channels := channels.note (.requested id s.clock channels.operations) }
      else { s with
        names := (s.names.fetchedChannel visit s.workspace id none s.clock).1
        channels := channels.refuse visit id id s.clock }

def userAnswered (s : State) (visit : Iteration (Entry Str Str)) (id : Str) (fetched : Fetched SlackUser) :
    State := { s with
  names := (s.names.fetchedNick visit id (some fetched) s.clock).1
  task := .idle
  users := s.users.answer visit id (nick fetched) (slackUserFallback id) USER_TTL s.clock (limit fetched) }

def channelAnswered (s : State) (visit : Iteration (Entry Str Str)) (id : Str)
    (fetched : Fetched (Option Str)) : State := { s with
  names := (s.names.fetchedChannel visit s.workspace id (some fetched) s.clock).1
  task := .idle
  channels := s.channels.answer visit id (channelNick fetched) id CHANNEL_TTL s.clock (limit fetched) }

def step (s : State) : Action → Option State
  | .advance elapsed => some { s with clock := s.clock + elapsed }
  | .senderNick visit sender => if s.task = .idle then some (senderNick s visit sender) else none
  | .channelName visit id => if s.task = .idle then some (channelName s visit id) else none
  | .userAnswered visit fetched =>
      match s.task with
      | .user id since => if waited fetched since s.clock then some (userAnswered s visit id fetched) else none
      | _ => none
  | .channelAnswered visit fetched =>
      match s.task with
      | .channel id since =>
          if waited fetched since s.clock then some (channelAnswered s visit id fetched) else none
      | _ => none
  | .cacheChannel visit id name => some { s with
      names := s.names.cacheChannel visit id name s.clock
      channels := (s.channels.give id (logText name 256) s.clock).write
        ⟨id, logText name 256, s.clock, CHANNEL_TTL, visit⟩ }
  | .abandon => some { s with task := .idle }

def initial (workspace : Workspace) (clock : Nat) : State :=
  ⟨clock, workspace, .new, .idle, .empty, .empty⟩

def machine : System State Action where
  start := fun s => ∃ workspace clock, s = initial workspace clock
  step := step

end SjmbSlack.Slackbot.Lookups
