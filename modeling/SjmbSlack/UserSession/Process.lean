import SjmbSlack.Slackbot.Worker
import SjmbSlack.UserSession.Events

/-! `Session::process`, suspended wherever it awaits: for the processing lock,
for room in the worker's queue, and for the receipt of the worker. -/
namespace SjmbSlack.UserSession
open Slackbot

/-- The worker's clock counts nanoseconds since the Unix epoch. -/
def SECOND : Nat := 1000000000

/-- What a session is configured with. `decode` is the SDK's decoding of a
message event and `validSocketUrl` the check of a reconnect URL. -/
structure Config where
  window : Int
  maxPages : Nat
  workspace : Workspace
  dryRun : Bool
  decode : Json → Option SlackMessageEvent
  validSocketUrl : Str → Bool

structure Job where
  channel : Str
  ts : Str
  thread : Option Str
  receipt : Nat
  message : QueuedMessage

inductive Process where
  | locking (event : Json)
  | sending (event : Json) (job : Job) (since : Nat)
  | awaiting (event : Json) (job : Job) (since : Nat)

namespace Process

def holdsLock : Process → Bool
  | .locking _ => false
  | _ => true

def event : Process → Json
  | .locking event => event
  | .sending event _ _ => event
  | .awaiting event _ _ => event

end Process

structure Handed where
  receipt : Nat
  channel : Str
  ts : Str
  deriving DecidableEq

/-- What the calls of `process` share. `returned` holds the events it returned
`Ok` for, `recordings` all records `Store::processed` ever made, with the receipts they
were made for, `prunes` the times the store was pruned for, `handed` what went to the
worker, and `earlier` the handlings of the workers of former processes; no step reads
them. -/
structure Core where
  store : Snapshot
  worker : Worker.State
  receipts : Nat
  returned : List Json
  recordings : List (Nat × Seen)
  prunes : List Int
  handed : List Handed
  earlier : List Worker.Handling

namespace Core

def clock (core : Core) : Nat := core.worker.clock

def now (core : Core) : Int := (core.clock / SECOND : Nat)

def recorded (core : Core) : List Seen := core.recordings.map Prod.snd

def answer (core : Core) (receipt : Nat) : Option Bool :=
  (core.worker.answers.find? fun answer => answer.1 = receipt).map Prod.snd

end Core

/-- How far a call gets before it awaits again. -/
inductive Outcome where
  | suspended (call : Process)
  | returned (ok : Bool)

inductive Turn where
  | lock
  | send
  | receipt
  | timeout
  deriving DecidableEq

namespace Process

def succeed (core : Core) (event : Json) : Core × Outcome :=
  ({ core with returned := event :: core.returned }, .returned true)

def fail (core : Core) (channel : Str) : Core × Outcome :=
  ({ core with store := core.store.failed channel }, .returned false)

/-- The thread is remembered before the message is looked up. -/
def remember (config : Config) (core : Core) (id : Str) (thread : Option Str) : Core :=
  match thread with
  | some parent => { core with
      store := core.store.rememberThread config.window id parent core.now
      prunes := core.now :: core.prunes }
  | none => core

/-- `process` from the lock to its first suspension. -/
def start (config : Config) (core : Core) (event : Json) : Core × Outcome :=
  match normalise config.decode event with
  | none => succeed core event
  | some (message, ts, thread) =>
      match message.channel with
      | none => (core, .returned false)
      | some id =>
          let core := remember config core id thread
          if core.store.isSeen id ts then succeed core event
          else match prepareMessage config.workspace message core.clock with
            | .error _ => succeed core event
            | .ok queued =>
                let queued := { queued with
                  completion := some core.receipts, dryRun := config.dryRun }
                ({ core with receipts := core.receipts + 1 },
                  .suspended (.sending event ⟨id, ts, thread, core.receipts, queued⟩ core.clock))

def admitted (core : Core) (job : Job) (queue : Mpsc QueuedMessage) : Core :=
  { core with
    worker := { core.worker with
      queue := queue
      accepted := core.worker.accepted ++ [job.message] }
    handed := core.handed ++ [⟨job.receipt, job.channel, job.ts⟩] }

def record (config : Config) (core : Core) (job : Job) : Core :=
  { core with
    store := core.store.processed config.window job.channel job.ts job.thread core.now
    recordings := core.recordings ++ [(job.receipt, ⟨job.channel, job.ts, core.now⟩)]
    prunes := core.now :: core.prunes }

theorem recorded_record (config : Config) (core : Core) (job : Job) :
    (record config core job).recorded = core.recorded ++ [⟨job.channel, job.ts, core.now⟩] := by
  simp only [Core.recorded, record, List.map_append, List.map_cons, List.map_nil]

/-- The next step of a call; `locked` says that another call has the lock. -/
def step (config : Config) (core : Core) (locked : Bool) : Process → Turn → Option (Core × Outcome)
  | .locking event, .lock => if locked then none else some (start config core event)
  | .sending event job _, .send =>
      match core.worker.queue.trySend job.message with
      | .ok queue => some (admitted core job queue, .suspended (.awaiting event job core.clock))
      | .error .closed => some (fail core job.channel)
      | .error .full => none
  | .sending _ job since, .timeout =>
      match core.worker.queue.trySend job.message with
      | .error .full =>
          if since + 30 * SECOND ≤ core.clock then some (fail core job.channel) else none
      | _ => none
  | .awaiting event job _, .receipt =>
      match core.answer job.receipt with
      | some true => some (succeed (record config core job) event)
      | some false => some (fail core job.channel)
      | none => if core.worker.task = .returned then some (fail core job.channel) else none
  | .awaiting _ job since, .timeout =>
      match core.answer job.receipt with
      | none => if since + 60 * SECOND ≤ core.clock then some (fail core job.channel) else none
      | some _ => none
  | _, _ => none

end Process

end SjmbSlack.UserSession
