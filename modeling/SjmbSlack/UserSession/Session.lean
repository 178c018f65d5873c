import SjmbSlack.Library.Machine
import SjmbSlack.UserSession.Link
import SjmbSlack.UserSession.StoreProgress

/-! One user session: `connection` with its reader, consumer and recovery, the
worker, the saved state, and the world around them. A task is suspended wherever
the code awaits. -/
namespace SjmbSlack.UserSession.Session
open Machine Api Slackbot

structure Served where
  cursor : Str
  response : Json

structure Request where
  thread : Option Str
  pages : List Served
  error : Option ApiError

/-- A pass of `recover_channel` at one of its requests. `pages` counts the
requests left for it, `threads` the threads left after it, and `rest` the
channels left after this one. The last five fields record the pages served, the
requests completed, the threads tracked after the history, the events `process`
returned `Ok` for, and how many messages had been posted when the history was
asked for. -/
structure Paging where
  channel : Str
  oldest : Int
  thread : Option Str
  threads : List Str
  cursor : Str
  cursors : List Str
  pages : Nat
  rest : List (Str × Channel)
  served : List Served
  done : List Request
  tracked : List Str
  handled : List Json
  known : Nat

inductive Recovery where
  | ticking
  | choosing (channels : List (Str × Channel))
  | requesting (paging : Paging)
  | scanning (paging : Paging) (events : List Json) (response : Json)
  | processing (paging : Paging) (events : List Json) (response : Json) (call : Process)
  | saving (rest : List (Str × Channel))

inductive Consumer where
  | receiving
  | discovering
  | asking (event : Json) (channel : Str)
  | processing (call : Process)
  | saving

inductive Stage where
  | connecting
  | greeting
  | discovering
  | persisting
  | running
  deriving DecidableEq

inductive Caller where
  | live
  | recovery
  deriving DecidableEq

/-- One connection. `copy` is the state that the save in progress writes, with the
task that waits for it. `existing` records the channels that had a checkpoint when
the connection began them, and `finished` the passes that finished the recovery of
a channel. -/
structure Connection where
  number : Nat
  began : Int
  stage : Stage
  link : Link
  consumer : Consumer
  recovery : Recovery
  nextPass : Nat
  copy : Option (Option Caller × Snapshot)
  existing : List Str
  finished : List Paging

/-- A top-level message of a channel. `tracked` says whether the channel had a
checkpoint then. -/
structure Posted where
  channel : Str
  ts : Str
  second : Int
  tracked : Bool
  deriving DecidableEq

inductive Happening where
  | failed (connection : Nat)
  | applied (connection : Nat) (through : Int) (ping : Nat)
  deriving DecidableEq

/-- `saved` is what the last save that returned `Ok` had taken; no step reads it. The
fields from `posted` on record what happened: messages posted, window clips, and
failures and checkpoints of connections (newest first). -/
structure State where
  core : Core
  saved : Option Snapshot
  members : List Str
  stopped : Bool
  unsaved : Bool
  connection : Option Connection
  connections : Nat
  posted : List Posted
  clips : List (Str × Int)
  history : List Happening

inductive Action where
  | advance (elapsed : Nat)
  /-- A message is posted, and put on a socket that has greeted. -/
  | post (event : Json) (channel ts : Str)
  | place (frame : Frame)
  | receivePing
  | answer (ping : Nat) (pong : Json)
  | worker (action : Worker.Action)
  | connect
  | opened
  | greet
  | tick
  | recordPing
  | read
  | fail
  /-- `discover_channels` ends; the order is that of the set it made. -/
  | discover (responses : List (Except ApiError Json)) (order : List Str)
  | consume
  | answered (response : Except ApiError Json)
  | turn (caller : Caller) (turn : Turn)
  | startPass
  | choose
  | page (response : Except ApiError Json)
  | scan
  /-- The save that the connection or one of its tasks waits for has the lock. -/
  | copy (caller : Option Caller)
  | save (caller : Option Caller) (ok : Bool)
  /-- The save of `run` after a connection. -/
  | saveAfter
  | stop
  /-- The final save, and a new process that finds what it took. -/
  | restart
  /-- A new process that finds something else in the state file, or no file: the old one
  crashed, or its saves failed or got in the way of each other. -/
  | crash (found : Option Snapshot)

namespace State

def clock (s : State) : Nat := s.core.clock

def now (s : State) : Int := s.core.now

def withLink (s : State) (conn : Connection) (link : Link) : State :=
  { s with connection := some { conn with link := link } }

def withConsumer (s : State) (conn : Connection) (consumer : Consumer) : State :=
  { s with connection := some { conn with consumer := consumer } }

def withRecovery (s : State) (conn : Connection) (recovery : Recovery) : State :=
  { s with connection := some { conn with recovery := recovery } }

def withStore (s : State) (store : Snapshot) : State :=
  { s with core := { s.core with store := store } }

def withPruned (s : State) (store : Snapshot) (time : Int) : State :=
  { s with core := { s.core with store := store, prunes := time :: s.core.prunes } }

def disconnect (s : State) : State := { s with connection := none, unsaved := true }

def noteFailed (s : State) (conn : Connection) : State :=
  { s with history := .failed conn.number :: s.history }

end State

def Consumer.holdsLock : Consumer → Bool
  | .processing call => call.holdsLock
  | _ => false

def Recovery.holdsLock : Recovery → Bool
  | .processing _ _ _ call => call.holdsLock
  | _ => false

def Recovery.rest : Recovery → List (Str × Channel)
  | .ticking => []
  | .choosing channels => channels
  | .requesting paging | .scanning paging _ _ | .processing paging _ _ _ => paging.rest
  | .saving rest => rest

def serving (conn : Connection) : Bool :=
  conn.stage = .discovering || conn.stage = .persisting || conn.stage = .running

def afterRead (s : State) (conn : Connection) : Except ReadError Link → State
  | .ok link => s.withLink conn link
  | .error .messageRefused => (s.noteFailed conn).disconnect
  | .error .other => s.disconnect

def doneWith (s : State) (conn : Connection) (dealt : Dealt) : State :=
  { s with connection := some { conn with
      consumer := .receiving
      link := { conn.link with done := conn.link.done ++ [dealt] } } }

def consume (config : Config) (s : State) (conn : Connection) : Option State :=
  match conn.consumer, conn.link.queue.recv with
  | .receiving, some (event, queue) =>
      let conn := { conn with link := { conn.link with queue := queue } }
      match event with
      | .checkpoint through ping => some ({ s with
          history := .applied conn.number through ping :: s.history }.withPruned
            (s.core.store.checkpoint config.window through s.now) s.now |>.withConsumer conn .saving)
      | .message event =>
          if ¬ isMessage event then some (s.withConsumer conn .discovering)
          else match liveChannel event with
            | none => some (doneWith s conn (.foreign event))
            | some id =>
                if s.members.contains id then
                  some (s.withConsumer conn (.processing (.locking event)))
                else some (s.withConsumer conn (.asking event id))
  | _, _ => none

def addChannels (data : Snapshot) (time : Int) : List Str → Snapshot × Except StoreError Unit
  | [] => (data, .ok ())
  | id :: rest =>
      match data.addChannel id time with
      | .ok data => addChannels data time rest
      | .error error => (data, .error error)

def answered (s : State) (conn : Connection) (event : Json) (id : Str) :
    Except ApiError Json → State
  | .error _ => (s.noteFailed conn).disconnect
  | .ok response =>
      let channel := response.get "channel".toList
      if ¬ eligibleChannel channel ∨ ¬ (channel.get "is_member".toList).isTrue then
        doneWith s conn (.unjoined event response)
      else if ¬ s.members.length < MAX_CHANNELS then (s.noteFailed conn).disconnect
      else
        let s := { s with members := if s.members.contains id then s.members else s.members ++ [id] }
        match s.core.store.addChannel id s.now with
        | .ok store => (s.withStore store).withConsumer conn (.processing (.locking event))
        | .error _ => (s.noteFailed conn).disconnect

/-- The members of the store that a connection clips to the window, with the
second it clips them to. -/
def clipped (window began : Int) (data : Snapshot) (joined : List Str) : List (Str × Int) :=
  joined.filterMap fun id =>
    if (data.progress id).any fun progress => progress.coveredUntil < began - window then
      some (id, began - window) else none

/-- `begin_connection` with the channels just discovered. -/
def start (config : Config) (s : State) (conn : Connection) (joined : List Str) : State :=
  let begun := s.core.store.beginConnection config.window joined conn.began
  let existing := joined.filter fun id => s.core.store.channels.contains id
  let s := { s with
    members := joined
    clips := s.clips ++ clipped config.window conn.began s.core.store joined }
  match begun.2 with
  | .ok () => { s.withPruned begun.1 conn.began with
      connection := some { conn with stage := .persisting, existing := existing } }
  | .error _ => (s.withStore begun.1).disconnect

/-- The end of `discover_channels`, of the connection or of the consumer. -/
def discover (config : Config) (s : State) (conn : Connection)
    (responses : List (Except ApiError Json)) (order : List Str) : Option State :=
  match discoverChannels responses with
  | .error _ =>
      if conn.stage = .discovering then some s.disconnect
      else match conn.stage, conn.consumer with
        | .running, .discovering => some s.disconnect
        | _, _ => none
  | .ok ids =>
      if ¬ order.Perm ids then none
      else match conn.stage, conn.consumer with
        | .discovering, _ => some (start config s conn order)
        | .running, .discovering =>
            let added := addChannels s.core.store s.now order
            let s := { s with members := order }
            match added.2 with
            | .ok () => some ((s.withStore added.1).withConsumer conn .receiving)
            | .error _ => some (s.withStore added.1).disconnect
        | _, _ => none

def passFailed (s : State) (conn : Connection) (rest : List (Str × Channel)) (error : ApiError) :
    State :=
  if authenticationError error then s.disconnect
  else match error with
    | .rateLimited _ => s.withRecovery conn .ticking
    | _ => s.withRecovery conn (.choosing rest)

/-- The loop head of `recover_pages`. -/
def request (s : State) (conn : Connection) (paging : Paging) : State :=
  match paging.pages with
  | 0 => passFailed s conn paging.rest .other
  | pages + 1 => s.withRecovery conn (.requesting { paging with pages := pages })

def nextThread (config : Config) (s : State) (conn : Connection) (paging : Paging) : State :=
  match paging.threads with
  | [] => (s.withStore (s.core.store.finishRecovery paging.channel conn.began)).withRecovery
      { conn with finished := paging :: conn.finished } (.saving paging.rest)
  | thread :: threads => request s conn { paging with
      thread := some thread
      threads := threads
      cursor := []
      cursors := []
      pages := config.maxPages
      served := [] }

def requestDone (config : Config) (s : State) (conn : Connection) (paging : Paging) : State :=
  let done := paging.done ++ [⟨paging.thread, paging.served, none⟩]
  match paging.thread with
  | none =>
      let threads := s.core.store.threads paging.channel
      nextThread config s conn { paging with threads := threads, tracked := threads, done := done }
  | some _ => nextThread config s conn { paging with done := done }

/-- A request failed: a thread that no longer exists is forgotten. -/
def requestFailed (config : Config) (s : State) (conn : Connection) (paging : Paging)
    (error : ApiError) : State :=
  match paging.thread, error with
  | some thread, .request _ code =>
      if code = "thread_not_found".toList then
        nextThread config (s.withStore (s.core.store.forgetThread paging.channel thread)) conn
          { paging with done := paging.done ++ [⟨some thread, paging.served, some error⟩] }
      else passFailed s conn paging.rest error
  | _, _ => passFailed s conn paging.rest error

def page (config : Config) (s : State) (conn : Connection) (paging : Paging) :
    Except ApiError Json → State
  | .error error => requestFailed config s conn paging error
  | .ok response =>
      match (response.get "messages".toList).asArray with
      | none => requestFailed config s conn paging .other
      | some events =>
          if ¬ events.length ≤ 1000 then requestFailed config s conn paging .other
          else s.withRecovery conn (.scanning
            { paging with served := paging.served ++ [⟨paging.cursor, response⟩] } events response)

def scan (config : Config) (s : State) (conn : Connection) (paging : Paging) (response : Json) :
    List Json → State
  | event :: rest =>
      match completeEvent paging.channel paging.thread event with
      | none => requestFailed config s conn paging .other
      | some event =>
          if inRange paging.oldest conn.began event then
            s.withRecovery conn (.processing paging rest response (.locking event))
          else s.withRecovery conn (.scanning paging rest response)
  | [] =>
      match nextCursor response with
      | .error error => requestFailed config s conn paging error
      | .ok cursor =>
          if cursor = [] then requestDone config s conn paging
          else if paging.cursors.contains cursor then requestFailed config s conn paging .other
          else request s conn { paging with cursor := cursor, cursors := cursor :: paging.cursors }

def choose (config : Config) (s : State) (conn : Connection) : List (Str × Channel) → State
  | [] => s.withRecovery conn .ticking
  | (id, channel) :: rest =>
      if ¬ s.members.contains id then s.withRecovery conn (.choosing rest)
      else
        let oldest := max (max (channel.coveredUntil - OVERLAP) (conn.began - config.window)) 0
        request (s.withStore (s.core.store.retryChannel id)) conn {
          channel := id
          oldest := oldest
          thread := none
          threads := []
          cursor := []
          cursors := []
          pages := config.maxPages
          rest := rest
          served := []
          done := []
          tracked := []
          handled := []
          known := s.posted.length }

def turn (config : Config) (s : State) (conn : Connection) : Caller → Turn → Option State
  | .live, turn =>
      match conn.consumer with
      | .processing call =>
          (call.step config s.core conn.recovery.holdsLock turn).map fun (core, outcome) =>
            let s := { s with core := core }
            match outcome with
            | .suspended call => s.withConsumer conn (.processing call)
            | .returned true => doneWith s conn (.processed call.event)
            | .returned false => (s.noteFailed conn).disconnect
      | _ => none
  | .recovery, turn =>
      match conn.recovery with
      | .processing paging events response call =>
          (call.step config s.core conn.consumer.holdsLock turn).map fun (core, outcome) =>
            let s := { s with core := core }
            match outcome with
            | .suspended call => s.withRecovery conn (.processing paging events response call)
            | .returned true => s.withRecovery conn (.scanning
                { paging with handled := paging.handled ++ [call.event] } events response)
            | .returned false => requestFailed config s conn paging .other
      | _ => none

def saving (conn : Connection) : Option Caller → Bool
  | none => conn.stage = .persisting
  | some .live => match conn.stage, conn.consumer with
      | .running, .saving => true
      | _, _ => false
  | some .recovery => match conn.stage, conn.recovery with
      | .running, .saving _ => true
      | _, _ => false

def saved (s : State) (conn : Connection) : Option Caller → State
  | none => { s with connection := some { conn with stage := .running, nextPass := s.clock } }
  | some .live => s.withConsumer conn .receiving
  | some .recovery => s.withRecovery conn (.choosing conn.recovery.rest)

def save (s : State) (conn : Connection) (caller : Option Caller) (ok : Bool) : Option State :=
  match conn.copy with
  | none => none
  | some (holder, snapshot) =>
      if holder ≠ caller ∨ ¬ saving conn caller then none
      else if ok then
        some (saved { s with saved := some snapshot } { conn with copy := none } caller)
      else some s.disconnect

/-- What other sessions and the worker do; the session keeps its own sender. -/
def allowed (worker : Worker.State) : Worker.Action → Bool
  | .advance _ | .signalDrain => false
  | .send message => message.completion = none
  | .dropSender => 1 < worker.senders
  | _ => true

def boot (s : State) (store : Snapshot) (saved : Option Snapshot) : State :=
  { s with
    core := { s.core with
      store := store
      worker := Worker.initial s.clock MESSAGE_QUEUE_BOUND 1
      earlier := s.core.earlier ++ s.core.worker.handled }
    saved := saved
    members := []
    stopped := false
    unsaved := false
    connection := none }

/-- `Store::open` on a state file that it accepts, or without one. -/
def openFound (s : State) (found : Option Snapshot) : Snapshot :=
  (found.map Snapshot.restored).getD (.fresh s.core.store.team s.core.store.user)

def newConnection (s : State) : Connection where
  number := s.connections
  began := s.now
  stage := .connecting
  link := .opened
  consumer := .receiving
  recovery := .ticking
  nextPass := 0
  copy := none
  existing := []
  finished := []

def post (s : State) (event : Json) (channel ts : Str) : Option State :=
  if isMessage event ∧ (event.get "channel".toList).asStr = some channel ∧
      (event.get "ts".toList).asStr = some ts ∧ eventSecond event = some s.now then
    let posted := { s with posted := s.posted ++
      [⟨channel, ts, s.now, s.core.store.channels.contains channel⟩] }
    match s.connection with
    | some conn =>
        if conn.link.greeted then some (posted.withLink conn (conn.link.place (.text (some event))))
        else some posted
    | none => some posted
  else none

def stepConnected (config : Config) (s : State) (conn : Connection) : Action → Option State
  | .place frame =>
      if conn.stage = .connecting then none else some (s.withLink conn (conn.link.place frame))
  | .receivePing => conn.link.receivePing.map (s.withLink conn)
  | .answer ping pong => (conn.link.answer ping pong).map (s.withLink conn)
  | .opened =>
      if conn.stage = .connecting then
        some { s with connection := some { conn with stage := .greeting } }
      else none
  | .greet =>
      if conn.stage = .greeting then
        conn.link.greet.map fun
          | .ok (hello, link) => { s with connection := some { conn with
              link := link, stage := if hello then .discovering else .greeting } }
          | .error _ => s.disconnect
      else none
  | .tick => if serving conn then (conn.link.tick s.clock).map (afterRead s conn) else none
  | .recordPing => (conn.link.recordPing s.clock s.now).map (s.withLink conn)
  | .read => if serving conn then (conn.link.read config).map (afterRead s conn) else none
  | .fail => some s.disconnect
  | .discover responses order => discover config s conn responses order
  | .consume => if conn.stage = .running then consume config s conn else none
  | .answered response =>
      match conn.consumer with
      | .asking event id => some (answered s conn event id response)
      | _ => none
  | .turn caller step => turn config s conn caller step
  | .startPass =>
      match conn.stage, conn.recovery with
      | .running, .ticking =>
          if conn.nextPass ≤ s.clock then some (s.withRecovery
            { conn with nextPass := tickAfter conn.nextPass s.clock (60 * SECOND) }
            (.choosing s.core.store.recoveryChannels))
          else none
      | _, _ => none
  | .choose =>
      match conn.recovery with
      | .choosing channels => some (choose config s conn channels)
      | _ => none
  | .page response =>
      match conn.recovery with
      | .requesting paging => some (page config s conn paging response)
      | _ => none
  | .scan =>
      match conn.recovery with
      | .scanning paging events response => some (scan config s conn paging response events)
      | _ => none
  | .copy caller =>
      if conn.copy.isNone ∧ saving conn caller then some { s with
        connection := some { conn with copy := some (caller, s.core.store) } }
      else none
  | .save caller ok => save s conn caller ok
  | _ => none

def step (config : Config) (s : State) : Action → Option State
  | .advance elapsed => some { s with core := { s.core with
      worker := { s.core.worker with clock := s.core.worker.clock + elapsed } } }
  | .post event channel ts => post s event channel ts
  | .worker action =>
      if allowed s.core.worker action then
        (Worker.step s.core.worker action).map fun worker =>
          { s with core := { s.core with worker := worker } }
      else none
  | .connect =>
      if s.connection.isNone ∧ ¬ s.unsaved ∧ ¬ s.stopped then some { s with
        connection := some (newConnection s)
        connections := s.connections + 1 }
      else none
  | .saveAfter =>
      if s.connection.isNone ∧ s.unsaved ∧ ¬ s.stopped then
        some { s with saved := some s.core.store, unsaved := false }
      else none
  | .stop =>
      if s.stopped then none
      else some { s with
        core := { s.core with worker := { s.core.worker with drainSignal := true } }
        connection := none
        stopped := true }
  | .restart =>
      if s.stopped then some (boot s s.core.store.restored (some s.core.store)) else none
  | .crash found => some (boot s (openFound s found) s.saved)
  | action => s.connection.bind fun conn => stepConnected config s conn action

def initial (team user : Str) (clock : Nat) : State where
  core := {
    store := .fresh team user
    worker := Worker.initial clock MESSAGE_QUEUE_BOUND 1
    receipts := 0
    returned := []
    recordings := []
    prunes := []
    handed := []
    earlier := [] }
  saved := none
  members := []
  stopped := false
  unsaved := false
  connection := none
  connections := 0
  posted := []
  clips := []
  history := []

/-- Runs of a session from an account without a state file. -/
def machine (config : Config) : System State Action where
  start := fun s => ∃ team user clock, s = initial team user clock
  step := step config

end SjmbSlack.UserSession.Session
