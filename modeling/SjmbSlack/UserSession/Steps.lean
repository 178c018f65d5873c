import SjmbSlack.UserSession.Session

/-! What one step of a session does to each of its parts. -/
namespace SjmbSlack.UserSession.Session
open Machine Api Slackbot

def posting (event : Json) (conn : Connection) : Connection :=
  if conn.link.greeted then { conn with link := conn.link.place (.text (some event)) } else conn

inductive Around (s : State) : Action → State → Prop where
  | advance (elapsed : Nat) : Around s (.advance elapsed) { s with core := { s.core with
      worker := { s.core.worker with clock := s.core.worker.clock + elapsed } } }
  | post (event : Json) (channel ts : Str) (hmessage : isMessage event = true)
      (hchannel : (event.get "channel".toList).asStr = some channel)
      (hts : (event.get "ts".toList).asStr = some ts) (hsecond : eventSecond event = some s.now) :
      Around s (.post event channel ts) { s with
        posted := s.posted ++ [⟨channel, ts, s.now, s.core.store.channels.contains channel⟩]
        connection := s.connection.map (posting event) }
  | worker (action : Worker.Action) (worker : Worker.State)
      (hallowed : allowed s.core.worker action = true)
      (hworker : Worker.step s.core.worker action = some worker) :
      Around s (.worker action) { s with core := { s.core with worker := worker } }
  | connect (hnone : s.connection = none) : Around s .connect { s with
      connection := some (newConnection s)
      connections := s.connections + 1 }
  | saveAfter (hnone : s.connection = none) :
      Around s .saveAfter { s with saved := some s.core.store, unsaved := false }
  | stop : Around s .stop { s with
      core := { s.core with worker := { s.core.worker with drainSignal := true } }
      connection := none
      stopped := true }
  | restart (hstopped : s.stopped = true) :
      Around s .restart (boot s s.core.store.restored (some s.core.store))
  | crash (found : Option Snapshot) : Around s (.crash found) (boot s (openFound s found) s.saved)

theorem around_post {s t : State} {event : Json} {channel ts : Str}
    (h : post s event channel ts = some t) : Around s (.post event channel ts) t := by
  unfold post at h
  dsimp only at h
  split at h
  · rename_i hevent
    obtain ⟨hmessage, hchannel, hts, hsecond⟩ := hevent
    have hpost := Around.post (s := s) event channel ts hmessage hchannel hts hsecond
    split at h
    · rename_i conn hconn
      rw [hconn, Option.map_some, posting] at hpost
      split at h
      · rename_i hgreeted
        rw [if_pos hgreeted] at hpost
        cases Option.some.inj h
        exact hpost
      · rename_i hgreeted
        rw [if_neg hgreeted, ← hconn] at hpost
        cases Option.some.inj h
        exact hpost
    · rename_i hconn
      rw [hconn, Option.map_none, ← hconn] at hpost
      cases Option.some.inj h
      exact hpost
  · contradiction

theorem step_cases {config : Config} {s t : State} {a : Action} (hs : step config s a = some t) :
    Around s a t ∨ ∃ conn, s.connection = some conn ∧ stepConnected config s conn a = some t := by
  unfold step at hs
  split at hs
  · cases Option.some.inj hs
    exact .inl (.advance _)
  · exact .inl (around_post hs)
  · split at hs
    · rename_i hallowed
      obtain ⟨worker, hworker, rfl⟩ := Option.map_eq_some_iff.mp hs
      exact .inl (.worker _ worker hallowed hworker)
    · contradiction
  · split at hs
    · rename_i hguard
      cases Option.some.inj hs
      exact .inl (.connect (by simpa using hguard.1))
    · contradiction
  · split at hs
    · rename_i hguard
      cases Option.some.inj hs
      exact .inl (.saveAfter (by simpa using hguard.1))
    · contradiction
  · split at hs
    · contradiction
    · cases Option.some.inj hs
      exact .inl .stop
  · split at hs
    · rename_i hstopped
      cases Option.some.inj hs
      exact .inl (.restart hstopped)
    · contradiction
  · cases Option.some.inj hs
    exact .inl (.crash _)
  · exact .inr (Option.bind_eq_some_iff.mp hs)

def job? : Process → Option Job
  | .locking _ => none
  | .sending _ job _ => some job
  | .awaiting _ job _ => some job

inductive Turned (config : Config) (core : Core) (call : Process) : Core → Outcome → Prop where
  | sending (id ts : Str) (thread : Option Str) (message : QueuedMessage)
      (h : call = .locking call.event) (hts : validTs ts = true)
      (hreceipt : message.completion = some core.receipts)
      (hfresh : (Process.remember config core id thread).store.isSeen id ts = false) :
      Turned config core call
        { Process.remember config core id thread with receipts := core.receipts + 1 }
        (.suspended (.sending call.event ⟨id, ts, thread, core.receipts, message⟩ core.clock))
  | admitted (job : Job) (since : Nat) (queue : Mpsc QueuedMessage)
      (h : call = .sending call.event job since)
      (hqueue : core.worker.queue.trySend job.message = .ok queue) :
      Turned config core call (Process.admitted core job queue)
        (.suspended (.awaiting call.event job core.clock))
  | harvested (job : Job) (since : Nat) (h : call = .awaiting call.event job since)
      (hanswer : core.answer job.receipt = some true) :
      Turned config core call
        (Process.succeed (Process.record config core job) call.event).1 (.returned true)
  | settled (id : Str) (thread : Option Str) (h : call = .locking call.event) :
      Turned config core call
        (Process.succeed (Process.remember config core id thread) call.event).1 (.returned true)
  | failed (job : Job) (h : job? call = some job)
      (hanswer : ∀ event since, call = .awaiting event job since →
        core.answer job.receipt ≠ some true) :
      Turned config core call (Process.fail core job.channel).1 (.returned false)
  | refused (h : call = .locking call.event) : Turned config core call core (.returned false)

theorem turned_start (config : Config) (core : Core) (event : Json) :
    Turned config core (.locking event) (Process.start config core event).1
      (Process.start config core event).2 := by
  unfold Process.start
  split
  · exact .settled [] none rfl
  · rename_i message ts thread hnormalise
    obtain ⟨-, -, hts, -⟩ := normalise_some hnormalise
    split
    · exact .refused rfl
    · rename_i id _
      dsimp only
      split
      · exact .settled id thread rfl
      · rename_i hfresh
        split
        · exact .settled id thread rfl
        · have hreceipts : (Process.remember config core id thread).receipts = core.receipts := by
            cases thread <;> rfl
          have hclock : (Process.remember config core id thread).clock = core.clock := by
            cases thread <;> rfl
          rw [hreceipts, hclock]
          exact .sending id ts thread _ rfl hts rfl (by simpa using hfresh)

theorem turned {config : Config} {core after : Core} {locked : Bool} {call : Process} {turn : Turn}
    {outcome : Outcome} (h : call.step config core locked turn = some (after, outcome)) :
    Turned config core call after outcome := by
  unfold Process.step at h
  split at h
  · split at h
    · contradiction
    · rename_i event _
      have hstart := turned_start config core event
      rw [Option.some.inj h] at hstart
      exact hstart
  · split at h
    · cases Option.some.inj h
      exact .admitted _ _ _ rfl (by assumption)
    · cases Option.some.inj h
      exact .failed _ rfl fun _ _ h => by cases h
    · contradiction
  · split at h
    · split at h
      · cases Option.some.inj h
        exact .failed _ rfl fun _ _ h => by cases h
      · contradiction
    · contradiction
  · split at h
    · rename_i hanswer
      cases Option.some.inj h
      exact .harvested _ _ rfl hanswer
    · rename_i hanswer
      cases Option.some.inj h
      refine .failed _ rfl fun _ _ _ => ?_
      simp [hanswer]
    · rename_i hanswer
      split at h
      · cases Option.some.inj h
        refine .failed _ rfl fun _ _ _ => ?_
        simp [hanswer]
      · contradiction
  · split at h
    · rename_i hanswer
      split at h
      · cases Option.some.inj h
        refine .failed _ rfl fun _ _ _ => ?_
        simp [hanswer]
      · contradiction
    · contradiction
  · contradiction

structure Recovers (s : State) (conn : Connection) (t : State) : Prop where
  connection : t.connection = none ∨ ∃ recovery finished,
    t.connection = some { conn with recovery := recovery, finished := finished }
  core : t.core = { s.core with store := t.core.store }
  seen : t.core.store.seen = s.core.store.seen
  unlocked : ∀ after, t.connection = some after → after.recovery.holdsLock = false
  rest : t = { s with core := t.core, connection := t.connection, unsaved := t.unsaved }

theorem Recovers.refl {s : State} (conn : Connection) (recovery : Recovery)
    (finished : List Paging) (h : recovery.holdsLock = false) :
    Recovers s conn (s.withRecovery { conn with finished := finished } recovery) :=
  ⟨.inr ⟨recovery, finished, rfl⟩, rfl, rfl, fun _ hafter => Option.some.inj hafter ▸ h, rfl⟩

theorem Recovers.withStore {s t : State} {conn : Connection} {store : Snapshot}
    {finished : List Paging}
    (h : Recovers (s.withStore store) { conn with finished := finished } t)
    (hstore : store.seen = s.core.store.seen) : Recovers s conn t := by
  obtain ⟨hconnection, hcore, hseen, hunlocked, hrest⟩ := h
  exact ⟨hconnection, hcore, hseen.trans hstore, hunlocked, hrest⟩

theorem recovers_disconnect (s : State) (conn : Connection) : Recovers s conn s.disconnect :=
  ⟨.inl rfl, rfl, rfl, fun _ hafter => (nomatch hafter), rfl⟩

theorem recovers_passFailed (s : State) (conn : Connection) (rest : List (Str × Channel))
    (error : ApiError) : Recovers s conn (passFailed s conn rest error) := by
  unfold passFailed
  split
  · exact recovers_disconnect s conn
  · split
    · exact .refl conn _ conn.finished rfl
    · exact .refl conn _ conn.finished rfl

theorem recovers_request (s : State) (conn : Connection) (paging : Paging) :
    Recovers s conn (request s conn paging) := by
  unfold request
  split
  · exact recovers_passFailed ..
  · exact .refl conn _ conn.finished rfl

theorem recovers_nextThread (config : Config) (s : State) (conn : Connection) (paging : Paging) :
    Recovers s conn (nextThread config s conn paging) := by
  unfold nextThread
  split
  · exact Recovers.withStore (.refl _ _ _ rfl) rfl
  · exact recovers_request ..

theorem recovers_requestDone (config : Config) (s : State) (conn : Connection) (paging : Paging) :
    Recovers s conn (requestDone config s conn paging) := by
  unfold requestDone
  dsimp only
  split <;> exact recovers_nextThread ..

theorem recovers_requestFailed (config : Config) (s : State) (conn : Connection) (paging : Paging)
    (error : ApiError) : Recovers s conn (requestFailed config s conn paging error) := by
  unfold requestFailed
  split
  · split
    · exact (recovers_nextThread ..).withStore rfl
    · exact recovers_passFailed ..
  · exact recovers_passFailed ..

theorem recovers_page (config : Config) (s : State) (conn : Connection) (paging : Paging)
    (response : Except ApiError Json) : Recovers s conn (page config s conn paging response) := by
  unfold page
  split
  · exact recovers_requestFailed ..
  · split
    · exact recovers_requestFailed ..
    · split
      · exact recovers_requestFailed ..
      · exact .refl conn _ conn.finished rfl

theorem recovers_scan (config : Config) (s : State) (conn : Connection) (paging : Paging)
    (response : Json) (events : List Json) :
    Recovers s conn (scan config s conn paging response events) := by
  unfold scan
  split
  · split
    · exact recovers_requestFailed ..
    · split
      · exact .refl conn _ conn.finished rfl
      · exact .refl conn _ conn.finished rfl
  · split
    · exact recovers_requestFailed ..
    · split
      · exact recovers_requestDone ..
      · split
        · exact recovers_requestFailed ..
        · exact recovers_request ..

theorem recovers_choose (config : Config) (s : State) (conn : Connection)
    (channels : List (Str × Channel)) : Recovers s conn (choose config s conn channels) := by
  unfold choose
  split
  · exact .refl conn _ conn.finished rfl
  · split
    · exact .refl conn _ conn.finished rfl
    · exact (recovers_request ..).withStore rfl

def Consumer.current : Consumer → List Json
  | .asking event _ => [event]
  | .processing call => [call.event]
  | _ => []

@[simp] theorem current_receiving : Consumer.receiving.current = [] := rfl

@[simp] theorem current_saving : Consumer.saving.current = [] := rfl

structure Live where
  stage : Stage
  link : Link
  consumer : Consumer

def Connection.live (conn : Connection) : Live := ⟨conn.stage, conn.link, conn.consumer⟩

def DealtSoundly (returned : List Json) : Dealt → Prop
  | .processed event => event ∈ returned
  | .foreign event => liveChannel event = none
  | .unjoined _ response => eligibleChannel (response.get "channel".toList) = false ∨
      ((response.get "channel".toList).get "is_member".toList).isTrue = false

/-- What a step does to the live part of its connection, with the checkpoint it
applies; `placed` restricts the frames that the server puts on the socket. -/
inductive LiveStep (config : Config) (placed : Frame → Prop) (s t : State) :
    Live → Option (Int × Nat) → Live → Prop where
  | same (live : Live) : LiveStep config placed s t live none live
  | opened (link : Link) (consumer : Consumer) :
      LiveStep config placed s t ⟨.connecting, link, consumer⟩ none ⟨.greeting, link, consumer⟩
  | place (stage : Stage) (link : Link) (consumer : Consumer) (frame : Frame)
      (h : placed frame) :
      LiveStep config placed s t ⟨stage, link, consumer⟩ none ⟨stage, link.place frame, consumer⟩
  | receivePing (stage : Stage) (link after : Link) (consumer : Consumer)
      (h : link.receivePing = some after) :
      LiveStep config placed s t ⟨stage, link, consumer⟩ none ⟨stage, after, consumer⟩
  | answer (stage : Stage) (link after : Link) (consumer : Consumer) (ping : Nat) (pong : Json)
      (h : link.answer ping pong = some after) :
      LiveStep config placed s t ⟨stage, link, consumer⟩ none ⟨stage, after, consumer⟩
  | greet (link after : Link) (consumer : Consumer) (hello : Bool)
      (h : link.greet = some (.ok (hello, after))) :
      LiveStep config placed s t ⟨.greeting, link, consumer⟩ none
        ⟨if hello then .discovering else .greeting, after, consumer⟩
  | tick (stage : Stage) (link after : Link) (consumer : Consumer)
      (hstage : stage ≠ .connecting ∧ stage ≠ .greeting)
      (h : link.tick s.clock = some (.ok after)) :
      LiveStep config placed s t ⟨stage, link, consumer⟩ none ⟨stage, after, consumer⟩
  | recordPing (stage : Stage) (link after : Link) (consumer : Consumer)
      (h : link.recordPing s.clock s.now = some after) :
      LiveStep config placed s t ⟨stage, link, consumer⟩ none ⟨stage, after, consumer⟩
  | read (stage : Stage) (link after : Link) (consumer : Consumer)
      (hstage : stage ≠ .connecting ∧ stage ≠ .greeting)
      (h : link.read config = some (.ok after)) :
      LiveStep config placed s t ⟨stage, link, consumer⟩ none ⟨stage, after, consumer⟩
  | advance (stage after : Stage) (link : Link) (consumer : Consumer)
      (hstage : stage ≠ .connecting ∧ stage ≠ .greeting)
      (hafter : after ≠ .connecting ∧ after ≠ .greeting) :
      LiveStep config placed s t ⟨stage, link, consumer⟩ none ⟨after, link, consumer⟩
  | checkpoint (stage : Stage) (link : Link) (queue : Mpsc Event) (through : Int) (ping : Nat)
      (h : link.queue.recv = some (.checkpoint through ping, queue)) :
      LiveStep config placed s t ⟨stage, link, .receiving⟩ (some (through, ping))
        ⟨stage, { link with queue := queue }, .saving⟩
  | message (stage : Stage) (link : Link) (consumer : Consumer) (queue : Mpsc Event) (event : Json)
      (h : link.queue.recv = some (.message event, queue))
      (hcurrent : consumer.current = (Event.message event).message?.toList) :
      LiveStep config placed s t ⟨stage, link, .receiving⟩ none
        ⟨stage, { link with queue := queue }, consumer⟩
  | foreign (stage : Stage) (link : Link) (queue : Mpsc Event) (event : Json)
      (h : link.queue.recv = some (.message event, queue)) (hmessage : isMessage event = true)
      (hforeign : liveChannel event = none) :
      LiveStep config placed s t ⟨stage, link, .receiving⟩ none
        ⟨stage, { link with queue := queue, done := link.done ++ [.foreign event] }, .receiving⟩
  | consumer (stage : Stage) (link : Link) (before after : Consumer)
      (h : after.current = before.current) :
      LiveStep config placed s t ⟨stage, link, before⟩ none ⟨stage, link, after⟩
  | done (stage : Stage) (link : Link) (consumer : Consumer) (dealt : Dealt)
      (h : consumer.current = [dealt.event]) (hdealt : DealtSoundly t.core.returned dealt) :
      LiveStep config placed s t ⟨stage, link, consumer⟩ none
        ⟨stage, { link with done := link.done ++ [dealt] }, .receiving⟩

def Follows (config : Config) (placed : Frame → Prop) (s : State) (conn : Connection) (t : State) :
    Prop :=
  t.connections = s.connections ∧
    (t.connection = none ∧ (t.history = s.history ∨ t.history = .failed conn.number :: s.history) ∨
    ∃ after label, t.connection = some after ∧ after.number = conn.number ∧
      LiveStep config placed s t conn.live label after.live ∧
      t.history = (label.map fun at' => Happening.applied conn.number at'.1 at'.2).toList ++ s.history)

section

variable {config : Config} {placed : Frame → Prop} {s t : State} {conn : Connection}

theorem follows_same {after : Connection} (hconn : t.connection = some after)
    (hlive : after.live = conn.live) (hnumber : after.number = conn.number)
    (hconnections : t.connections = s.connections) (hhistory : t.history = s.history) :
    Follows config placed s conn t :=
  ⟨hconnections, .inr ⟨after, none, hconn, hnumber, hlive ▸ .same _, hhistory⟩⟩

theorem follows_disconnect : Follows config placed s conn s.disconnect :=
  ⟨rfl, .inl ⟨rfl, .inl rfl⟩⟩

theorem follows_failed : Follows config placed s conn (s.noteFailed conn).disconnect :=
  ⟨rfl, .inl ⟨rfl, .inr rfl⟩⟩

theorem Recovers.follows {u : State} (h : Recovers u conn t)
    (hconnections : u.connections = s.connections) (hhistory : u.history = s.history) : Follows config placed s conn t := by
  have hconnections : t.connections = s.connections := by rw [h.rest, ← hconnections]
  have hhistory : t.history = s.history := by rw [h.rest, ← hhistory]
  rcases h.connection with hnone | ⟨recovery, finished, hsome⟩
  · exact ⟨hconnections, .inl ⟨hnone, .inl hhistory⟩⟩
  · exact follows_same hsome rfl rfl hconnections hhistory

theorem follows_read {result : Except ReadError Link}
    (h : ∀ link, result = .ok link → LiveStep config placed s (s.withLink conn link) conn.live none
      ⟨conn.stage, link, conn.consumer⟩) :
    Follows config placed s conn (afterRead s conn result) := by
  unfold afterRead
  split
  · exact ⟨rfl, .inr ⟨_, none, rfl, rfl, h _ rfl, rfl⟩⟩
  · exact follows_failed
  · exact follows_disconnect

theorem follows_link {link : Link}
    (h : LiveStep config placed s (s.withLink conn link) conn.live none
      ⟨conn.stage, link, conn.consumer⟩) : Follows config placed s conn (s.withLink conn link) :=
  ⟨rfl, .inr ⟨_, none, rfl, rfl, h, rfl⟩⟩

theorem follows_answered {event : Json} {id : Str} (hconsumer : conn.consumer = .asking event id)
    (response : Except ApiError Json) :
    Follows config placed s conn (answered s conn event id response) := by
  have hlive : conn.live = ⟨conn.stage, conn.link, .asking event id⟩ := by
    rw [Connection.live, hconsumer]
  unfold answered
  split
  · exact follows_failed
  · rename_i response
    dsimp only
    split
    · rename_i hforeign
      refine ⟨rfl, .inr ⟨_, none, rfl, rfl, ?_, rfl⟩⟩
      rw [hlive]
      exact .done _ _ _ (.unjoined event response) rfl (by simpa [DealtSoundly] using hforeign)
    · split
      · exact follows_failed
      · split
        · refine ⟨rfl, .inr ⟨_, none, rfl, rfl, ?_, rfl⟩⟩
          rw [hlive]
          exact .consumer _ _ _ _ rfl
        · exact ⟨rfl, .inl ⟨rfl, .inr rfl⟩⟩

theorem follows_discover {responses : List (Except ApiError Json)} {order : List Str}
    (h : discover config s conn responses order = some t) : Follows config placed s conn t := by
  unfold discover at h
  split at h
  · split at h
    · cases Option.some.inj h
      exact follows_disconnect
    · split at h
      · cases Option.some.inj h
        exact follows_disconnect
      · contradiction
  · split at h
    · contradiction
    · split at h
      · rename_i hstage
        cases Option.some.inj h
        unfold start
        dsimp only
        split
        · refine ⟨rfl, .inr ⟨_, none, rfl, rfl, ?_, rfl⟩⟩
          rw [Connection.live, hstage]
          exact .advance _ _ _ _ ⟨by simp, by simp⟩ ⟨by simp, by simp⟩
        · exact ⟨rfl, .inl ⟨rfl, .inl rfl⟩⟩
      · rename_i hstage hconsumer
        dsimp only at h
        split at h
        · cases Option.some.inj h
          refine ⟨rfl, .inr ⟨_, none, rfl, rfl, ?_, rfl⟩⟩
          rw [Connection.live, hconsumer]
          exact .consumer _ _ _ _ rfl
        · cases Option.some.inj h
          exact ⟨rfl, .inl ⟨rfl, .inl rfl⟩⟩
      · contradiction

theorem Turned.event {core after : Core} {call next : Process} {outcome : Outcome}
    (h : Turned config core call after outcome) (houtcome : outcome = .suspended next) :
    next.event = call.event := by
  cases h <;> cases houtcome <;> rfl

theorem Turned.returned {core after : Core} {call : Process}
    (h : Turned config core call after (.returned true)) : call.event ∈ after.returned := by
  cases h <;> exact List.mem_cons_self

theorem follows_turn {caller : Caller} {step : Turn} (h : turn config s conn caller step = some t) :
    Follows config placed s conn t := by
  unfold turn at h
  split at h
  · split at h
    · rename_i call hconsumer
      obtain ⟨⟨core, outcome⟩, hstep, rfl⟩ := Option.map_eq_some_iff.mp h
      have hturned := turned hstep
      have hlive : conn.live = ⟨conn.stage, conn.link, .processing call⟩ := by
        rw [Connection.live, hconsumer]
      dsimp only
      split
      · rename_i next
        refine ⟨rfl, .inr ⟨_, none, rfl, rfl, ?_, rfl⟩⟩
        rw [hlive]
        exact .consumer _ _ _ _ (by rw [Consumer.current, Consumer.current, hturned.event rfl])
      · refine ⟨rfl, .inr ⟨_, none, rfl, rfl, ?_, rfl⟩⟩
        rw [hlive]
        exact .done _ _ _ (.processed call.event) rfl hturned.returned
      · exact ⟨rfl, .inl ⟨rfl, .inr rfl⟩⟩
    · contradiction
  · split at h
    · rename_i paging _ _ _ _
      obtain ⟨⟨core, outcome⟩, hstep, rfl⟩ := Option.map_eq_some_iff.mp h
      dsimp only
      split
      · exact follows_same rfl rfl rfl rfl rfl
      · exact follows_same rfl rfl rfl rfl rfl
      · exact (recovers_requestFailed config { s with core := core } conn paging .other).follows
          rfl rfl
    · contradiction

theorem follows_consume (h : consume config s conn = some t) : Follows config placed s conn t := by
  unfold consume at h
  split at h
  · rename_i event queue hconsumer hrecv
    have hlive : conn.live = ⟨conn.stage, conn.link, .receiving⟩ := by
      rw [Connection.live, hconsumer]
    dsimp only at h
    split at h
    · rename_i through ping
      cases Option.some.inj h
      refine ⟨rfl, .inr ⟨_, some (through, ping), rfl, rfl, ?_, rfl⟩⟩
      rw [hlive]
      exact .checkpoint _ _ _ _ _ hrecv
    · rename_i event
      split at h
      · rename_i hmessage
        cases Option.some.inj h
        refine ⟨rfl, .inr ⟨_, none, rfl, rfl, ?_, rfl⟩⟩
        rw [hlive]
        exact .message _ _ _ _ _ hrecv (by simp [Consumer.current, Event.message?, hmessage])
      · rename_i hmessage
        have hmessage : isMessage event = true := by simpa using hmessage
        split at h
        · rename_i hforeign
          cases Option.some.inj h
          refine ⟨rfl, .inr ⟨_, none, rfl, rfl, ?_, rfl⟩⟩
          rw [hlive]
          exact .foreign _ _ _ _ hrecv hmessage hforeign
        · split at h <;> cases Option.some.inj h <;>
            refine ⟨rfl, .inr ⟨_, none, rfl, rfl, ?_, rfl⟩⟩ <;> rw [hlive] <;>
            exact .message _ _ _ _ _ hrecv (by
              simp [Consumer.current, Process.event, Event.message?, hmessage])
  · contradiction

theorem save_cases {caller : Option Caller} {ok : Bool} (h : save s conn caller ok = some t) :
    saving conn caller = true ∧ (t = s.disconnect ∨ ∃ snapshot,
      t = saved { s with saved := some snapshot } { conn with copy := none } caller) := by
  unfold save at h
  split at h
  · contradiction
  · rename_i snapshot _
    split at h
    · contradiction
    · rename_i hguard
      refine ⟨by simpa using (not_or.mp hguard).2, ?_⟩
      split at h <;> cases Option.some.inj h
      · exact .inr ⟨snapshot, rfl⟩
      · exact .inl rfl

theorem follows_saved {caller : Option Caller} (hsaving : saving conn caller = true) (snapshot : Snapshot) :
    Follows config placed s conn
      (saved { s with saved := some snapshot } { conn with copy := none } caller) := by
  unfold saving at hsaving
  split at hsaving
  · have hstage : conn.stage = .persisting := of_decide_eq_true hsaving
    refine ⟨rfl, .inr ⟨_, none, rfl, rfl, ?_, rfl⟩⟩
    rw [Connection.live, hstage]
    exact .advance _ _ _ _ ⟨by simp, by simp⟩ ⟨by simp, by simp⟩
  · split at hsaving
    · rename_i hconsumer
      refine ⟨rfl, .inr ⟨_, none, rfl, rfl, ?_, rfl⟩⟩
      rw [Connection.live, hconsumer]
      exact .consumer _ _ _ _ rfl
    · contradiction
  · exact follows_same rfl rfl rfl rfl rfl

theorem follows_save {caller : Option Caller} {ok : Bool} (h : save s conn caller ok = some t) :
    Follows config placed s conn t := by
  obtain ⟨hsaving, rfl | ⟨snapshot, rfl⟩⟩ := save_cases h
  · exact follows_disconnect
  · exact follows_saved hsaving snapshot

theorem stage_of_serving (h : serving conn = true) :
    conn.stage ≠ .connecting ∧ conn.stage ≠ .greeting := by
  constructor <;> intro hstage <;> simp [serving, hstage] at h

theorem follows_connected {a : Action} (hs : stepConnected config s conn a = some t)
    (hplaced : ∀ frame, a = .place frame → placed frame) : Follows config placed s conn t := by
  cases a with
  | place frame =>
      simp only [stepConnected] at hs
      split at hs
      · contradiction
      · cases Option.some.inj hs
        exact follows_link (.place _ _ _ _ (hplaced _ rfl))
  | receivePing =>
      obtain ⟨link, hlink, rfl⟩ := Option.map_eq_some_iff.mp hs
      exact follows_link (.receivePing _ _ _ _ hlink)
  | answer ping pong =>
      obtain ⟨link, hlink, rfl⟩ := Option.map_eq_some_iff.mp hs
      exact follows_link (.answer _ _ _ _ _ _ hlink)
  | opened =>
      simp only [stepConnected] at hs
      split at hs
      · rename_i hstage
        cases Option.some.inj hs
        refine ⟨rfl, .inr ⟨_, none, rfl, rfl, ?_, rfl⟩⟩
        rw [Connection.live, hstage]
        exact .opened _ _
      · contradiction
  | greet =>
      simp only [stepConnected] at hs
      split at hs
      · rename_i hstage
        obtain ⟨result, hgreet, hresult⟩ := Option.map_eq_some_iff.mp hs
        split at hresult <;> subst hresult
        · refine ⟨rfl, .inr ⟨_, none, rfl, rfl, ?_, rfl⟩⟩
          rw [Connection.live, hstage]
          exact .greet _ _ _ _ hgreet
        · exact follows_disconnect
      · contradiction
  | tick =>
      simp only [stepConnected] at hs
      split at hs
      · rename_i hserving
        obtain ⟨result, htick, rfl⟩ := Option.map_eq_some_iff.mp hs
        exact follows_read fun link hlink =>
          .tick _ _ _ _ (stage_of_serving hserving) (hlink ▸ htick)
      · contradiction
  | recordPing =>
      obtain ⟨link, hlink, rfl⟩ := Option.map_eq_some_iff.mp hs
      exact follows_link (.recordPing _ _ _ _ hlink)
  | read =>
      simp only [stepConnected] at hs
      split at hs
      · rename_i hserving
        obtain ⟨result, hread, rfl⟩ := Option.map_eq_some_iff.mp hs
        exact follows_read fun link hlink =>
          .read _ _ _ _ (stage_of_serving hserving) (hlink ▸ hread)
      · contradiction
  | fail =>
      cases Option.some.inj hs
      exact follows_disconnect
  | discover responses order => exact follows_discover hs
  | consume =>
      simp only [stepConnected] at hs
      split at hs
      · exact follows_consume hs
      · contradiction
  | answered response =>
      simp only [stepConnected] at hs
      split at hs
      · rename_i hconsumer
        cases Option.some.inj hs
        exact follows_answered hconsumer response
      · contradiction
  | turn caller step => exact follows_turn hs
  | startPass =>
      simp only [stepConnected] at hs
      split at hs
      · split at hs
        · cases Option.some.inj hs
          exact follows_same rfl rfl rfl rfl rfl
        · contradiction
      · contradiction
  | choose =>
      simp only [stepConnected] at hs
      split at hs
      · cases Option.some.inj hs
        exact (recovers_choose ..).follows rfl rfl
      · contradiction
  | page response =>
      simp only [stepConnected] at hs
      split at hs
      · cases Option.some.inj hs
        exact (recovers_page ..).follows rfl rfl
      · contradiction
  | scan =>
      simp only [stepConnected] at hs
      split at hs
      · cases Option.some.inj hs
        exact (recovers_scan ..).follows rfl rfl
      · contradiction
  | copy caller =>
      simp only [stepConnected] at hs
      split at hs
      · cases Option.some.inj hs
        exact follows_same rfl rfl rfl rfl rfl
      · contradiction
  | save caller ok => exact follows_save hs
  | advance | post | worker | connect | saveAfter | stop | restart | crash => contradiction

theorem follows_boot (store : Snapshot) (saved : Option Snapshot) :
    Follows config placed s conn (boot s store saved) :=
  ⟨rfl, .inl ⟨rfl, .inl rfl⟩⟩

theorem follows {a : Action} (hs : step config s a = some t) (hconn : s.connection = some conn)
    (hplaced : ∀ frame, a = .place frame → placed frame)
    (hposts : ∀ event, isMessage event → placed (.text event)) :
    Follows config placed s conn t := by
  rcases step_cases hs with haround | ⟨found, hfound, hstep⟩
  · cases haround with
    | advance | worker => exact follows_same hconn rfl rfl rfl rfl
    | post event channel ts hmessage =>
        have hafter : s.connection.map (posting event) = some (posting event conn) := by
          rw [hconn, Option.map_some]
        unfold posting at hafter
        split at hafter
        · exact ⟨rfl, .inr ⟨_, none, hafter, rfl, .place _ _ _ _ (hposts _ hmessage), rfl⟩⟩
        · exact follows_same hafter rfl rfl rfl rfl
    | connect hnone | saveAfter hnone =>
        rw [hnone] at hconn
        contradiction
    | stop => exact ⟨rfl, .inl ⟨rfl, .inl rfl⟩⟩
    | restart | crash => exact follows_boot _ _
  · cases Option.some.inj (hconn.symm.trans hfound)
    exact follows_connected hstep hplaced

theorem step_disconnected {a : Action} (hs : step config s a = some t)
    (hconn : s.connection = none) : t.history = s.history ∧ (t.connection = none ∧ t.connections = s.connections ∨
      t.connection = some (newConnection s) ∧ t.connections = s.connections + 1) := by
  rcases step_cases hs with haround | ⟨conn, hsome, -⟩
  · cases haround with
    | advance | worker | saveAfter => exact ⟨rfl, .inl ⟨hconn, rfl⟩⟩
    | post => exact ⟨rfl, .inl ⟨by rw [hconn, Option.map_none], rfl⟩⟩
    | connect => exact ⟨rfl, .inr ⟨rfl, rfl⟩⟩
    | stop | restart | crash => exact ⟨rfl, .inl ⟨rfl, rfl⟩⟩
  · rw [hconn] at hsome
    contradiction

end

structure Stored (config : Config) (s : State) (conn : Connection) (t : State) : Prop where
  core : t.core = { s.core with store := t.core.store, prunes := t.core.prunes }
  seen : t.core.store.seen = s.core.store.seen ∧ t.core.prunes = s.core.prunes ∨
    ∃ time, (time = s.now ∨ time = conn.began) ∧
      t.core.store.seen = Snapshot.pruneSeen config.window time s.core.store.seen ∧
      t.core.prunes = time :: s.core.prunes

/-- What a step of a connection does to the core: such a step, or a turn of one of
the two calls of `process`. -/
inductive CoreStep (config : Config) (s : State) (conn : Connection) (t : State) :
    Action → Prop where
  | store (a : Action) (h : Stored config s conn t) : CoreStep config s conn t a
  | live (turn : Turn) (call : Process) (core : Core) (outcome : Outcome)
      (hconsumer : conn.consumer = .processing call)
      (hstep : call.step config s.core conn.recovery.holdsLock turn = some (core, outcome))
      (hcore : t.core = core) : CoreStep config s conn t (.turn .live turn)
  | recovery (turn : Turn) (paging : Paging) (events : List Json) (response : Json)
      (call : Process) (core : Core) (outcome : Outcome)
      (hrecovery : conn.recovery = .processing paging events response call)
      (hstep : call.step config s.core conn.consumer.holdsLock turn = some (core, outcome))
      (hcore : t.core = { core with store := t.core.store })
      (hseen : t.core.store.seen = core.store.seen) :
      CoreStep config s conn t (.turn .recovery turn)

section

variable {config : Config} {s t : State} {conn : Connection}

theorem Stored.same (h : t.core = s.core) : Stored config s conn t :=
  ⟨by rw [h], .inl ⟨by rw [h], by rw [h]⟩⟩

theorem Stored.recovers (h : Recovers s conn t) : Stored config s conn t :=
  ⟨by rw [h.core], .inl ⟨h.seen, by rw [h.core]⟩⟩

theorem recovers_turn {step : Turn} (h : turn config s conn .recovery step = some t) :
    ∃ paging events response call core outcome,
      conn.recovery = .processing paging events response call ∧
      call.step config s.core conn.consumer.holdsLock step = some (core, outcome) ∧
      ((∃ next, outcome = .suspended next ∧ t = { s with core := core }.withRecovery conn
          (.processing paging events response next)) ∨
        (∃ ok, outcome = .returned ok) ∧ Recovers { s with core := core } conn t) := by
  unfold turn at h
  dsimp only at h
  split at h
  · rename_i paging events response call hrecovery
    obtain ⟨⟨core, outcome⟩, hstep, rfl⟩ := Option.map_eq_some_iff.mp h
    refine ⟨paging, events, response, call, core, outcome, hrecovery, hstep, ?_⟩
    dsimp only
    split
    · exact .inl ⟨_, rfl, rfl⟩
    · exact .inr ⟨⟨_, rfl⟩, .refl conn _ conn.finished rfl⟩
    · exact .inr ⟨⟨_, rfl⟩, recovers_requestFailed ..⟩
  · contradiction

theorem core_turn {caller : Caller} {step : Turn} (h : turn config s conn caller step = some t) :
    CoreStep config s conn t (.turn caller step) := by
  cases caller with
  | live =>
      unfold turn at h
      dsimp only at h
      split at h
      · rename_i call hconsumer
        obtain ⟨⟨core, outcome⟩, hstep, rfl⟩ := Option.map_eq_some_iff.mp h
        refine .live step call core outcome hconsumer hstep ?_
        dsimp only
        split <;> rfl
      · contradiction
  | recovery =>
      obtain ⟨paging, events, response, call, core, outcome, hrecovery, hstep,
        ⟨next, rfl, rfl⟩ | ⟨-, h⟩⟩ := recovers_turn h
      · exact .recovery step paging events response call core _ hrecovery hstep rfl rfl
      · exact .recovery step paging events response call core outcome hrecovery hstep h.core h.seen

theorem seen_addChannels (data : Snapshot) (time : Int) (ids : List Str) :
    (addChannels data time ids).1.seen = data.seen := by
  induction ids generalizing data with
  | nil => rfl
  | cons first rest ih =>
      unfold addChannels
      split
      · rename_i hadded
        rw [ih, Snapshot.seen_addChannel hadded]
      · rfl

theorem core_start (joined : List Str) : Stored config s conn (start config s conn joined) := by
  have hseen := Snapshot.seen_beginConnection config.window s.core.store joined conn.began
  unfold start
  dsimp only
  split
  · rename_i hok
    have hpruned := hseen.resolve_right fun h => h.1 hok
    exact ⟨rfl, .inr ⟨conn.began, .inr rfl, hpruned.2, rfl⟩⟩
  · rename_i error herror
    have hsame := hseen.resolve_left fun h => by
      rw [herror] at h
      exact (nomatch h.1)
    exact ⟨rfl, .inl ⟨hsame.2, rfl⟩⟩

theorem core_discover {responses : List (Except ApiError Json)} {order : List Str}
    (h : discover config s conn responses order = some t) : Stored config s conn t := by
  unfold discover at h
  split at h
  · split at h
    · cases Option.some.inj h
      exact .same rfl
    · split at h
      · cases Option.some.inj h
        exact .same rfl
      · contradiction
  · split at h
    · contradiction
    · split at h
      · cases Option.some.inj h
        exact core_start _
      · have hseen := seen_addChannels s.core.store s.now order
        dsimp only at h
        split at h <;> cases Option.some.inj h <;> exact ⟨rfl, .inl ⟨hseen, rfl⟩⟩
      · contradiction

theorem core_consume (h : consume config s conn = some t) : Stored config s conn t := by
  unfold consume at h
  split at h
  · dsimp only at h
    split at h
    · rename_i through ping _
      cases Option.some.inj h
      exact ⟨rfl, .inr ⟨s.now, .inl rfl,
        Snapshot.seen_checkpoint config.window s.core.store through s.now, rfl⟩⟩
    · split at h
      · cases Option.some.inj h
        exact .same rfl
      · split at h
        · cases Option.some.inj h
          exact .same rfl
        · split at h <;> cases Option.some.inj h <;> exact .same rfl
  · contradiction

theorem core_answered (event : Json) (id : Str) (response : Except ApiError Json) :
    Stored config s conn (answered s conn event id response) := by
  unfold answered
  split
  · exact .same rfl
  · dsimp only
    split
    · exact .same rfl
    · split
      · exact .same rfl
      · split
        · rename_i hadded
          exact ⟨rfl, .inl ⟨Snapshot.seen_addChannel hadded, rfl⟩⟩
        · exact .same rfl

def Action.stores : Action → Bool
  | .discover _ _ | .consume | .answered _ | .turn _ _ | .choose | .page _ | .scan => true
  | _ => false

theorem unstored_cases {a : Action} (hs : stepConnected config s conn a = some t)
    (ha : a.stores = false) : (t = s.disconnect ∨ t = (s.noteFailed conn).disconnect) ∨
      ∃ after saved, t = { s with connection := some after, saved := saved } := by
  have hread : ∀ result, (afterRead s conn result = s.disconnect ∨
      afterRead s conn result = (s.noteFailed conn).disconnect) ∨ ∃ after saved,
      afterRead s conn result = { s with connection := some after, saved := saved } := fun result => by
    unfold afterRead
    split
    · exact .inr ⟨_, s.saved, rfl⟩
    · exact .inl (.inr rfl)
    · exact .inl (.inl rfl)
  cases a with
  | place frame =>
      simp only [stepConnected] at hs
      split at hs
      · contradiction
      · cases Option.some.inj hs
        exact .inr ⟨_, s.saved, rfl⟩
  | receivePing | answer | recordPing =>
      obtain ⟨link, -, rfl⟩ := Option.map_eq_some_iff.mp hs
      exact .inr ⟨_, s.saved, rfl⟩
  | opened =>
      simp only [stepConnected] at hs
      split at hs
      · cases Option.some.inj hs
        exact .inr ⟨_, s.saved, rfl⟩
      · contradiction
  | greet =>
      simp only [stepConnected] at hs
      split at hs
      · obtain ⟨result, -, rfl⟩ := Option.map_eq_some_iff.mp hs
        split
        · exact .inr ⟨_, s.saved, rfl⟩
        · exact .inl (.inl rfl)
      · contradiction
  | tick | read =>
      simp only [stepConnected] at hs
      split at hs
      · obtain ⟨result, -, rfl⟩ := Option.map_eq_some_iff.mp hs
        exact hread result
      · contradiction
  | fail =>
      cases Option.some.inj hs
      exact .inl (.inl rfl)
  | startPass =>
      simp only [stepConnected] at hs
      split at hs
      · split at hs
        · cases Option.some.inj hs
          exact .inr ⟨_, s.saved, rfl⟩
        · contradiction
      · contradiction
  | copy caller =>
      simp only [stepConnected] at hs
      split at hs
      · cases Option.some.inj hs
        exact .inr ⟨_, s.saved, rfl⟩
      · contradiction
  | save caller ok =>
      obtain ⟨-, rfl | ⟨snapshot, rfl⟩⟩ := save_cases hs
      · exact .inl (.inl rfl)
      · unfold saved
        split <;> exact .inr ⟨_, some snapshot, rfl⟩
  | discover | consume | answered | turn | choose | page | scan => contradiction
  | advance | post | worker | connect | saveAfter | stop | restart | crash => contradiction

theorem core_unstored {a : Action} (hs : stepConnected config s conn a = some t)
    (ha : a.stores = false) : t.core = s.core := by
  rcases unstored_cases hs ha with (rfl | rfl) | ⟨after, saved, rfl⟩ <;> rfl

theorem core_connected {a : Action} (hs : stepConnected config s conn a = some t) :
    CoreStep config s conn t a := by
  cases ha : a.stores with
  | false => exact .store a (.same (core_unstored hs ha))
  | true =>
      unfold Action.stores at ha
      split at ha
      · exact .store _ (core_discover hs)
      · simp only [stepConnected] at hs
        split at hs
        · exact .store _ (core_consume hs)
        · contradiction
      · simp only [stepConnected] at hs
        split at hs
        · cases Option.some.inj hs
          exact .store _ (core_answered ..)
        · contradiction
      · exact core_turn hs
      · simp only [stepConnected] at hs
        split at hs
        · cases Option.some.inj hs
          exact .store _ (.recovers (recovers_choose ..))
        · contradiction
      · simp only [stepConnected] at hs
        split at hs
        · cases Option.some.inj hs
          exact .store _ (.recovers (recovers_page ..))
        · contradiction
      · simp only [stepConnected] at hs
        split at hs
        · cases Option.some.inj hs
          exact .store _ (.recovers (recovers_scan ..))
        · contradiction
      · contradiction

theorem remember_core (core : Core) (id : Str) (thread : Option Str) :
    (Process.remember config core id thread).worker = core.worker ∧
      (Process.remember config core id thread).returned = core.returned ∧
      (Process.remember config core id thread).recordings = core.recordings ∧
      (Process.remember config core id thread).handed = core.handed ∧
      (Process.remember config core id thread).receipts = core.receipts := by
  cases thread <;> exact ⟨rfl, rfl, rfl, rfl, rfl⟩

theorem Turned.keeps {core after : Core} {call : Process} {outcome : Outcome}
    (h : Turned config core call after outcome) :
    after.worker.clock = core.worker.clock ∧ core.returned ⊆ after.returned := by
  have hremember := fun id thread => @remember_core config core id thread
  cases h with
  | sending id ts thread => exact ⟨by rw [(hremember id thread).1],
      fun event hmem => (hremember id thread).2.1 ▸ hmem⟩
  | admitted => exact ⟨rfl, fun _ h => h⟩
  | harvested => exact ⟨rfl, fun _ h => List.mem_cons_of_mem _ h⟩
  | settled id thread h => exact ⟨(congrArg Worker.State.clock (hremember id thread).1 :),
      fun event hmem => List.mem_cons_of_mem _ ((hremember id thread).2.1 ▸ hmem)⟩
  | failed => exact ⟨rfl, fun _ h => h⟩
  | refused => exact ⟨rfl, fun _ h => h⟩

theorem CoreStep.keeps {a : Action} (h : CoreStep config s conn t a) :
    t.clock = s.clock ∧ s.core.returned ⊆ t.core.returned := by
  unfold State.clock Core.clock
  cases h with
  | store a hstore =>
      rw [hstore.core]
      exact ⟨rfl, fun _ h => h⟩
  | live turn call core outcome hconsumer hstep hcore => exact hcore ▸ (turned hstep).keeps
  | recovery turn paging events response call core outcome hrecovery hstep hcore =>
      rw [hcore]
      exact (turned hstep).keeps

theorem worker_clock {worker after : Worker.State} {action : Worker.Action}
    (hallowed : allowed worker action = true) (h : Worker.step worker action = some after) :
    after.clock = worker.clock := by
  unfold Worker.step at h
  split at h
  · contradiction
  · split at h
    · contradiction
    · cases Option.some.inj h
      rfl
  · split at h
    · contradiction
    · cases Option.some.inj h
      rfl
  · split at h
    · contradiction
    · split at h <;> cases Option.some.inj h <;> rfl
  · contradiction
  · split at h
    · unfold Worker.select at h
      split at h
      · cases Option.some.inj h
        rfl
      · split at h
        · split at h
          · cases Option.some.inj h
            rfl
          · contradiction
        · split at h <;> cases Option.some.inj h <;> rfl
    · cases Option.some.inj h
      rfl
    · contradiction

theorem step_keeps {a : Action} (hs : step config s a = some t) :
    s.clock ≤ t.clock ∧ s.core.returned ⊆ t.core.returned := by
  rcases step_cases hs with haround | ⟨conn, -, hstep⟩
  · cases haround with
    | advance => exact ⟨Nat.le_add_right _ _, fun _ h => h⟩
    | worker action worker hallowed hworker =>
        exact ⟨(worker_clock hallowed hworker).ge, fun _ h => h⟩
    | _ => exact ⟨Nat.le_refl _, fun _ h => h⟩
  · exact ⟨(core_connected hstep).keeps.1.ge, (core_connected hstep).keeps.2⟩

theorem now_mono {a : Action} (hs : step config s a = some t) : s.now ≤ t.now :=
  Int.ofNat_le.mpr (Nat.div_le_div_right (step_keeps hs).1)

end

def Connection.begun (conn : Connection) : Bool := conn.stage = .persisting || conn.stage = .running

structure Keeps (conn after : Connection) : Prop where
  recovery : after.recovery = conn.recovery
  finished : after.finished = conn.finished
  began : after.began = conn.began
  existing : after.existing = conn.existing
  begun : after.begun = conn.begun

def Kept (conn : Connection) (t : State) : Prop :=
  ∀ after, t.connection = some after → Keeps conn after

section

variable {config : Config} {s t : State} {conn : Connection}

theorem kept_none (h : t.connection = none) : Kept conn t := fun _ hsome => by
  rw [h] at hsome
  contradiction

theorem kept_some {after : Connection} (h : t.connection = some after) (hkeeps : Keeps conn after) :
    Kept conn t := fun found hfound => by
  cases Option.some.inj (h.symm.trans hfound)
  exact hkeeps

theorem kept_read (result : Except ReadError Link) : Kept conn (afterRead s conn result) := by
  unfold afterRead
  split
  · exact kept_some rfl ⟨rfl, rfl, rfl, rfl, rfl⟩
  · exact kept_none rfl
  · exact kept_none rfl

theorem kept_discover {responses : List (Except ApiError Json)} {order : List Str}
    (hstage : conn.stage ≠ .discovering) (h : discover config s conn responses order = some t) :
    Kept conn t := by
  unfold discover at h
  split at h
  · split at h
    · cases Option.some.inj h
      exact kept_none rfl
    · split at h
      · cases Option.some.inj h
        exact kept_none rfl
      · contradiction
  · split at h
    · contradiction
    · split at h
      · rename_i hdiscovering
        exact absurd hdiscovering hstage
      · dsimp only at h
        split at h <;> cases Option.some.inj h
        · exact kept_some rfl ⟨rfl, rfl, rfl, rfl, rfl⟩
        · exact kept_none rfl
      · contradiction

theorem started {responses : List (Except ApiError Json)} {order : List Str}
    (hstage : conn.stage = .discovering) (h : discover config s conn responses order = some t) :
    t = s.disconnect ∨ ∃ ids, discoverChannels responses = .ok ids ∧ order.Perm ids ∧
      t = start config s conn order := by
  unfold discover at h
  split at h
  · rw [if_pos hstage] at h
    exact .inl (Option.some.inj h).symm
  · rename_i ids hids
    split at h
    · contradiction
    · rename_i hperm
      rw [hstage] at h
      exact .inr ⟨ids, hids, by simpa using hperm, (Option.some.inj h).symm⟩

theorem kept_consume (h : consume config s conn = some t) : Kept conn t := by
  unfold consume at h
  split at h
  · dsimp only at h
    split at h
    · cases Option.some.inj h
      exact kept_some rfl ⟨rfl, rfl, rfl, rfl, rfl⟩
    · split at h
      · cases Option.some.inj h
        exact kept_some rfl ⟨rfl, rfl, rfl, rfl, rfl⟩
      · split at h
        · cases Option.some.inj h
          exact kept_some rfl ⟨rfl, rfl, rfl, rfl, rfl⟩
        · split at h <;> cases Option.some.inj h <;>
            exact kept_some rfl ⟨rfl, rfl, rfl, rfl, rfl⟩
  · contradiction

theorem kept_answered (event : Json) (id : Str) (response : Except ApiError Json) :
    Kept conn (answered s conn event id response) := by
  unfold answered
  split
  · exact kept_none rfl
  · dsimp only
    split
    · exact kept_some rfl ⟨rfl, rfl, rfl, rfl, rfl⟩
    · split
      · exact kept_none rfl
      · split
        · exact kept_some rfl ⟨rfl, rfl, rfl, rfl, rfl⟩
        · exact kept_none rfl

theorem kept_live {step : Turn} (h : turn config s conn .live step = some t) : Kept conn t := by
  unfold turn at h
  dsimp only at h
  split at h
  · obtain ⟨⟨core, outcome⟩, -, rfl⟩ := Option.map_eq_some_iff.mp h
    dsimp only
    split
    · exact kept_some rfl ⟨rfl, rfl, rfl, rfl, rfl⟩
    · exact kept_some rfl ⟨rfl, rfl, rfl, rfl, rfl⟩
    · exact kept_none rfl
  · contradiction

theorem kept_save {caller : Option Caller} {ok : Bool} (hcaller : caller ≠ some .recovery)
    (h : save s conn caller ok = some t) : Kept conn t := by
  obtain ⟨hsaving, rfl | ⟨snapshot, rfl⟩⟩ := save_cases h
  · exact kept_none rfl
  · unfold saved
    split
    · have hstage : conn.stage = .persisting := of_decide_eq_true hsaving
      exact kept_some rfl ⟨rfl, rfl, rfl, rfl, by simp [Connection.begun, hstage]⟩
    · exact kept_some rfl ⟨rfl, rfl, rfl, rfl, rfl⟩
    · exact absurd rfl hcaller

def Action.recovers : Action → Bool
  | .turn .recovery _ | .startPass | .choose | .page _ | .scan | .save (some .recovery) _ => true
  | _ => false

def Action.discovers : Action → Bool
  | .discover _ _ => true
  | _ => false

theorem kept_connected {a : Action} (hs : stepConnected config s conn a = some t)
    (ha : a.recovers = false) (hstart : a.discovers = true → conn.stage ≠ .discovering) :
    Kept conn t := by
  cases a with
  | place frame =>
      simp only [stepConnected] at hs
      split at hs
      · contradiction
      · cases Option.some.inj hs
        exact kept_some rfl ⟨rfl, rfl, rfl, rfl, rfl⟩
  | receivePing | answer | recordPing =>
      obtain ⟨link, -, rfl⟩ := Option.map_eq_some_iff.mp hs
      exact kept_some rfl ⟨rfl, rfl, rfl, rfl, rfl⟩
  | opened =>
      simp only [stepConnected] at hs
      split at hs
      · rename_i hstage
        cases Option.some.inj hs
        exact kept_some rfl ⟨rfl, rfl, rfl, rfl, by simp [Connection.begun, hstage]⟩
      · contradiction
  | greet =>
      simp only [stepConnected] at hs
      split at hs
      · rename_i hstage
        obtain ⟨result, -, rfl⟩ := Option.map_eq_some_iff.mp hs
        split
        · rename_i hello _
          refine kept_some rfl ⟨rfl, rfl, rfl, rfl, ?_⟩
          cases hello <;> simp [Connection.begun, hstage]
        · exact kept_none rfl
      · contradiction
  | tick | read =>
      simp only [stepConnected] at hs
      split at hs
      · obtain ⟨result, -, rfl⟩ := Option.map_eq_some_iff.mp hs
        exact kept_read result
      · contradiction
  | fail =>
      cases Option.some.inj hs
      exact kept_none rfl
  | discover responses order => exact kept_discover (hstart rfl) hs
  | consume =>
      simp only [stepConnected] at hs
      split at hs
      · exact kept_consume hs
      · contradiction
  | answered response =>
      simp only [stepConnected] at hs
      split at hs
      · cases Option.some.inj hs
        exact kept_answered _ _ _
      · contradiction
  | turn caller step =>
      cases caller with
      | live => exact kept_live hs
      | recovery => contradiction
  | copy caller =>
      simp only [stepConnected] at hs
      split at hs
      · cases Option.some.inj hs
        exact kept_some rfl ⟨rfl, rfl, rfl, rfl, rfl⟩
      · contradiction
  | save caller ok =>
      refine kept_save (fun hcaller => ?_) hs
      rw [hcaller] at ha
      contradiction
  | startPass | choose | page | scan => contradiction
  | advance | post | worker | connect | saveAfter | stop | restart | crash => contradiction

structure Tasked (conn after : Connection) : Prop where
  live : after.live = conn.live
  number : after.number = conn.number
  began : after.began = conn.began
  existing : after.existing = conn.existing

theorem Recovers.tasked {u : State} {after : Connection} (h : Recovers u conn t)
    (hafter : t.connection = some after) : Tasked conn after := by
  rcases h.connection with hnone | ⟨recovery, finished, hsome⟩
  · rw [hnone] at hafter
    contradiction
  · cases Option.some.inj (hsome.symm.trans hafter)
    exact ⟨rfl, rfl, rfl, rfl⟩

theorem tasked {a : Action} {after : Connection} (hs : stepConnected config s conn a = some t)
    (ha : a.recovers = true) (hafter : t.connection = some after) : Tasked conn after := by
  unfold Action.recovers at ha
  split at ha
  · obtain ⟨_, _, _, _, _, _, -, -, ⟨next, -, rfl⟩ | ⟨-, h⟩⟩ := recovers_turn hs
    · cases Option.some.inj hafter
      exact ⟨rfl, rfl, rfl, rfl⟩
    · exact h.tasked hafter
  · simp only [stepConnected] at hs
    split at hs
    · split at hs
      · cases Option.some.inj hs
        cases Option.some.inj hafter
        exact ⟨rfl, rfl, rfl, rfl⟩
      · contradiction
    · contradiction
  · simp only [stepConnected] at hs
    split at hs
    · cases Option.some.inj hs
      exact (recovers_choose ..).tasked hafter
    · contradiction
  · simp only [stepConnected] at hs
    split at hs
    · cases Option.some.inj hs
      exact (recovers_page ..).tasked hafter
    · contradiction
  · simp only [stepConnected] at hs
    split at hs
    · cases Option.some.inj hs
      exact (recovers_scan ..).tasked hafter
    · contradiction
  · obtain ⟨-, rfl | ⟨snapshot, rfl⟩⟩ := save_cases hs
    · contradiction
    · cases Option.some.inj hafter
      exact ⟨rfl, rfl, rfl, rfl⟩
  · contradiction

theorem start_connection {joined : List Str} {after : Connection}
    (h : (start config s conn joined).connection = some after) :
    after = { conn with
      stage := .persisting
      existing := joined.filter fun id => s.core.store.channels.contains id } := by
  unfold start at h
  dsimp only at h
  split at h
  · exact (Option.some.inj h).symm
  · contradiction

theorem began_connected {a : Action} {after : Connection}
    (hs : stepConnected config s conn a = some t) (hafter : t.connection = some after) :
    after.began = conn.began := by
  cases ha : a.recovers with
  | true => exact (tasked hs ha hafter).began
  | false =>
      by_cases hstart : a.discovers = true ∧ conn.stage = .discovering
      · obtain ⟨hdiscovers, hstage⟩ := hstart
        unfold Action.discovers at hdiscovers
        split at hdiscovers
        · rcases started hstage hs with rfl | ⟨ids, -, -, rfl⟩
          · contradiction
          · rw [start_connection hafter]
        · contradiction
      · exact (kept_connected hs ha (fun hdiscovers hstage => hstart ⟨hdiscovers, hstage⟩) after
          hafter).began

end

end SjmbSlack.UserSession.Session
