import Mathlib.Logic.Relation
import SjmbSlack.UserSession.Capacity
import SjmbSlack.UserSession.Scope

/-! The store of a session. Every step of the session changes it by operations of the
store, so that it keeps the limits of a saved state and can be read back. -/
namespace SjmbSlack.UserSession.Session
open Machine Api Slackbot Persist

/-- Operations that are permitted at the time lead from one store to another. -/
def Operates (window now : Int) : Snapshot → Snapshot → Prop :=
  Relation.ReflTransGen fun before after =>
    ∃ operation : Operation, operation.permitted now = true ∧
      after = operation.apply window now before

theorem Operates.one {window now : Int} {data : Snapshot} (operation : Operation)
    (h : operation.permitted now = true) :
    Operates window now data (operation.apply window now data) :=
  .single ⟨operation, h, rfl⟩

theorem Operates.limits {window now : Int} {team user : Str} {before after : Snapshot}
    (h : Operates window now before after) (hwindow : 0 ≤ window ∧ window ≤ MAX_WINDOW)
    (hnow : MAX_WINDOW < now ∧ now ≤ Harvest.maxSeconds) (hbefore : Limits team user now before) :
    Limits team user now after := by
  induction h with
  | refl => exact hbefore
  | tail _ hlast ih =>
      obtain ⟨operation, hpermitted, rfl⟩ := hlast
      exact ih.apply hwindow hnow hpermitted

theorem operates_added {window now : Int} {data after : Snapshot} {id : Str}
    (hnow : MAX_WINDOW < now) (hadded : data.addChannel id now = .ok after) :
    Operates window now data after := by
  have hone := @Operates.one window now data (.addChannel id now)
    (decide_eq_true ⟨hnow, le_refl now⟩)
  simp only [Operation.apply, hadded] at hone
  exact hone

theorem operates_addChannels {window now : Int} (hnow : MAX_WINDOW < now) (data : Snapshot)
    (ids : List Str) : Operates window now data (addChannels data now ids).1 := by
  induction ids generalizing data with
  | nil => exact .refl
  | cons id rest ih =>
      unfold addChannels
      split
      · rename_i after hadded
        exact (operates_added hnow hadded).trans (ih after)
      · exact .refl

section

variable {config : Config} {s t : State} {conn : Connection}

theorem store_passFailed (rest : List (Str × Channel)) (error : ApiError) :
    (passFailed s conn rest error).core.store = s.core.store := by
  unfold passFailed
  split
  · rfl
  · split <;> rfl

theorem store_request (paging : Paging) : (request s conn paging).core.store = s.core.store := by
  unfold request
  split
  · exact store_passFailed ..
  · rfl

theorem operates_nextThread (hbegan : conn.began ≤ s.now) (paging : Paging) :
    Operates config.window s.now s.core.store (nextThread config s conn paging).core.store := by
  unfold nextThread
  split
  · exact .one (.finishRecovery paging.channel conn.began) (decide_eq_true hbegan)
  · rw [store_request]
    exact .refl

theorem operates_requestDone (hbegan : conn.began ≤ s.now) (paging : Paging) :
    Operates config.window s.now s.core.store (requestDone config s conn paging).core.store := by
  unfold requestDone
  dsimp only
  split <;> exact operates_nextThread hbegan _

theorem operates_requestFailed (hbegan : conn.began ≤ s.now) (paging : Paging) (error : ApiError) :
    Operates config.window s.now s.core.store
      (requestFailed config s conn paging error).core.store := by
  unfold requestFailed
  split
  · rename_i thread _ _ _
    split
    · have hforgotten : Operates config.window s.now s.core.store _ :=
        .one (.forgetThread paging.channel thread) rfl
      let forgotten := s.withStore (s.core.store.forgetThread paging.channel thread)
      exact hforgotten.trans (@operates_nextThread config forgotten conn hbegan _)
    · rw [store_passFailed]
      exact .refl
  · rw [store_passFailed]
    exact .refl

theorem operates_page (hbegan : conn.began ≤ s.now) (paging : Paging)
    (response : Except ApiError Json) :
    Operates config.window s.now s.core.store (page config s conn paging response).core.store := by
  unfold page
  split
  · exact operates_requestFailed hbegan ..
  · split
    · exact operates_requestFailed hbegan ..
    · split
      · exact operates_requestFailed hbegan ..
      · exact .refl

theorem operates_scan (hbegan : conn.began ≤ s.now) (paging : Paging) (response : Json)
    (events : List Json) : Operates config.window s.now s.core.store
      (scan config s conn paging response events).core.store := by
  unfold scan
  split
  · split
    · exact operates_requestFailed hbegan ..
    · split <;> exact .refl
  · split
    · exact operates_requestFailed hbegan ..
    · split
      · exact operates_requestDone hbegan _
      · split
        · exact operates_requestFailed hbegan ..
        · rw [store_request]
          exact .refl

theorem operates_choose (channels : List (Str × Channel)) :
    Operates config.window s.now s.core.store (choose config s conn channels).core.store := by
  unfold choose
  split
  · exact .refl
  · split
    · exact .refl
    · rename_i id channel rest _
      rw [store_request]
      exact .one (.retryChannel id) rfl

theorem operates_remember (core : Core) (id : Str) (thread : Option Str) :
    Operates config.window core.now core.store (Process.remember config core id thread).store := by
  cases thread with
  | none => exact .refl
  | some parent => exact .one (.rememberThread id parent) rfl

theorem operates_turned {core after : Core} {call : Process} {outcome : Outcome}
    (h : Turned config core call after outcome) (hnow : MAX_WINDOW < core.now)
    (hjob : ∀ job, job? call = some job → validId job.channel = true ∧ validTs job.ts = true) :
    Operates config.window core.now core.store after.store := by
  cases h with
  | sending id ts thread => exact operates_remember core id thread
  | admitted | refused => exact .refl
  | harvested job since hcall =>
      obtain ⟨hchannel, hts⟩ := hjob job (by rw [hcall]; rfl)
      refine .one (.processed job.channel job.ts job.thread core.now) ?_
      simp [Operation.permitted, hchannel, hts, hnow]
  | settled id thread => exact operates_remember core id thread
  | failed job => exact .one (.failed job.channel) rfl

/-- The times that a connection gives to the store are past. -/
structure Dated (s : State) (conn : Connection) : Prop where
  began : MAX_WINDOW < conn.began ∧ conn.began ≤ s.now
  upcoming : ∀ through ∈ upcoming conn.link, through ≤ s.now

theorem operates_start (hbegan : MAX_WINDOW < conn.began ∧ conn.began ≤ s.now) (joined : List Str) :
    Operates config.window s.now s.core.store (start config s conn joined).core.store := by
  have hone := @Operates.one config.window s.now s.core.store
    (.beginConnection joined conn.began) (decide_eq_true hbegan)
  unfold start
  dsimp only
  split <;> exact hone

theorem operates_discover (hnow : MAX_WINDOW < s.now)
    (hbegan : MAX_WINDOW < conn.began ∧ conn.began ≤ s.now)
    {responses : List (Except ApiError Json)} {order : List Str}
    (h : discover config s conn responses order = some t) :
    Operates config.window s.now s.core.store t.core.store := by
  unfold discover at h
  split at h
  · split at h
    · cases Option.some.inj h
      exact .refl
    · split at h <;> cases h
      exact .refl
  · split at h
    · contradiction
    · split at h
      · cases Option.some.inj h
        exact operates_start hbegan order
      · dsimp only at h
        split at h <;> cases h <;> exact operates_addChannels hnow s.core.store order
      · contradiction

theorem operates_consume (hdated : Dated s conn) (h : consume config s conn = some t) :
    Operates config.window s.now s.core.store t.core.store := by
  unfold consume at h
  split at h
  · rename_i event queue _ hrecv
    dsimp only at h
    split at h
    · rename_i through ping
      cases Option.some.inj h
      refine .one (.checkpoint through) (decide_eq_true (hdated.upcoming through ?_))
      simp [Session.upcoming, (Mpsc.recv_some hrecv).1]
    · split at h
      · cases Option.some.inj h
        exact .refl
      · split at h
        · cases Option.some.inj h
          exact .refl
        · split at h <;> cases h <;> exact .refl
  · contradiction

theorem operates_answered (hnow : MAX_WINDOW < s.now) (event : Json) (id : Str)
    (response : Except ApiError Json) :
    Operates config.window s.now s.core.store (answered s conn event id response).core.store := by
  unfold answered
  split
  · exact .refl
  · dsimp only
    split
    · exact .refl
    · split
      · exact .refl
      · split
        · rename_i store hadded
          have hstore : s.core.store.addChannel id s.now = .ok store := hadded
          exact operates_added hnow hstore
        · exact .refl

theorem operates_turn {caller : Caller} {step : Turn} (hnow : MAX_WINDOW < s.now)
    (hbegan : conn.began ≤ s.now) (hscoped : conn.consumer.Scoped config (isLiveId · = true) ∧
      conn.recovery.Scoped config (isLiveId · = true))
    (h : turn config s conn caller step = some t) :
    Operates config.window s.now s.core.store t.core.store := by
  have hjobs : ∀ call, CallScoped config (isLiveId · = true) call →
      ∀ job, job? call = some job → validId job.channel = true ∧ validTs job.ts = true := by
    intro call hcall job hjob
    obtain ⟨hchannel, hts, hsuited⟩ := hcall.job job hjob
    have hlive : isLiveId job.channel = true := hchannel ▸ hsuited.channel
    exact ⟨((Bool.and_eq_true ..).mp hlive).1, hts⟩
  obtain ⟨hconsumer, hrecovery⟩ := hscoped
  unfold turn at h
  split at h
  · split at h
    · rename_i call hprocessing
      rw [hprocessing] at hconsumer
      obtain ⟨⟨core, outcome⟩, hstep, rfl⟩ := Option.map_eq_some_iff.mp h
      have hmoved := operates_turned (turned hstep) hnow (hjobs call hconsumer)
      dsimp only
      split <;> exact hmoved
    · contradiction
  · split at h
    · rename_i paging events response call hprocessing
      rw [hprocessing] at hrecovery
      obtain ⟨⟨core, outcome⟩, hstep, rfl⟩ := Option.map_eq_some_iff.mp h
      have hturned := turned hstep
      have hmoved := operates_turned hturned hnow (hjobs call hrecovery.2)
      have hclock : core.now = s.now := by
        unfold Core.now Core.clock
        rw [hturned.keeps.1]
        rfl
      dsimp only
      split
      · exact hmoved
      · exact hmoved
      · refine hmoved.trans ?_
        have hafter : conn.began ≤ core.now := by rw [hclock]; exact hbegan
        have hfailed : Operates config.window core.now core.store
            (requestFailed config { s with core := core } conn paging .other).core.store :=
          @operates_requestFailed config { s with core := core } conn hafter paging .other
        rw [hclock] at hfailed
        exact hfailed
    · contradiction

theorem operates_connected {a : Action} (hnow : MAX_WINDOW < s.now) (hdated : Dated s conn)
    (hscoped : conn.consumer.Scoped config (isLiveId · = true) ∧
      conn.recovery.Scoped config (isLiveId · = true))
    (hs : stepConnected config s conn a = some t) :
    Operates config.window s.now s.core.store t.core.store := by
  have hbegan := hdated.began
  cases hstores : a.stores with
  | false =>
      rw [core_unstored hs hstores]
      exact .refl
  | true =>
      unfold Action.stores at hstores
      split at hstores
      · exact operates_discover hnow hbegan hs
      · simp only [stepConnected] at hs
        split at hs
        · exact operates_consume hdated hs
        · contradiction
      · simp only [stepConnected] at hs
        split at hs <;> cases hs
        exact operates_answered hnow ..
      · exact operates_turn hnow hbegan.2 hscoped hs
      · simp only [stepConnected] at hs
        split at hs <;> cases hs
        exact operates_choose _
      · simp only [stepConnected] at hs
        split at hs <;> cases hs
        exact operates_page hbegan.2 ..
      · simp only [stepConnected] at hs
        split at hs <;> cases hs
        exact operates_scan hbegan.2 ..
      · contradiction

/-- A connection gives the store no time but that of its beginning and those at which it
recorded its pings. -/
theorem upcoming_live {placed : Frame → Prop} {live after : Live} {label : Option (Int × Nat)}
    (h : LiveStep config placed s t live label after) :
    ∀ through ∈ upcoming after.link, through = s.now ∨ through ∈ upcoming live.link := by
  intro through hmem
  cases h with
  | same | opened | place | advance | consumer | done => exact .inr hmem
  | receivePing stage link after consumer hafter =>
      unfold Link.receivePing at hafter
      split at hafter <;> cases hafter
      exact .inr hmem
  | answer stage link after consumer ping pong hafter =>
      unfold Link.answer at hafter
      split at hafter <;> cases hafter
      exact .inr hmem
  | greet link after consumer hello hafter =>
      obtain ⟨_, _, -, -, rfl⟩ := greets hafter
      exact .inr hmem
  | tick stage link after consumer hstage hafter =>
      unfold Link.tick at hafter
      split at hafter
      · contradiction
      · split at hafter <;> cases hafter
        exact .inr hmem
      · cases hafter
        exact .inr hmem
  | recordPing stage link after consumer hafter =>
      unfold Link.recordPing at hafter
      split at hafter <;> cases hafter
      rcases List.mem_append.mp hmem with hqueued | hpending
      · exact .inr (List.mem_append_left _ hqueued)
      · exact .inl (List.mem_singleton.mp hpending)
  | read stage link after consumer hstage hafter =>
      obtain ⟨-, hreads⟩ := reads_of_read hafter
      refine .inr ?_
      cases hreads with
      | dropped => exact hmem
      | queued event rest queue hframes hpong hqueue =>
          simpa [upcoming, (Mpsc.trySend_ok hqueue).2.1, List.filterMap_cons] using hmem
      | barrier event rest queue pending hframes hpong hpending hqueue =>
          simpa [upcoming, (Mpsc.trySend_ok hqueue).2.1, hpending] using hmem
  | checkpoint stage link queue other ping hrecv =>
      refine .inr ?_
      have hrest : through ∈ other :: upcoming { link with queue := queue } :=
        List.mem_cons_of_mem _ hmem
      simpa [upcoming, (Mpsc.recv_some hrecv).1] using hrest
  | message stage link consumer queue event hrecv hcurrent =>
      refine .inr ?_
      simpa [upcoming, (Mpsc.recv_some hrecv).1, List.filterMap_cons] using hmem
  | foreign stage link queue event hrecv hmessage hforeign =>
      refine .inr ?_
      simpa [upcoming, (Mpsc.recv_some hrecv).1, List.filterMap_cons] using hmem

theorem dated_step {a : Action} (hnow : MAX_WINDOW < s.now)
    (h : ∀ conn, s.connection = some conn → Dated s conn) (hs : step config s a = some t)
    {after : Connection} (hafter : t.connection = some after) : Dated t after := by
  have hlater : s.now ≤ t.now := now_mono hs
  cases hconn : s.connection with
  | none =>
      rcases step_disconnected hs hconn with ⟨-, ⟨hnone, -⟩ | ⟨hnew, -⟩⟩
      · rw [hnone] at hafter
        contradiction
      · cases Option.some.inj (hnew.symm.trans hafter)
        exact ⟨⟨hnow, hlater⟩, fun through hmem => absurd hmem List.not_mem_nil⟩
  | some conn =>
      have hdated := h conn hconn
      have hbegan : after.began = conn.began := by
        rcases step_cases hs with haround | ⟨found, hfound, hstep⟩
        · cases haround with
          | advance | worker => rw [Option.some.inj (hafter.symm.trans hconn)]
          | post event channel ts =>
              obtain ⟨before, hbefore, rfl⟩ := Option.map_eq_some_iff.mp hafter
              cases Option.some.inj (hconn.symm.trans hbefore)
              unfold posting
              split <;> rfl
          | connect hnone | saveAfter hnone => cases hnone.symm.trans hconn
          | stop | restart | crash => contradiction
        · cases Option.some.inj (hconn.symm.trans hfound)
          exact began_connected hstep hafter
      refine ⟨⟨hbegan ▸ hdated.began.1, hbegan ▸ hdated.began.2.trans hlater⟩, fun through hmem => ?_⟩
      obtain ⟨-, ⟨hnone, -⟩ | ⟨found, label, hfound, -, hlive, -⟩⟩ :=
        @follows config (fun _ => True) s t conn a hs hconn (fun _ _ => trivial) fun _ _ => trivial
      · rw [hnone] at hafter
        contradiction
      · cases Option.some.inj (hafter.symm.trans hfound)
        rcases upcoming_live hlive through hmem with rfl | hold
        · exact hlater
        · exact (hdated.upcoming through hold).trans hlater

theorem scoped_live (hdecode : Decodes config) (h : Reachable (machine config) s) :
    Scoped config (isLiveId · = true) s := by
  refine h.invariant (P := Scoped config (isLiveId · = true)) ?_ fun s a t _ hscoped _ hs =>
    scoped_step hdecode hscoped (fun id hmem =>
      evidence_live hs (fun conn hconn => (hscoped.tasks conn hconn).1) hmem) hs
  rintro s ⟨team, user, clock, rfl⟩
  exact ⟨fun id hmem => (by cases hmem), fun conn hconn => (by cases hconn),
    fun handed hmem => (by cases hmem), fun message hmem => (by cases hmem)⟩

/-- What a step of the session does to its store: permitted operations, or a new process. -/
inductive StoreStep (config : Config) (s : State) : Action → Snapshot → Prop where
  | operates {a : Action} {after : Snapshot}
      (h : Operates config.window s.now s.core.store after) : StoreStep config s a after
  | restart : StoreStep config s .restart s.core.store.restored
  | crash (found : Option Snapshot) : StoreStep config s (.crash found) (openFound s found)

theorem storeStep {a : Action} (hnow : MAX_WINDOW < s.now)
    (hdated : ∀ conn, s.connection = some conn → Dated s conn)
    (hscoped : Scoped config (isLiveId · = true) s) (hs : step config s a = some t) :
    StoreStep config s a t.core.store := by
  rcases step_cases hs with haround | ⟨conn, hconn, hstep⟩
  · cases haround with
    | advance | post | worker | connect | saveAfter | stop => exact .operates .refl
    | restart => exact .restart
    | crash found => exact .crash found
  · exact .operates (operates_connected hnow (hdated conn hconn) (hscoped.tasks conn hconn) hstep)

/-- The clock is past the longest window and its seconds can be written, and a new
process finds what `open` accepts. -/
def Sensible (fromSlice : List UInt8 → Option Snapshot) (s : State) (a : Action) : Prop :=
  MAX_WINDOW < s.now ∧ s.now ≤ Harvest.maxSeconds ∧ ∀ found, a = .crash found → ∃ disk,
    openStore fromSlice disk s.core.store.team s.core.store.user s.now = .ok (openFound s found)

structure Storable (s : State) : Prop where
  limits : Limits s.core.store.team s.core.store.user s.now s.core.store
  dated : ∀ conn, s.connection = some conn → Dated s conn

theorem storable_step {fromSlice : List UInt8 → Option Snapshot}
    (hwide : ∀ bytes data, fromSlice bytes = some data → Wide data)
    (hwindow : 0 ≤ config.window ∧ config.window ≤ MAX_WINDOW) {a : Action} (h : Storable s)
    (hscoped : Scoped config (isLiveId · = true) s) (hsensible : Sensible fromSlice s a)
    (hs : step config s a = some t) : Storable t := by
  obtain ⟨hlow, hhigh, hfound⟩ := hsensible
  have hlimits : Limits s.core.store.team s.core.store.user s.now t.core.store := by
    have hstored := storeStep hlow h.dated hscoped hs
    generalize t.core.store = after at hstored
    cases hstored with
    | operates hoperates => exact hoperates.limits hwindow ⟨hlow, hhigh⟩ h.limits
    | restart => exact h.limits.restored
    | crash found =>
        obtain ⟨disk, hopen⟩ := hfound found rfl
        exact (limits_opened hwide hopen).2.2
  refine ⟨?_, fun after hafter => dated_step hlow h.dated hs hafter⟩
  rw [hlimits.team, hlimits.user]
  exact hlimits.later (now_mono hs)

theorem storable_reachable {fromSlice : List UInt8 → Option Snapshot}
    (hwide : ∀ bytes data, fromSlice bytes = some data → Wide data) (hdecode : Decodes config)
    (hwindow : 0 ≤ config.window ∧ config.window ≤ MAX_WINDOW)
    (h : ReachableBy (machine config) (Sensible fromSlice) s) : Storable s := by
  refine h.invariant ?_ fun s a t hr hstorable hsensible hs =>
    storable_step hwide hwindow hstorable (scoped_live hdecode hr.reachable) hsensible hs
  rintro s ⟨team, user, clock, rfl⟩
  exact ⟨limits_fresh team user _, fun conn hconn => (by cases hconn)⟩

/-- In every run of a session its store is one that a save writes and `open` reads back,
with the same progress and records. -/
theorem session_saved {fromSlice : List UInt8 → Option Snapshot}
    (hwide : ∀ bytes data, fromSlice bytes = some data → Wide data) (hdecode : Decodes config)
    (hwindow : 1 ≤ config.window ∧ config.window ≤ MAX_WINDOW)
    (h : ReachableBy (machine config) (Sensible fromSlice) s) (hnow : s.now ≤ Harvest.maxSeconds)
    (hteam : validId s.core.store.team = true) (huser : validId s.core.store.user = true)
    (hround : fromSlice (toVec s.core.store) = some s.core.store.restored) :
    Limits s.core.store.team s.core.store.user s.now s.core.store ∧
    saveBytes s.core.store = some (toVec s.core.store) ∧
    (∀ later, s.now ≤ later →
      openStore fromSlice ⟨true, true, false, .bytes (toVec s.core.store)⟩ s.core.store.team
        s.core.store.user later = .ok s.core.store.restored) ∧
    ∀ a t, MAX_WINDOW < s.now → step config s a = some t → StoreStep config s a t.core.store := by
  have hstorable := storable_reachable hwide hdecode (by omega) h
  have hsize := toVec_lt hnow hteam huser hstorable.limits
  refine ⟨hstorable.limits, if_pos hsize.le, fun later hlater => ?_, fun a t hlow hs =>
    storeStep hlow hstorable.dated (scoped_live hdecode h.reachable) hs⟩
  exact openStore_saved hteam huser hstorable.limits hlater hsize.le hround

end

/-- No crash, under a clock that can be written. -/
def Calm (s : State) (a : Session.Action) : Prop :=
  (MAX_WINDOW < s.now ∧ s.now ≤ Harvest.maxSeconds) ∧ Orderly s a

instance (s : State) (a : Session.Action) : Decidable (Calm s a) := by
  unfold Calm
  infer_instance

theorem Calm.sensible {fromSlice : List UInt8 → Option Snapshot} {s : State} {a : Session.Action}
    (h : Calm s a) : Sensible fromSlice s a := by
  obtain ⟨⟨hlow, hhigh⟩, horderly⟩ := h
  refine ⟨hlow, hhigh, fun found ha => ?_⟩
  rw [ha] at horderly
  exact horderly.elim

def readBack (data : Snapshot) (bytes : List UInt8) : Option Snapshot :=
  if bytes = toVec data then some data.restored else none

/-- A message is harvested, and the process that opens what was saved recovers its channel. -/
def storedRun : List Session.Action :=
  harvestedRun ++ [.stop, .restart, .advance (5 * SECOND)] ++ sampleConnect hello ++ samplePass ++
    [.turn .recovery .lock, .scan, .copy (some .recovery), .save (some .recovery) true]

theorem session_saved_recovered :
    ∃ s : State, s.core.store.seen = [⟨"C1".toList, "1000000000.000001".toList, 1000000000⟩] ∧
      (s.core.store.progress "C1".toList).map Progress.coveredUntil = some 1000000005 ∧
      openStore (readBack s.core.store) ⟨true, true, false, .bytes (toVec s.core.store)⟩
        "T1".toList "U1".toList 1000000060 = .ok s.core.store.restored := by
  have hrun : ∃ s, ReachableBy (machine sampleConfig) Calm s ∧
      (s.core.store.seen = [⟨"C1".toList, "1000000000.000001".toList, 1000000000⟩] ∧
        (s.core.store.progress "C1".toList).map Progress.coveredUntil = some 1000000005 ∧
        s.now = 1000000005 ∧ s.core.store.team = "T1".toList ∧ s.core.store.user = "U1".toList) :=
    exists_reachableBy (s := initial "T1".toList "U1".toList (1000000000 * SECOND)) storedRun
      ⟨_, _, _, rfl⟩ (by decide +kernel)
  obtain ⟨s, hs, hseen, hcovered, hnow, hteam, huser⟩ := hrun
  have hsensible (fromSlice : List UInt8 → Option Snapshot) :
      ReachableBy (machine sampleConfig) (Sensible fromSlice) s := hs.mono fun _ _ => Calm.sensible
  have hlimits := (@storable_reachable sampleConfig s (fun _ => none) (fun _ _ h => nomatch h)
    sampleDecodes (by decide) (hsensible _)).limits
  have hwide : ∀ bytes data, readBack s.core.store bytes = some data → Wide data := by
    intro bytes data h
    unfold readBack at h
    split at h
    · cases Option.some.inj h
      exact (checkSnapshot_ok.mpr hlimits.restored).2
    · contradiction
  obtain ⟨-, -, hopen, -⟩ := session_saved hwide sampleDecodes (by decide) (hsensible _)
    (by rw [hnow]; decide) (by rw [hteam]; decide) (by rw [huser]; decide) (if_pos rfl)
  have hlater : s.now ≤ 1000000060 := by rw [hnow]; decide
  have hreopened := hopen 1000000060 hlater
  rw [hteam, huser] at hreopened
  exact ⟨s, hseen, hcovered, hreopened⟩

end SjmbSlack.UserSession.Session
