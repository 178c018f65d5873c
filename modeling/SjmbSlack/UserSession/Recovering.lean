import SjmbSlack.UserSession.Passes

/-! What a step of a connection does to the progress of a channel. A pass of the
recovery goes on, is given up, or finishes its channel. -/
namespace SjmbSlack.UserSession.Session
open Machine Api Slackbot

def State.progress (s : State) (id : Str) : Option Progress := s.core.store.progress id

structure SamePass (paging after : Paging) : Prop where
  channel : after.channel = paging.channel
  oldest : after.oldest = paging.oldest
  rest : after.rest = paging.rest
  known : after.known = paging.known

theorem SamePass.refl (paging : Paging) : SamePass paging paging := ⟨rfl, rfl, rfl, rfl⟩

theorem SamePass.trans {first second third : Paging} (h : SamePass first second)
    (hnext : SamePass second third) : SamePass first third :=
  ⟨hnext.channel.trans h.channel, hnext.oldest.trans h.oldest, hnext.rest.trans h.rest,
    hnext.known.trans h.known⟩

def Recovery.paging? : Recovery → Option Paging
  | .requesting paging | .scanning paging _ _ | .processing paging _ _ _ => some paging
  | _ => none

inductive Proceeds (s : State) (conn : Connection) (paging : Paging) (t : State) : Prop where
  | dropped (hconn : t.connection = none) (hprogress : ∀ id, t.progress id = s.progress id)
  | left (recovery : Recovery) (hconn : t.connection = some { conn with recovery := recovery })
      (hrecovery : recovery = .ticking ∨ recovery = .choosing paging.rest)
      (hprogress : ∀ id, t.progress id = s.progress id)
  | goes (recovery : Recovery) (after : Paging) (hsame : SamePass paging after)
      (hconn : t.connection = some { conn with recovery := recovery })
      (hrecovery : recovery.paging? = some after)
      (hprogress : ∀ id, t.progress id = s.progress id)
  | finished (after : Paging) (hsame : SamePass paging after)
      (hconn : t.connection = some { conn with
        recovery := .saving paging.rest
        finished := after :: conn.finished })
      (hprogress : ∀ id, t.progress id =
        if id = paging.channel then (s.progress id).map (Progress.finished conn.began)
        else s.progress id)

section

variable {config : Config} {s t : State} {conn : Connection} {paging : Paging}

theorem Proceeds.withStore {store : Snapshot} (h : Proceeds (s.withStore store) conn paging t)
    (hstore : ∀ id, store.progress id = s.progress id) : Proceeds s conn paging t := by
  have hprogress : ∀ id, (s.withStore store).progress id = s.progress id := hstore
  cases h with
  | dropped hconn hsame => exact .dropped hconn fun id => (hsame id).trans (hprogress id)
  | left recovery hconn hrecovery hsame =>
      exact .left recovery hconn hrecovery fun id => (hsame id).trans (hprogress id)
  | goes recovery after hpass hconn hrecovery hsame =>
      exact .goes recovery after hpass hconn hrecovery fun id => (hsame id).trans (hprogress id)
  | finished after hpass hconn hfinished =>
      refine .finished after hpass hconn fun id => ?_
      rw [hfinished id, hprogress id]

theorem Proceeds.ofPass {middle : Paging} (h : Proceeds s conn middle t)
    (hsame : SamePass paging middle) : Proceeds s conn paging t := by
  cases h with
  | dropped hconn hprogress => exact .dropped hconn hprogress
  | left recovery hconn hrecovery hprogress =>
      exact .left recovery hconn (hsame.rest ▸ hrecovery) hprogress
  | goes recovery after hpass hconn hrecovery hprogress =>
      exact .goes recovery after (hsame.trans hpass) hconn hrecovery hprogress
  | finished after hpass hconn hprogress =>
      exact .finished after (hsame.trans hpass) (hsame.rest ▸ hconn) (hsame.channel ▸ hprogress)

theorem proceeds_passFailed (s : State) (conn : Connection) (paging : Paging) (error : ApiError) :
    Proceeds s conn paging (passFailed s conn paging.rest error) := by
  unfold passFailed
  split
  · exact .dropped rfl fun _ => rfl
  · split
    · exact .left .ticking rfl (.inl rfl) fun _ => rfl
    · exact .left (.choosing paging.rest) rfl (.inr rfl) fun _ => rfl

theorem proceeds_request (s : State) (conn : Connection) (paging : Paging) :
    Proceeds s conn paging (request s conn paging) := by
  unfold request
  split
  · exact proceeds_passFailed ..
  · refine .goes (.requesting _) _ ?_ rfl rfl fun _ => rfl
    exact ⟨rfl, rfl, rfl, rfl⟩

theorem proceeds_nextThread (config : Config) (s : State) (conn : Connection) (paging : Paging) :
    Proceeds s conn paging (nextThread config s conn paging) := by
  unfold nextThread
  split
  · exact .finished paging (.refl paging) rfl fun id => Snapshot.progress_finishRecovery ..
  · exact (proceeds_request ..).ofPass ⟨rfl, rfl, rfl, rfl⟩

theorem proceeds_requestDone (config : Config) (s : State) (conn : Connection) (paging : Paging) :
    Proceeds s conn paging (requestDone config s conn paging) := by
  unfold requestDone
  dsimp only
  split <;> exact (proceeds_nextThread ..).ofPass ⟨rfl, rfl, rfl, rfl⟩

theorem proceeds_requestFailed (config : Config) (s : State) (conn : Connection) (paging : Paging)
    (error : ApiError) : Proceeds s conn paging (requestFailed config s conn paging error) := by
  unfold requestFailed
  split
  · split
    · refine Proceeds.withStore ((proceeds_nextThread ..).ofPass ⟨rfl, rfl, rfl, rfl⟩) fun id => ?_
      exact Snapshot.progress_forgetThread ..
    · exact proceeds_passFailed ..
  · exact proceeds_passFailed ..

theorem proceeds_page (config : Config) (s : State) (conn : Connection) (paging : Paging)
    (response : Except ApiError Json) :
    Proceeds s conn paging (page config s conn paging response) := by
  unfold page
  split
  · exact proceeds_requestFailed ..
  · split
    · exact proceeds_requestFailed ..
    · split
      · exact proceeds_requestFailed ..
      · refine .goes (.scanning _ _ _) _ ?_ rfl rfl fun _ => rfl
        exact ⟨rfl, rfl, rfl, rfl⟩

theorem proceeds_scan (config : Config) (s : State) (conn : Connection) (paging : Paging)
    (response : Json) (events : List Json) :
    Proceeds s conn paging (scan config s conn paging response events) := by
  unfold scan
  split
  · split
    · exact proceeds_requestFailed ..
    · split
      · exact .goes (.processing _ _ _ _) _ (.refl paging) rfl rfl fun _ => rfl
      · exact .goes (.scanning _ _ _) _ (.refl paging) rfl rfl fun _ => rfl
  · split
    · exact proceeds_requestFailed ..
    · split
      · exact proceeds_requestDone ..
      · split
        · exact proceeds_requestFailed ..
        · exact (proceeds_request ..).ofPass ⟨rfl, rfl, rfl, rfl⟩

theorem proceeds_turn {step : Turn} (h : turn config s conn .recovery step = some t) :
    ∃ paging events response call core outcome,
      conn.recovery = .processing paging events response call ∧
      call.step config s.core conn.consumer.holdsLock step = some (core, outcome) ∧
      Proceeds { s with core := core } conn paging t := by
  unfold turn at h
  dsimp only at h
  split at h
  · rename_i paging events response call hrecovery
    obtain ⟨⟨core, outcome⟩, hstep, rfl⟩ := Option.map_eq_some_iff.mp h
    refine ⟨paging, events, response, call, core, outcome, hrecovery, hstep, ?_⟩
    dsimp only
    split
    · exact .goes (.processing _ _ _ _) _ (.refl paging) rfl rfl fun _ => rfl
    · refine .goes (.scanning _ _ _) _ ?_ rfl rfl fun _ => rfl
      exact ⟨rfl, rfl, rfl, rfl⟩
    · exact proceeds_requestFailed ..
  · contradiction

end

inductive Moved (config : Config) (s : State) (conn : Connection) (t : State) (id : Str) :
    Option Progress → Option Progress → Prop where
  | same (progress : Option Progress) : Moved config s conn t id progress progress
  | flagged (progress : Progress) (failed : Bool) :
      Moved config s conn t id (some progress) (some { progress with failed := failed })
  | added (time : Int) : Moved config s conn t id none (some ⟨time, false, false⟩)
  | left (before : Option Progress) (hstage : conn.stage = .discovering) :
      Moved config s conn t id before none
  | begun (before : Option Progress) (hstage : conn.stage = .discovering) :
      Moved config s conn t id before (some (Progress.begun config.window conn.began before))
  | finished (progress : Progress) (failed : Bool) (paging : Paging) (hchannel : paging.channel = id)
      (hconn : t.connection = some { conn with
        recovery := .saving paging.rest
        finished := paging :: conn.finished }) :
      Moved config s conn t id (some progress)
        (some (Progress.finished conn.began { progress with failed := failed }))
  | advanced (before : Option Progress) (through : Int) (ping : Nat)
      (hstage : conn.stage = .running)
      (hhistory : t.history = .applied conn.number through ping :: s.history) :
      Moved config s conn t id before (before.map (Progress.advanced through))

def Flagged (before after : Option Progress) : Prop :=
  after = before ∨ ∃ progress failed, before = some progress ∧
    after = some { progress with failed := failed }

def Introduced (conn : Connection) (id : Str) : Prop :=
  (∃ responses ids, discoverChannels responses = .ok ids ∧ id ∈ ids) ∨
    ∃ event, conn.consumer = .asking event id

inductive Shifted (s : State) (conn : Connection) (a : Action) (t : State) (id : Str) :
    Option Progress → Option Progress → Prop where
  | flagged (before after : Option Progress) (h : Flagged before after) :
      Shifted s conn a t id before after
  | added (hmember : id ∈ t.members) (hintroduced : Introduced conn id) :
      Shifted s conn a t id none (some ⟨s.now, false, false⟩)
  | finished (progress : Progress) (failed : Bool) (paging : Paging) (hchannel : paging.channel = id)
      (hconn : t.connection = some { conn with
        recovery := .saving paging.rest
        finished := paging :: conn.finished }) :
      Shifted s conn a t id (some progress)
        (some (Progress.finished conn.began { progress with failed := failed }))
  | advanced (before : Option Progress) (through : Int) (ping : Nat) (queue : Mpsc Event)
      (ha : a = .consume) (hstage : conn.stage = .running) (hconsumer : conn.consumer = .receiving)
      (hrecv : conn.link.queue.recv = some (.checkpoint through ping, queue))
      (hhistory : t.history = .applied conn.number through ping :: s.history) :
      Shifted s conn a t id before (before.map (Progress.advanced through))

section

variable {config : Config} {s t : State} {conn : Connection}

theorem Flagged.same (before : Option Progress) : Flagged before before := .inl rfl

theorem Flagged.shifted {a : Action} {id : Str} {before after : Option Progress}
    (h : Flagged before after) : Shifted s conn a t id before after := .flagged _ _ h

theorem flagged_if {condition : Prop} [Decidable condition] (before : Option Progress)
    (failed : Bool) : Flagged before (if condition then
      before.map fun progress => { progress with failed := failed } else before) := by
  split
  · cases before with
    | none => exact .inl rfl
    | some progress => exact .inr ⟨progress, failed, rfl, rfl⟩
  · exact .inl rfl

theorem Proceeds.shifted {middle : State} {paging : Paging} (h : Proceeds middle conn paging t)
    (a : Action) (id : Str) (hflagged : Flagged (s.progress id) (middle.progress id)) :
    Shifted s conn a t id (s.progress id) (t.progress id) := by
  cases h with
  | dropped _ hprogress | left _ _ _ hprogress | goes _ _ _ _ _ hprogress =>
      rw [hprogress id]
      exact hflagged.shifted
  | finished after hsame hconn hprogress =>
      rw [hprogress id]
      split
      · rename_i hid
        have hchannel : after.channel = id := hsame.channel.trans hid.symm
        rw [← hsame.rest] at hconn
        rcases hflagged with heq | ⟨progress, failed, hbefore, hafter⟩
        · rw [heq]
          cases s.progress id with
          | none => exact (Flagged.same _).shifted
          | some progress => exact .finished progress progress.failed after hchannel hconn
        · rw [hbefore, hafter]
          exact .finished progress failed after hchannel hconn
      · exact hflagged.shifted

theorem Turned.flagged {core after : Core} {call : Process} {outcome : Outcome}
    (h : Turned config core call after outcome) (id : Str) :
    Flagged (core.store.progress id) (after.store.progress id) := by
  have hremember : ∀ channel thread,
      (Process.remember config core channel thread).store.progress id = core.store.progress id := by
    intro channel thread
    cases thread with
    | none => rfl
    | some parent => exact Snapshot.progress_rememberThread ..
  cases h with
  | sending channel ts thread => exact .inl (hremember channel thread)
  | admitted => exact .inl rfl
  | harvested => exact .inl (Snapshot.progress_processed ..)
  | settled channel thread => exact .inl (hremember channel thread)
  | failed job =>
      change Flagged _ ((core.store.failed job.channel).progress id)
      rw [Snapshot.progress_failed]
      exact flagged_if _ true
  | refused => exact .inl rfl

theorem shifted_turn {caller : Caller} {step : Turn} (h : turn config s conn caller step = some t)
    (id : Str) : Shifted s conn (.turn caller step) t id (s.progress id) (t.progress id) := by
  cases caller with
  | live =>
      unfold turn at h
      dsimp only at h
      split at h
      · obtain ⟨⟨core, outcome⟩, hstep, rfl⟩ := Option.map_eq_some_iff.mp h
        have hflagged := (turned hstep).flagged id
        dsimp only
        split <;> exact hflagged.shifted
      · contradiction
  | recovery =>
      obtain ⟨paging, events, response, call, core, outcome, -, hstep, hproceeds⟩ := proceeds_turn h
      exact hproceeds.shifted _ id ((turned hstep).flagged id)

theorem shifted_choose (channels : List (Str × Channel)) (id : Str) :
    Shifted s conn .choose (choose config s conn channels) id (s.progress id)
      ((choose config s conn channels).progress id) := by
  unfold choose
  split
  · exact (Flagged.same _).shifted
  · rename_i first channel rest
    split
    · exact (Flagged.same _).shifted
    · refine (proceeds_request ..).shifted _ id ?_
      change Flagged _ ((s.core.store.retryChannel first).progress id)
      rw [Snapshot.progress_retryChannel]
      exact flagged_if _ false

theorem shifted_consume (hstage : conn.stage = .running) (h : consume config s conn = some t)
    (id : Str) : Shifted s conn .consume t id (s.progress id) (t.progress id) := by
  unfold consume at h
  split at h
  · rename_i hconsumer hrecv
    dsimp only at h
    split at h
    · rename_i through ping
      cases Option.some.inj h
      have hprogress := Snapshot.progress_checkpoint config.window s.core.store through s.now id
      change Shifted s conn .consume _ id (s.core.store.progress id)
        ((s.core.store.checkpoint config.window through s.now).progress id)
      rw [hprogress]
      exact .advanced _ through ping _ rfl hstage hconsumer hrecv rfl
    · split at h
      · cases Option.some.inj h
        exact (Flagged.same _).shifted
      · split at h
        · cases Option.some.inj h
          exact (Flagged.same _).shifted
        · split at h <;> cases Option.some.inj h <;> exact (Flagged.same _).shifted
  · contradiction

theorem shifted_answered {event : Json} {channel : Str} (hconsumer : conn.consumer = .asking event channel)
    (response : Except ApiError Json) (id : Str) :
    Shifted s conn (.answered response) (answered s conn event channel response) id (s.progress id)
      ((answered s conn event channel response).progress id) := by
  unfold answered
  split
  · exact (Flagged.same _).shifted
  · dsimp only
    split
    · exact (Flagged.same _).shifted
    · split
      · exact (Flagged.same _).shifted
      · split
        · rename_i store hadded
          have hprogress := Snapshot.progress_addChannel hadded id
          by_cases heq : id = channel
          · subst heq
            rw [if_pos rfl] at hprogress
            change Shifted _ _ _ _ id (s.core.store.progress id) (store.progress id)
            rw [hprogress]
            cases hbefore : s.core.store.progress id with
            | none =>
                refine .added ?_ (.inr ⟨event, hconsumer⟩)
                change id ∈ if s.members.contains id then s.members else s.members ++ [id]
                split
                · rename_i hmem
                  exact List.contains_iff_mem.mp hmem
                · exact List.mem_append_right _ (List.mem_singleton.mpr rfl)
            | some progress => exact (Flagged.same _).shifted
          · rw [if_neg heq] at hprogress
            exact .flagged _ _ (.inl hprogress)
        · exact (Flagged.same _).shifted

theorem progress_addChannels (data : Snapshot) (time : Int) (ids : List Str) (id : Str) :
    (addChannels data time ids).1.progress id = data.progress id ∨ id ∈ ids ∧
      data.progress id = none ∧
      (addChannels data time ids).1.progress id = some ⟨time, false, false⟩ := by
  induction ids generalizing data with
  | nil => exact .inl rfl
  | cons first rest ih =>
      unfold addChannels
      split
      · rename_i after hadded
        have hfirst := Snapshot.progress_addChannel hadded id
        rcases ih after with hsame | ⟨hmem, hnone, hnew⟩
        · rw [hsame, hfirst]
          split
          · rename_i heq
            subst heq
            cases data.progress id with
            | none => exact .inr ⟨List.mem_cons_self, rfl, rfl⟩
            | some progress => exact .inl rfl
          · exact .inl rfl
        · rw [hfirst] at hnone
          split at hnone
          · contradiction
          · exact .inr ⟨List.mem_cons_of_mem _ hmem, hnone, hnew⟩
      · exact .inl rfl

end

theorem addChannels_nodup {channels : List Json} {ids after : List Str} (hids : ids.Nodup)
    (h : UserSession.addChannels channels ids = .ok after) : after.Nodup := by
  induction channels generalizing ids with
  | nil =>
      cases Except.ok.inj h
      exact hids
  | cons channel rest ih =>
      unfold UserSession.addChannels at h
      split at h
      · split at h
        · contradiction
        · split at h
          · contradiction
          · refine ih ?_ h
            split
            · exact hids
            · rename_i id _ _ hmem
              refine List.nodup_append.mpr ⟨hids, List.nodup_singleton id, ?_⟩
              intro other hother found hfound heq
              cases List.mem_singleton.mp hfound
              exact hmem (List.contains_iff_mem.mpr (heq ▸ hother))
      · exact ih hids h

theorem ok_of_bind {ε α β : Type} {first : Except ε α} {rest : α → Except ε β} {result : β}
    (h : first >>= rest = .ok result) : ∃ value, first = .ok value ∧ rest value = .ok result := by
  cases first with
  | error error => contradiction
  | ok value => exact ⟨value, rfl, h⟩

theorem discoverPages_nodup {responses : List (Except ApiError Json)}
    {ids after cursors : List Str} (hids : ids.Nodup)
    (h : discoverPages responses ids cursors = .ok after) : after.Nodup := by
  induction responses generalizing ids cursors with
  | nil => contradiction
  | cons response rest ih =>
      unfold discoverPages at h
      obtain ⟨response, -, h⟩ := ok_of_bind h
      obtain ⟨channels, -, h⟩ := ok_of_bind h
      obtain ⟨added, hadded, h⟩ := ok_of_bind h
      obtain ⟨cursor, -, h⟩ := ok_of_bind h
      have hnodup := addChannels_nodup hids hadded
      split at h
      · split at h
        · cases Except.ok.inj h
          exact hnodup
        · contradiction
      · split at h
        · exact ih hnodup h
        · contradiction

theorem discoverChannels_nodup {responses : List (Except ApiError Json)} {ids : List Str}
    (h : discoverChannels responses = .ok ids) : ids.Nodup :=
  discoverPages_nodup List.nodup_nil h

section

variable {config : Config} {s t : State} {conn : Connection}

theorem progress_start (joined : List Str) (id : Str) :
    (start config s conn joined).progress id =
      (s.core.store.beginConnection config.window joined conn.began).1.progress id := by
  unfold start
  dsimp only
  split <;> rfl

theorem shifted_discover {responses : List (Except ApiError Json)} {order : List Str}
    (hstage : conn.stage ≠ .discovering) (h : discover config s conn responses order = some t)
    (id : Str) : Shifted s conn (.discover responses order) t id (s.progress id) (t.progress id) := by
  unfold discover at h
  split at h
  · split at h
    · contradiction
    · split at h
      · cases Option.some.inj h
        exact (Flagged.same _).shifted
      · contradiction
  · rename_i ids hids
    split at h
    · contradiction
    · rename_i hperm
      have hperm : order.Perm ids := by simpa using hperm
      split at h
      · rename_i hdiscovering
        exact absurd hdiscovering hstage
      · have hadded : ∀ {t : State}, t.members = order → Shifted s conn (.discover responses order) t id
            (s.progress id) ((addChannels s.core.store s.now order).1.progress id) := by
          intro t hmembers
          rcases progress_addChannels s.core.store s.now order id with hsame | ⟨hmem, hnone, hnew⟩
          · exact .flagged _ _ (.inl hsame)
          · rw [State.progress, hnone, hnew]
            exact .added (hmembers ▸ hmem) (.inl ⟨responses, ids, hids, hperm.mem_iff.mp hmem⟩)
        dsimp only at h
        split at h <;> cases Option.some.inj h <;> exact hadded rfl
      · contradiction

def Begins (conn : Connection) (a : Action) : Prop := a.discovers = true ∧ conn.stage = .discovering

theorem shifted_connected {a : Action} (hs : stepConnected config s conn a = some t)
    (ha : ¬ Begins conn a) (id : Str) : Shifted s conn a t id (s.progress id) (t.progress id) := by
  cases hstores : a.stores with
  | false =>
      rw [State.progress, State.progress, core_unstored hs hstores]
      exact (Flagged.same _).shifted
  | true =>
      unfold Action.stores at hstores
      split at hstores
      · exact shifted_discover (fun hstage => ha ⟨rfl, hstage⟩) hs id
      · simp only [stepConnected] at hs
        split at hs
        · rename_i hstage
          exact shifted_consume hstage hs id
        · contradiction
      · simp only [stepConnected] at hs
        split at hs
        · rename_i hconsumer
          cases Option.some.inj hs
          exact shifted_answered hconsumer _ id
        · contradiction
      · exact shifted_turn hs id
      · simp only [stepConnected] at hs
        split at hs
        · cases Option.some.inj hs
          exact shifted_choose _ id
        · contradiction
      · simp only [stepConnected] at hs
        split at hs
        · cases Option.some.inj hs
          exact (proceeds_page ..).shifted _ id (.same _)
        · contradiction
      · simp only [stepConnected] at hs
        split at hs
        · cases Option.some.inj hs
          exact (proceeds_scan ..).shifted _ id (.same _)
        · contradiction
      · contradiction

theorem Shifted.moved {a : Action} {id : Str} {before after : Option Progress}
    (h : Shifted s conn a t id before after) : Moved config s conn t id before after := by
  cases h with
  | flagged before after h =>
      rcases h with rfl | ⟨progress, failed, rfl, rfl⟩
      · exact .same _
      · exact .flagged _ _
  | added => exact .added s.now
  | finished progress failed paging hchannel hconn => exact .finished progress failed paging hchannel hconn
  | advanced before through ping queue ha hstage hconsumer hrecv hhistory =>
      exact .advanced before through ping hstage hhistory

theorem progress_started {ids joined : List Str} {responses : List (Except ApiError Json)}
    (hids : discoverChannels responses = .ok ids) (hperm : joined.Perm ids) (id : Str) :
    (start config s conn joined).progress id = none ∧ id ∉ joined ∨
      id ∈ joined ∧ (start config s conn joined).progress id = s.progress id ∧
        (start config s conn joined).connection = none ∨
      id ∈ joined ∧ (start config s conn joined).progress id =
        some (Progress.begun config.window conn.began (s.progress id)) := by
  have hnodup := hperm.nodup_iff.mpr (discoverChannels_nodup hids)
  rw [progress_start]
  rcases Snapshot.progress_beginConnection hnodup rfl id with
    hgone | ⟨hmem, hsame, herror⟩ | hbegun
  · exact .inl hgone
  · refine .inr (.inl ⟨hmem, hsame, ?_⟩)
    unfold start
    dsimp only
    split
    · rename_i hok
      exact absurd hok herror
    · rfl
  · exact .inr (.inr hbegun)

theorem moved_connected {a : Action} (hs : stepConnected config s conn a = some t) (id : Str) :
    Moved config s conn t id (s.progress id) (t.progress id) := by
  by_cases hbegins : Begins conn a
  · obtain ⟨hdiscovers, hstage⟩ := hbegins
    unfold Action.discovers at hdiscovers
    split at hdiscovers
    · rcases started hstage hs with rfl | ⟨ids, hids, hperm, rfl⟩
      · exact .same _
      · rcases @progress_started config s conn _ _ _ hids hperm id with
          ⟨hnone, -⟩ | ⟨-, hsame, -⟩ | ⟨-, hbegun⟩
        · exact hnone ▸ .left _ hstage
        · exact hsame ▸ .same _
        · exact hbegun ▸ .begun _ hstage
    · contradiction
  · exact (shifted_connected hs hbegins id).moved

end

end SjmbSlack.UserSession.Session
