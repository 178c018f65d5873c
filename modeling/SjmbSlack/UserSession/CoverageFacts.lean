import SjmbSlack.UserSession.Coverage

/-! What every state keeps while a channel stays joined: times, the channels of the store,
the events that may be dealt with as foreign, and the records of passes. -/
namespace SjmbSlack.UserSession.Session
open Machine Api Slackbot

theorem Progress.finished_le {progress : Progress} {through bound : Int}
    (h : progress.coveredUntil ≤ bound) (hthrough : through ≤ bound) :
    (progress.finished through).coveredUntil ≤ bound := by
  unfold Progress.finished
  split
  · exact max_le h hthrough
  · exact h

theorem Progress.advanced_le {progress : Progress} {through bound : Int}
    (h : progress.coveredUntil ≤ bound) (hthrough : through ≤ bound) :
    (progress.advanced through).coveredUntil ≤ bound := by
  unfold Progress.advanced
  split
  · exact max_le h hthrough
  · exact h

theorem Progress.begun_le {existing : Option Progress} {window time bound : Int}
    (h : ∀ progress, existing = some progress → progress.coveredUntil ≤ bound) (htime : time ≤ bound)
    (hwindow : 0 ≤ window) : (Progress.begun window time existing).coveredUntil ≤ bound := by
  have hcovered : (existing.map Progress.coveredUntil).getD time ≤ bound := by
    cases existing with
    | none => exact htime
    | some progress => exact h progress rfl
  unfold Progress.begun
  dsimp only
  split
  · omega
  · exact hcovered

def isLiveId (id : Str) : Bool :=
  validId id && ("C".toList.isPrefixOf id || "G".toList.isPrefixOf id)

theorem liveChannel_iff {event : Json} {id : Str} : liveChannel event = some id ↔
    (event.get "channel".toList).asStr = some id ∧ isLiveId id = true :=
  Option.filter_eq_some_iff

theorem discovered_live {responses : List (Except ApiError Json)} {ids : List Str} {id : Str}
    (h : discoverChannels responses = .ok ids) (hmem : id ∈ ids) : isLiveId id = true := by
  obtain ⟨hcomplete, -, rfl⟩ := discoverChannels_iff.mp h
  obtain ⟨pages, last, -, -, -, hids⟩ := discoverFrom_complete 0 ⟨[], []⟩ [] hcomplete
  rcases (hids id).mp hmem with hnil | ⟨page, -, channels, -, channel, -, heligible, hid⟩
  · exact absurd hnil List.not_mem_nil
  · simp only [eligibleChannel, hid, Option.any_some, Bool.and_eq_true] at heligible
    simpa [isLiveId] using heligible.1.1.1

structure Timely (s : State) : Prop where
  posted : ∀ m ∈ s.posted, 0 ≤ m.second ∧ m.second ≤ s.now ∧
    Harvest.messageTimestamp m.ts = some m.second
  covered : ∀ id progress, s.progress id = some progress → progress.coveredUntil ≤ s.now

structure Eligible (s : State) : Prop where
  live : ∀ id, (s.progress id).isSome = true → isLiveId id = true
  asking : ∀ conn event channel, s.connection = some conn →
    conn.consumer = .asking event channel → liveChannel event = some channel

section

variable {config : Config} {s t : State} {conn : Connection} {a : Action}

theorem covered_connected (hwindow : 0 ≤ config.window) (h : Timely s) (hbegan : conn.began ≤ s.now)
    (hpast : ∀ through ∈ upcoming conn.link, through ≤ s.now)
    (hs : stepConnected config s conn a = some t) (id : Str) :
    ∀ progress, t.progress id = some progress → progress.coveredUntil ≤ s.now := by
  intro after hafter
  by_cases hbegins : Begins conn a
  · obtain ⟨hdiscovers, hstage⟩ := hbegins
    unfold Action.discovers at hdiscovers
    split at hdiscovers
    · rcases started hstage hs with rfl | ⟨ids, hids, hperm, rfl⟩
      · exact h.covered id after hafter
      · rcases @progress_started config s conn _ _ _ hids hperm id with
          ⟨hnone, -⟩ | ⟨-, hsame, -⟩ | ⟨-, hbegun⟩
        · rw [hnone] at hafter
          contradiction
        · exact h.covered id after (hsame ▸ hafter)
        · cases Option.some.inj (hbegun.symm.trans hafter)
          exact Progress.begun_le (h.covered id) hbegan hwindow
    · contradiction
  · have hshifted := shifted_connected hs hbegins id
    rw [hafter] at hshifted
    generalize hbefore : s.progress id = before at hshifted
    generalize hsome : some after = found at hshifted
    cases hshifted with
    | flagged before found hflagged =>
        rcases hflagged with rfl | ⟨progress, failed, rfl, rfl⟩
        · exact h.covered id after (hbefore.trans hsome.symm)
        · cases hsome
          exact h.covered id progress hbefore
    | added =>
        cases hsome
        exact le_rfl
    | finished progress failed paging =>
        cases hsome
        exact Progress.finished_le (h.covered id progress hbefore) hbegan
    | advanced before through ping queue ha hstage hconsumer hrecv hhistory =>
        obtain ⟨progress, rfl, rfl⟩ := Option.map_eq_some_iff.mp hsome.symm
        refine Progress.advanced_le (h.covered id progress hbefore) (hpast through ?_)
        simp [upcoming, (Mpsc.recv_some hrecv).1]

theorem timely_step (hwindow : 0 ≤ config.window) (h : Timely s) (horderly : Orderly s a)
    (hbegan : ∀ conn, s.connection = some conn → conn.began ≤ s.now) (hheartbeat : HeartbeatInv s)
    (hs : step config s a = some t) : Timely t := by
  have hnow : s.now ≤ t.now := now_mono hs
  have hposted : ∀ m ∈ s.posted, 0 ≤ m.second ∧ m.second ≤ t.now ∧
      Harvest.messageTimestamp m.ts = some m.second := fun m hmem => by
    obtain ⟨hnonneg, hpast, hts⟩ := h.posted m hmem
    exact ⟨hnonneg, hpast.trans hnow, hts⟩
  have hsame : (∀ id progress, t.progress id = some progress →
      ∃ before, s.progress id = some before ∧ progress.coveredUntil = before.coveredUntil) →
      ∀ id progress, t.progress id = some progress → progress.coveredUntil ≤ t.now := by
    intro hprogress id progress hfound
    obtain ⟨before, hbefore, heq⟩ := hprogress id progress hfound
    rw [heq]
    exact (h.covered id before hbefore).trans hnow
  rcases step_cases hs with haround | ⟨conn, hconn, hstep⟩
  · cases haround with
    | advance | worker | connect | saveAfter | stop =>
        exact ⟨hposted, hsame fun _ progress hfound => ⟨progress, hfound, rfl⟩⟩
    | post event channel ts hmessage hchannel hts hsecond =>
        refine ⟨fun m hmem => ?_, hsame fun _ progress hfound => ⟨progress, hfound, rfl⟩⟩
        rcases List.mem_append.mp hmem with hmem | hmem
        · exact hposted m hmem
        · cases List.mem_singleton.mp hmem
          refine ⟨Int.natCast_nonneg _, le_rfl, ?_⟩
          rw [eventSecond, hts] at hsecond
          exact hsecond
    | restart =>
        refine ⟨hposted, hsame fun id progress hfound => ?_⟩
        change s.core.store.restored.progress id = some progress at hfound
        rw [progress_restored] at hfound
        obtain ⟨before, hbefore, rfl⟩ := Option.map_eq_some_iff.mp hfound
        exact ⟨before, hbefore, rfl⟩
    | crash => exact horderly.elim
  · refine ⟨(posted_connected hstep).1 ▸ hposted, fun id progress hfound => ?_⟩
    exact (covered_connected hwindow h (hbegan conn hconn) (hheartbeat.connected conn hconn).past
      hstep id progress hfound).trans hnow

theorem eligible_connected (h : Eligible s) (hconn : s.connection = some conn)
    (hs : stepConnected config s conn a = some t) : Eligible t := by
  refine ⟨fun id hsome => ?_, fun after event channel hafter hasking => ?_⟩
  · by_cases hbefore : (s.progress id).isSome = true
    · exact h.live id hbefore
    · have hnone : s.progress id = none := Option.not_isSome_iff_eq_none.mp hbefore
      by_cases hbegins : Begins conn a
      · obtain ⟨hdiscovers, hstage⟩ := hbegins
        unfold Action.discovers at hdiscovers
        split at hdiscovers
        · rcases started hstage hs with rfl | ⟨ids, hids, hperm, rfl⟩
          · exact absurd hsome hbefore
          · rcases @progress_started config s conn _ _ _ hids hperm id with
              ⟨hgone, -⟩ | ⟨-, hsame, -⟩ | ⟨hmem, -⟩
            · rw [hgone] at hsome
              contradiction
            · exact absurd (hsame ▸ hsome) hbefore
            · exact discovered_live hids (hperm.mem_iff.mp hmem)
        · contradiction
      · have hshifted := shifted_connected hs hbegins id
        rw [hnone] at hshifted
        generalize hempty : (none : Option Progress) = before at hshifted
        generalize t.progress id = after at hshifted hsome
        cases hshifted with
        | flagged before after hflagged =>
            subst hempty
            rcases hflagged with rfl | ⟨progress, failed, hprogress, -⟩
            · contradiction
            · contradiction
        | added hmember hintroduced =>
            rcases hintroduced with ⟨responses, ids, hids, hmem⟩ | ⟨event, hasking⟩
            · exact discovered_live hids hmem
            · exact (liveChannel_iff.mp (h.asking conn event id hconn hasking)).2
        | finished => contradiction
        | advanced =>
            subst hempty
            contradiction
  · rcases (carries_connected hs hafter).asking event channel hasking with hbefore | hasks
    · exact h.asking conn event channel hconn hbefore
    · exact hasks.live

theorem eligible_step (h : Eligible s) (horderly : Orderly s a) (hs : step config s a = some t) :
    Eligible t := by
  rcases step_cases hs with haround | ⟨conn, hconn, hstep⟩
  · cases haround with
    | advance | worker | saveAfter => exact ⟨h.live, h.asking⟩
    | post event channel ts =>
        refine ⟨h.live, fun after event channel hafter hasking => ?_⟩
        obtain ⟨conn, hconn, rfl⟩ := Option.map_eq_some_iff.mp hafter
        refine h.asking conn event channel hconn ?_
        unfold posting at hasking
        split at hasking <;> exact hasking
    | connect =>
        refine ⟨h.live, fun after _ _ hafter hasking => ?_⟩
        cases Option.some.inj hafter
        contradiction
    | stop => exact ⟨h.live, fun _ _ _ hafter => by cases hafter⟩
    | restart =>
        refine ⟨fun id hsome => h.live id ?_, fun _ _ _ hafter => by cases hafter⟩
        change (s.core.store.restored.progress id).isSome = true at hsome
        rwa [progress_restored, Option.isSome_map] at hsome
    | crash => exact horderly.elim
  · exact eligible_connected h hconn hstep

end

/-- The consumer asks about the channel of the event, or did and was told that the
account is not in it. -/
def Connection.asked (conn : Connection) (event : Json) : Prop :=
  (∃ channel, conn.consumer = .asking event channel) ∨
    ∃ response, .unjoined event response ∈ conn.link.done

structure Stays (id : Str) (s : State) : Prop where
  tracked : ∀ m ∈ s.posted, m.concerns id = true → (s.progress id).isSome = true
  member : ∀ conn, s.connection = some conn → conn.begun = true → (s.progress id).isSome = true →
    id ∈ s.members
  unasked : ∀ conn, s.connection = some conn → ∀ event, conn.asked event → ∀ m ∈ s.posted,
    m.concerns id = true → m.carriedBy event = false

theorem concerns_iff {m : Posted} {id : Str} :
    m.concerns id = true ↔ m.channel = id ∧ m.tracked = true := by
  rw [Posted.concerns, Bool.and_eq_true, decide_eq_true_eq]

theorem carriedBy_iff {m : Posted} {event : Json} : m.carriedBy event = true ↔
    (event.get "channel".toList).asStr = some m.channel ∧
      (event.get "ts".toList).asStr = some m.ts := by
  rw [Posted.carriedBy, Bool.and_eq_true, decide_eq_true_eq, decide_eq_true_eq]

section

variable {config : Config} {s t : State} {conn : Connection} {a : Action} {id : Str}

theorem asked_put (h : Connected s conn) {event : Json} (hasked : conn.asked event) :
    event ∈ conn.link.put := by
  have htaken : event ∈ conn.live.taken := by
    unfold Live.taken
    rcases hasked with ⟨channel, hasking⟩ | ⟨response, hmem⟩
    · refine List.mem_append_right _ ?_
      rw [show conn.live.consumer = _ from hasking]
      exact List.mem_singleton.mpr rfl
    · exact List.mem_append_left _ (List.mem_map_of_mem hmem)
  have hflow := h.barrier.ordered.flow
  rw [List.append_assoc] at hflow
  rw [show conn.link.put = _ from hflow]
  exact List.mem_append_left _ htaken

theorem begun_connected {after : Connection} (hs : stepConnected config s conn a = some t)
    (ha : ¬ Begins conn a) (hafter : t.connection = some after) : after.begun = conn.begun := by
  cases hrecovers : a.recovers with
  | true =>
      have hstage : after.stage = conn.stage := congrArg Live.stage (tasked hs hrecovers hafter).live
      unfold Connection.begun
      rw [hstage]
  | false =>
      exact (kept_connected hs hrecovers (fun hdiscovers hstage => ha ⟨hdiscovers, hstage⟩) after
        hafter).begun

theorem started_cases (hs : stepConnected config s conn a = some t) (ha : Begins conn a) :
    ∃ responses order, a = .discover responses order ∧ (t = s.disconnect ∨
      ∃ ids, discoverChannels responses = .ok ids ∧ order.Perm ids ∧ t = start config s conn order) := by
  obtain ⟨hdiscovers, hstage⟩ := ha
  unfold Action.discovers at hdiscovers
  split at hdiscovers
  · exact ⟨_, _, rfl, started hstage hs⟩
  · contradiction

theorem discovered_stays {responses : List (Except ApiError Json)} {order ids : List Str}
    (h : Assumed id s (.discover responses order)) (hids : discoverChannels responses = .ok ids)
    (hperm : order.Perm ids) (hsome : (s.progress id).isSome = true) : id ∈ order := by
  simp only [Assumed, Action.assumed, hids, Bool.or_eq_true, List.contains_iff_mem] at h
  rcases h with hnone | hmem
  · rw [Option.isNone_iff_eq_none.mp hnone] at hsome
    contradiction
  · exact hperm.mem_iff.mpr hmem

theorem stays_some (ha : Assumed id s a) (hs : stepConnected config s conn a = some t)
    (hsome : (s.progress id).isSome = true) : (t.progress id).isSome = true := by
  by_cases hbegins : Begins conn a
  · obtain ⟨responses, order, rfl, rfl | ⟨ids, hids, hperm, rfl⟩⟩ := started_cases hs hbegins
    · exact hsome
    · have hmem := discovered_stays ha hids hperm hsome
      rcases @progress_started config s conn _ _ _ hids hperm id with
        ⟨-, hnot⟩ | ⟨-, hsame, -⟩ | ⟨-, hbegun⟩
      · exact absurd hmem hnot
      · rwa [hsame]
      · rw [hbegun]
        rfl
  · have hshifted := shifted_connected hs hbegins id
    generalize s.progress id = before at hshifted hsome
    generalize t.progress id = after at hshifted ⊢
    cases hshifted with
    | flagged _ _ hflagged =>
        rcases hflagged with rfl | ⟨progress, failed, rfl, rfl⟩
        · exact hsome
        · rfl
    | added => contradiction
    | finished => rfl
    | advanced => rwa [Option.isSome_map]

theorem member_connected {after : Connection} (h : Stays id s) (ha : Assumed id s a)
    (hconn : s.connection = some conn) (hs : stepConnected config s conn a = some t)
    (hafter : t.connection = some after) (hbegun : after.begun = true)
    (hsome : (t.progress id).isSome = true) : id ∈ t.members := by
  by_cases hbegins : Begins conn a
  · obtain ⟨responses, order, rfl, rfl | ⟨ids, hids, hperm, rfl⟩⟩ := started_cases hs hbegins
    · contradiction
    · rw [(@posted_start config s conn order).2.1]
      rcases @progress_started config s conn _ _ _ hids hperm id with
        ⟨hnone, -⟩ | ⟨hmem, -⟩ | ⟨hmem, -⟩
      · rw [hnone] at hsome
        contradiction
      · exact hmem
      · exact hmem
  · rw [begun_connected hs hbegins hafter] at hbegun
    have hold : (s.progress id).isSome = true → id ∈ t.members := by
      intro hbefore
      have hmem := h.member conn hconn hbegun hbefore
      cases hdiscovers : a.discovers with
      | false => exact (beside_connected hs hdiscovers).members hmem
      | true =>
          unfold Action.discovers at hdiscovers
          split at hdiscovers
          · have hstage : conn.stage ≠ .discovering := fun hstage => hbegins ⟨rfl, hstage⟩
            obtain ⟨-, ⟨hmembers, -⟩ | ⟨ids, hids, hperm, hmembers⟩⟩ := rediscovered hstage hs
            · rwa [hmembers]
            · rw [hmembers]
              exact discovered_stays ha hids hperm hbefore
          · contradiction
    have hshifted := shifted_connected hs hbegins id
    generalize s.progress id = before at hshifted hold
    generalize t.progress id = found at hshifted hsome
    cases hshifted with
    | flagged _ _ hflagged =>
        rcases hflagged with rfl | ⟨progress, failed, rfl, rfl⟩
        · exact hold hsome
        · exact hold rfl
    | added hmember => exact hmember
    | finished => exact hold rfl
    | advanced =>
        rw [Option.isSome_map] at hsome
        exact hold hsome

theorem unasked_connected {after : Connection} (h : Stays id s) (hconn : s.connection = some conn)
    (hs : stepConnected config s conn a = some t) (hafter : t.connection = some after) {event : Json}
    (hasked : after.asked event) {m : Posted} (hmem : m ∈ s.posted) (hid : m.concerns id = true) :
    m.carriedBy event = false := by
  have hcarries : Carries s conn after := carries_connected hs hafter
  rcases hasked with ⟨channel, hasking⟩ | ⟨response, hdone⟩
  · rcases hcarries.asking event channel hasking with hbefore | hasks
    · exact h.unasked conn hconn event (.inl ⟨channel, hbefore⟩) m hmem hid
    · refine Bool.eq_false_iff.mpr fun hcarried => ?_
      have hlive := (liveChannel_iff.mp hasks.live).1
      rw [(carriedBy_iff.mp hcarried).1, (concerns_iff.mp hid).1] at hlive
      cases Option.some.inj hlive
      have hbegun : conn.begun = true := by simp [Connection.begun, hasks.running]
      exact hasks.foreign (h.member conn hconn hbegun (h.tracked m hmem hid))
  · rcases hcarries.unjoined event response hdone with hbefore | hbefore
    · exact h.unasked conn hconn event (.inr ⟨response, hbefore⟩) m hmem hid
    · exact h.unasked conn hconn event (.inl hbefore) m hmem hid

theorem stays_step (h : Stays id s) (hheartbeat : HeartbeatInv s) (ha : Assumed id s a)
    (hs : step config s a = some t) : Stays id t := by
  rcases step_cases hs with haround | ⟨conn, hconn, hstep⟩
  · cases haround with
    | advance | worker | saveAfter => exact ⟨h.tracked, h.member, h.unasked⟩
    | post event channel ts =>
        refine ⟨fun m hmem hid => ?_, fun after hafter hbegun hsome => ?_,
          fun after hafter found hasked m hmem hid => ?_⟩
        · rcases List.mem_append.mp hmem with hmem | hmem
          · exact h.tracked m hmem hid
          · cases List.mem_singleton.mp hmem
            obtain ⟨rfl, htracked⟩ := concerns_iff.mp hid
            rw [State.progress, Snapshot.progress, Option.isSome_map]
            exact htracked
        · obtain ⟨conn, hconn, rfl⟩ := Option.map_eq_some_iff.mp hafter
          refine h.member conn hconn ?_ hsome
          unfold posting at hbegun
          split at hbegun <;> exact hbegun
        · obtain ⟨conn, hconn, rfl⟩ := Option.map_eq_some_iff.mp hafter
          have hbefore : conn.asked found := by
            unfold posting at hasked
            split at hasked <;> exact hasked
          rcases List.mem_append.mp hmem with hmem | hmem
          · exact h.unasked conn hconn found hbefore m hmem hid
          · cases List.mem_singleton.mp hmem
            simp only [Assumed, Action.assumed, hconn, Option.all_some, Bool.not_eq_true',
              List.any_eq_false] at ha
            exact Bool.eq_false_iff.mpr (ha found (asked_put (hheartbeat.connected conn hconn) hbefore))
    | connect =>
        refine ⟨h.tracked, fun after hafter hbegun => ?_, fun after hafter event hasked => ?_⟩
        · cases Option.some.inj hafter
          contradiction
        · cases Option.some.inj hafter
          rcases hasked with ⟨_, hasking⟩ | ⟨_, hdone⟩
          · contradiction
          · exact absurd hdone List.not_mem_nil
    | stop =>
        refine ⟨h.tracked, fun after hafter => ?_, fun after hafter => ?_⟩
        · cases hafter
        · cases hafter
    | restart =>
        refine ⟨fun m hmem hid => ?_, fun after hafter => ?_, fun after hafter => ?_⟩
        · change (s.core.store.restored.progress id).isSome = true
          rw [progress_restored, Option.isSome_map]
          exact h.tracked m hmem hid
        · cases hafter
        · cases hafter
    | crash => contradiction
  · have hposted := (posted_connected hstep).1
    refine ⟨fun m hmem hid => ?_, fun after hafter hbegun hsome => ?_,
      fun after hafter event hasked m hmem hid => ?_⟩
    · exact stays_some ha hstep (h.tracked m (hposted ▸ hmem) hid)
    · exact member_connected h ha hconn hstep hafter hbegun hsome
    · exact unasked_connected h hconn hstep hafter hasked (hposted ▸ hmem) hid

end

structure Traced (s : State) (conn : Connection) (record : Record) : Prop where
  known : record.known ≤ s.posted.length
  handled : ∀ event ∈ record.handled, event ∈ s.core.returned
  listed : ∀ request ∈ record.done, request.thread = none →
    inPages (s.posted.take record.known) record.channel record.oldest conn.began request.pages = true

structure Tracing (s : State) (conn : Connection) : Prop where
  idle : conn.begun = false → conn.passes = []
  traced : ∀ paging ∈ conn.passes, Traced s conn paging.record

section

variable {config : Config} {s t : State} {conn after : Connection} {a : Action} {id : Str}

theorem Traced.mono {record : Record} (h : Traced s conn record) (hposted : s.posted <+: t.posted)
    (hreturned : s.core.returned ⊆ t.core.returned) (hbegan : after.began = conn.began) :
    Traced t after record := by
  obtain ⟨more, hmore⟩ := hposted
  refine ⟨h.known.trans ?_, fun event hmem => hreturned (h.handled event hmem),
    fun request hmem hthread => ?_⟩
  · rw [← hmore, List.length_append]
    exact Nat.le_add_right _ _
  · rw [← hmore, List.take_append_of_le_length h.known, hbegan]
    exact h.listed request hmem hthread

theorem traced_request {record : Record} {request : Request} (h : Traced s conn record)
    (hrequest : request.thread = none → inPages (s.posted.take record.known) record.channel
      record.oldest conn.began request.pages = true) :
    Traced s conn { record with done := record.done ++ [request] } := by
  refine ⟨h.known, h.handled, fun other hmem hthread => ?_⟩
  rcases List.mem_append.mp hmem with hmem | hmem
  · exact h.listed other hmem hthread
  · cases List.mem_singleton.mp hmem
    exact hrequest hthread

theorem tracing_connected (h : Tracing s conn) (hresumed : Resumed config s conn)
    (hconn : s.connection = some conn) (ha : Assumed id s a)
    (hs : stepConnected config s conn a = some t) (hafter : t.connection = some after) :
    Tracing t after := by
  have hbegan := began_connected hs hafter
  have hposted : s.posted <+: t.posted := (posted_connected hs).1 ▸ List.prefix_refl _
  have hreturned : s.core.returned ⊆ t.core.returned := (core_connected hs).keeps.2
  have hold : ∀ paging ∈ conn.passes, Traced t after paging.record := fun paging hmem =>
    (h.traced paging hmem).mono hposted hreturned hbegan
  refine ⟨fun hbegun => List.eq_nil_iff_forall_not_mem.mpr fun paging hmem => ?_,
    fun paging hmem => ?_⟩
  · have hbefore : conn.begun = false := by
      by_cases hbegins : Begins conn a
      · simp [Connection.begun, hbegins.2]
      · exact (begun_connected hs hbegins hafter).symm.trans hbegun
    have hnone := h.idle hbefore
    have hticking := hresumed.idle hbefore
    have hstep := passes_connected hs after hafter paging hmem
    generalize paging.record = record at hstep
    cases hstep with
    | kept origin horigin | handled origin horigin | thread origin horigin
    | history origin horigin =>
        rw [hnone] at horigin
        contradiction
    | chosen channels hrecovery =>
        rw [hticking] at hrecovery
        contradiction
  · have hstep := passes_connected hs after hafter paging hmem
    generalize paging.record = record at hstep
    cases hstep with
    | kept origin horigin => exact hold origin horigin
    | handled origin horigin event hevent =>
        obtain ⟨hknown, hhandled, hlisted⟩ := hold origin horigin
        refine ⟨hknown, fun other hmem => ?_, hlisted⟩
        rcases List.mem_append.mp hmem with hmem | hmem
        · exact hhandled other hmem
        · exact List.mem_singleton.mp hmem ▸ hevent
    | thread origin horigin request hthread =>
        exact traced_request (hold origin horigin) fun hnone => absurd hnone hthread
    | history origin horigin response hscan hrecovery hthread hlast =>
        refine traced_request (hold origin horigin) fun _ => ?_
        subst hscan
        simp only [Assumed, Action.assumed, hconn, Option.all_some, listsHistory, hrecovery, hthread,
          hlast] at ha
        rw [hbegan, (posted_connected hs).1]
        exact ha
    | chosen channels hrecovery channel oldest =>
        refine ⟨(posted_connected hs).1 ▸ Nat.le_refl _, fun _ hmem => absurd hmem List.not_mem_nil,
          fun _ hmem => absurd hmem List.not_mem_nil⟩

theorem tracing_step (h : ∀ conn, s.connection = some conn → Tracing s conn)
    (hresuming : Resuming config s) (ha : Assumed id s a) (hs : step config s a = some t) :
    ∀ conn, t.connection = some conn → Tracing t conn := by
  intro after hafter
  rcases step_cases hs with haround | ⟨conn, hconn, hstep⟩
  · cases haround with
    | advance | worker | saveAfter => exact ⟨(h after hafter).idle, fun paging hmem =>
        ((h after hafter).traced paging hmem).mono (List.prefix_refl _) (List.Subset.refl _) rfl⟩
    | post event channel ts =>
        obtain ⟨conn, hconn, rfl⟩ := Option.map_eq_some_iff.mp hafter
        have hbefore := h conn hconn
        unfold posting
        split <;> exact ⟨hbefore.idle, fun paging hmem => (hbefore.traced paging hmem).mono
          (List.prefix_append _ _) (List.Subset.refl _) rfl⟩
    | connect =>
        cases Option.some.inj hafter
        exact ⟨fun _ => rfl, fun _ hmem => absurd hmem List.not_mem_nil⟩
    | stop | restart | crash => contradiction
  · exact tracing_connected (h conn hconn) (hresuming conn hconn) hconn ha hstep hafter

theorem returned_passed {paging : Paging} {m : Posted} (hpassed : Passed conn.began paging)
    (htraced : Traced s conn paging.record) (hknown : m ∈ s.posted.take paging.known)
    (hchannel : paging.channel = m.channel) (holdest : paging.oldest ≤ m.second)
    (hbegan : m.second ≤ conn.began) (hts : Harvest.messageTimestamp m.ts = some m.second) :
    Returned s m := by
  obtain ⟨request, rest, hdone, hthread, -⟩ := List.map_eq_cons_iff.mp hpassed.requests
  have hrequest : request ∈ paging.done := hdone ▸ List.mem_cons_self
  rcases hpassed.ended request hrequest with ⟨-, hcompleted⟩ | ⟨hne, -⟩
  · have hlisted := htraced.listed request hrequest hthread
    unfold inPages at hlisted
    have hm := List.all_eq_true.mp hlisted m hknown
    have hwanted : (m.channel = paging.channel && paging.oldest ≤ m.second &&
        m.second ≤ conn.began) = true := by simp [hchannel, holdest, hbegan]
    rw [show (m.channel = paging.record.channel && paging.record.oldest ≤ m.second &&
        m.second ≤ conn.began) = true from hwanted, Bool.not_true, Bool.false_or] at hm
    obtain ⟨page, hpage, hmessage⟩ := List.any_eq_true.mp hm
    obtain ⟨message, hmem, hmessageTs⟩ := List.any_eq_true.mp hmessage
    have hmessageTs := of_decide_eq_true hmessageTs
    obtain ⟨event, hevent, hhandled⟩ := hcompleted.scanned page hpage message hmem
    rw [hthread] at hevent
    have heventTs : (event.get "ts".toList).asStr = some m.ts := by
      rw [get_completeEvent hevent (by decide) (by decide), hmessageTs]
    have hcarried : m.carriedBy event = true := by
      refine carriedBy_iff.mpr ⟨?_, heventTs⟩
      rw [channel_completeEvent hevent]
      exact congrArg some hchannel
    refine ⟨event, htraced.handled event (hhandled ?_), hcarried⟩
    change inRange paging.oldest conn.began event = true
    rw [inRange, eventSecond, heventTs, Option.bind_some, hts]
    simp [holdest, hbegan]
  · exact absurd hthread hne

end

end SjmbSlack.UserSession.Session
