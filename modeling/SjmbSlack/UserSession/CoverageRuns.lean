import SjmbSlack.UserSession.CoverageFacts

/-! No message is skipped by the checkpoint of its channel: until `process` has
returned `Ok` for it, it is in reach of the next recovery, or still to come. -/
namespace SjmbSlack.UserSession.Session
open Machine Api Slackbot

/-- The message is for the socket of the connection: posted after the connection began,
or put there. -/
def Connection.delivers (conn : Connection) (m : Posted) : Bool :=
  conn.began < m.second || conn.link.put.any m.carriedBy

/-- The checkpoint goes past the message by more than the overlap, though the message was
not on the socket when the server received the ping. -/
def passedOver (conn : Connection) (through : Int) (ping : Nat) (m : Posted) : Bool :=
  conn.delivers m && m.second < through - OVERLAP && conn.link.receipts.any fun receipt =>
    receipt.1 = ping && !(conn.link.put.take receipt.2).any m.carriedBy

/-- The window cuts off the message within the overlap, with the checkpoint itself inside. -/
def cutOff (config : Config) (s : State) (conn : Connection) (progress : Progress) (m : Posted) :
    Bool :=
  progress.coveredUntil - OVERLAP ≤ m.second && m.second < conn.began - config.window &&
    conn.began - config.window ≤ progress.coveredUntil && !s.core.returned.any m.carriedBy

/-- The step does not pass over a message of the channel with a heartbeat, or cut one off. -/
def Action.covers (config : Config) (id : Str) (s : State) (a : Action) : Bool :=
  match s.connection, s.progress id with
  | some conn, some progress =>
      match a with
      | .consume =>
          match conn.link.queue.recv with
          | some (.checkpoint through ping, _) => progress.recovering || progress.failed ||
              !s.posted.any fun m => m.concerns id && passedOver conn through ping m
          | _ => true
      | .discover _ _ => conn.stage ≠ .discovering ||
          !s.posted.any fun m => m.concerns id && cutOff config s conn progress m
      | _ => true
  | _, _ => true

/-- The steps of a run in which nothing is lost between the recovery and the socket. -/
abbrev Covers (config : Config) (id : Str) (s : State) (a : Action) : Prop :=
  a.assumed id s = true ∧ a.covers config id s = true

def Unclipped (s : State) (m : Posted) : Prop :=
  ∀ clip ∈ s.clips, clip.1 = m.channel → clip.2 ≤ m.second

structure Recoverable (config : Config) (posted : List Posted) (conn : Connection)
    (progress : Progress) (m : Posted) : Prop where
  past : m.second ≤ conn.began
  waits : conn.begun = true → progress.recovering = true ∧ conn.began - config.window ≤ m.second
  known : ∀ paging ∈ conn.passes, paging.channel = m.channel → m ∈ posted.take paging.known

def Coming (conn : Connection) (m : Posted) : Prop :=
  conn.began ≤ m.second ∧ conn.delivers m = true

def Due (config : Config) (posted : List Posted) (conn : Connection) (progress : Progress)
    (m : Posted) : Prop :=
  Recoverable config posted conn progress m ∨ Coming conn m

/-- The overlap of the checkpoint reaches the message, and it is due on any connection. -/
def Accounted (config : Config) (s : State) (m : Posted) : Prop :=
  ∃ progress, s.progress m.channel = some progress ∧ progress.coveredUntil ≤ m.second + OVERLAP ∧
    ∀ conn, s.connection = some conn → Due config s.posted conn progress m

structure Sound (config : Config) (id : Str) (s : State) : Prop where
  timely : Timely s
  began : ∀ conn, s.connection = some conn → conn.began ≤ s.now
  eligible : Eligible s
  stays : Stays id s
  heartbeat : HeartbeatInv s
  resuming : Resuming config s
  tracing : ∀ conn, s.connection = some conn → Tracing s conn

section

variable {config : Config} {s t : State} {conn after : Connection} {a : Action} {id : Str}
  {m : Posted} {progress : Progress}

theorem Coming.carried (h : Coming conn m) (hbegan : after.began = conn.began)
    (hput : conn.link.put <+: after.link.put) : Coming after m := by
  obtain ⟨hle, hdelivers⟩ := h
  refine ⟨hbegan ▸ hle, ?_⟩
  unfold Connection.delivers at hdelivers ⊢
  rw [hbegan]
  rcases Bool.or_eq_true_iff.mp hdelivers with hlater | hany
  · rw [hlater, Bool.true_or]
  · obtain ⟨event, hmem, hcarried⟩ := List.any_eq_true.mp hany
    rw [List.any_eq_true.mpr ⟨event, hput.subset hmem, hcarried⟩, Bool.or_true]

theorem due_connected {changed : Progress} (h : Due config s.posted conn progress m)
    (hmem : m ∈ s.posted) (hs : stepConnected config s conn a = some t) (ha : ¬ Begins conn a)
    (hafter : t.connection = some after)
    (hrecovering : progress.recovering = true → changed.recovering = true) :
    Due config t.posted after changed m := by
  have hbegan := began_connected hs hafter
  rcases h with hrecoverable | hcoming
  · refine .inl ⟨hbegan ▸ hrecoverable.past, fun hbegun => ?_, fun paging hpaging hchannel => ?_⟩
    · obtain ⟨hwaits, hwindow⟩ := hrecoverable.waits (begun_connected hs ha hafter ▸ hbegun)
      exact ⟨hrecovering hwaits, hbegan ▸ hwindow⟩
    · rw [(posted_connected hs).1]
      have hstep := passes_connected hs after hafter paging hpaging
      change paging.record.channel = _ at hchannel
      change m ∈ s.posted.take paging.record.known
      generalize paging.record = record at hstep hchannel
      cases hstep with
      | kept origin horigin | handled origin horigin | thread origin horigin
      | history origin horigin => exact hrecoverable.known origin horigin hchannel
      | chosen => exact List.take_length.symm ▸ hmem
  · exact .inr (hcoming.carried hbegan (carries_connected hs hafter).put)

theorem returned_of_dealt (h : Sound config id s) (hconn : s.connection = some conn)
    (hmem : m ∈ s.posted) (hid : m.concerns id = true) {dealt : Dealt} (hdealt : dealt ∈ conn.link.done)
    (hcarried : m.carriedBy dealt.event = true) : Returned s m := by
  have hsound := (h.heartbeat.connected conn hconn).sound dealt hdealt
  cases dealt with
  | processed event => exact ⟨event, hsound, hcarried⟩
  | foreign event =>
      have hchannel := (carriedBy_iff.mp hcarried).1
      rw [(concerns_iff.mp hid).1] at hchannel
      have hlive := liveChannel_iff.mpr ⟨hchannel, h.eligible.live id (h.stays.tracked m hmem hid)⟩
      rw [show liveChannel (Dealt.foreign event).event = none from hsound] at hlive
      contradiction
  | unjoined event response =>
      have hunasked := h.stays.unasked conn hconn event (.inr ⟨response, hdealt⟩) m hmem hid
      rw [show m.carriedBy event = true from hcarried] at hunasked
      contradiction

theorem reached_or_returned (h : Sound config id s) (hconn : s.connection = some conn)
    (hmem : m ∈ s.posted) (hid : m.concerns id = true) (hcoming : Coming conn m) {through : Int}
    {ping : Nat} {queue : Mpsc Event} (hconsumer : conn.consumer = .receiving)
    (hrecv : conn.link.queue.recv = some (.checkpoint through ping, queue))
    (hcovers : passedOver conn through ping m = false) :
    through ≤ m.second + OVERLAP ∨ Returned s m := by
  by_cases hreach : through ≤ m.second + OVERLAP
  · exact .inl hreach
  · right
    obtain ⟨⟨count, hcount⟩, hdealt⟩ := (h.heartbeat.connected conn hconn).dealt
      (Mpsc.recv_some hrecv).1 hconsumer
    have hbelow : decide (m.second < through - OVERLAP) = true := decide_eq_true (by omega)
    simp only [passedOver, hcoming.2, hbelow, Bool.true_and, List.any_eq_false] at hcovers
    have hany := hcovers (ping, count) hcount
    simp only [decide_true, Bool.true_and, Bool.not_eq_true', Bool.not_eq_false] at hany
    obtain ⟨event, hput, hcarried⟩ := List.any_eq_true.mp hany
    rw [← (hdealt count hcount).2] at hput
    obtain ⟨dealt, hdone, rfl⟩ := List.mem_map.mp (List.mem_of_mem_take hput)
    exact returned_of_dealt h hconn hmem hid hdone hcarried

end

section

variable {config : Config} {s t : State} {conn after : Connection} {a : Action} {id : Str}
  {m : Posted} {progress : Progress}

theorem le_overlap (second : Int) : second ≤ second + OVERLAP :=
  Int.le_add_of_nonneg_right (by decide)

theorem returned_finished {paging : Paging} (h : Sound config id s) (hconn : s.connection = some conn)
    (hmem : m ∈ s.posted) (hprogress : s.progress m.channel = some progress)
    (hcovered : progress.coveredUntil ≤ m.second + OVERLAP)
    (hrecoverable : Recoverable config s.posted conn progress m) (hpassing : Passing t)
    (htracing : ∀ conn, t.connection = some conn → Tracing t conn)
    (hs : stepConnected config s conn a = some t) (hchannel : paging.channel = m.channel)
    (hafter : t.connection = some { conn with
      recovery := .saving paging.rest
      finished := paging :: conn.finished }) : Returned t m := by
  have hresumed := h.resuming conn hconn
  obtain ⟨origin, horigin, hsame⟩ := finished_pass hs hafter rfl
  have hbegun := hresumed.begun fun hticking => by
    rw [hticking] at horigin
    contradiction
  obtain ⟨coveredUntil, ⟨found, hfound, -, rfl⟩, holdest⟩ := hresumed.current origin horigin
  rw [← hsame.channel, hchannel, hprogress] at hfound
  cases Option.some.inj hfound
  obtain ⟨hnonneg, -, hts⟩ := h.timely.posted m hmem
  have hfinished : paging ∈ ({ conn with
      recovery := .saving paging.rest
      finished := paging :: conn.finished } : Connection).passes := mem_finished List.mem_cons_self
  refine returned_passed ((hpassing _ hafter).finished paging List.mem_cons_self)
    ((htracing _ hafter).traced paging hfinished) ?_ hchannel ?_ hrecoverable.past hts
  · rw [(posted_connected hs).1, hsame.known]
    exact hrecoverable.known origin (mem_current horigin) (hsame.channel ▸ hchannel)
  · have hwindow := (hrecoverable.waits hbegun).2
    rw [hsame.oldest, holdest]
    refine max_le (max_le ?_ hwindow) hnonneg
    omega

theorem mem_clipped {window began : Int} {data : Snapshot} {joined : List Str} (hmem : id ∈ joined)
    (hprogress : data.progress id = some progress) (h : progress.coveredUntil < began - window) :
    (id, began - window) ∈ clipped window began data joined := by
  refine List.mem_filterMap.mpr ⟨id, hmem, ?_⟩
  rw [hprogress]
  simp [h]

theorem accounted_begins (h : Sound config id s) (hcovers : Covers config id s a)
    (hconn : s.connection = some conn) (hbegins : Begins conn a)
    (hs : stepConnected config s conn a = some t) (hmem : m ∈ s.posted) (hid : m.concerns id = true)
    (hunclipped : Unclipped t m) (hunreturned : ¬ Returned s m) (haccounted : Accounted config s m) :
    Accounted config t m := by
  obtain ⟨progress, hprogress, hcovered, hdue⟩ := haccounted
  obtain ⟨responses, order, rfl, rfl | ⟨ids, hids, hperm, rfl⟩⟩ := started_cases hs hbegins
  · exact ⟨progress, hprogress, hcovered, fun _ hafter => (nomatch hafter)⟩
  · have hchannel := (concerns_iff.mp hid).1
    have hjoined := discovered_stays hcovers.1 hids hperm (h.stays.tracked m hmem hid)
    rw [hchannel] at hprogress
    obtain ⟨hposted, -, hclips⟩ := @posted_start config s conn order
    have hclipped : progress.coveredUntil < conn.began - config.window →
        conn.began - config.window ≤ m.second := fun hlt => by
      refine hunclipped (id, _) ?_ hchannel.symm
      rw [hclips]
      exact List.mem_append_right _ (mem_clipped hjoined hprogress hlt)
    have hinside : conn.began - config.window ≤ m.second := by
      by_cases hlt : progress.coveredUntil < conn.began - config.window
      · exact hclipped hlt
      · have hcovers := hcovers.2
        simp only [Action.covers, hconn, hprogress, hbegins.2, ne_eq, not_true_eq_false, decide_false,
          Bool.false_or, Bool.not_eq_true', List.any_eq_false, Bool.and_eq_true, not_and] at hcovers
        by_contra hout
        refine hcovers m hmem hid ?_
        simp only [cutOff, Bool.and_eq_true, decide_eq_true_eq, Bool.not_eq_true', List.any_eq_false]
        refine ⟨⟨⟨by omega, by omega⟩, by omega⟩, fun event hevent hcarried => ?_⟩
        exact hunreturned ⟨event, hevent, hcarried⟩
    rw [Accounted, hchannel]
    rcases @progress_started config s conn _ _ _ hids hperm id with
      ⟨-, hnot⟩ | ⟨-, hsame, hnone⟩ | ⟨-, hbegun⟩
    · exact absurd hjoined hnot
    · exact ⟨progress, hsame.trans hprogress, hcovered, fun _ hafter => by
        rw [hnone] at hafter
        contradiction⟩
    · refine ⟨_, hbegun, ?_, fun after hafter => ?_⟩
      · rw [hprogress]
        change ite _ _ _ ≤ _
        split
        · exact hinside.trans (le_overlap _)
        · exact hcovered
      · rw [start_connection hafter]
        refine (hdue conn hconn).imp (fun hrecoverable => ⟨hrecoverable.past, fun _ => ⟨?_, hinside⟩, ?_⟩)
          fun hcoming => hcoming
        · rw [hprogress]
          rfl
        · rw [hposted]
          exact hrecoverable.known

theorem accounted_connected (h : Sound config id s) (hpassing : Passing t)
    (htracing : ∀ conn, t.connection = some conn → Tracing t conn) (hcovers : Covers config id s a)
    (hconn : s.connection = some conn) (hbegins : ¬ Begins conn a)
    (hs : stepConnected config s conn a = some t) (hmem : m ∈ s.posted) (hid : m.concerns id = true)
    (haccounted : Accounted config s m) : Returned t m ∨ Accounted config t m := by
  obtain ⟨progress, hprogress, hcovered, hdue⟩ := haccounted
  have hdue := hdue conn hconn
  have hchannel := (concerns_iff.mp hid).1
  have hshifted := shifted_connected hs hbegins m.channel
  rw [hprogress] at hshifted
  generalize hbefore : some progress = before at hshifted
  generalize hafter : t.progress m.channel = found at hshifted
  cases hshifted with
  | flagged before found hflagged =>
      subst hbefore
      have hsame : ∃ changed, found = some changed ∧ changed.coveredUntil = progress.coveredUntil ∧
          changed.recovering = progress.recovering := by
        rcases hflagged with rfl | ⟨other, failed, hother, rfl⟩
        · exact ⟨progress, rfl, rfl, rfl⟩
        · cases Option.some.inj hother
          exact ⟨_, rfl, rfl, rfl⟩
      obtain ⟨changed, rfl, hcov, hrecovering⟩ := hsame
      exact .inr ⟨changed, hafter, hcov ▸ hcovered, fun after hconn =>
        due_connected hdue hmem hs hbegins hconn fun hin => hrecovering ▸ hin⟩
  | added => contradiction
  | finished progress failed paging hpaging hlast =>
      cases Option.some.inj hbefore
      rcases hdue with hrecoverable | hcoming
      · exact .inl (returned_finished h hconn hmem hprogress hcovered hrecoverable hpassing htracing
          hs hpaging hlast)
      · refine .inr ⟨_, hafter, ?_, fun after hsome => .inr ?_⟩
        · exact Progress.finished_le hcovered (hcoming.1.trans (le_overlap _))
        · exact hcoming.carried (began_connected hs hsome) (carries_connected hs hsome).put
  | advanced before through ping queue ha hstage hconsumer hrecv hhistory =>
      subst hbefore
      have hbegun : conn.begun = true := by simp [Connection.begun, hstage]
      have hkept : ∀ changed : Progress, changed.recovering = progress.recovering →
          changed.coveredUntil ≤ m.second + OVERLAP → t.progress m.channel = some changed →
          Accounted config t m := fun changed hrecovering hcov hfound =>
        ⟨changed, hfound, hcov, fun after hsome =>
          due_connected hdue hmem hs hbegins hsome fun hin => hrecovering ▸ hin⟩
      have hrecovering : (progress.advanced through).recovering = progress.recovering := by
        unfold Progress.advanced
        split <;> rfl
      by_cases hstill : progress.recovering = true ∨ progress.failed = true
      · refine .inr (hkept (progress.advanced through) hrecovering ?_ hafter)
        unfold Progress.advanced
        rw [if_neg (by simpa using fun hnot => hstill.resolve_left (by simpa using hnot))]
        exact hcovered
      · rw [not_or, Bool.not_eq_true, Bool.not_eq_true] at hstill
        have hcoming : Coming conn m := hdue.resolve_left fun hrecoverable => by
          rw [(hrecoverable.waits hbegun).1] at hstill
          exact absurd hstill.1 (by decide)
        have hnot : passedOver conn through ping m = false := by
          have hcovers := hcovers.2
          subst ha
          simp only [Action.covers, hconn, hchannel ▸ hprogress, hrecv, hstill.1, hstill.2, Bool.false_or,
            Bool.not_eq_true', List.any_eq_false, Bool.and_eq_true, not_and] at hcovers
          exact Bool.eq_false_iff.mpr (hcovers m hmem hid)
        rcases reached_or_returned h hconn hmem hid hcoming hconsumer hrecv hnot with hreach | hreturned
        · exact .inr (hkept _ hrecovering (Progress.advanced_le hcovered hreach) hafter)
        · obtain ⟨event, hevent, hcarried⟩ := hreturned
          exact .inl ⟨event, (core_connected hs).keeps.2 hevent, hcarried⟩

end

section

variable {config : Config} {s t : State} {a : Action} {id : Str} {m : Posted}

theorem accounted_post {event : Json} {channel ts : Str} (h : Sound config id s)
    (hs : step config s (.post event channel ts) = some t) (hmessage : isMessage event = true)
    (hchannel : (event.get "channel".toList).asStr = some channel)
    (hts : (event.get "ts".toList).asStr = some ts)
    (ht : t = { s with
      posted := s.posted ++ [⟨channel, ts, s.now, s.core.store.channels.contains channel⟩]
      connection := s.connection.map (posting event) })
    (hm : m = ⟨channel, ts, s.now, s.core.store.channels.contains channel⟩)
    (hid : m.concerns id = true) : Accounted config t m := by
  subst ht
  obtain ⟨hchannelId, htracked⟩ := concerns_iff.mp hid
  have hcarried : m.carriedBy event = true := carriedBy_iff.mpr (hm ▸ ⟨hchannel, hts⟩)
  have hsecond : m.second = s.now := hm ▸ rfl
  have hsome : (s.progress m.channel).isSome = true := by
    rw [State.progress, Snapshot.progress, Option.isSome_map]
    subst hm
    exact htracked
  obtain ⟨progress, hprogress⟩ := Option.isSome_iff_exists.mp hsome
  refine ⟨progress, hprogress, ?_, fun after hafter => ?_⟩
  · exact (hsecond ▸ h.timely.covered m.channel progress hprogress).trans (le_overlap _)
  · obtain ⟨conn, hconn, rfl⟩ := Option.map_eq_some_iff.mp hafter
    have hbegan : conn.began ≤ m.second := hsecond ▸ h.began conn hconn
    unfold posting
    split
    · rename_i hgreeted
      refine .inr ⟨hbegan, ?_⟩
      unfold Connection.delivers
      rw [List.any_eq_true.mpr ⟨event, ?_, hcarried⟩, Bool.or_true]
      change event ∈ if conn.link.greeted then
        conn.link.put ++ (Frame.message (.text (some event))).toList else conn.link.put
      rw [if_pos hgreeted, Frame.message, if_pos hmessage]
      exact List.mem_append_right _ (List.mem_singleton.mpr rfl)
    · rename_i hgreeted
      rcases hbegan.lt_or_eq with hlater | heq
      · refine .inr ⟨hbegan, ?_⟩
        unfold Connection.delivers
        rw [decide_eq_true hlater, Bool.true_or]
      · have hearly : conn.begun = false := by
          have hfirst := (h.heartbeat.connected conn hconn).barrier.ordered.greeted
          cases hbegun : conn.begun with
          | false => rfl
          | true =>
              refine absurd ?_ hgreeted
              have hlate : conn.live.early = false := by
                unfold Connection.begun at hbegun
                cases hstage : conn.stage <;> simp [hstage, Live.early, Connection.live] at hbegun ⊢
              rw [hlate] at hfirst
              exact hfirst
        refine .inl ⟨heq.ge, fun hbegun => ?_, fun paging hpaging => ?_⟩
        · rw [hearly] at hbegun
          contradiction
        · rw [(h.tracing conn hconn).idle hearly] at hpaging
          contradiction

theorem accounted_step (h : Sound config id s) (hpassing : Passing t)
    (htracing : ∀ conn, t.connection = some conn → Tracing t conn) (hcovers : Covers config id s a)
    (hall : ∀ m ∈ s.posted, m.concerns id = true → Unclipped s m → Returned s m ∨ Accounted config s m)
    (hs : step config s a = some t) :
    ∀ m ∈ t.posted, m.concerns id = true → Unclipped t m → Returned t m ∨ Accounted config t m := by
  intro m hmem hid hunclipped
  have hreturned : Returned s m → Returned t m := fun ⟨event, hevent, hcarried⟩ =>
    ⟨event, (step_keeps hs).2 hevent, hcarried⟩
  rcases step_cases hs with haround | ⟨conn, hconn, hstep⟩
  · cases haround with
    | advance | worker | saveAfter => exact (hall m hmem hid hunclipped).imp_left hreturned
    | post event channel ts hmessage hchannel hts =>
        rcases List.mem_append.mp hmem with hmem | hmem
        · refine (hall m hmem hid hunclipped).imp hreturned ?_
          rintro ⟨progress, hprogress, hcovered, hdue⟩
          refine ⟨progress, hprogress, hcovered, fun after hafter => ?_⟩
          obtain ⟨conn, hconn, rfl⟩ := Option.map_eq_some_iff.mp hafter
          have hput : conn.link.put <+: (posting event conn).link.put := by
            unfold posting
            split
            · exact (extends_place _).put
            · exact List.prefix_refl _
          have hsame : (posting event conn).passes = conn.passes ∧
              (posting event conn).began = conn.began ∧ (posting event conn).begun = conn.begun := by
            unfold posting
            split <;> exact ⟨rfl, rfl, rfl⟩
          refine (hdue conn hconn).imp (fun hrecoverable => ?_) fun hcoming =>
            hcoming.carried hsame.2.1 hput
          refine ⟨hsame.2.1 ▸ hrecoverable.past, fun hbegun => ?_, fun paging hpaging hpassed => ?_⟩
          · rw [hsame.2.1]
            exact hrecoverable.waits (hsame.2.2 ▸ hbegun)
          · have hbefore := hrecoverable.known paging (hsame.1 ▸ hpaging) hpassed
            change m ∈ (s.posted ++ _).take paging.known
            rw [List.take_append]
            exact List.mem_append_left _ hbefore
        · exact .inr (accounted_post h hs hmessage hchannel hts rfl (List.mem_singleton.mp hmem) hid)
    | connect =>
        refine (hall m hmem hid hunclipped).imp hreturned ?_
        rintro ⟨progress, hprogress, hcovered, -⟩
        refine ⟨progress, hprogress, hcovered, fun after hafter => ?_⟩
        cases Option.some.inj hafter
        exact .inl ⟨(h.timely.posted m hmem).2.1, fun hbegun => (nomatch hbegun),
          fun _ hpaging => absurd hpaging List.not_mem_nil⟩
    | stop =>
        refine (hall m hmem hid hunclipped).imp hreturned ?_
        rintro ⟨progress, hprogress, hcovered, -⟩
        exact ⟨progress, hprogress, hcovered, fun _ hafter => (nomatch hafter)⟩
    | restart =>
        refine (hall m hmem hid hunclipped).imp hreturned ?_
        rintro ⟨progress, hprogress, hcovered, -⟩
        have hrestored : (boot s s.core.store.restored (some s.core.store)).progress m.channel =
            some { progress with recovering := false, failed := false } := by
          change s.core.store.restored.progress m.channel = _
          rw [progress_restored, show s.core.store.progress m.channel = _ from hprogress]
          rfl
        exact ⟨_, hrestored, hcovered, fun _ hafter => (nomatch hafter)⟩
    | crash => exact absurd hcovers.1 Bool.false_ne_true
  · obtain ⟨hposted, hclips⟩ := posted_connected hstep
    rw [hposted] at hmem
    by_cases hbefore : Returned s m
    · exact .inl (hreturned hbefore)
    · have haccounted := (hall m hmem hid fun clip hclip => hunclipped clip (hclips hclip)).resolve_left
        hbefore
      by_cases hbegins : Begins conn a
      · exact .inr (accounted_begins h hcovers hconn hbegins hstep hmem hid hunclipped hbefore haccounted)
      · exact accounted_connected h hpassing htracing hcovers hconn hbegins hstep hmem hid haccounted

theorem sound_reachable (hwindow : 0 ≤ config.window)
    (h : ReachableBy (machine config) (Assumed id) s) : Sound config id s := by
  have hheartbeat : ∀ {s}, ReachableBy (machine config) (Assumed id) s → HeartbeatInv s := fun h =>
    heartbeatInv_reachable (h.mono fun _ _ => answersPings_of_assumed)
  have hbegan : ∀ {s}, ReachableBy (machine config) (Assumed id) s → ∀ conn, s.connection = some conn →
      conn.began ≤ s.now := fun h =>
    (memoryInv_reachable hwindow (h.mono fun _ _ => orderly_of_assumed)).began
  refine ⟨?_, hbegan h, ?_, ?_, hheartbeat h, resuming_reachable h, ?_⟩
  · refine h.invariant (P := Timely) ?_ fun s a t hr hinv ha hs =>
      timely_step hwindow hinv (orderly_of_assumed ha) (hbegan hr) (hheartbeat hr) hs
    rintro s ⟨team, user, clock, rfl⟩
    exact ⟨fun _ hmem => absurd hmem List.not_mem_nil, fun _ _ hprogress => (nomatch hprogress)⟩
  · refine h.invariant (P := Eligible) ?_ fun s a t hr hinv ha hs =>
      eligible_step hinv (orderly_of_assumed ha) hs
    rintro s ⟨team, user, clock, rfl⟩
    exact ⟨fun _ hsome => (nomatch hsome), fun _ _ _ hconn => (nomatch hconn)⟩
  · refine h.invariant (P := Stays id) ?_ fun s a t hr hinv ha hs =>
      stays_step hinv (hheartbeat hr) ha hs
    rintro s ⟨team, user, clock, rfl⟩
    exact ⟨fun _ hmem => absurd hmem List.not_mem_nil, fun _ hconn => (nomatch hconn),
      fun _ hconn => (nomatch hconn)⟩
  · refine h.invariant (P := fun s => ∀ conn, s.connection = some conn → Tracing s conn) ?_
      fun s a t hr hinv ha hs => tracing_step hinv (resuming_reachable hr) ha hs
    rintro s ⟨team, user, clock, rfl⟩
    exact fun _ hconn => (nomatch hconn)

/-- In every run in which nothing is lost between the recovery and the socket, a message
posted when its channel had a checkpoint, and not clipped away, has been returned before
the checkpoint is further past it than the overlap. -/
theorem checkpoint_skips_none {progress : Progress} (hwindow : 0 ≤ config.window)
    (h : ReachableBy (machine config) (Covers config id) s) (hmem : m ∈ s.posted)
    (hid : m.channel = id) (htracked : m.tracked = true)
    (hunclipped : ∀ clip ∈ s.clips, clip.1 = id → clip.2 ≤ m.second)
    (hprogress : s.progress id = some progress)
    (hbelow : m.second < progress.coveredUntil - OVERLAP) :
    ∃ event ∈ s.core.returned, (event.get "channel".toList).asStr = some m.channel ∧
      (event.get "ts".toList).asStr = some m.ts := by
  have hall : ∀ m ∈ s.posted, m.concerns id = true → Unclipped s m →
      Returned s m ∨ Accounted config s m := by
    refine h.invariant (P := fun s => ∀ m ∈ s.posted, m.concerns id = true → Unclipped s m →
      Returned s m ∨ Accounted config s m) ?_ fun s a t hr hinv ha hs => ?_
    · rintro s ⟨team, user, clock, rfl⟩
      exact fun _ hmem => absurd hmem List.not_mem_nil
    · have hreachable := hr.mono fun _ _ hcovers => hcovers.1
      have hnext := ReachableBy.next hreachable ha.1 hs
      exact accounted_step (sound_reachable hwindow hreachable) (passing_reachable hnext)
        (sound_reachable hwindow hnext).tracing ha hinv hs
  rcases hall m hmem (concerns_iff.mpr ⟨hid, htracked⟩) (fun clip hclip hchannel =>
    hunclipped clip hclip (hchannel.trans hid)) with ⟨event, hevent, hcarried⟩ | haccounted
  · exact ⟨event, hevent, carriedBy_iff.mp hcarried⟩
  · obtain ⟨found, hfound, hcovered, -⟩ := haccounted
    rw [hid, hprogress] at hfound
    cases Option.some.inj hfound
    omega

end

def sampleTs (seconds : String) : Str := seconds.toList ++ ".000001".toList

def sampleAsk (messages : List Json) : List Action :=
  [.startPass, .choose, .page (.ok (sampleHistory messages))]

def sampleCheckpoint : List Action :=
  [.scan, .copy (some .recovery), .save (some .recovery) true, .advance (130 * SECOND)] ++
    samplePing 1 ++ [.read, .consume]

def sampleReconnect (between : List Action) : List Action :=
  sampleConnect hello ++ [.fail, .saveAfter] ++ between

/-- A message is posted while the connection waits for its hello. -/
def gapRun : List Action :=
  sampleReconnect [.connect, .opened, .advance (5 * SECOND),
    .post (sampleMessage "C1".toList (sampleTs "1000000005")) "C1".toList (sampleTs "1000000005"),
    .place (.text (some (sampleEvent "hello".toList))), .greet,
    .discover sampleChannels ["C1".toList], .copy none, .save none true] ++
  sampleAsk [] ++ sampleCheckpoint

theorem message_skipped :
    ∃ s m progress, ReachableBy (machine sampleConfig) (Assumed "C1".toList) s ∧ m ∈ s.posted ∧
      m.channel = "C1".toList ∧ m.tracked = true ∧
      (∀ clip ∈ s.clips, clip.1 = "C1".toList → clip.2 ≤ m.second) ∧
      s.progress "C1".toList = some progress ∧ m.second < progress.coveredUntil - OVERLAP ∧
      ¬ ∃ event ∈ s.core.returned, (event.get "channel".toList).asStr = some m.channel ∧
        (event.get "ts".toList).asStr = some m.ts := by
  have hrun : ∃ s, ReachableBy (machine sampleConfig) (Assumed "C1".toList) s ∧
      s.posted = [⟨"C1".toList, sampleTs "1000000005", 1000000005, true⟩] ∧ s.clips = [] ∧
      s.progress "C1".toList = some ⟨1000000135, false, false⟩ ∧ s.core.returned.length = 0 :=
    exists_reachableBy (s := initial "T1".toList "U1".toList (1000000000 * SECOND)) gapRun
      ⟨_, _, _, rfl⟩ (by decide)
  obtain ⟨s, hs, hposted, hclips, hprogress, hreturned⟩ := hrun
  refine ⟨s, _, _, hs, hposted ▸ List.mem_singleton.mpr rfl, rfl, rfl, by simp [hclips], hprogress,
    by decide, ?_⟩
  rw [List.length_eq_zero_iff.mp hreturned]
  simp

/-- A message posted while there is no connection is recovered before the same heartbeat. -/
def recoveredRun : List Action :=
  sampleReconnect [.advance (3 * SECOND),
    .post (sampleMessage "C1".toList (sampleTs "1000000003")) "C1".toList (sampleTs "1000000003"),
    .advance (2 * SECOND)] ++
  sampleConnect hello ++
  sampleAsk [sampleMessage "C1".toList (sampleTs "1000000003")] ++
  [.scan, .turn .recovery .lock, .turn .recovery .send, .worker (.work Worker.quiet),
    .worker (.work Worker.quiet), .turn .recovery .receipt] ++ sampleCheckpoint

theorem checkpoint_skips_none_recovered :
    ∃ s : State, s.posted = [⟨"C1".toList, sampleTs "1000000003", 1000000003, true⟩] ∧
      s.progress "C1".toList = some ⟨1000000135, false, false⟩ ∧
      ∃ event ∈ s.core.returned, (event.get "channel".toList).asStr = some "C1".toList ∧
        (event.get "ts".toList).asStr = some (sampleTs "1000000003") := by
  have hrun : ∃ s : State, ReachableBy (machine sampleConfig) (Covers sampleConfig "C1".toList) s ∧
      s.posted = [⟨"C1".toList, sampleTs "1000000003", 1000000003, true⟩] ∧ s.clips = [] ∧
      s.progress "C1".toList = some ⟨1000000135, false, false⟩ :=
    exists_reachableBy (s := initial "T1".toList "U1".toList (1000000000 * SECOND)) recoveredRun
      ⟨_, _, _, rfl⟩ (by decide)
  obtain ⟨s, hs, hposted, hclips, hprogress⟩ := hrun
  exact ⟨s, hposted, hprogress, checkpoint_skips_none (by decide) hs
    (hposted ▸ List.mem_singleton.mpr rfl) rfl rfl (by simp [hclips]) hprogress (by decide)⟩

end SjmbSlack.UserSession.Session
