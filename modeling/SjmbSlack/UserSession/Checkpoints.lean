import SjmbSlack.UserSession.HeartbeatRuns
import SjmbSlack.UserSession.Recovering

/-! Checkpoints move only for completed work: a channel that had a checkpoint when
its connection began it stays in recovery until a complete pass finishes it. -/
namespace SjmbSlack.UserSession.Session
open Machine Api Slackbot

def Awaits (s : State) (id : Str) (coveredUntil : Int) : Prop :=
  ∃ progress, s.progress id = some progress ∧ progress.recovering = true ∧
    progress.coveredUntil = coveredUntil

def oldestOf (config : Config) (began coveredUntil : Int) : Int :=
  max (max (coveredUntil - OVERLAP) (began - config.window)) 0

structure Resumed (config : Config) (s : State) (conn : Connection) : Prop where
  idle : conn.begun = false → conn.recovery = .ticking
  existing : conn.begun = true → ∀ id ∈ conn.existing, ∃ progress, s.progress id = some progress ∧
    (progress.recovering = false → ∃ paging ∈ conn.finished, paging.channel = id)
  waiting : ∀ entry ∈ conn.recovery.rest, Awaits s entry.1 entry.2.coveredUntil
  current : ∀ paging, conn.recovery.paging? = some paging →
    ∃ coveredUntil, Awaits s paging.channel coveredUntil ∧
      paging.oldest = oldestOf config conn.began coveredUntil
  distinct : ((conn.recovery.paging?.map Paging.channel).toList ++
    conn.recovery.rest.map Prod.fst).Nodup

def Resuming (config : Config) (s : State) : Prop :=
  ∀ conn, s.connection = some conn → Resumed config s conn

def Steady (before after : Option Progress) : Prop :=
  ∀ progress, before = some progress → ∃ changed, after = some changed ∧
    changed.recovering = progress.recovering ∧
    (progress.recovering = true → changed.coveredUntil = progress.coveredUntil)

theorem Flagged.steady {before after : Option Progress} (h : Flagged before after) :
    Steady before after := by
  intro found hfound
  rcases h with rfl | ⟨progress, failed, rfl, rfl⟩
  · exact ⟨found, hfound, rfl, fun _ => rfl⟩
  · cases Option.some.inj hfound
    exact ⟨_, rfl, rfl, fun _ => rfl⟩

theorem Awaits.steady {s t : State} {id : Str} {coveredUntil : Int} (h : Awaits s id coveredUntil)
    (hsteady : Steady (s.progress id) (t.progress id)) : Awaits t id coveredUntil := by
  obtain ⟨progress, hprogress, hrecovering, rfl⟩ := h
  obtain ⟨changed, hchanged, hsame, hcovered⟩ := hsteady progress hprogress
  exact ⟨changed, hchanged, hsame.trans hrecovering, hcovered hrecovering⟩

section

variable {config : Config} {s t : State} {conn : Connection}

theorem advanced_steady (through : Int) (before : Option Progress) :
    Steady before (before.map (Progress.advanced through)) := by
  intro progress hprogress
  refine ⟨progress.advanced through, by rw [hprogress]; rfl, ?_, fun hrecovering => ?_⟩
  · unfold Progress.advanced
    split <;> rfl
  · unfold Progress.advanced
    rw [if_neg fun h => h.1 hrecovering]

theorem Moved.steady {id : Str} {before after : Option Progress}
    (h : Moved config s conn t id before after) (hstage : conn.stage ≠ .discovering)
    (hkept : Kept conn t) : Steady before after := by
  cases h with
  | same => exact (Flagged.steady (.inl rfl))
  | flagged progress failed => exact Flagged.steady (.inr ⟨progress, failed, rfl, rfl⟩)
  | added => exact fun _ h => by cases h
  | left _ hdiscovering => exact absurd hdiscovering hstage
  | begun _ hdiscovering => exact absurd hdiscovering hstage
  | finished progress failed paging hchannel hconn =>
      exact absurd (hkept _ hconn).finished (List.cons_ne_self _ _)
  | advanced before through => exact advanced_steady through before

theorem Resumed.kept {after : Connection} (h : Resumed config s conn) (hkeeps : Keeps conn after)
    (hsteady : conn.begun = true → ∀ id, Steady (s.progress id) (t.progress id)) :
    Resumed config t after := by
  have hawaits : conn.begun = true → ∀ {id coveredUntil}, Awaits s id coveredUntil →
      Awaits t id coveredUntil := fun hbegun id _ h => h.steady (hsteady hbegun id)
  have hidle : conn.begun = true ∨ conn.recovery = .ticking := by
    cases hbegun : conn.begun with
    | true => exact .inl rfl
    | false => exact .inr (h.idle hbegun)
  refine ⟨fun hbegun => ?_, fun hbegun id hmem => ?_, fun entry hmem => ?_,
    fun paging hpaging => ?_, by rw [hkeeps.recovery]; exact h.distinct⟩
  · rw [hkeeps.recovery]
    exact h.idle (hkeeps.begun ▸ hbegun)
  · rw [hkeeps.begun] at hbegun
    obtain ⟨progress, hprogress, hfinished⟩ := h.existing hbegun id (hkeeps.existing ▸ hmem)
    obtain ⟨changed, hchanged, hsame, -⟩ := hsteady hbegun id progress hprogress
    exact ⟨changed, hchanged, fun hdone => by
      rw [hkeeps.finished]; exact hfinished (hsame ▸ hdone)⟩
  · rw [hkeeps.recovery] at hmem
    rcases hidle with hbegun | hticking
    · exact hawaits hbegun (h.waiting entry hmem)
    · rw [hticking] at hmem
      exact absurd hmem List.not_mem_nil
  · rw [hkeeps.recovery] at hpaging
    rcases hidle with hbegun | hticking
    · obtain ⟨coveredUntil, hcurrent, holdest⟩ := h.current paging hpaging
      exact ⟨coveredUntil, hawaits hbegun hcurrent, hkeeps.began ▸ holdest⟩
    · rw [hticking] at hpaging
      cases hpaging

def Existing (s : State) (conn : Connection) : Prop :=
  ∀ id ∈ conn.existing, ∃ progress, s.progress id = some progress ∧
    (progress.recovering = false → ∃ paging ∈ conn.finished, paging.channel = id)

theorem resumed_between (hbegun : conn.begun = true) (hexisting : Existing s conn)
    (hnone : conn.recovery.paging? = none)
    (hwaiting : ∀ entry ∈ conn.recovery.rest, Awaits s entry.1 entry.2.coveredUntil)
    (hdistinct : (conn.recovery.rest.map Prod.fst).Nodup) : Resumed config s conn where
  idle hnot := absurd (hbegun.symm.trans hnot) (by decide)
  existing _ := hexisting
  waiting := hwaiting
  current paging hpaging := by
    rw [hnone] at hpaging
    contradiction
  distinct := by
    rw [hnone]
    exact hdistinct

theorem rest_of_paging {recovery : Recovery} {paging : Paging}
    (h : recovery.paging? = some paging) : recovery.rest = paging.rest := by
  cases recovery with
  | requesting | scanning | processing =>
      cases Option.some.inj h
      rfl
  | ticking | choosing | saving => contradiction

theorem resuming_proceeds {middle : State} {paging : Paging} {coveredUntil : Int}
    (hbegun : conn.begun = true) (hexisting : Existing s conn)
    (hwaiting : ∀ entry ∈ paging.rest, Awaits s entry.1 entry.2.coveredUntil)
    (hcurrent : Awaits s paging.channel coveredUntil)
    (holdest : paging.oldest = oldestOf config conn.began coveredUntil)
    (hdistinct : (paging.channel :: paging.rest.map Prod.fst).Nodup)
    (hsteady : ∀ id, Steady (s.progress id) (middle.progress id))
    (h : Proceeds middle conn paging t) : Resuming config t := by
  have hexists : (∀ id, t.progress id = middle.progress id) → Existing t conn := by
    intro hprogress id hmem
    obtain ⟨progress, hfound, hfinished⟩ := hexisting id hmem
    obtain ⟨changed, hchanged, hsame, -⟩ := hsteady id progress hfound
    exact ⟨changed, (hprogress id).trans hchanged, fun hdone => hfinished (hsame ▸ hdone)⟩
  have hawaits : (∀ id, t.progress id = middle.progress id) → ∀ {id coveredUntil},
      Awaits s id coveredUntil → Awaits t id coveredUntil := fun hprogress id _ hid =>
    hid.steady ((hprogress id).symm ▸ hsteady id)
  have hrest := (List.nodup_cons.mp hdistinct).2
  intro after hafter
  cases h with
  | dropped hconn => rw [hconn] at hafter; contradiction
  | left recovery hconn hrecovery hprogress =>
      cases Option.some.inj (hconn.symm.trans hafter)
      rcases hrecovery with rfl | rfl
      · exact resumed_between hbegun (hexists hprogress) rfl
          (fun _ hmem => absurd hmem List.not_mem_nil) List.nodup_nil
      · exact resumed_between hbegun (hexists hprogress) rfl
          (fun entry hmem => hawaits hprogress (hwaiting entry hmem)) hrest
  | goes recovery next hsame hconn hrecovery hprogress =>
      cases Option.some.inj (hconn.symm.trans hafter)
      have hlist : recovery.rest = paging.rest := (rest_of_paging hrecovery).trans hsame.rest
      refine ⟨fun hnot => absurd (hbegun.symm.trans hnot) (by decide), fun _ => hexists hprogress,
        fun entry hmem => ?_, fun found hfound => ?_, ?_⟩
      · exact hawaits hprogress (hwaiting entry (hlist ▸ hmem))
      · cases Option.some.inj (hrecovery.symm.trans hfound)
        rw [hsame.channel, hsame.oldest]
        exact ⟨coveredUntil, hawaits hprogress hcurrent, holdest⟩
      · rw [show ({ conn with recovery := recovery } : Connection).recovery = recovery from rfl,
          hrecovery, hlist, Option.map_some, hsame.channel]
        exact hdistinct
  | finished next hsame hconn hprogress =>
      cases Option.some.inj (hconn.symm.trans hafter)
      refine resumed_between hbegun (fun id hmem => ?_) rfl (fun entry hmem => ?_) hrest
      · obtain ⟨progress, hfound, hfinished⟩ := hexisting id hmem
        obtain ⟨changed, hchanged, hrecovering, -⟩ := hsteady id progress hfound
        by_cases hid : id = paging.channel
        · rw [hprogress id, if_pos hid, hchanged]
          exact ⟨_, rfl, fun _ => ⟨next, List.mem_cons_self, hsame.channel.trans hid.symm⟩⟩
        · rw [hprogress id, if_neg hid]
          refine ⟨changed, hchanged, fun hdone => ?_⟩
          obtain ⟨other, hother, hchannel⟩ := hfinished (hrecovering ▸ hdone)
          exact ⟨other, List.mem_cons_of_mem _ hother, hchannel⟩
      · have hne : entry.1 ≠ paging.channel := fun heq =>
          (List.nodup_cons.mp hdistinct).1 (heq ▸ List.mem_map_of_mem hmem)
        refine (hwaiting entry hmem).steady ?_
        rw [hprogress, if_neg hne]
        exact hsteady entry.1

theorem Resumed.begun (h : Resumed config s conn) (hne : conn.recovery ≠ .ticking) :
    conn.begun = true := by
  by_contra hbegun
  exact hne (h.idle (Bool.eq_false_iff.mpr hbegun))

theorem Resumed.proceeds {middle : State} {paging : Paging} (h : Resumed config s conn)
    (hpaging : conn.recovery.paging? = some paging)
    (hsteady : ∀ id, Steady (s.progress id) (middle.progress id))
    (hproceeds : Proceeds middle conn paging t) : Resuming config t := by
  have hbegun := h.begun fun hticking => by
    rw [hticking] at hpaging
    contradiction
  have hrest := rest_of_paging hpaging
  obtain ⟨coveredUntil, hcurrent, holdest⟩ := h.current paging hpaging
  have hdistinct := h.distinct
  rw [hpaging, hrest] at hdistinct
  exact resuming_proceeds hbegun (h.existing hbegun) (hrest ▸ h.waiting) hcurrent holdest hdistinct
    hsteady hproceeds

theorem awaits_recoveryChannels {entry : Str × Channel}
    (h : entry ∈ s.core.store.recoveryChannels) : Awaits s entry.1 entry.2.coveredUntil := by
  obtain ⟨hmem, hrecovering⟩ := List.mem_filter.mp h
  refine ⟨entry.2.progress, ?_, hrecovering, rfl⟩
  rw [State.progress, Snapshot.progress, SortedMap.get_eq_some.mpr hmem, Option.map_some]

theorem resuming_startPass (h : Resumed config s conn)
    (hs : stepConnected config s conn .startPass = some t) : Resuming config t := by
  simp only [stepConnected] at hs
  split at hs
  · rename_i hstage _
    have hbegun : conn.begun = true := by simp [Connection.begun, hstage]
    split at hs
    · cases Option.some.inj hs
      intro after hafter
      cases Option.some.inj hafter
      exact resumed_between hbegun (h.existing hbegun) rfl (fun _ => awaits_recoveryChannels)
        (s.core.store.channels.nodup_keys.sublist (List.filter_sublist.map _))
    · contradiction
  · contradiction

theorem resuming_choose {channels : List (Str × Channel)} (h : Resumed config s conn)
    (hrecovery : conn.recovery = .choosing channels) : Resuming config (choose config s conn channels) := by
  have hbegun := h.begun fun hticking => by rw [hrecovery] at hticking; contradiction
  have hwaiting := h.waiting
  have hdistinct := h.distinct
  rw [hrecovery] at hwaiting hdistinct
  unfold choose
  split
  · intro after hafter
    cases Option.some.inj hafter
    exact resumed_between hbegun (h.existing hbegun) rfl
      (fun _ hmem => absurd hmem List.not_mem_nil) List.nodup_nil
  · rename_i id channel rest
    have hrest : ∀ entry ∈ rest, Awaits s entry.1 entry.2.coveredUntil := fun entry hmem =>
      hwaiting entry (List.mem_cons_of_mem _ hmem)
    split
    · intro after hafter
      cases Option.some.inj hafter
      exact resumed_between hbegun (h.existing hbegun) rfl hrest (List.nodup_cons.mp hdistinct).2
    · refine resuming_proceeds hbegun (h.existing hbegun) hrest
        (hwaiting (id, channel) List.mem_cons_self) rfl ?_ (fun other => ?_) (proceeds_request ..)
      · exact hdistinct
      change Steady _ ((s.core.store.retryChannel id).progress other)
      rw [Snapshot.progress_retryChannel]
      exact (flagged_if _ false).steady

theorem resuming_saved {ok : Bool} (h : Resumed config s conn)
    (hs : save s conn (some .recovery) ok = some t) : Resuming config t := by
  obtain ⟨hsaving, rfl | ⟨snapshot, rfl⟩⟩ := save_cases hs
  · exact fun _ hafter => by cases hafter
  · unfold saving at hsaving
    dsimp only at hsaving
    split at hsaving
    · rename_i hstage hrecovery
      have hbegun : conn.begun = true := by simp [Connection.begun, hstage]
      have hdistinct := h.distinct
      rw [hrecovery] at hdistinct
      intro after hafter
      cases Option.some.inj hafter
      refine resumed_between hbegun (h.existing hbegun) rfl h.waiting ?_
      rw [show (Recovery.choosing conn.recovery.rest).rest = conn.recovery.rest from rfl, hrecovery]
      exact hdistinct
    · contradiction

theorem resuming_start {responses : List (Except ApiError Json)} {ids joined : List Str}
    (h : Resumed config s conn) (hstage : conn.stage = .discovering)
    (hids : discoverChannels responses = .ok ids) (hperm : joined.Perm ids) :
    Resuming config (start config s conn joined) := by
  have hnodup := hperm.nodup_iff.mpr (discoverChannels_nodup hids)
  have hidle : conn.recovery = .ticking := h.idle (by simp [Connection.begun, hstage])
  intro after hafter
  unfold start at hafter
  dsimp only at hafter
  split at hafter
  · rename_i hok
    cases Option.some.inj hafter
    refine resumed_between rfl (fun id hmem => ?_) (by rw [hidle]; rfl) ?_ ?_
    · obtain ⟨hjoined, hcontains⟩ := List.mem_filter.mp hmem
      rw [progress_start]
      rcases Snapshot.progress_beginConnection hnodup rfl id with
        ⟨-, hnot⟩ | ⟨-, -, herror⟩ | ⟨-, hbegun⟩
      · exact absurd hjoined hnot
      · exact absurd hok herror
      · refine ⟨_, hbegun, fun hdone => ?_⟩
        have hsome : (s.core.store.progress id).isSome = true := by
          rw [Snapshot.progress, Option.isSome_map]
          exact hcontains
        exact absurd (hsome.symm.trans hdone) (by decide)
    · simp [hidle, Recovery.rest]
    · simp [hidle, Recovery.rest]
  · contradiction

theorem resuming_connected {a : Action} (h : Resumed config s conn)
    (hs : stepConnected config s conn a = some t) : Resuming config t := by
  cases ha : a.recovers with
  | false =>
      by_cases hstart : a.discovers = true ∧ conn.stage = .discovering
      · obtain ⟨hdiscovers, hstage⟩ := hstart
        unfold Action.discovers at hdiscovers
        split at hdiscovers
        · rcases started hstage hs with rfl | ⟨ids, hids, hperm, rfl⟩
          · exact fun _ hafter => by cases hafter
          · exact resuming_start h hstage hids hperm
        · contradiction
      · have hkept := kept_connected hs ha fun hdiscovers hstage => hstart ⟨hdiscovers, hstage⟩
        refine fun after hafter => h.kept (hkept after hafter) fun hbegun id => ?_
        refine (moved_connected hs id).steady (fun hstage => ?_) hkept
        simp [Connection.begun, hstage] at hbegun
  | true =>
      unfold Action.recovers at ha
      split at ha
      · obtain ⟨paging, events, response, call, core, outcome, hrecovery, hstep, hproceeds⟩ :=
          proceeds_turn hs
        refine h.proceeds (by rw [hrecovery]; rfl) (fun id => ?_) hproceeds
        exact ((turned hstep).flagged id).steady
      · exact resuming_startPass h hs
      · simp only [stepConnected] at hs
        split at hs
        · rename_i hrecovery
          cases Option.some.inj hs
          exact resuming_choose h hrecovery
        · contradiction
      · simp only [stepConnected] at hs
        split at hs
        · rename_i hrecovery
          cases Option.some.inj hs
          exact h.proceeds (by rw [hrecovery]; rfl) (fun _ => Flagged.steady (.inl rfl))
            (proceeds_page ..)
        · contradiction
      · simp only [stepConnected] at hs
        split at hs
        · rename_i hrecovery
          cases Option.some.inj hs
          exact h.proceeds (by rw [hrecovery]; rfl) (fun _ => Flagged.steady (.inl rfl))
            (proceeds_scan ..)
        · contradiction
      · exact resuming_saved h hs
      · contradiction

theorem resuming_step {a : Action} (h : Resuming config s) (hs : step config s a = some t) :
    Resuming config t := by
  rcases step_cases hs with haround | ⟨conn, hconn, hs⟩
  · cases haround with
    | advance | worker | saveAfter =>
        intro conn hconn
        exact (h conn hconn).kept ⟨rfl, rfl, rfl, rfl, rfl⟩ fun _ _ => Flagged.steady (.inl rfl)
    | post event channel ts =>
        intro after hafter
        obtain ⟨conn, hconn, rfl⟩ := Option.map_eq_some_iff.mp hafter
        have hkeeps : Keeps conn (posting event conn) := by
          unfold posting
          split <;> exact ⟨rfl, rfl, rfl, rfl, rfl⟩
        exact (h conn hconn).kept hkeeps fun _ _ => Flagged.steady (.inl rfl)
    | connect =>
        intro after hafter
        cases Option.some.inj hafter
        exact ⟨fun _ => rfl, fun hbegun => (nomatch hbegun),
          fun _ hmem => absurd hmem List.not_mem_nil, fun _ hpaging => (nomatch hpaging),
          List.nodup_nil⟩
    | stop | restart | crash => exact fun _ hafter => by cases hafter
  · exact resuming_connected (h conn hconn) hs

theorem resuming_reachable {meets : State → Action → Prop}
    (h : ReachableBy (machine config) meets s) : Resuming config s := by
  refine h.invariant (P := Resuming config) ?_ fun _ _ _ _ hinv _ hs => resuming_step hinv hs
  rintro s ⟨team, user, clock, rfl⟩
  exact fun _ hconn => by cases hconn

theorem passFailed_finished {rest : List (Str × Channel)} {error : ApiError} {after : Connection}
    (h : (passFailed s conn rest error).connection = some after) :
    after.finished = conn.finished := by
  unfold passFailed at h
  split at h
  · contradiction
  · split at h <;> cases Option.some.inj h <;> rfl

theorem choose_finished {channels : List (Str × Channel)} {after : Connection}
    (h : (choose config s conn channels).connection = some after) :
    after.finished = conn.finished := by
  unfold choose at h
  split at h
  · cases Option.some.inj h
    rfl
  · split at h
    · cases Option.some.inj h
      rfl
    · unfold request at h
      dsimp only at h
      split at h
      · exact passFailed_finished h
      · cases Option.some.inj h
        rfl

theorem finished_pass {a : Action} {after : Connection} {paging : Paging}
    (hs : stepConnected config s conn a = some t) (hafter : t.connection = some after)
    (hfinished : after.finished = paging :: conn.finished) :
    ∃ origin, conn.recovery.paging? = some origin ∧ SamePass origin paging := by
  have hsame : after.finished ≠ conn.finished := fun heq =>
    List.cons_ne_self _ _ (hfinished.symm.trans heq)
  have hproceeds : ∀ {middle : State} {origin : Paging}, conn.recovery.paging? = some origin →
      Proceeds middle conn origin t →
      ∃ origin, conn.recovery.paging? = some origin ∧ SamePass origin paging := by
    intro middle origin horigin h
    cases h with
    | dropped hconn => rw [hconn] at hafter; contradiction
    | left _ hconn | goes _ _ _ hconn =>
        cases Option.some.inj (hconn.symm.trans hafter)
        exact absurd rfl hsame
    | finished next hpass hconn =>
        cases Option.some.inj (hconn.symm.trans hafter)
        exact ⟨origin, horigin, (List.cons.inj hfinished).1 ▸ hpass⟩
  cases ha : a.recovers with
  | false =>
      by_cases hstart : a.discovers = true ∧ conn.stage = .discovering
      · obtain ⟨hdiscovers, hstage⟩ := hstart
        unfold Action.discovers at hdiscovers
        split at hdiscovers
        · rcases started hstage hs with rfl | ⟨ids, -, -, rfl⟩
          · contradiction
          · unfold start at hafter
            dsimp only at hafter
            split at hafter
            · cases Option.some.inj hafter
              exact absurd rfl hsame
            · contradiction
        · contradiction
      · have hkept := kept_connected hs ha fun hdiscovers hstage => hstart ⟨hdiscovers, hstage⟩
        exact absurd (hkept after hafter).finished hsame
  | true =>
      unfold Action.recovers at ha
      split at ha
      · obtain ⟨origin, events, response, call, core, outcome, hrecovery, -, h⟩ := proceeds_turn hs
        exact hproceeds (by rw [hrecovery]; rfl) h
      · simp only [stepConnected] at hs
        split at hs
        · split at hs
          · cases Option.some.inj hs
            cases Option.some.inj hafter
            exact absurd rfl hsame
          · contradiction
        · contradiction
      · simp only [stepConnected] at hs
        split at hs
        · cases Option.some.inj hs
          exact absurd (choose_finished hafter) hsame
        · contradiction
      · simp only [stepConnected] at hs
        split at hs
        · rename_i hrecovery
          cases Option.some.inj hs
          exact hproceeds (by rw [hrecovery]; rfl) (proceeds_page ..)
        · contradiction
      · simp only [stepConnected] at hs
        split at hs
        · rename_i hrecovery
          cases Option.some.inj hs
          exact hproceeds (by rw [hrecovery]; rfl) (proceeds_scan ..)
        · contradiction
      · obtain ⟨-, rfl | ⟨snapshot, rfl⟩⟩ := save_cases hs
        · contradiction
        · cases Option.some.inj hafter
          exact absurd rfl hsame
      · contradiction

/-- How a step of a connection raises a checkpoint. -/
inductive Raised (config : Config) (s : State) (conn : Connection) (t : State) (id : Str)
    (before after : Int) : Prop where
  /-- By the window when the connection begins. -/
  | clipped (hstage : conn.stage = .discovering) (hafter : after = conn.began - config.window)
  /-- By the complete pass that finishes the recovery of the channel. -/
  | recovered (paging : Paging) (hchannel : paging.channel = id)
      (hpassed : Passed conn.began paging) (holdest : paging.oldest = oldestOf config conn.began before)
      (hconn : t.connection = some { conn with
        recovery := .saving paging.rest
        finished := paging :: conn.finished })
      (hafter : after = conn.began)
  /-- By the heartbeat, after such a pass if the channel had a checkpoint before. -/
  | live (through : Int) (ping : Nat)
      (hhistory : t.history = .applied conn.number through ping :: s.history)
      (hafter : after = through)
      (hfinished : id ∈ conn.existing →
        ∃ paging ∈ conn.finished, paging.channel = id ∧ Passed conn.began paging)

theorem Moved.monotone {id : Str} {before after : Progress}
    (h : Moved config s conn t id (some before) (some after)) :
    before.coveredUntil ≤ after.coveredUntil := by
  generalize hb : some before = first at h
  generalize ha : some after = second at h
  cases h with
  | same => cases hb; cases ha; exact le_rfl
  | flagged progress failed => cases hb; cases ha; exact le_rfl
  | added => contradiction
  | left => contradiction
  | begun =>
      subst hb
      cases ha
      change before.coveredUntil ≤ if before.coveredUntil < conn.began - config.window then
        conn.began - config.window else before.coveredUntil
      split <;> omega
  | finished progress failed paging =>
      cases hb
      cases ha
      unfold Progress.finished
      split
      · exact le_max_left _ _
      · exact le_rfl
  | advanced before through =>
      subst hb
      cases ha
      unfold Progress.advanced
      split
      · exact le_max_left _ _
      · exact le_rfl

theorem raised_of_step {a : Action} {id : Str} {before after : Progress} (hpass : PassInv conn)
    (hafterPass : Passing t) (hresumed : Resumed config s conn)
    (hs : stepConnected config s conn a = some t) (hbefore : s.progress id = some before)
    (hafter : t.progress id = some after) (hraised : before.coveredUntil < after.coveredUntil) :
    Raised config s conn t id before.coveredUntil after.coveredUntil := by
  have hmoved := moved_connected hs id
  rw [hbefore, hafter] at hmoved
  generalize hb : some before = first at hmoved
  generalize ha : some after = second at hmoved
  cases hmoved with
  | same | flagged =>
      cases hb
      cases ha
      exact absurd hraised (lt_irrefl _)
  | added | left => contradiction
  | begun _ hstage =>
      subst hb
      cases ha
      refine .clipped hstage ?_
      change before.coveredUntil < ite _ _ _ at hraised
      change ite _ _ _ = _
      split
      · rfl
      · rename_i hin
        rw [if_neg hin] at hraised
        exact absurd hraised (lt_irrefl _)
  | finished progress failed paging hchannel hconn =>
      cases hb
      cases ha
      obtain ⟨origin, horigin, hsame⟩ := finished_pass hs hconn rfl
      obtain ⟨coveredUntil, ⟨current, hcurrent, -, hcovered⟩, holdest⟩ :=
        hresumed.current origin horigin
      rw [← hsame.channel, hchannel, hbefore] at hcurrent
      cases Option.some.inj hcurrent
      have hpassed := (hafterPass _ hconn).finished paging List.mem_cons_self
      refine .recovered paging hchannel hpassed ?_ hconn ?_
      · rw [hsame.oldest, holdest, ← hcovered]
      · unfold Progress.finished at hraised ⊢
        split at hraised
        · rename_i hfailed
          rw [if_pos hfailed]
          dsimp only at hraised ⊢
          omega
        · exact absurd hraised (lt_irrefl _)
  | advanced _ through ping hstage hhistory =>
      subst hb
      cases ha
      change before.coveredUntil < (before.advanced through).coveredUntil at hraised
      change Raised config s conn t id _ (before.advanced through).coveredUntil
      unfold Progress.advanced at hraised ⊢
      split at hraised
      · rename_i hguard
        rw [if_pos hguard]
        refine .live through ping hhistory ?_ fun hmem => ?_
        · dsimp only at hraised ⊢
          omega
        · have hbegun : conn.begun = true := by simp [Connection.begun, hstage]
          obtain ⟨progress, hprogress, hfinished⟩ := hresumed.existing hbegun id hmem
          cases Option.some.inj (hbefore.symm.trans hprogress)
          obtain ⟨paging, hmem, hchannel⟩ := hfinished (by simpa using hguard.1)
          exact ⟨paging, hmem, hchannel, hpass.finished paging hmem⟩
      · exact absurd hraised (lt_irrefl _)

theorem progress_restored (data : Snapshot) (id : Str) :
    data.restored.progress id = (data.progress id).map fun progress =>
      { progress with recovering := false, failed := false } := by
  unfold Snapshot.progress Snapshot.restored
  rw [SortedMap.get_map, Option.map_map, Option.map_map]
  rfl

/-- In every step but the start of a process on another state file, no checkpoint goes
back. It rises by the window when a connection begins, by a complete pass, or by the
heartbeat of a connection whose pass for the channel is complete. -/
theorem checkpoint_moves {a : Action} {id : Str} {before after : Progress}
    (h : Reachable (machine config) s) (hs : step config s a = some t)
    (hbefore : s.progress id = some before) (hafter : t.progress id = some after) :
    ((∀ found, a ≠ .crash found) → before.coveredUntil ≤ after.coveredUntil ∧
      (before.coveredUntil < after.coveredUntil → ∃ conn, s.connection = some conn ∧
        Raised config s conn t id before.coveredUntil after.coveredUntil)) ∧
    ∀ found, a = .crash found → ∃ data progress, found = some data ∧ data.progress id = some progress ∧
      after.coveredUntil = progress.coveredUntil := by
  have hsame : s.progress id = t.progress id → before.coveredUntil = after.coveredUntil :=
    fun heq => by rw [Option.some.inj (hbefore.symm.trans (heq.trans hafter))]
  have hstill : before.coveredUntil = after.coveredUntil → before.coveredUntil ≤ after.coveredUntil ∧
      (before.coveredUntil < after.coveredUntil → ∃ conn, s.connection = some conn ∧
        Raised config s conn t id before.coveredUntil after.coveredUntil) :=
    fun heq => ⟨heq.le, fun hlt => absurd hlt (heq ▸ lt_irrefl _)⟩
  rcases step_cases hs with haround | ⟨conn, hconn, hstep⟩
  · cases haround with
    | advance | post | worker | connect | saveAfter | stop =>
        exact ⟨fun _ => hstill (hsame rfl), fun _ h => (nomatch h)⟩
    | restart =>
        refine ⟨fun _ => hstill ?_, fun _ h => (nomatch h)⟩
        change s.core.store.restored.progress id = some after at hafter
        rw [progress_restored, show s.core.store.progress id = some before from hbefore] at hafter
        cases Option.some.inj hafter
        rfl
    | crash found =>
        refine ⟨fun hne => absurd rfl (hne found), fun other hother => ?_⟩
        cases hother
        change (openFound s found).progress id = some after at hafter
        cases found with
        | none => cases hafter
        | some data =>
            rw [openFound, Option.map_some, Option.getD_some, progress_restored] at hafter
            obtain ⟨progress, hprogress, rfl⟩ := Option.map_eq_some_iff.mp hafter
            exact ⟨data, progress, rfl, hprogress, rfl⟩
  · refine ⟨fun _ => ⟨?_, fun hraised => ⟨conn, hconn, ?_⟩⟩, fun found hcrash => ?_⟩
    · have hmoved := moved_connected hstep id
      rw [hbefore, hafter] at hmoved
      exact hmoved.monotone
    · exact raised_of_step (passing_reachable h conn hconn) (passing_reachable (.next h trivial hs))
        (resuming_reachable h conn hconn) hstep hbefore hafter hraised
    · subst hcrash
      contradiction

end

def heartbeatRun : List Action :=
  sampleConnect hello ++ [.advance (10 * SECOND)] ++
    samplePing 1 ++ [.read]

/-- The new process finds what the last save took that returned `Ok`. -/
theorem checkpoint_lost_in_crash :
    ∃ s t before after, Reachable (machine sampleConfig) s ∧ s.saved ≠ none ∧
      step sampleConfig s (.crash s.saved) = some t ∧
      s.progress "C1".toList = some before ∧ t.progress "C1".toList = some after ∧
      after.coveredUntil < before.coveredUntil := by
  have hrun : ∃ s, Reachable (machine sampleConfig) s ∧
      s.progress "C1".toList = some ⟨1000000010, false, false⟩ ∧ s.saved.isSome = true ∧
      ((step sampleConfig s (.crash s.saved)).any fun t =>
        t.progress "C1".toList = some ⟨1000000000, false, false⟩) = true :=
    exists_reachable (s := initial "T1".toList "U1".toList (1000000000 * SECOND))
      (heartbeatRun ++ [.consume]) ⟨_, _, _, rfl⟩ (by decide)
  obtain ⟨s, hs, hbefore, hsaved, ht⟩ := hrun
  obtain ⟨t, hstep, hafter⟩ := (Option.any_eq_true _ _).mp ht
  exact ⟨s, t, _, _, hs, Option.isSome_iff_ne_none.mp hsaved, hstep, hbefore, of_decide_eq_true hafter,
    by decide⟩

def sampleReply : Json :=
  .obj [("type".toList, .str "message".toList), ("ts".toList, .str "1000000002.000001".toList),
    ("thread_ts".toList, .str "1000000000.000001".toList), ("text".toList, .str "text".toList),
    ("user".toList, .str "U2".toList)]

/-- A channel with a checkpoint is recovered by the next connection: the reply in its
history is harvested, and then its thread is asked for. -/
def passRun : List Action :=
  sampleConnect hello ++ [.fail, .saveAfter, .advance (5 * SECOND)] ++ sampleConnect hello ++
    [.startPass, .choose, .page (.ok (.obj [("messages".toList, .arr [sampleReply])])), .scan,
      .turn .recovery .lock, .turn .recovery .send, .worker (.work Worker.quiet),
      .worker (.work Worker.quiet), .turn .recovery .receipt, .scan]

def threadGone : Action :=
  .page (.error (.request "conversations.replies".toList "thread_not_found".toList))

theorem checkpoint_moves_recovered :
    ∃ s t, step sampleConfig s threadGone = some t ∧
      s.progress "C1".toList = some ⟨1000000000, true, false⟩ ∧
      t.progress "C1".toList = some ⟨1000000005, false, false⟩ ∧
      ∃ conn, s.connection = some conn ∧
        Raised sampleConfig s conn t "C1".toList 1000000000 1000000005 := by
  have hrun : ∃ s, Reachable (machine sampleConfig) s ∧
      s.progress "C1".toList = some ⟨1000000000, true, false⟩ ∧
      ((step sampleConfig s threadGone).any fun t =>
        t.progress "C1".toList = some ⟨1000000005, false, false⟩) = true :=
    exists_reachable (s := initial "T1".toList "U1".toList (1000000000 * SECOND))
      passRun ⟨_, _, _, rfl⟩ (by decide +kernel)
  obtain ⟨s, hs, hbefore, ht⟩ := hrun
  obtain ⟨t, hstep, hafter⟩ := (Option.any_eq_true _ _).mp ht
  have hafter := of_decide_eq_true hafter
  obtain ⟨hmoves, -⟩ := checkpoint_moves hs hstep hbefore hafter
  exact ⟨s, t, hstep, hbefore, hafter, (hmoves (fun _ h => (nomatch h))).2 (by decide)⟩

end SjmbSlack.UserSession.Session
