import SjmbSlack.Slackbot.WorkerCorrect
import SjmbSlack.UserSession.Memory

/-! What becomes of the messages that calls of `process` hand to the worker. The
record of a message is written by the call that waits for its receipt, and one
call at a time has the lock. -/
namespace SjmbSlack.UserSession.Session
open Machine Api Slackbot Retention

def Consumer.holder : Consumer → Option Process
  | .processing call => if call.holdsLock then some call else none
  | _ => none

def Recovery.holder : Recovery → Option Process
  | .processing _ _ _ call => if call.holdsLock then some call else none
  | _ => none

def Connection.holder (conn : Connection) : Option Process :=
  conn.consumer.holder.or conn.recovery.holder

def Exclusive (conn : Connection) : Prop :=
  conn.consumer.holder = none ∨ conn.recovery.holder = none

def callOf : Outcome → Option Process
  | .suspended call => some call
  | .returned _ => none

theorem consumer_holder_none {consumer : Consumer} :
    consumer.holder = none ↔ consumer.holdsLock = false := by
  cases consumer with
  | processing call =>
      change (if call.holdsLock then some call else none) = none ↔ call.holdsLock = false
      cases call.holdsLock <;> simp
  | receiving | discovering | asking | saving => exact ⟨fun _ => rfl, fun _ => rfl⟩

theorem recovery_holder_none {recovery : Recovery} :
    recovery.holder = none ↔ recovery.holdsLock = false := by
  cases recovery with
  | processing paging events response call =>
      change (if call.holdsLock then some call else none) = none ↔ call.holdsLock = false
      cases call.holdsLock <;> simp
  | ticking | choosing | requesting | scanning | saving => exact ⟨fun _ => rfl, fun _ => rfl⟩

/-- What a step does to the lock: nothing, or a turn of the call that has it or takes
it. -/
inductive HolderStep (config : Config) (s : State) (conn : Connection) (t : State) : Prop where
  | quiet (hstored : Stored config s conn t)
      (hafter : ∀ after, t.connection = some after →
        after.consumer.holder = conn.consumer.holder ∧ after.recovery.holder = conn.recovery.holder)
  | turned (call : Process) (core : Core) (outcome : Outcome)
      (hcall : conn.holder = some call ∨ conn.holder = none ∧ ∃ event, call = .locking event)
      (hturned : Turned config s.core call core outcome)
      (hcore : t.core = { core with store := t.core.store })
      (hseen : t.core.store.seen = core.store.seen)
      (hnone : t.connection = none → callOf outcome = none)
      (hafter : ∀ after, t.connection = some after →
        after.holder = callOf outcome ∧ Exclusive after)

section

variable {config : Config} {s t : State} {conn : Connection}

theorem Turned.holds {core after : Core} {call next : Process}
    (h : Turned config core call after (.suspended next)) : next.holdsLock = true := by
  cases h <;> rfl

theorem step_locking {core after : Core} {locked : Bool} {call : Process} {turn : Turn}
    {outcome : Outcome} (h : call.step config core locked turn = some (after, outcome)) :
    call.holdsLock = true ∨ locked = false ∧ ∃ event, call = .locking event := by
  cases call with
  | locking event =>
      cases turn with
      | lock =>
          cases locked with
          | true => contradiction
          | false => exact .inr ⟨rfl, event, rfl⟩
      | send | receipt | timeout => contradiction
  | sending | awaiting => exact .inl rfl

theorem holder_of_call {call : Process} {own other : Option Process} {locked : Bool}
    (hexclusive : own = none ∨ other = none)
    (hown : own = if call.holdsLock then some call else none)
    (hlocked : locked = false → other = none)
    (hcall : call.holdsLock = true ∨ locked = false ∧ ∃ event, call = .locking event) :
    other = none ∧ (own = some call ∨ own = none ∧ ∃ event, call = .locking event) := by
  rcases hcall with hholds | ⟨hfree, event, rfl⟩
  · rw [if_pos hholds] at hown
    subst hown
    exact ⟨hexclusive.resolve_left (by simp), .inl rfl⟩
  · exact ⟨hlocked hfree, .inr ⟨hown, event, rfl⟩⟩

theorem holder_live {step : Turn} (hexclusive : Exclusive conn)
    (h : turn config s conn .live step = some t) : HolderStep config s conn t := by
  unfold turn at h
  dsimp only at h
  split at h
  · rename_i call hconsumer
    obtain ⟨⟨core, outcome⟩, hstep, rfl⟩ := Option.map_eq_some_iff.mp h
    obtain ⟨hother, hcall⟩ := holder_of_call hexclusive (by rw [hconsumer]; rfl)
      recovery_holder_none.mpr (step_locking hstep)
    have hturned := turned hstep
    have hholder : conn.holder = conn.consumer.holder := by
      rw [Connection.holder, hother, Option.or_none]
    rw [← hholder] at hcall
    cases outcome with
    | suspended next =>
        refine .turned call core _ hcall hturned rfl rfl (fun h => (nomatch h))
          fun after hafter => ?_
        cases Option.some.inj hafter
        refine ⟨?_, .inr hother⟩
        change (if next.holdsLock then some next else none).or conn.recovery.holder = some next
        rw [if_pos hturned.holds, Option.some_or]
    | returned ok =>
        cases ok with
        | true =>
            refine .turned call core _ hcall hturned rfl rfl (fun _ => rfl)
              fun after hafter => ?_
            cases Option.some.inj hafter
            exact ⟨hother, .inl rfl⟩
        | false =>
            exact .turned call core _ hcall hturned rfl rfl (fun _ => rfl)
              fun _ hafter => (nomatch hafter)
  · contradiction

theorem holder_recovery {step : Turn} (hexclusive : Exclusive conn)
    (h : turn config s conn .recovery step = some t) : HolderStep config s conn t := by
  obtain ⟨paging, events, response, call, core, outcome, hrecovery, hstep, hcases⟩ :=
    recovers_turn h
  obtain ⟨hother, hcall⟩ := holder_of_call hexclusive.symm (by rw [hrecovery]; rfl)
    consumer_holder_none.mpr (step_locking hstep)
  have hholder : conn.holder = conn.recovery.holder := by
    rw [Connection.holder, hother, Option.none_or]
  rw [← hholder] at hcall
  rcases hcases with ⟨next, rfl, rfl⟩ | ⟨⟨ok, rfl⟩, hrecovers⟩
  · refine .turned call core _ hcall (turned hstep) rfl rfl (fun h => (nomatch h))
      fun after hafter => ?_
    cases Option.some.inj hafter
    refine ⟨?_, .inl hother⟩
    change conn.consumer.holder.or (if next.holdsLock then some next else none) = some next
    rw [hother, if_pos (turned hstep).holds, Option.none_or]
  · refine .turned call core _ hcall (turned hstep) hrecovers.core hrecovers.seen
      (fun _ => rfl) fun after hafter => ?_
    have hfree := recovery_holder_none.mpr (hrecovers.unlocked after hafter)
    have hconsumer : after.consumer = conn.consumer :=
      congrArg Live.consumer (hrecovers.tasked hafter).live
    refine ⟨?_, .inr hfree⟩
    rw [Connection.holder, hconsumer, hother, hfree]
    rfl

theorem consumer_discover {responses : List (Except ApiError Json)} {order : List Str}
    {after : Connection} (h : discover config s conn responses order = some t)
    (hafter : t.connection = some after) : after.consumer.holder = conn.consumer.holder := by
  by_cases hstage : conn.stage = .discovering
  · rcases started hstage h with rfl | ⟨ids, -, -, rfl⟩
    · contradiction
    · rw [start_connection hafter]
  · unfold discover at h
    split at h
    · split at h
      · contradiction
      · split at h
        · cases Option.some.inj h
          contradiction
        · contradiction
    · split at h
      · contradiction
      · split at h
        · contradiction
        · rename_i hconsumer
          dsimp only at h
          split at h <;> cases Option.some.inj h
          · cases Option.some.inj hafter
            rw [hconsumer]
            rfl
          · contradiction
        · contradiction

theorem consumer_consume {after : Connection} (h : consume config s conn = some t)
    (hafter : t.connection = some after) : after.consumer.holder = conn.consumer.holder := by
  unfold consume at h
  split at h
  · rename_i hconsumer _
    rw [hconsumer]
    dsimp only at h
    split at h
    · cases Option.some.inj h
      cases Option.some.inj hafter
      rfl
    · split at h
      · cases Option.some.inj h
        cases Option.some.inj hafter
        rfl
      · split at h
        · cases Option.some.inj h
          cases Option.some.inj hafter
          rfl
        · split at h <;> cases Option.some.inj h <;> cases Option.some.inj hafter <;> rfl
  · contradiction

theorem consumer_answered {event : Json} {id : Str} {response : Except ApiError Json}
    {after : Connection} (hconsumer : conn.consumer = .asking event id)
    (hafter : (answered s conn event id response).connection = some after) :
    after.consumer.holder = conn.consumer.holder := by
  rw [hconsumer]
  unfold answered at hafter
  split at hafter
  · contradiction
  · dsimp only at hafter
    split at hafter
    · cases Option.some.inj hafter
      rfl
    · split at hafter
      · contradiction
      · split at hafter
        · cases Option.some.inj hafter
          rfl
        · contradiction

theorem consumer_save {caller : Option Caller} {ok : Bool} {after : Connection}
    (h : save s conn caller ok = some t) (hafter : t.connection = some after) :
    after.consumer.holder = conn.consumer.holder := by
  obtain ⟨hsaving, rfl | ⟨snapshot, rfl⟩⟩ := save_cases h
  · contradiction
  · unfold saving at hsaving
    split at hsaving
    · cases Option.some.inj hafter
      rfl
    · split at hsaving
      · rename_i hconsumer
        cases Option.some.inj hafter
        rw [hconsumer]
        rfl
      · contradiction
    · cases Option.some.inj hafter
      rfl

def Action.turns : Action → Bool
  | .turn _ _ => true
  | _ => false

theorem consumer_connected {a : Action} {after : Connection}
    (hs : stepConnected config s conn a = some t) (ha : a.turns = false)
    (hafter : t.connection = some after) : after.consumer.holder = conn.consumer.holder := by
  cases a with
  | place frame | copy caller =>
      simp only [stepConnected] at hs
      split at hs <;> cases hs
      cases Option.some.inj hafter
      rfl
  | receivePing | answer | recordPing =>
      obtain ⟨link, -, rfl⟩ := Option.map_eq_some_iff.mp hs
      cases Option.some.inj hafter
      rfl
  | opened =>
      simp only [stepConnected] at hs
      split at hs <;> cases hs
      cases Option.some.inj hafter
      rfl
  | greet =>
      simp only [stepConnected] at hs
      split at hs
      · obtain ⟨result, -, rfl⟩ := Option.map_eq_some_iff.mp hs
        split at hafter <;> cases hafter
        rfl
      · contradiction
  | tick | read =>
      simp only [stepConnected] at hs
      split at hs
      · obtain ⟨result, -, rfl⟩ := Option.map_eq_some_iff.mp hs
        unfold afterRead at hafter
        split at hafter <;> cases hafter
        rfl
      · contradiction
  | fail =>
      cases Option.some.inj hs
      contradiction
  | discover responses order => exact consumer_discover hs hafter
  | consume =>
      simp only [stepConnected] at hs
      split at hs
      · exact consumer_consume hs hafter
      · contradiction
  | answered response =>
      simp only [stepConnected] at hs
      split at hs
      · rename_i hconsumer
        cases Option.some.inj hs
        exact consumer_answered hconsumer hafter
      · contradiction
  | save caller ok => exact consumer_save hs hafter
  | startPass | choose | page | scan =>
      exact congrArg Consumer.holder (congrArg Live.consumer (tasked hs rfl hafter).live)
  | turn => contradiction
  | advance | post | worker | connect | saveAfter | stop | restart | crash => contradiction

theorem recovery_connected {a : Action} {after : Connection}
    (hs : stepConnected config s conn a = some t) (ha : a.turns = false)
    (hafter : t.connection = some after) : after.recovery.holder = conn.recovery.holder := by
  have hnone : ∀ {recovery}, conn.recovery = recovery → recovery.holder = none →
      after.recovery.holdsLock = false → after.recovery.holder = conn.recovery.holder :=
    fun heq hbefore hfree => by rw [recovery_holder_none.mpr hfree, heq, hbefore]
  cases hrecovers : a.recovers with
  | false =>
      by_cases hstart : a.discovers = true ∧ conn.stage = .discovering
      · obtain ⟨hdiscovers, hstage⟩ := hstart
        unfold Action.discovers at hdiscovers
        split at hdiscovers
        · rcases started hstage hs with rfl | ⟨ids, -, -, rfl⟩
          · contradiction
          · rw [start_connection hafter]
        · contradiction
      · have hkept := kept_connected hs hrecovers fun hdiscovers hstage =>
          hstart ⟨hdiscovers, hstage⟩
        rw [(hkept after hafter).recovery]
  | true =>
      unfold Action.recovers at hrecovers
      split at hrecovers
      · contradiction
      · simp only [stepConnected] at hs
        split at hs
        · rename_i hrecovery
          split at hs <;> cases hs
          cases Option.some.inj hafter
          exact hnone hrecovery rfl rfl
        · contradiction
      · simp only [stepConnected] at hs
        split at hs
        · rename_i hrecovery
          cases Option.some.inj hs
          exact hnone hrecovery rfl ((recovers_choose ..).unlocked after hafter)
        · contradiction
      · simp only [stepConnected] at hs
        split at hs
        · rename_i hrecovery
          cases Option.some.inj hs
          exact hnone hrecovery rfl ((recovers_page ..).unlocked after hafter)
        · contradiction
      · simp only [stepConnected] at hs
        split at hs
        · rename_i hrecovery
          cases Option.some.inj hs
          exact hnone hrecovery rfl ((recovers_scan ..).unlocked after hafter)
        · contradiction
      · obtain ⟨hsaving, rfl | ⟨snapshot, rfl⟩⟩ := save_cases hs
        · contradiction
        · unfold saving at hsaving
          dsimp only at hsaving
          split at hsaving
          · rename_i hrecovery
            cases Option.some.inj hafter
            exact hnone hrecovery rfl rfl
          · contradiction
      · contradiction

theorem holder_connected {a : Action} (hexclusive : Exclusive conn)
    (hs : stepConnected config s conn a = some t) : HolderStep config s conn t := by
  cases ha : a.turns with
  | false =>
      refine .quiet ?_ fun after hafter =>
        ⟨consumer_connected hs ha hafter, recovery_connected hs ha hafter⟩
      cases core_connected hs with
      | store _ h => exact h
      | live | recovery => contradiction
  | true =>
      unfold Action.turns at ha
      split at ha
      · rename_i caller step
        cases caller with
        | live => exact holder_live hexclusive hs
        | recovery => exact holder_recovery hexclusive hs
      · contradiction

end

def completions (worker : Worker.State) : List Nat :=
  worker.accepted.filterMap QueuedMessage.completion

def Harvested (core : Core) (receipt : Nat) : Prop :=
  ∃ handling ∈ core.earlier ++ core.worker.handled,
    handling.message.completion = some receipt ∧ handling.verdict = true

def RecordedFor (core : Core) (receipt : Nat) : Prop :=
  ∃ handed ∈ core.handed, handed.receipt = receipt ∧
    ∃ record, (receipt, record) ∈ core.recordings ∧ record.channel = handed.channel ∧
      record.ts = handed.ts

def Awaiting (holder : Option Process) (receipt : Nat) : Prop :=
  ∃ event job since, holder = some (.awaiting event job since) ∧ job.receipt = receipt

structure Sending (core : Core) (job : Job) : Prop where
  receipt : job.receipt < core.receipts
  message : job.message.completion = some job.receipt
  unsent : job.receipt ∉ completions core.worker
  unhanded : job.receipt ∉ core.handed.map Handed.receipt
  unseen : core.store.isSeen job.channel job.ts = false

structure ReceiptInv (core : Core) (holder : Option Process) : Prop where
  worker : Worker.Inv core.worker
  senders : 0 < core.worker.senders
  unique : (completions core.worker).Nodup
  accepted : ∀ receipt ∈ completions core.worker, receipt < core.receipts
  handed : (core.handed.map Handed.receipt).Nodup
  below : ∀ receipt ∈ core.handed.map Handed.receipt, receipt < core.receipts
  sending : ∀ event job since, holder = some (.sending event job since) → Sending core job
  awaiting : ∀ event job since, holder = some (.awaiting event job since) →
    ⟨job.receipt, job.channel, job.ts⟩ ∈ core.handed
  harvested : ∀ receipt, Harvested core receipt →
    Awaiting holder receipt ∧ core.answer receipt = some true ∨ RecordedFor core receipt

/-- A call that has its answer `true` has yet to record it. -/
def owed (core : Core) : Option Process → Bool
  | some (.awaiting _ job _) => core.answer job.receipt = some true
  | _ => false

theorem not_awaiting {core : Core} {holder : Option Process} (h : owed core holder = false)
    {receipt : Nat} : ¬ (Awaiting holder receipt ∧ core.answer receipt = some true) := by
  rintro ⟨⟨event, job, since, rfl, rfl⟩, hanswer⟩
  simp [owed, hanswer] at h

theorem isSeen_subset {data after : Snapshot} {id ts : Str} (h : after.seen ⊆ data.seen)
    (hunseen : data.isSeen id ts = false) : after.isSeen id ts = false := by
  rw [Bool.eq_false_iff, Ne, isSeen_iff] at hunseen ⊢
  rintro ⟨record, hmem, hfound⟩
  exact hunseen ⟨record, h hmem, hfound⟩

section

variable {core after : Core} {holder : Option Process}

theorem ReceiptInv.stored (h : ReceiptInv core holder)
    (hcore : after = { core with
      store := after.store
      prunes := after.prunes
      returned := after.returned })
    (hseen : after.store.seen ⊆ core.store.seen) {next : Option Process}
    (hnext : next = holder ∨ next = none ∧ owed core holder = false) : ReceiptInv after next := by
  have hworker : after.worker = core.worker := by rw [hcore]
  have hhanded : after.handed = core.handed := by rw [hcore]
  have hreceipts : after.receipts = core.receipts := by rw [hcore]
  have hrecorded : after.recordings = core.recordings := by rw [hcore]
  have hearlier : after.earlier = core.earlier := by rw [hcore]
  have hanswer : ∀ receipt, after.answer receipt = core.answer receipt := fun receipt => by
    rw [Core.answer, hworker]
    rfl
  refine ⟨hworker ▸ h.worker, hworker ▸ h.senders, hworker ▸ h.unique,
    by rw [hworker, hreceipts]; exact h.accepted, by rw [hhanded]; exact h.handed,
    by rw [hhanded, hreceipts]; exact h.below, fun event job since heq => ?_,
    fun event job since heq => ?_, fun receipt hharvested => ?_⟩
  · rcases hnext with rfl | ⟨rfl, -⟩
    · obtain ⟨hreceipt, hmessage, hunsent, hunhanded, hunseen⟩ := h.sending event job since heq
      exact ⟨hreceipts ▸ hreceipt, hmessage, hworker ▸ hunsent, hhanded ▸ hunhanded,
        isSeen_subset hseen hunseen⟩
    · contradiction
  · rcases hnext with rfl | ⟨rfl, -⟩
    · exact hhanded ▸ h.awaiting event job since heq
    · contradiction
  · have hold : Harvested core receipt := by
      unfold Harvested at hharvested ⊢
      rwa [hearlier, hworker] at hharvested
    have hfor : RecordedFor core receipt → RecordedFor after receipt := by
      unfold RecordedFor
      rw [hhanded, hrecorded]
      exact fun h => h
    rcases hnext with rfl | ⟨rfl, howed⟩
    · rw [hanswer]
      exact (h.harvested receipt hold).imp_right hfor
    · exact .inr (hfor ((h.harvested receipt hold).resolve_left (not_awaiting howed)))

theorem ReceiptInv.remember (h : ReceiptInv core holder) (config : Config) (id : Str)
    (thread : Option Str) : ReceiptInv (Process.remember config core id thread) holder := by
  cases thread with
  | none => exact h
  | some parent =>
      refine h.stored (by rfl) ?_ (.inl rfl)
      rw [show (Process.remember config core id (some parent)).store.seen = _ from
        Snapshot.seen_rememberThread ..]
      exact Snapshot.pruneSeen_subset _ _ _

theorem ReceiptInv.admitted (h : ReceiptInv core holder) {event : Json} {job : Job}
    {since clock : Nat} {queue : Mpsc QueuedMessage} (hholder : holder = some (.sending event job since))
    (hqueue : core.worker.queue.trySend job.message = .ok queue) :
    ReceiptInv (Process.admitted core job queue) (some (.awaiting event job clock)) := by
  obtain ⟨hreceipt, hmessage, hunsent, hunhanded, -⟩ := h.sending event job since hholder
  have hworker : Worker.step core.worker (.send job.message) =
      some (Process.admitted core job queue).worker := by
    have hsenders : core.worker.senders ≠ 0 := Nat.ne_of_gt h.senders
    simp only [Worker.step, if_neg hsenders, hqueue]
    rfl
  have hcompletions : completions (Process.admitted core job queue).worker =
      completions core.worker ++ [job.receipt] := by
    simp [completions, Process.admitted, hmessage]
  have hhanded : (Process.admitted core job queue).handed.map Handed.receipt =
      core.handed.map Handed.receipt ++ [job.receipt] := by
    simp [Process.admitted]
  have hbelow : ∀ receipts : List Nat, (∀ receipt ∈ receipts, receipt < core.receipts) →
      ∀ receipt ∈ receipts ++ [job.receipt], receipt < core.receipts := by
    intro receipts hreceipts receipt hmem
    rcases List.mem_append.mp hmem with hmem | hmem
    · exact hreceipts receipt hmem
    · exact List.mem_singleton.mp hmem ▸ hreceipt
  refine ⟨Worker.inv_step h.worker hworker, h.senders, ?_, ?_, ?_, ?_, fun other found began heq => ?_,
    fun other found clock heq => ?_, fun receipt hharvested => ?_⟩
  · rw [hcompletions]
    exact List.nodup_append.mpr ⟨h.unique, List.nodup_singleton _, fun _ hmem _ hnew heq =>
      hunsent (List.mem_singleton.mp hnew ▸ heq ▸ hmem)⟩
  · rw [hcompletions]
    exact hbelow _ h.accepted
  · rw [hhanded]
    exact List.nodup_append.mpr ⟨h.handed, List.nodup_singleton _, fun _ hmem _ hnew heq =>
      hunhanded (List.mem_singleton.mp hnew ▸ heq ▸ hmem)⟩
  · rw [hhanded]
    exact hbelow _ h.below
  · cases heq
  · cases heq
    exact List.mem_append_right _ (List.mem_singleton.mpr rfl)
  · refine .inr ?_
    rcases h.harvested receipt hharvested with ⟨⟨_, _, _, hawaiting, -⟩, -⟩ | hrecorded
    · rw [hholder] at hawaiting
      cases hawaiting
    · obtain ⟨handed, hmem, hfor⟩ := hrecorded
      exact ⟨handed, List.mem_append_left _ hmem, hfor⟩

theorem ReceiptInv.recorded (h : ReceiptInv core holder) (config : Config) {event : Json}
    {job : Job} {since : Nat} (hholder : holder = some (.awaiting event job since)) :
    ReceiptInv (Process.record config core job) none := by
  refine ⟨h.worker, h.senders, h.unique, h.accepted, h.handed, h.below,
    fun _ _ _ heq => (nomatch heq), fun _ _ _ heq => (nomatch heq), fun receipt hharvested => .inr ?_⟩
  rcases h.harvested receipt hharvested with ⟨⟨_, other, _, hawaiting, rfl⟩, -⟩ | hrecorded
  · rw [hholder] at hawaiting
    cases hawaiting
    exact ⟨_, h.awaiting event job since hholder, rfl, _,
      List.mem_append_right _ (List.mem_singleton.mpr rfl), rfl, rfl⟩
  · obtain ⟨handed, hmem, hreceipt, record, hrecord, hfor⟩ := hrecorded
    exact ⟨handed, hmem, hreceipt, record, List.mem_append_left _ hrecord, hfor⟩

theorem ReceiptInv.turned {config : Config} {call : Process} {outcome : Outcome}
    (h : ReceiptInv core holder)
    (hcall : holder = some call ∨ holder = none ∧ ∃ event, call = .locking event)
    (hunlocked : ∀ event, holder ≠ some (.locking event))
    (hturned : Turned config core call after outcome) : ReceiptInv after (callOf outcome) := by
  have hfree : ∀ event, call = .locking event → holder = none := by
    rintro event rfl
    exact hcall.elim (fun heq => absurd heq (hunlocked event)) And.left
  have hheld : (∀ event, call ≠ .locking event) → holder = some call := fun hne =>
    hcall.resolve_right fun ⟨_, event, heq⟩ => hne event heq
  cases hturned with
  | sending id ts thread message hlocking hts hreceipt hfresh =>
      have hnone := hfree _ hlocking
      subst hnone
      have hinv := h.remember config id thread
      have hreceipts := (@remember_core config core id thread).2.2.2.2
      refine ⟨hinv.worker, hinv.senders, hinv.unique, fun receipt hmem => ?_, hinv.handed,
        fun receipt hmem => ?_, fun event job since heq => ?_, fun _ _ _ heq => (nomatch heq),
        fun receipt hharvested => ?_⟩
      · exact Nat.lt_succ_of_lt (hreceipts ▸ hinv.accepted receipt hmem)
      · exact Nat.lt_succ_of_lt (hreceipts ▸ hinv.below receipt hmem)
      · cases heq
        refine ⟨Nat.lt_succ_self _, hreceipt, fun hmem => ?_, fun hmem => ?_, hfresh⟩
        · exact absurd (hreceipts ▸ hinv.accepted _ hmem) (Nat.lt_irrefl _)
        · exact absurd (hreceipts ▸ hinv.below _ hmem) (Nat.lt_irrefl _)
      · refine .inr ((hinv.harvested receipt hharvested).resolve_left ?_)
        rintro ⟨⟨_, _, _, heq, -⟩, -⟩
        contradiction
  | admitted job since queue hsending hqueue =>
      have hholder := hheld (by rw [hsending]; exact fun _ heq => (nomatch heq))
      rw [hsending] at hholder
      exact h.admitted hholder hqueue
  | harvested job since hawaiting hanswer =>
      have hholder := hheld (by rw [hawaiting]; exact fun _ heq => (nomatch heq))
      rw [hawaiting] at hholder
      refine (h.recorded config hholder).stored ?_ ?_ (.inl rfl)
      · rfl
      · exact List.Subset.refl _
  | settled id thread hlocking =>
      have hnone := hfree _ hlocking
      subst hnone
      refine (h.remember config id thread).stored ?_ ?_ (.inl rfl)
      · rfl
      · exact List.Subset.refl _
  | failed job hjob hanswer =>
      refine h.stored ?_ ?_ (.inr ⟨rfl, ?_⟩)
      · rfl
      · exact List.Subset.refl _
      have hholder := hheld fun event heq => by rw [heq] at hjob; contradiction
      subst hholder
      cases call with
      | locking | sending => rfl
      | awaiting event found since =>
          cases Option.some.inj hjob
          exact decide_eq_false (hanswer event since rfl)
  | refused hlocking =>
      have hnone := hfree _ hlocking
      subst hnone
      exact h

end

/-- What the worker and the other sessions do to the worker: at most one more message
is handled, and a message of this session is added only by a call. -/
structure Works (worker : Worker.State) (action : Worker.Action) (after : Worker.State) : Prop where
  senders : 0 < after.senders
  completions : completions after = completions worker
  handled : after.handled = worker.handled ∧ after.answers = worker.answers ∨
    ∃ handling rest, after.handled = worker.handled ++ [handling] ∧
      after.answers = worker.answers ++ Worker.answer handling.message handling.verdict ∧
      worker.accepted = worker.handled.map Worker.Handling.message ++ handling.message :: rest ∧
      (handling.verdict = true → ∃ world takenAt, action = .work world ∧
        worker.task = .handling handling.message takenAt ∧
        (Worker.handleMsg world handling.message).2 = true)

theorem works_select {worker after : Worker.State} {world : Worker.World}
    (hinv : Worker.Inv worker) (hsenders : 0 < worker.senders) (htask : worker.task = .selecting)
    (h : Worker.select worker = some after) : Works worker (.work world) after := by
  have horder := hinv.order
  unfold Worker.select at h
  split at h
  · cases Option.some.inj h
    exact ⟨hsenders, rfl, .inl ⟨rfl, rfl⟩⟩
  · split at h
    · split at h
      · cases Option.some.inj h
        exact ⟨hsenders, rfl, .inl ⟨rfl, rfl⟩⟩
      · contradiction
    · rename_i message queue hrecv
      split at h <;> cases Option.some.inj h
      · refine ⟨hsenders, rfl, .inr ⟨⟨message, worker.clock, none⟩, queue.buffer, rfl, rfl, ?_,
          fun hverdict => (nomatch hverdict)⟩⟩
        rw [htask, (Mpsc.recv_some hrecv).1] at horder
        simpa [Worker.Task.messages] using horder
      · exact ⟨hsenders, rfl, .inl ⟨rfl, rfl⟩⟩

theorem works {worker after : Worker.State} {action : Worker.Action} (hinv : Worker.Inv worker)
    (hsenders : 0 < worker.senders) (hallowed : allowed worker action = true)
    (h : Worker.step worker action = some after) : Works worker action after := by
  cases action with
  | advance | signalDrain => contradiction
  | cloneSender =>
      simp only [Worker.step] at h
      split at h <;> cases h
      exact ⟨Nat.succ_pos _, rfl, .inl ⟨rfl, rfl⟩⟩
  | dropSender =>
      have hmany : 1 < worker.senders := of_decide_eq_true hallowed
      simp only [Worker.step] at h
      split at h <;> cases h
      exact ⟨Nat.sub_pos_of_lt hmany, rfl, .inl ⟨rfl, rfl⟩⟩
  | send message =>
      have hnone : message.completion = none := of_decide_eq_true hallowed
      simp only [Worker.step] at h
      split at h
      · contradiction
      · split at h <;> cases Option.some.inj h
        · exact ⟨hsenders, by simp [completions, hnone], .inl ⟨rfl, rfl⟩⟩
        · exact ⟨hsenders, rfl, .inl ⟨rfl, rfl⟩⟩
  | work world =>
      simp only [Worker.step] at h
      split at h
      · exact works_select hinv hsenders ‹_› h
      · rename_i message takenAt htask
        cases Option.some.inj h
        refine ⟨hsenders, rfl, .inr ⟨⟨message, takenAt, some (Worker.handleMsg world message)⟩,
          worker.queue.buffer, rfl, rfl, ?_, fun hverdict => ⟨world, takenAt, rfl, htask, hverdict⟩⟩⟩
        have horder := hinv.order
        rw [htask] at horder
        simpa [Worker.Task.messages] using horder
      · contradiction

theorem unanswered {worker : Worker.State} {message : QueuedMessage} {rest : List QueuedMessage}
    {receipt : Nat} (hinv : Worker.Inv worker) (hunique : (completions worker).Nodup)
    (haccepted : worker.accepted =
      worker.handled.map Worker.Handling.message ++ message :: rest)
    (hreceipt : message.completion = some receipt) :
    worker.answers.find? (fun answer => answer.1 = receipt) = none := by
  refine List.find?_eq_none.mpr fun answer hmem => ?_
  rw [hinv.answers] at hmem
  obtain ⟨handling, hhandling, hanswer⟩ := List.mem_flatMap.mp hmem
  obtain ⟨found, hfound, rfl⟩ := List.mem_map.mp hanswer
  have hcompletion : handling.message.completion = some found := by simpa using hfound
  simp only [decide_eq_true_eq]
  rintro rfl
  rw [completions, haccepted, List.filterMap_append, List.filterMap_cons_some hreceipt] at hunique
  refine (List.nodup_append.mp hunique).2.2 found ?_ found List.mem_cons_self rfl
  exact List.mem_filterMap.mpr ⟨_, List.mem_map_of_mem hhandling, hcompletion⟩

theorem ReceiptInv.works {core : Core} {holder : Option Process} {action : Worker.Action}
    {worker : Worker.State} (h : ReceiptInv core holder)
    (hallowed : allowed core.worker action = true)
    (hworker : Worker.step core.worker action = some worker)
    (hmeets : ∀ world message takenAt, action = .work world →
      core.worker.task = .handling message takenAt → (Worker.handleMsg world message).2 = true →
      ∀ receipt, message.completion = some receipt → Awaiting holder receipt) :
    ReceiptInv { core with worker := worker } holder := by
  have hworks := Session.works h.worker h.senders hallowed hworker
  have hcompletions : completions ({ core with worker := worker } : Core).worker =
    completions core.worker := hworks.completions
  have hkept : ∀ receipt, Awaiting holder receipt ∧ core.answer receipt = some true ∨
      RecordedFor core receipt → Awaiting holder receipt ∧
        ({ core with worker := worker } : Core).answer receipt = some true ∨
      RecordedFor { core with worker := worker } receipt := by
    rintro receipt (⟨hawaiting, hanswer⟩ | hrecorded)
    · refine .inl ⟨hawaiting, ?_⟩
      obtain ⟨answer, hanswer, hverdict⟩ := Option.map_eq_some_iff.mp hanswer
      rcases hworks.handled with ⟨-, hsame⟩ | ⟨_, _, -, hmore, -⟩
      · exact Option.map_eq_some_iff.mpr ⟨answer, by rw [← hanswer, ← hsame], hverdict⟩
      · refine Option.map_eq_some_iff.mpr ⟨answer, ?_, hverdict⟩
        change worker.answers.find? _ = _
        rw [hmore, List.find?_append, hanswer, Option.some_or]
    · exact .inr hrecorded
  refine ⟨Worker.inv_step h.worker hworker, hworks.senders, hcompletions ▸ h.unique,
    hcompletions ▸ h.accepted, h.handed, h.below, fun event job since heq => ?_, h.awaiting,
    fun receipt hharvested => ?_⟩
  · obtain ⟨hreceipt, hmessage, hunsent, hunhanded, hunseen⟩ := h.sending event job since heq
    exact ⟨hreceipt, hmessage, hcompletions ▸ hunsent, hunhanded, hunseen⟩
  · obtain ⟨handling, hmem, hreceipt, hverdict⟩ := hharvested
    rcases hworks.handled with ⟨hsame, -⟩ | ⟨latest, rest, hmore, hanswers, haccepted, hok⟩
    · refine hkept receipt (h.harvested receipt ⟨handling, ?_, hreceipt, hverdict⟩)
      rwa [show ({ core with worker := worker } : Core).worker.handled = core.worker.handled
        from hsame] at hmem
    · rw [show ({ core with worker := worker } : Core).worker.handled =
        core.worker.handled ++ [latest] from hmore, ← List.append_assoc] at hmem
      rcases List.mem_append.mp hmem with hmem | hmem
      · exact hkept receipt (h.harvested receipt ⟨handling, hmem, hreceipt, hverdict⟩)
      · cases List.mem_singleton.mp hmem
        obtain ⟨world, takenAt, haction, htask, hresult⟩ := hok hverdict
        refine .inl ⟨hmeets world _ takenAt haction htask hresult receipt hreceipt, ?_⟩
        have hnone := unanswered h.worker h.unique haccepted hreceipt
        change (worker.answers.find? _).map _ = _
        rw [hanswers, List.find?_append, hnone, Option.none_or]
        simp [Worker.answer, hreceipt, hverdict]

theorem ReceiptInv.aside {core : Core} {holder next : Option Process} {worker : Worker.State}
    (h : ReceiptInv core holder) (hinv : Worker.Inv worker)
    (hsenders : worker.senders = core.worker.senders)
    (haccepted : worker.accepted = core.worker.accepted)
    (hhandled : worker.handled = core.worker.handled)
    (hanswers : worker.answers = core.worker.answers)
    (hnext : next = holder ∨ next = none ∧ owed core holder = false) :
    ReceiptInv { core with worker := worker } next := by
  have hcompletions : completions worker = completions core.worker := by
    rw [completions, haccepted]
    rfl
  have hanswer : ∀ receipt,
      ({ core with worker := worker } : Core).answer receipt = core.answer receipt := by
    intro receipt
    change (worker.answers.find? _).map _ = _
    rw [hanswers]
    rfl
  have hsame : ReceiptInv { core with worker := worker } holder := by
    refine ⟨hinv, hsenders ▸ h.senders, hcompletions ▸ h.unique, hcompletions ▸ h.accepted,
      h.handed, h.below, fun event job since heq => ?_, h.awaiting, fun receipt hharvested => ?_⟩
    · obtain ⟨hreceipt, hmessage, hunsent, hunhanded, hunseen⟩ := h.sending event job since heq
      exact ⟨hreceipt, hmessage, hcompletions ▸ hunsent, hunhanded, hunseen⟩
    · rw [hanswer]
      refine h.harvested receipt ?_
      unfold Harvested at hharvested ⊢
      rwa [show ({ core with worker := worker } : Core).worker.handled = core.worker.handled
        from hhandled] at hharvested
  refine hsame.stored rfl (List.Subset.refl _) (hnext.imp_right fun ⟨hnone, howed⟩ => ⟨hnone, ?_⟩)
  unfold owed at howed ⊢
  split
  · rename_i job _ _
    rw [hanswer job.receipt]
    exact howed
  · rfl

theorem ReceiptInv.rebooted {core : Core} {holder : Option Process} {store : Snapshot}
    {clock capacity : Nat} (h : ReceiptInv core holder) (howed : owed core holder = false) :
    ReceiptInv { core with
      store := store
      worker := Worker.initial clock capacity 1
      earlier := core.earlier ++ core.worker.handled } none := by
  refine ⟨Worker.inv_initial _ _ _, Nat.one_pos, List.nodup_nil,
    fun _ hmem => absurd hmem List.not_mem_nil, h.handed, h.below, fun _ _ _ heq => (nomatch heq),
    fun _ _ _ heq => (nomatch heq), fun receipt hharvested => .inr ?_⟩
  refine (h.harvested receipt ?_).resolve_left (not_awaiting howed)
  obtain ⟨handling, hmem, hfor⟩ := hharvested
  exact ⟨handling, by simpa [Worker.initial] using hmem, hfor⟩

def State.holder (s : State) : Option Process := s.connection.bind Connection.holder

def awaits (receipt : Nat) : Option Process → Bool
  | some (.awaiting _ job _) => job.receipt = receipt
  | _ => false

/-- The steps in which a record goes to the call that waits for it: a worker finishes
a message of this session only while a call waits for its receipt, and no connection
ends between that answer and the record. -/
def acknowledges (config : Config) (s : State) : Action → Bool
  | .crash _ => false
  | .worker (.work world) =>
      match s.core.worker.task with
      | .handling message _ => !(Worker.handleMsg world message).2 ||
          message.completion.all fun receipt => awaits receipt s.holder
      | _ => true
  | a => !(step config s a).any (fun t => t.connection.isNone) || !owed s.core s.holder

def Acknowledged (config : Config) (s : State) (a : Action) : Prop := acknowledges config s a = true

instance (config : Config) (s : State) (a : Action) : Decidable (Acknowledged config s a) :=
  inferInstanceAs (Decidable (acknowledges config s a = true))

structure HarvestInv (s : State) : Prop where
  exclusive : ∀ conn, s.connection = some conn → Exclusive conn
  receipts : ReceiptInv s.core s.holder

section

variable {config : Config} {s t : State}

theorem awaiting_of_awaits {holder : Option Process} {receipt : Nat}
    (h : awaits receipt holder = true) : Awaiting holder receipt := by
  unfold awaits at h
  split at h
  · exact ⟨_, _, _, rfl, of_decide_eq_true h⟩
  · contradiction

theorem unowed_of_ended {a : Action} (h : Acknowledged config s a)
    (hs : step config s a = some t) (hnone : t.connection = none)
    (ha : ∀ world, a ≠ .worker (.work world)) : owed s.core s.holder = false := by
  unfold Acknowledged acknowledges at h
  split at h
  · contradiction
  · exact absurd rfl (ha _)
  · simpa [hs, hnone] using h

theorem unlocked_holder (event : Json) : s.holder ≠ some (.locking event) := by
  intro heq
  obtain ⟨conn, -, hholder⟩ := Option.bind_eq_some_iff.mp heq
  have hnot : ∀ call : Process, (if call.holdsLock then some call else none) ≠
      some (.locking event) := by
    intro call hcall
    split at hcall
    · rename_i hholds
      cases hcall
      contradiction
    · contradiction
  rcases Option.or_eq_some_iff.mp hholder with hconsumer | ⟨-, hrecovery⟩
  · unfold Consumer.holder at hconsumer
    split at hconsumer
    · exact hnot _ hconsumer
    · contradiction
  · unfold Recovery.holder at hrecovery
    split at hrecovery
    · exact hnot _ hrecovery
    · contradiction

theorem harvestInv_connected {conn : Connection} {a : Action} (h : HarvestInv s)
    (hconn : s.connection = some conn) (hack : Acknowledged config s a)
    (hs : step config s a = some t) (hstep : stepConnected config s conn a = some t) :
    HarvestInv t := by
  have hholder : s.holder = conn.holder := by rw [State.holder, hconn, Option.bind_some]
  cases holder_connected (h.exclusive conn hconn) hstep with
  | quiet hstored hafter =>
      have hseen : t.core.store.seen ⊆ s.core.store.seen := by
        rcases hstored.seen with ⟨hsame, -⟩ | ⟨time, -, hpruned, -⟩
        · exact hsame ▸ List.Subset.refl _
        · exact hpruned ▸ Snapshot.pruneSeen_subset _ _ _
      cases hconnection : t.connection with
      | none =>
          refine ⟨fun _ hsome => (nomatch hconnection.symm.trans hsome), ?_⟩
          refine h.receipts.stored (by rw [hstored.core]) hseen (.inr ⟨?_, ?_⟩)
          · rw [State.holder, hconnection, Option.bind_none]
          · refine unowed_of_ended hack hs hconnection fun world heq => ?_
            subst heq
            contradiction
      | some after =>
          obtain ⟨hconsumer, hrecovery⟩ := hafter after hconnection
          refine ⟨fun other hother => ?_, ?_⟩
          · cases Option.some.inj (hconnection.symm.trans hother)
            unfold Exclusive
            rw [hconsumer, hrecovery]
            exact h.exclusive conn hconn
          · refine h.receipts.stored (by rw [hstored.core]) hseen (.inl ?_)
            rw [State.holder, hconnection, Option.bind_some, hholder, Connection.holder,
              Connection.holder, hconsumer, hrecovery]
  | turned call core outcome hcall hturned hcore hseen hnone hafter =>
      rw [← hholder] at hcall
      have hinv := h.receipts.turned hcall unlocked_holder hturned
      have hnext : t.holder = callOf outcome := by
        cases hconnection : t.connection with
        | none => rw [State.holder, hconnection, hnone hconnection, Option.bind_none]
        | some after =>
            rw [State.holder, hconnection, Option.bind_some, (hafter after hconnection).1]
      refine ⟨fun after hsome => (hafter after hsome).2, ?_⟩
      exact hinv.stored (by rw [hcore]) (hseen ▸ List.Subset.refl _) (.inl hnext)

theorem harvestInv_step {a : Action} (h : HarvestInv s) (hack : Acknowledged config s a)
    (hs : step config s a = some t) : HarvestInv t := by
  rcases step_cases hs with haround | ⟨conn, hconn, hstep⟩
  · cases haround with
    | advance elapsed =>
        exact ⟨h.exclusive, h.receipts.aside
          (Worker.inv_step (a := .advance elapsed) h.receipts.worker rfl) rfl rfl rfl rfl (.inl rfl)⟩
    | post event channel ts =>
        have hsame : ∀ conn, (posting event conn).consumer = conn.consumer ∧
            (posting event conn).recovery = conn.recovery := fun conn => by
          unfold posting
          split <;> exact ⟨rfl, rfl⟩
        refine ⟨fun after hafter => ?_, ?_⟩
        · obtain ⟨conn, hconn, rfl⟩ := Option.map_eq_some_iff.mp hafter
          unfold Exclusive
          rw [(hsame conn).1, (hsame conn).2]
          exact h.exclusive conn hconn
        · have hholder : (s.connection.map (posting event)).bind Connection.holder = s.holder := by
            rw [Option.bind_map]
            refine congrArg _ (funext fun conn => ?_)
            rw [Function.comp, Connection.holder, (hsame conn).1, (hsame conn).2]
            rfl
          change ReceiptInv s.core ((s.connection.map (posting event)).bind Connection.holder)
          rw [hholder]
          exact h.receipts
    | worker action worker hallowed hworker =>
        refine ⟨h.exclusive, h.receipts.works hallowed hworker ?_⟩
        rintro world message takenAt rfl htask hok receipt hreceipt
        unfold Acknowledged acknowledges at hack
        rw [htask] at hack
        exact awaiting_of_awaits (by simpa [hok, hreceipt] using hack)
    | connect hnone =>
        refine ⟨fun after hafter => ?_, ?_⟩
        · cases Option.some.inj hafter
          exact .inl rfl
        · have hholder : s.holder = none := by rw [State.holder, hnone, Option.bind_none]
          have hreceipts := h.receipts
          rw [hholder] at hreceipts
          exact hreceipts
    | saveAfter => exact ⟨h.exclusive, h.receipts⟩
    | stop =>
        refine ⟨fun _ hafter => (nomatch hafter), h.receipts.aside
          (Worker.inv_step (a := .signalDrain) h.receipts.worker rfl) rfl rfl rfl rfl
          (.inr ⟨rfl, unowed_of_ended hack hs rfl fun _ heq => (nomatch heq)⟩)⟩
    | restart =>
        exact ⟨fun _ hafter => (nomatch hafter), h.receipts.rebooted
          (unowed_of_ended hack hs rfl fun _ heq => (nomatch heq))⟩
    | crash => contradiction
  · exact harvestInv_connected h hconn hack hs hstep

theorem harvestInv_reachable (h : ReachableBy (machine config) (Acknowledged config) s) :
    HarvestInv s := by
  refine h.invariant (P := HarvestInv) ?_ fun _ _ _ _ hinv hack hs => harvestInv_step hinv hack hs
  rintro s ⟨team, user, clock, rfl⟩
  refine ⟨fun _ hconn => (nomatch hconn), ⟨Worker.inv_initial _ _ _, Nat.one_pos, List.nodup_nil,
    fun _ hmem => absurd hmem List.not_mem_nil, List.nodup_nil,
    fun _ hmem => absurd hmem List.not_mem_nil, fun _ _ _ heq => (nomatch heq),
    fun _ _ _ heq => (nomatch heq), ?_⟩⟩
  rintro receipt ⟨handling, hmem, -⟩
  exact absurd hmem List.not_mem_nil

theorem handed_step {a : Action} (hexclusive : ∀ conn, s.connection = some conn → Exclusive conn)
    (hs : step config s a = some t) : t.core.handed = s.core.handed ∨
      ∃ event job since, s.holder = some (.sending event job since) ∧
        t.core.handed = s.core.handed ++ [⟨job.receipt, job.channel, job.ts⟩] := by
  rcases step_cases hs with haround | ⟨conn, hconn, hstep⟩
  · cases haround <;> exact .inl rfl
  · cases holder_connected (hexclusive conn hconn) hstep with
    | quiet hstored => exact .inl (by rw [hstored.core])
    | turned call core outcome hcall hturned hcore =>
        have hhanded : t.core.handed = core.handed := by rw [hcore]
        rw [hhanded]
        cases hturned with
        | sending id ts thread => exact .inl (@remember_core config s.core id thread).2.2.2.1
        | admitted job since queue hsending =>
            refine .inr ⟨call.event, job, since, ?_, rfl⟩
            rw [State.holder, hconn, Option.bind_some, ← hsending]
            exact hcall.resolve_right fun ⟨_, event, hlocking⟩ =>
              (nomatch hlocking.symm.trans hsending)
        | harvested => exact .inl rfl
        | settled id thread => exact .inl (@remember_core config s.core id thread).2.2.2.1
        | failed => exact .inl rfl
        | refused => exact .inl rfl

theorem orderly_of_acknowledged {a : Action} (h : Acknowledged config s a) : Orderly s a := by
  cases a with
  | crash => contradiction
  | _ => trivial

def Lasting (config : Config) (core : Core) (record : Seen) (newer : List Seen) : Prop :=
  (∀ time ∈ core.prunes, time ≤ record.processedAt + config.window + OVERLAP) ∧
    newer.length < MAX_SEEN

theorem Memory.remembers {core : Core} (h : Memory config.window core) {older newer : List Seen}
    {record : Seen} (hrecorded : core.recorded = older ++ record :: newer)
    (hlasting : Lasting config core record newer) : record ∈ core.store.seen := by
  refine h.retained.mem hrecorded (List.all_eq_true.mpr fun time hmem => decide_eq_true ?_)
    hlasting.2
  have := hlasting.1 time hmem
  omega

/-- In runs in which every answer reaches a call that waits for it, a message that the
worker finished without error is recorded for its receipt unless a call is about to do
so, a record is among the messages processed as long as it lasts, and meanwhile no
message that it is of is handed to the worker again. -/
theorem harvested_once (hwindow : 1 ≤ config.window ∧ config.window ≤ 604800)
    (h : ReachableBy (machine config) (Acknowledged config) s) :
    (∀ handed ∈ s.core.handed, Harvested s.core handed.receipt →
      Awaiting s.holder handed.receipt ∧ s.core.answer handed.receipt = some true ∨
      ∃ record, (handed.receipt, record) ∈ s.core.recordings ∧ record.channel = handed.channel ∧
        record.ts = handed.ts) ∧
    (∀ older record newer, s.core.recorded = older ++ record :: newer →
      Lasting config s.core record newer → record ∈ s.core.store.seen) ∧
    ∀ a t next, step config s a = some t → t.core.handed = s.core.handed ++ [next] →
      (∀ older record newer, s.core.recorded = older ++ record :: newer →
        record.channel = next.channel → record.ts = next.ts → ¬ Lasting config s.core record newer) ∧
      ∀ handed ∈ s.core.handed, handed.channel = next.channel → handed.ts = next.ts →
        Harvested s.core handed.receipt → ∃ record, (handed.receipt, record) ∈ s.core.recordings ∧
          record.channel = next.channel ∧ record.ts = next.ts := by
  have hinv := harvestInv_reachable h
  have hmemory : Memory config.window s.core :=
    (memoryInv_reachable (by omega) (h.mono fun _ _ => orderly_of_acknowledged)).memory
  have hfor : ∀ handed ∈ s.core.handed, RecordedFor s.core handed.receipt →
      ∃ record, (handed.receipt, record) ∈ s.core.recordings ∧ record.channel = handed.channel ∧
        record.ts = handed.ts := by
    rintro handed hmem ⟨other, hother, hreceipt, hrecord⟩
    rwa [List.inj_on_of_nodup_map hinv.receipts.handed hother hmem hreceipt] at hrecord
  refine ⟨fun handed hmem hharvested => ?_, fun _ _ _ hrecorded hlasting =>
    hmemory.remembers hrecorded hlasting, ?_⟩
  · exact (hinv.receipts.harvested _ hharvested).imp_right (hfor handed hmem)
  · intro a t next hs hnext
    rcases handed_step hinv.exclusive hs with hsame | ⟨event, job, since, hholder, hadded⟩
    · rw [hsame] at hnext
      exact absurd (congrArg List.length hnext) (by simp)
    · rw [hadded] at hnext
      cases (List.append_inj_right' hnext rfl)
      refine ⟨fun older record newer hrecorded hchannel hts hlasting => ?_,
        fun handed hmem hchannel hts hharvested => ?_⟩
      · have hunseen := (hinv.receipts.sending event job since hholder).unseen
        rw [Bool.eq_false_iff, Ne, isSeen_iff] at hunseen
        exact hunseen ⟨record, hmemory.remembers hrecorded hlasting, hchannel, hts⟩
      · have hrecorded := (hinv.receipts.harvested _ hharvested).resolve_left (by
          rintro ⟨⟨_, _, _, hawaiting, -⟩, -⟩
          rw [hholder] at hawaiting
          cases hawaiting)
        obtain ⟨record, hrecord, hsame, hsameTs⟩ := hfor handed hmem hrecorded
        exact ⟨record, hrecord, hsame.trans hchannel, hsameTs.trans hts⟩

end

theorem harvested_of_any {core : Core} {receipt : Nat}
    (h : ((core.earlier ++ core.worker.handled).any fun handling =>
      handling.message.completion = some receipt ∧ handling.verdict = true) = true) :
    Harvested core receipt := by
  obtain ⟨handling, hmem, hfor⟩ := List.any_eq_true.mp h
  exact ⟨handling, hmem, of_decide_eq_true hfor⟩

/-- The connection is lost while the worker is busy with a message, and the recovery
of the next one finds it in the history. -/
def interruptedRun : List Action :=
  sampleConnect hello ++
    [.place (.text (some (sampleMessage "C1".toList "1000000000.000001".toList))), .read, .consume,
      .turn .live .lock, .turn .live .send, .worker (.work Worker.quiet), .fail,
      .worker (.work Worker.quiet), .saveAfter] ++
    sampleConnect hello ++ samplePass ++ [.turn .recovery .lock]

theorem harvested_twice :
    ∃ (s t : State) (first second : Handed), ReachableBy (machine sampleConfig) Orderly s ∧
      step sampleConfig s (.turn .recovery .send) = some t ∧ s.core.handed = [first] ∧
      t.core.handed = [first, second] ∧ second.channel = first.channel ∧ second.ts = first.ts ∧
      Harvested s.core first.receipt ∧ s.core.recorded = [] ∧
      Harvest.messageTimestamp first.ts = some s.now := by
  have hrun : ∃ s : State, ReachableBy (machine sampleConfig) Orderly s ∧
      ((step sampleConfig s (.turn .recovery .send)).any fun t =>
        t.core.handed = [⟨0, "C1".toList, "1000000000.000001".toList⟩,
          ⟨1, "C1".toList, "1000000000.000001".toList⟩]) = true ∧
      s.core.handed = [⟨0, "C1".toList, "1000000000.000001".toList⟩] ∧
      ((s.core.earlier ++ s.core.worker.handled).any fun handling =>
        handling.message.completion = some 0 ∧ handling.verdict = true) = true ∧
      s.core.recorded = [] ∧
      Harvest.messageTimestamp "1000000000.000001".toList = some s.now :=
    exists_reachableBy (s := initial "T1".toList "U1".toList (1000000000 * SECOND)) interruptedRun
      ⟨_, _, _, rfl⟩ (by decide)
  obtain ⟨s, hs, ht, hhanded, hharvested, hrecorded, hnow⟩ := hrun
  obtain ⟨t, hstep, hboth⟩ := (Option.any_eq_true _ _).mp ht
  exact ⟨s, t, _, _, hs, hstep, hhanded, of_decide_eq_true hboth, rfl, rfl,
    harvested_of_any hharvested, hrecorded, hnow⟩

theorem harvested_once_live :
    ∃ s : State, s.core.handed = [⟨0, "C1".toList, "1000000000.000001".toList⟩] ∧
      Harvested s.core 0 ∧ ∃ record, (0, record) ∈ s.core.recordings ∧
        record.channel = "C1".toList ∧ record.ts = "1000000000.000001".toList := by
  have hrun : ∃ s : State, ReachableBy (machine sampleConfig) (Acknowledged sampleConfig) s ∧
      s.core.handed = [⟨0, "C1".toList, "1000000000.000001".toList⟩] ∧
      ((s.core.earlier ++ s.core.worker.handled).any fun handling =>
        handling.message.completion = some 0 ∧ handling.verdict = true) = true ∧
      owed s.core s.holder = false :=
    exists_reachableBy (s := initial "T1".toList "U1".toList (1000000000 * SECOND)) harvestedRun
      ⟨_, _, _, rfl⟩ (by decide)
  obtain ⟨s, hs, hhanded, hharvested, howed⟩ := hrun
  obtain ⟨hrecorded, -, -⟩ := harvested_once (by decide) hs
  have hfirst := hrecorded ⟨0, "C1".toList, "1000000000.000001".toList⟩
    (by rw [hhanded]; exact List.mem_singleton.mpr rfl) (harvested_of_any hharvested)
  exact ⟨s, hhanded, harvested_of_any hharvested, hfirst.resolve_left (not_awaiting howed)⟩

end SjmbSlack.UserSession.Session
