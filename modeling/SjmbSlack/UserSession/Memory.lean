import SjmbSlack.Library.Retention
import SjmbSlack.UserSession.Checkpoints

/-! How long a session remembers the messages it has harvested: the list of
processed messages against everything it ever recorded. -/
namespace SjmbSlack.UserSession.Session
open Machine Api Slackbot Retention

def lasts (window : Int) (prunes : List Int) (record : Seen) : Bool :=
  prunes.all fun time => record.processedAt ≥ time - window - OVERLAP

structure Memory (window : Int) (core : Core) : Prop where
  retained : Retained MAX_SEEN (lasts window core.prunes) core.recorded core.store.seen
  prunes : ∀ time ∈ core.prunes, time ≤ core.now
  recorded : ∀ record ∈ core.recorded, record.processedAt ≤ core.now

inductive Remembers (window : Int) (core after : Core) : Prop where
  | same (hseen : after.store.seen = core.store.seen) (hprunes : after.prunes = core.prunes)
      (hrecorded : after.recorded = core.recorded)
  | pruned (time : Int) (htime : time ≤ core.now)
      (hseen : after.store.seen = Snapshot.pruneSeen window time core.store.seen)
      (hprunes : after.prunes = time :: core.prunes) (hrecorded : after.recorded = core.recorded)
  | recorded (record : Seen) (htime : record.processedAt = core.now)
      (hseen : after.store.seen = Snapshot.pruneSeen window core.now (core.store.seen ++ [record]))
      (hprunes : after.prunes = core.now :: core.prunes)
      (hrecorded : after.recorded = core.recorded ++ [record])

theorem pruneSeen_retained {window time : Int} {prunes : List Int} {recorded seen : List Seen}
    (h : Retained MAX_SEEN (lasts window prunes) recorded seen) :
    Retained MAX_SEEN (lasts window (time :: prunes)) recorded
      (Snapshot.pruneSeen window time seen) :=
  (h.filter fun record => record.processedAt ≥ time - window - OVERLAP).trim

theorem Memory.step {window : Int} {core after : Core} (hwindow : 0 ≤ window)
    (h : Memory window core) (hnow : core.now ≤ after.now)
    (hremembers : Remembers window core after) : Memory window after := by
  have hpast : ∀ time, time ∈ core.prunes → time ≤ after.now := fun time hmem =>
    (h.prunes time hmem).trans hnow
  have hrecords : ∀ record ∈ core.recorded, record.processedAt ≤ after.now := fun record hmem =>
    (h.recorded record hmem).trans hnow
  cases hremembers with
  | same hseen hprunes hrecorded =>
      exact ⟨by rw [hseen, hprunes, hrecorded]; exact h.retained, by rw [hprunes]; exact hpast,
        by rw [hrecorded]; exact hrecords⟩
  | pruned time htime hseen hprunes hrecorded =>
      refine ⟨?_, fun other hmem => ?_, by rw [hrecorded]; exact hrecords⟩
      · rw [hseen, hprunes, hrecorded]
        exact pruneSeen_retained h.retained
      · rw [hprunes] at hmem
        rcases List.mem_cons.mp hmem with rfl | hmem
        · exact htime.trans hnow
        · exact hpast other hmem
  | recorded record htime hseen hprunes hrecorded =>
      have hlasts : lasts window core.prunes record = true := by
        refine List.all_eq_true.mpr fun time hmem => decide_eq_true ?_
        have := h.prunes time hmem
        unfold OVERLAP
        omega
      refine ⟨?_, fun other hmem => ?_, fun other hmem => ?_⟩
      · rw [hseen, hprunes, hrecorded]
        exact pruneSeen_retained (h.retained.push hlasts)
      · rw [hprunes] at hmem
        rcases List.mem_cons.mp hmem with rfl | hmem
        · exact hnow
        · exact hpast other hmem
      · rw [hrecorded] at hmem
        rcases List.mem_append.mp hmem with hmem | hmem
        · exact hrecords other hmem
        · rw [List.mem_singleton.mp hmem, htime]
          exact hnow

section

variable {config : Config} {s t : State} {conn : Connection}

theorem Remembers.congr {window : Int} {core after last : Core} (h : Remembers window core after)
    (hseen : last.store.seen = after.store.seen) (hprunes : last.prunes = after.prunes)
    (hrecorded : last.recorded = after.recorded) : Remembers window core last := by
  cases h with
  | same hs hp hr => exact .same (hseen.trans hs) (hprunes.trans hp) (hrecorded.trans hr)
  | pruned time htime hs hp hr =>
      exact .pruned time htime (hseen.trans hs) (hprunes.trans hp) (hrecorded.trans hr)
  | recorded record htime hs hp hr =>
      exact .recorded record htime (hseen.trans hs) (hprunes.trans hp) (hrecorded.trans hr)

theorem remember_remembers (core : Core) (id : Str) (thread : Option Str) :
    Remembers config.window core (Process.remember config core id thread) := by
  cases thread with
  | none => exact .same rfl rfl rfl
  | some parent => exact .pruned core.now le_rfl (Snapshot.seen_rememberThread ..) rfl rfl

theorem Turned.remembers {core after : Core} {call : Process} {outcome : Outcome}
    (h : Turned config core call after outcome) : Remembers config.window core after := by
  cases h with
  | sending id ts thread => exact (remember_remembers core id thread).congr rfl rfl rfl
  | admitted => exact .same rfl rfl rfl
  | harvested job =>
      exact .recorded ⟨job.channel, job.ts, core.now⟩ rfl (Snapshot.seen_processed ..) rfl
        (Process.recorded_record config core job)
  | settled id thread => exact (remember_remembers core id thread).congr rfl rfl rfl
  | failed => exact .same rfl rfl rfl
  | refused => exact .same rfl rfl rfl

theorem CoreStep.remembers {a : Action} (h : CoreStep config s conn t a)
    (hbegan : conn.began ≤ s.now) : Remembers config.window s.core t.core := by
  cases h with
  | store a hstored =>
      have hrecorded : t.core.recorded = s.core.recorded := by rw [Core.recorded, hstored.core]; rfl
      rcases hstored.seen with ⟨hseen, hprunes⟩ | ⟨time, htime, hseen, hprunes⟩
      · exact .same hseen hprunes hrecorded
      · refine .pruned time ?_ hseen hprunes hrecorded
        rcases htime with rfl | rfl
        · exact le_rfl
        · exact hbegan
  | live turn call core outcome hconsumer hstep hcore => exact hcore ▸ (turned hstep).remembers
  | recovery turn paging events response call core outcome hrecovery hstep hcore hseen =>
      exact (turned hstep).remembers.congr hseen (by rw [hcore]) (by rw [Core.recorded, hcore]; rfl)

end

def Orderly (_ : State) : Action → Prop
  | .crash _ => False
  | _ => True

instance (s : State) (a : Action) : Decidable (Orderly s a) := by
  unfold Orderly
  split <;> infer_instance

structure MemoryInv (config : Config) (s : State) : Prop where
  memory : Memory config.window s.core
  began : ∀ conn, s.connection = some conn → conn.began ≤ s.now

theorem memoryInv_step {config : Config} {s t : State} {a : Action} (hwindow : 0 ≤ config.window)
    (h : MemoryInv config s) (horderly : Orderly s a) (hs : step config s a = some t) :
    MemoryInv config t := by
  have hnow : s.now ≤ t.now := now_mono hs
  have hsame : Remembers config.window s.core t.core → Memory config.window t.core :=
    h.memory.step hwindow hnow
  rcases step_cases hs with haround | ⟨conn, hconn, hstep⟩
  · cases haround with
    | advance | worker | saveAfter =>
        exact ⟨hsame (.same rfl rfl rfl), fun conn hconn => (h.began conn hconn).trans hnow⟩
    | post event channel ts =>
        refine ⟨hsame (.same rfl rfl rfl), fun after hafter => ?_⟩
        obtain ⟨conn, hconn, rfl⟩ := Option.map_eq_some_iff.mp hafter
        have hbegan : (posting event conn).began = conn.began := by
          unfold posting
          split <;> rfl
        exact hbegan ▸ (h.began conn hconn).trans hnow
    | connect =>
        refine ⟨hsame (.same rfl rfl rfl), fun after hafter => ?_⟩
        cases Option.some.inj hafter
        exact le_rfl
    | stop | restart => exact ⟨hsame (.same rfl rfl rfl), fun _ hafter => by cases hafter⟩
    | crash => exact horderly.elim
  · have hbegan := h.began conn hconn
    refine ⟨hsame ((core_connected hstep).remembers hbegan), fun after hafter => ?_⟩
    rw [began_connected hstep hafter]
    exact hbegan.trans hnow

theorem memoryInv_reachable {config : Config} {s : State} (hwindow : 0 ≤ config.window)
    (h : ReachableBy (machine config) Orderly s) : MemoryInv config s := by
  refine h.invariant (P := MemoryInv config) ?_
    fun _ _ _ _ hinv horderly hs => memoryInv_step hwindow hinv horderly hs
  rintro s ⟨team, user, clock, rfl⟩
  exact ⟨⟨.nil, by simp [initial], by simp [initial, Core.recorded]⟩, fun _ hconn => by cases hconn⟩

/-- The event that the recovery has handed to `process`, before its message is
looked up. -/
def Recovery.handing? : Recovery → Option (Paging × Json)
  | .processing paging _ _ (.locking event) => some (paging, event)
  | _ => none

structure Hands (config : Config) (s : State) (conn : Connection) (id ts : Str)
    (thread : Option Str) : Prop where
  connection : s.connection = some conn
  event : ∃ paging event message, conn.recovery.handing? = some (paging, event) ∧
    normalise config.decode event = some (message, ts, thread) ∧ message.channel = some id

def found (config : Config) (s : State) (id ts : Str) (thread : Option Str) : Bool :=
  (Process.remember config s.core id thread).store.isSeen id ts

def prunedBy (config : Config) (s : State) (id : Str) (thread : Option Str) : List Int :=
  (Process.remember config s.core id thread).prunes

theorem isSeen_iff {data : Snapshot} {id ts : Str} : data.isSeen id ts = true ↔
    ∃ record ∈ data.seen, record.channel = id ∧ record.ts = ts := by
  unfold Snapshot.isSeen
  rw [List.any_eq_true]
  simp

theorem second_of_hands {config : Config} {s : State} {conn : Connection} {id ts : Str}
    {thread : Option Str} (h : Hands config s conn id ts thread) (hpass : Passing s)
    (hresumed : Resuming config s) :
    ∃ second, Harvest.messageTimestamp ts = some second ∧ conn.began - config.window ≤ second := by
  obtain ⟨paging, event, message, hhanding, hnormalise, -⟩ := h.event
  have hinv := (hpass conn h.connection).recovery
  have hcurrent := (hresumed conn h.connection).current paging
  unfold Recovery.handing? at hhanding
  split at hhanding
  · rename_i hrecovery
    cases Option.some.inj hhanding
    rw [hrecovery] at hinv hcurrent
    obtain ⟨-, hrange, -⟩ := hinv
    obtain ⟨coveredUntil, -, holdest⟩ := hcurrent rfl
    obtain ⟨second, hsecond, hin⟩ := (Option.any_eq_true _ _).mp hrange
    have hin := of_decide_eq_true hin
    obtain ⟨-, hts, -⟩ := normalise_some hnormalise
    rw [eventSecond, Process.event, hts, Option.bind_some] at hsecond
    refine ⟨second, hsecond, ?_⟩
    unfold oldestOf at holdest
    omega
  · contradiction

/-- A message that was recorded is still found when the recovery hands it over again
if and only if no prune came too late for a record of it; that is so in the first
`OVERLAP` seconds of a connection. -/
theorem recorded_found_iff {config : Config} {s : State} {conn : Connection} {id ts : Str}
    {thread : Option Str} (hwindow : 1 ≤ config.window ∧ config.window ≤ 604800)
    (h : ReachableBy (machine config) Orderly s) (hcount : s.core.recorded.length ≤ MAX_SEEN)
    (hhands : Hands config s conn id ts thread) :
    (found config s id ts thread = true ↔
      ∃ record ∈ s.core.recorded, record.channel = id ∧ record.ts = ts ∧
        ∀ time ∈ prunedBy config s id thread,
          time ≤ record.processedAt + config.window + OVERLAP) ∧
    ∀ record ∈ s.core.recorded, record.channel = id → record.ts = ts →
      (∀ second, Harvest.messageTimestamp ts = some second → second ≤ record.processedAt) →
      s.now ≤ conn.began + OVERLAP → found config s id ts thread = true := by
  have hinv := memoryInv_reachable (by omega) h
  have hnow : (Process.remember config s.core id thread).now = s.now := by cases thread <;> rfl
  have hrecorded : (Process.remember config s.core id thread).recorded = s.core.recorded :=
    congrArg (List.map Prod.snd) (remember_core s.core id thread).2.2.1
  have hmemory : Memory config.window (Process.remember config s.core id thread) :=
    hinv.memory.step (by omega) hnow.ge (remember_remembers s.core id thread)
  have hretained := hmemory.retained
  rw [hrecorded] at hretained
  have hiff : found config s id ts thread = true ↔
      ∃ record ∈ s.core.recorded, record.channel = id ∧ record.ts = ts ∧
        ∀ time ∈ prunedBy config s id thread,
          time ≤ record.processedAt + config.window + OVERLAP := by
    unfold found
    rw [isSeen_iff]
    constructor
    · rintro ⟨record, hmem, hchannel, hts⟩
      obtain ⟨hmem, hlasts⟩ := (hretained.mem_iff hcount).mp hmem
      refine ⟨record, hmem, hchannel, hts, fun time htime => ?_⟩
      have := of_decide_eq_true (List.all_eq_true.mp hlasts time htime)
      omega
    · rintro ⟨record, hmem, hchannel, hts, hlasts⟩
      refine ⟨record, (hretained.mem_iff hcount).mpr ⟨hmem, ?_⟩, hchannel, hts⟩
      refine List.all_eq_true.mpr fun time htime => decide_eq_true ?_
      have := hlasts time htime
      omega
  refine ⟨hiff, fun record hmem hchannel hts hsecond hsoon => hiff.mpr ?_⟩
  obtain ⟨second, hparsed, hafter⟩ :=
    second_of_hands hhands (passing_reachable h) (resuming_reachable h)
  refine ⟨record, hmem, hchannel, hts, fun time htime => ?_⟩
  have hpast := hmemory.prunes time htime
  have := hsecond second hparsed
  omega

def shortConfig : Config := { sampleConfig with window := 1 }

def sampleHistory (messages : List Json) : Json := .obj [("messages".toList, .arr messages)]

def harvestedRun : List Action :=
  sampleConnect hello ++
    [.place (.text (some (sampleMessage "C1".toList "1000000000.000001".toList))), .read, .consume,
      .turn .live .lock, .turn .live .send, .worker (.work Worker.quiet),
      .worker (.work Worker.quiet), .turn .live .receipt, .fail, .saveAfter]

def samplePass : List Action :=
  [.startPass, .choose, .page (.ok (sampleHistory
    [sampleMessage "C1".toList "1000000000.000001".toList])), .scan]

/-- The first pass after that fails, and the next one comes two minutes later. -/
def lateRun : List Action :=
  harvestedRun ++ sampleConnect hello ++ [.startPass, .choose, .page (.error .other), .choose] ++
    [.advance (122 * SECOND)] ++ samplePing 1 ++ [.read, .consume] ++ samplePass

theorem handed_of_any {config : Config} {s : State} {id ts : Str} {thread : Option Str}
    (h : (s.connection.any fun conn => conn.recovery.handing?.any fun handed =>
      (normalise config.decode handed.2).any fun found =>
        found.1.channel = some id ∧ found.2 = (ts, thread)) = true) :
    ∃ conn, Hands config s conn id ts thread := by
  obtain ⟨conn, hconn, h⟩ := (Option.any_eq_true _ _).mp h
  obtain ⟨⟨paging, event⟩, hhanding, h⟩ := (Option.any_eq_true _ _).mp h
  obtain ⟨⟨message, rest⟩, hnormalise, h⟩ := (Option.any_eq_true _ _).mp h
  obtain ⟨hchannel, rfl⟩ := of_decide_eq_true h
  exact ⟨conn, hconn, paging, event, message, hhanding, hnormalise, hchannel⟩

theorem recorded_not_found :
    ∃ s conn record, ReachableBy (machine shortConfig) Orderly s ∧
      s.core.recorded.length ≤ MAX_SEEN ∧ record ∈ s.core.recorded ∧
      Harvest.messageTimestamp record.ts = some record.processedAt ∧
      Hands shortConfig s conn record.channel record.ts none ∧
      found shortConfig s record.channel record.ts none = false := by
  have hrun : ∃ s, ReachableBy (machine shortConfig) Orderly s ∧
      s.core.recorded = [⟨"C1".toList, "1000000000.000001".toList, 1000000000⟩] ∧
      (s.connection.any fun conn => conn.recovery.handing?.any fun handed =>
        (normalise shortConfig.decode handed.2).any fun found =>
          found.1.channel = some "C1".toList ∧
            found.2 = ("1000000000.000001".toList, none)) = true ∧
      found shortConfig s "C1".toList "1000000000.000001".toList none = false :=
    exists_reachableBy (s := initial "T1".toList "U1".toList (1000000000 * SECOND)) lateRun
      ⟨_, _, _, rfl⟩ (by decide)
  obtain ⟨s, hs, hrecorded, hhanded, hfound⟩ := hrun
  obtain ⟨conn, hhands⟩ := handed_of_any hhanded
  exact ⟨s, conn, ⟨"C1".toList, "1000000000.000001".toList, 1000000000⟩, hs,
    by rw [hrecorded]; decide, by rw [hrecorded]; exact List.mem_singleton.mpr rfl, by decide,
    hhands, hfound⟩

theorem recorded_found_soon :
    ∃ s conn, Hands shortConfig s conn "C1".toList "1000000000.000001".toList none ∧
      found shortConfig s "C1".toList "1000000000.000001".toList none = true := by
  have hrun : ∃ s, ReachableBy (machine shortConfig) Orderly s ∧
      s.core.recorded = [⟨"C1".toList, "1000000000.000001".toList, 1000000000⟩] ∧
      (s.connection.any fun conn => conn.recovery.handing?.any fun handed =>
        (normalise shortConfig.decode handed.2).any fun found =>
          found.1.channel = some "C1".toList ∧
            found.2 = ("1000000000.000001".toList, none)) = true ∧
      ∀ time ∈ prunedBy shortConfig s "C1".toList none, time ≤ 1000000000 + 1 + OVERLAP :=
    exists_reachableBy (s := initial "T1".toList "U1".toList (1000000000 * SECOND))
      (harvestedRun ++ sampleConnect hello ++ samplePass) ⟨_, _, _, rfl⟩ (by decide)
  obtain ⟨s, hs, hrecorded, hhanded, hpruned⟩ := hrun
  obtain ⟨conn, hhands⟩ := handed_of_any hhanded
  refine ⟨s, conn, hhands, ?_⟩
  obtain ⟨hiff, -⟩ := recorded_found_iff (by decide) hs (by rw [hrecorded]; decide) hhands
  exact hiff.mpr ⟨_, by rw [hrecorded]; exact List.mem_singleton.mpr rfl, rfl, rfl, hpruned⟩

end SjmbSlack.UserSession.Session
