import SjmbSlack.Harvest.Links
import SjmbSlack.SocketMode.Admission
import SjmbSlack.SocketMode.SessionMoves
import SjmbSlack.SocketMode.SupervisorRuns

/-! Runs of the Socket Mode backend refine the systems of its parts: the control
loop, the admission over the shared cache, and for each session its worker and the
health of its workspaces. -/
namespace SjmbSlack.SocketMode.Sessions
open Machine Limits Slackbot Slackbot.Worker Ingress

variable {config : Config} {s t : State}

def Extracting (config : Config) (_ : Session) (action : Session.Action) : Prop :=
  ∀ world, action = .work world → ∃ given, world = extracting config given

abbrev Reached (config : Config) : Session → Prop :=
  ReachableBy Session.machine (Extracting config)

theorem Reached.sound {session : Session} (h : Reached config session) : session.Sound := by
  refine h.reachable.invariant (P := Session.Sound) ?_ fun _ _ _ _ hsound _ hstep =>
    Session.sound_step hsound hstep
  rintro session ⟨clock, rfl⟩
  exact Session.sound_new clock

theorem Reached.plain {session changed : Session} {action : Session.Action} (h : Reached config session)
    (hplain : action.plain = true) (hstep : session.step action = some changed) :
    Reached config changed := by
  refine .next h ?_ hstep
  rintro world rfl
  cases hplain

theorem lock_cases {position : Nat} {iteration : Iteration (Entry EventKey Unit)}
    (h : lock s position iteration = some t) :
    ∃ call session, s.waiting[position]? = some call ∧ s.sessions[call.session]? = some session ∧
      let after := Ingress.enqueue iteration { s.ingress with waiting := s.waiting.eraseIdx position } call
        session.ingress
      ∃ sessions, t = { s with
        seen := after.seen
        counters := { s.counters with
          full := after.counters.full, duplicates := after.counters.duplicates }
        waiting := after.waiting
        admitted := after.admitted
        results := after.results
        sessions := sessions } ∧
        (((s.seen.get call.key s.clock).1.isSome = true ∧ sessions = s.sessions) ∨
          ((s.seen.get call.key s.clock).1 = none ∧ ∃ changed,
            session.step (.send call.message) = some changed ∧
            sessions = s.sessions.set call.session changed)) := by
  obtain ⟨call, hcall, h⟩ := Option.bind_eq_some_iff.mp h
  obtain ⟨session, hsession, h⟩ := Option.bind_eq_some_iff.mp h
  refine ⟨call, session, hcall, hsession, ?_⟩
  dsimp only at h
  split at h
  · rename_i hhit
    exact ⟨s.sessions, (Option.some.inj h).symm, .inl ⟨hhit, rfl⟩⟩
  · rename_i hmiss
    obtain ⟨found, changed, hfound, hchanged, rfl⟩ := onSession_eq h
    rw [hsession] at hfound
    cases Option.some.inj hfound
    exact ⟨_, rfl, .inr ⟨by simpa using hmiss, changed, hchanged, rfl⟩⟩

theorem mem_set_or {sessions : List Session} {index : Nat} {changed session : Session}
    (h : session ∈ sessions.set index changed) : session ∈ sessions ∨ session = changed :=
  List.mem_or_eq_of_mem_set h

theorem reached_move (h : ∀ session ∈ s.sessions, Reached config session) (hmove : Move config s t) :
    ∀ session ∈ t.sessions, Reached config session := by
  cases hmove with
  | controlled | ignored | discarded | waited | refused | reported => exact h
  | acted index action session changed hplain hsession hstep =>
      intro other hmem
      rcases mem_set_or hmem with hold | rfl
      · exact h other hold
      · exact (h session (List.mem_of_getElem? hsession)).plain hplain hstep
  | advanced elapsed =>
      intro other hmem
      obtain ⟨session, hsession, rfl⟩ := List.mem_map.mp hmem
      exact .next (a := .advance elapsed) (h session hsession) (fun world hworld => by cases hworld) rfl
  | began =>
      intro other hmem
      rcases List.mem_append.mp hmem with hold | hnew
      · exact h other hold
      · cases List.mem_singleton.mp hnew
        exact .start ⟨s.clock, rfl⟩
  | worked world session worked hsession hstep =>
      intro other hmem
      rcases mem_set_or hmem with hold | rfl
      · exact h other hold
      · refine .next (a := .work (extracting config world)) (h session (List.mem_of_getElem? hsession)) ?_ hstep
        intro given hgiven
        cases hgiven
        exact ⟨world, rfl⟩
  | locked position iteration t hstep =>
      obtain ⟨call, session, -, hsession, sessions, rfl, hsessions⟩ := lock_cases hstep
      rcases hsessions with ⟨-, rfl⟩ | ⟨-, changed, hsent, rfl⟩
      · exact h
      · intro other hmem
        rcases mem_set_or hmem with hold | rfl
        · exact h other hold
        · refine .next (a := .send call.message) (h session (List.mem_of_getElem? hsession)) ?_ hsent
          intro world hworld
          cases hworld

theorem sessions_reached (h : Reachable (machine config) s) :
    ∀ session ∈ s.sessions, Reached config session := by
  refine moves_invariant (P := fun s => ∀ session ∈ s.sessions, Reached config session) ?_
    (fun _ _ => reached_move) h
  intro clock session hmem
  cases List.mem_singleton.mp hmem
  exact .start ⟨clock, rfl⟩

theorem clock_of_quiet {total : Nat} {control changed : Supervisor.State} {action : Supervisor.Action}
    (hquiet : ∀ elapsed, action ≠ .advance elapsed)
    (h : Supervisor.step total control action = some changed) : changed.clock = control.clock := by
  cases Supervisor.stepped_of_step h with
  | advanced elapsed => exact absurd rfl (hquiet elapsed)
  | closing => simp [Supervisor.State.close]
  | closed => simp
  | signalled | staged | drained | returned | slept | restarted => rfl

theorem ingress_set {index : Nat} {session : Session} (changed : Session)
    (hsession : s.sessions[index]? = some session) (hsame : changed.ingress = session.ingress) :
    (s.sessions.set index changed).map Session.ingress = s.sessions.map Session.ingress := by
  obtain ⟨hlt, rfl⟩ := List.getElem?_eq_some_iff.mp hsession
  rw [List.map_set, hsame, ← List.map_set, List.set_getElem_self]

abbrev admission : System Ingress.State Ingress.Action := Ingress.machine 8192 (Nat.zero_lt_succ 8191)

theorem reachable_one {i j : Ingress.State} {a : Ingress.Action} (h : Reachable admission i)
    (hstep : Ingress.step i a = some j) : Reachable admission j :=
  .next h trivial hstep

theorem reachable_session {i : Ingress.State} (h : Reachable admission i) {index : Nat}
    {session : Ingress.Session} (hsession : i.sessions[index]? = some session)
    {a : Ingress.Action} {change : Ingress.Session → Option Ingress.Session}
    (haction : Ingress.step i a = onSession i index change) {changed : Ingress.Session}
    (hchange : change session = some changed) :
    Reachable admission { i with sessions := i.sessions.set index changed } := by
  refine reachable_one h (haction.trans ?_)
  simp [onSession, hsession, hchange]

theorem ingress_getElem {index : Nat} {session : Session} (h : s.sessions[index]? = some session) :
    s.ingress.sessions[index]? = some session.ingress := by
  simp [State.ingress, h]

theorem ingress_acted {index : Nat} {action : Session.Action} {session changed : Session}
    (h : Reachable admission s.ingress) (hplain : action.plain = true)
    (hsession : s.sessions[index]? = some session) (hstep : session.step action = some changed) :
    Reachable admission { s with sessions := s.sessions.set index changed }.ingress := by
  have hsame (heq : changed.ingress = session.ingress) :
      Reachable admission { s with sessions := s.sessions.set index changed }.ingress := by
    have : { s with sessions := s.sessions.set index changed }.ingress = s.ingress := by
      simp only [State.ingress, State.clock, ingress_set changed hsession heq]
    rw [this]
    exact h
  have hset : { s with sessions := s.sessions.set index changed }.ingress =
      { s.ingress with sessions := s.ingress.sessions.set index changed.ingress } := by
    simp only [State.ingress, State.clock, List.map_set]
  cases Session.stepped_of_step hstep with
  | joined | health | shut => exact hsame rfl
  | closed =>
      rw [hset]
      exact reachable_session h (ingress_getElem hsession) (a := .stopAccepting index) rfl rfl
  | dropped haccepting =>
      rw [hset]
      refine reachable_session h (ingress_getElem hsession) (a := .dropWorker index) rfl ?_
      cases hdropped : session.dropped <;> simp [Session.ingress, hdropped, Mpsc.dropReceiver]
  | advanced | worked | lost | sent => cases hplain

theorem ingress_worked {index : Nat} {world : World} {session worked : Session} {counters : Counters}
    (hfull : counters.full = s.counters.full) (hduplicates : counters.duplicates = s.counters.duplicates)
    (h : Reachable admission s.ingress) (hsession : s.sessions[index]? = some session)
    (hstep : session.step (.work world) = some worked) :
    Reachable admission
      { s with sessions := s.sessions.set index worked, counters := counters }.ingress := by
  have hset : { s with sessions := s.sessions.set index worked, counters := counters }.ingress =
      { s.ingress with sessions := s.ingress.sessions.set index worked.ingress } := by
    simp only [State.ingress, State.clock, List.map_set, hfull, hduplicates]
  rw [hset]
  cases Session.stepped_of_step hstep with
  | worked world worker hlive hworker =>
      have hfound := ingress_getElem hsession
      have hsame (hqueue : worker.queue = session.worker.queue) : Reachable admission { s.ingress with
          sessions := s.ingress.sessions.set index { session with worker := worker }.ingress } := by
        have : { session with worker := worker }.ingress = session.ingress := by
          simp [Session.ingress, hqueue]
        obtain ⟨hlt, heq⟩ := List.getElem?_eq_some_iff.mp hfound
        rw [this, ← heq, List.set_getElem_self]
        exact h
      cases htask : session.worker.task with
      | selecting =>
          simp only [Worker.step, htask] at hworker
          unfold select at hworker
          split at hworker
          · cases Option.some.inj hworker
            refine reachable_session h hfound (a := .drain index) rfl ?_
            simp [Session.ingress, hlive]
          · split at hworker
            · split at hworker
              · cases Option.some.inj hworker
                exact hsame rfl
              · contradiction
            · rename_i hrecv
              split at hworker <;> cases Option.some.inj hworker <;>
                refine reachable_session h hfound (a := .receive index) rfl ?_ <;>
                simp [Session.ingress, hlive, hrecv]
      | handling message takenAt =>
          simp only [Worker.step, htask] at hworker
          cases Option.some.inj hworker
          exact hsame rfl
      | returned =>
          simp only [Worker.step, htask] at hworker
          contradiction

theorem ingress_sent {session changed : Session} {message : QueuedMessage}
    (h : session.step (.send message) = some changed) :
    (∀ queue, session.ingress.queue.trySend message = .ok queue →
      changed.ingress = { session.ingress with queue := queue }) ∧
    ∀ error, session.ingress.queue.trySend message = .error error → changed.ingress = session.ingress := by
  cases Session.stepped_of_step h with
  | lost _ hdropped =>
      refine ⟨fun queue hqueue => ?_, fun _ _ => rfl⟩
      simp [Session.ingress, hdropped, Mpsc.dropReceiver, Mpsc.trySend] at hqueue
  | sent _ worker hlive hworker =>
      simp only [Worker.step] at hworker
      split at hworker
      · contradiction
      · have hqueue : session.ingress.queue = session.worker.queue := by simp [Session.ingress, hlive]
        rw [hqueue]
        split at hworker <;> rename_i hsend <;> cases Option.some.inj hworker <;> rw [hsend]
        · refine ⟨fun queue hok => ?_, fun _ hno => by cases hno⟩
          cases hok
          simp [Session.ingress, hlive]
        · exact ⟨fun _ hno => (by cases hno), fun _ _ => rfl⟩

inductive Enqueued (i : Ingress.State) (call : Call) (session : Ingress.Session) : Ingress.State → Prop where
  | duplicate (seen : ExpiringCache EventKey Unit) (hget : (i.seen.get call.key i.clock).1.isSome = true) :
      Enqueued i call session { i with
        seen := seen
        counters := { i.counters with duplicates := i.counters.duplicates + 1 }
        results := i.results ++ [.ok ()] }
  | queued (seen : ExpiringCache EventKey Unit) (queue : Mpsc QueuedMessage)
      (hget : (i.seen.get call.key i.clock).1 = none)
      (hsend : session.queue.trySend call.message = .ok queue) :
      Enqueued i call session { i with
        seen := seen
        sessions := i.sessions.set call.session { session with queue := queue }
        admitted := i.admitted ++ [⟨call.key, i.clock⟩]
        results := i.results ++ [.ok ()] }
  | full (seen : ExpiringCache EventKey Unit) (hget : (i.seen.get call.key i.clock).1 = none)
      (hsend : session.queue.trySend call.message = .error .full) :
      Enqueued i call session { i with
        seen := seen
        counters := { i.counters with full := i.counters.full + 1 }
        results := i.results ++ [.ok ()] }
  | closed (seen : ExpiringCache EventKey Unit) (hget : (i.seen.get call.key i.clock).1 = none)
      (hsend : session.queue.trySend call.message = .error .closed) :
      Enqueued i call session { i with seen := seen, results := i.results ++ [.error {}] }

theorem enqueued (iteration : Iteration (Entry EventKey Unit)) (i : Ingress.State) (call : Call)
    (session : Ingress.Session) : Enqueued i call session (Ingress.enqueue iteration i call session) := by
  unfold Ingress.enqueue
  dsimp only
  split
  · rename_i seen hget
    exact .duplicate seen (by rw [hget]; rfl)
  · rename_i seen hget
    have hnone : (i.seen.get call.key i.clock).1 = none := by rw [hget]
    split
    · rename_i queue hsend
      exact .queued _ queue hnone hsend
    · rename_i hsend
      exact .full seen hnone hsend
    · rename_i hsend
      exact .closed seen hnone hsend

theorem Enqueued.waiting {i after : Ingress.State} {call : Call} {session : Ingress.Session}
    (h : Enqueued i call session after) : after.waiting = i.waiting := by
  cases h <;> rfl

theorem ingress_locked {position : Nat} {iteration : Iteration (Entry EventKey Unit)}
    (h : Reachable admission s.ingress) (hstep : lock s position iteration = some t) :
    Reachable admission t.ingress := by
  obtain ⟨call, session, hcall, hsession, sessions, rfl, hsessions⟩ := lock_cases hstep
  have hfound := ingress_getElem hsession
  have hlocked : Ingress.step s.ingress (.lock position iteration) =
      some (Ingress.enqueue iteration { s.ingress with waiting := s.waiting.eraseIdx position } call
        session.ingress) := by
    simp only [Ingress.step, show s.ingress.waiting = s.waiting from rfl, hcall, Option.bind_eq_bind,
      Option.bind_some, hfound]
    rfl
  refine reachable_one h (hlocked.trans (congrArg some ?_))
  have hafter := enqueued iteration { s.ingress with waiting := s.waiting.eraseIdx position } call
    session.ingress
  generalize Ingress.enqueue iteration { s.ingress with waiting := s.waiting.eraseIdx position } call
    session.ingress = after at hafter ⊢
  -- The sessions are what `enqueue` makes of them.
  cases hafter with
  | duplicate seen hget =>
      rcases hsessions with ⟨-, rfl⟩ | ⟨hmiss, -⟩
      · rfl
      · exact absurd hmiss (Option.isSome_iff_ne_none.mp hget)
  | queued seen queue hget hsend =>
      rcases hsessions with ⟨hhit, -⟩ | ⟨-, changed, hsent, rfl⟩
      · exact absurd hget (Option.isSome_iff_ne_none.mp hhit)
      · simp only [State.ingress, State.clock, List.map_set, (ingress_sent hsent).1 queue hsend]
  | full seen hget hsend =>
      rcases hsessions with ⟨hhit, -⟩ | ⟨-, changed, hsent, rfl⟩
      · exact absurd hget (Option.isSome_iff_ne_none.mp hhit)
      · simp only [State.ingress, State.clock, ingress_set changed hsession ((ingress_sent hsent).2 _ hsend)]
  | closed seen hget hsend =>
      rcases hsessions with ⟨hhit, -⟩ | ⟨-, changed, hsent, rfl⟩
      · exact absurd hget (Option.isSome_iff_ne_none.mp hhit)
      · simp only [State.ingress, State.clock, ingress_set changed hsession ((ingress_sent hsent).2 _ hsend)]

theorem ingress_move (h : Reachable admission s.ingress) (hmove : Move config s t) :
    Reachable admission t.ingress := by
  cases hmove with
  | controlled action control hquiet hstep =>
      have hclock := clock_of_quiet hquiet hstep
      have hsame : { s with control := control }.ingress = s.ingress := by
        simp only [State.ingress, State.clock, hclock]
      rw [hsame]
      exact h
  | acted index action session changed hplain hsession hstep => exact ingress_acted h hplain hsession hstep
  | advanced elapsed =>
      refine reachable_one h (a := .advance elapsed) (congrArg some ?_)
      simp only [State.ingress, State.tick, State.clock, List.map_map]
      rfl
  | began =>
      refine reachable_one h (a := .newSession) (congrArg some ?_)
      simp only [State.ingress, State.clock, List.map_append]
      rfl
  | worked world session worked hsession hstep => exact ingress_worked rfl rfl h hsession hstep
  | ignored => exact h
  | discarded delivery discard hfate =>
      cases discard <;> exact h
  | waited delivery message session hfate hsession haccepting _ =>
      refine reachable_one h (a := .call ⟨delivery.session, delivery.event.eventId, message⟩) ?_
      simp only [Ingress.step, ingress_getElem hsession, Option.map_some, Ingress.check]
      rw [if_pos (show session.ingress.accepting = true from haccepting)]
      rfl
  | refused delivery message session hfate hsession haccepting =>
      refine reachable_one h (a := .call ⟨delivery.session, delivery.event.eventId, message⟩) ?_
      simp only [Ingress.step, ingress_getElem hsession, Option.map_some, Ingress.check]
      rw [if_neg (by simp [Session.ingress, haccepting])]
      rfl
  | locked position iteration t hstep => exact ingress_locked h hstep
  | reported => exact reachable_one h (a := .report) rfl

theorem control_move {total : Nat} (htotal : total = config.names.length)
    (h : Reachable (Supervisor.machine total) s.control) (hmove : Move config s t) :
    Reachable (Supervisor.machine total) t.control := by
  subst htotal
  cases hmove with
  | controlled action control hquiet hstep => exact .next h trivial hstep
  | advanced elapsed => exact .next (a := .advance elapsed) h trivial rfl
  | locked position iteration t hstep =>
      obtain ⟨_, _, -, -, _, rfl, -⟩ := lock_cases hstep
      exact h
  | acted | began | worked | ignored | discarded | waited | refused | reported => exact h

def sampleConfig : Config where
  names := ["w".toList]
  dryRun := false
  crate := Harvest.pageCrate
  captures := Harvest.links

def sampleEvent : SlackPushEventCallback where
  teamId := "T1".toList
  apiAppId := "A1".toList
  eventId := "E1".toList
  message := some {
    ts := "1000000000.000001".toList
    channel := some "C1".toList
    text := some "<https://example.com/a>".toList
    sender := ⟨some "U1".toList, none, none, none⟩
    hidden := none
    subtype := none }

/-- A message from its callback to the database. -/
def harvestRun : List Action :=
  [.connected "T1".toList "A1".toList, .registered, .started, .hello 0 0 true "A1".toList, .watch 0, .watch 0,
    .push 0 0 true sampleEvent, .lock 0 (.stored _), .work quiet, .work quiet]

theorem harvestRun_reached : ∃ s : State, Reachable (machine sampleConfig) s ∧
    s.control.phase = .session .watching ∧ s.admitted = [⟨⟨"T1".toList, "A1".toList, "E1".toList⟩, 0⟩] ∧
      s.sessions.map (fun session => session.worker.effects) =
        [[.insert ⟨1000000000, "#chan".toList, "nick".toList, "https://example.com/a".toList⟩]] :=
  exists_reachable (s := initial 0) harvestRun ⟨0, rfl⟩ (by decide +kernel)

/-- The backend refines its parts: whatever its callbacks, its worker and its loop
do, the loop makes steps of the control loop, the callbacks those of the admission,
and each session's worker and health those of theirs. -/
theorem backend_refines (h : Reachable (machine config) s) :
    Reachable (Supervisor.machine config.names.length) s.control ∧
    Reachable admission s.ingress ∧
    ∀ session ∈ s.sessions, Reachable Worker.machine session.worker ∧
      ∀ listener ∈ session.listeners, Reachable (Health.machine listener.workspace) listener.health := by
  refine ⟨?_, ?_, fun session hmem => ?_⟩
  · exact moves_invariant (P := fun s => Reachable (Supervisor.machine config.names.length) s.control)
      (fun clock => .start ⟨clock, rfl⟩) (fun _ _ => control_move rfl) h
  · exact moves_invariant (P := fun s => Reachable admission s.ingress)
      (fun clock => reachable_one (a := .newSession) (.start ⟨clock, rfl⟩) rfl)
      (fun _ _ => ingress_move) h
  · have hsound := (sessions_reached h session hmem).sound
    exact ⟨hsound.worker, hsound.health⟩

theorem backend_refines_harvesting : ∃ s : State, s.admitted.length = 1 ∧
    Reachable (Supervisor.machine sampleConfig.names.length) s.control ∧ Reachable admission s.ingress := by
  obtain ⟨s, hs, -, hadmitted, -⟩ := harvestRun_reached
  exact ⟨s, by rw [hadmitted]; rfl, (backend_refines hs).1, (backend_refines hs).2.1⟩

end SjmbSlack.SocketMode.Sessions
