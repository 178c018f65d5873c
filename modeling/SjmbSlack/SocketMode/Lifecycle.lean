import SjmbSlack.SocketMode.SessionRuns

/-! The life of a session: while it runs its worker runs, it counts as registered
only when every workspace has heard its hello, and when the loop goes on, nothing of
it is left that could take a message. -/
namespace SjmbSlack.SocketMode
open Machine Limits Slackbot

namespace Health

def Watcher.starting : Watcher → Bool
  | .check .waitReady | .load | .await .waitReady | .parked .waitReady => true
  | _ => false

def Fresh (s : State) : Prop := s.watcher.starting = true → s.waitReady = none

theorem fresh_watch {s t : State} (h : Fresh s) (hwatch : watch s = some t) :
    Fresh t ∧ (s.waitReady = some (.ok ()) → t.waitReady = some (.ok ())) ∧
      (t.watcher = .between → t.waitReady = some (.ok ())) := by
  unfold Fresh at h ⊢
  cases watched hwatch with
  | failed loop message hwatcher hfailure =>
      cases loop <;> simp_all [returned, Watcher.starting]
  | checked hwatcher hfailure => simp_all [Watcher.starting]
  | unfailed hwatcher hfailure => simp_all [Watcher.starting]
  | connected hwatcher hready => simp_all [returned, Watcher.starting]
  | unready hwatcher hready => simp_all [Watcher.starting]
  | permitted loop hwatcher hpoll => cases loop <;> simp_all [Watcher.starting]
  | suspended loop hwatcher hpoll => cases loop <;> simp_all [Watcher.starting]
  | resumed loop changed hwatcher hresume => cases loop <;> simp_all [Watcher.starting]
  | followed hwatcher => simp_all [Watcher.starting]

theorem fresh_step {workspace : Workspace} {s t : State} {a : Action} (h : Fresh s)
    (hstep : step workspace s a = some t) :
    Fresh t ∧ (s.waitReady = some (.ok ()) → t.waitReady = some (.ok ())) := by
  cases a with
  | hello found appId =>
      cases Option.some.inj hstep
      unfold handleHello callFail
      split
      · split <;> exact ⟨h, id⟩
      · exact ⟨h, id⟩
  | fail message =>
      cases Option.some.inj hstep
      exact ⟨h, id⟩
  | notify =>
      obtain ⟨-, rfl⟩ := notify_eq_some hstep
      exact ⟨h, id⟩
  | watch => exact ⟨(fresh_watch h hstep).1, (fresh_watch h hstep).2.1⟩
  | timeout =>
      obtain ⟨-, rfl⟩ := timeout_eq_some hstep
      exact ⟨by simp [Fresh, Watcher.starting], id⟩

theorem fresh_reachable {workspace : Workspace} {s : State} (h : Reachable (machine workspace) s) :
    Fresh s := by
  refine h.invariant (P := Fresh) ?_ fun _ _ _ _ hfresh _ hstep => (fresh_step hfresh hstep).1
  rintro s rfl
  intro _
  rfl

end Health

namespace Sessions

def Listener.Ready (listener : Listener) : Prop := listener.health.waitReady = some (.ok ())

/-- Nothing of the session takes a message any more. -/
structure Over (session : Session) : Prop where
  refusing : session.accepting = false
  dropped : session.dropped = true
  closed : ∀ (k : Nat) (listener : Listener), session.listeners[k]? = some listener →
    listener.closed = true

def pending : Supervisor.Stage → Nat
  | .connecting | .watching => 0
  | .registering _ | .starting _ | .greeting _ => 1

structure Connecting (config : Config) (control : Supervisor.State) (stage : Supervisor.Stage)
    (session : Session) : Prop where
  accepting : session.accepting = true
  length : session.listeners.length = control.listeners
  pending : pending stage ≤ session.listeners.length
  ready : ∀ (k : Nat) (listener : Listener), session.listeners[k]? = some listener →
    k + Sessions.pending stage < session.listeners.length → listener.Ready
  names : ∀ (k : Nat) (listener : Listener), session.listeners[k]? = some listener →
    config.names[k]? = some listener.workspace.name
  all : stage = .watching → session.listeners.length = config.names.length

structure Closing (control : Supervisor.State) (left : Nat) (session : Session) : Prop where
  refusing : session.accepting = false
  alive : session.dropped = false
  length : session.listeners.length = control.listeners
  few : left ≤ control.listeners
  closed : ∀ (k : Nat) (listener : Listener), session.listeners[k]? = some listener →
    k + left < control.listeners → listener.closed = true

def Current (config : Config) (control : Supervisor.State) (session : Session) : Prop :=
  match control.phase with
  | .session stage => Connecting config control stage session
  | .closing _ left _ => Closing control (left + 1) session
  | .draining _ _ => Closing control 0 session
  | .ended _ | .sleeping _ _ | .returned _ => Over session

structure Linked (config : Config) (s : State) : Prop where
  nonempty : s.sessions ≠ []
  past : ∀ i session, s.sessions[i]? = some session → i < s.current → Over session
  now : ∀ session, s.sessions[s.current]? = some session → Current config s.control session
  running : s.control.workerFinished = false
  waits : ∀ wait ∈ s.control.waits, wait.error ≠ .workerStopped
  ended : ∀ since left, s.control.phase ≠ .closing since left (some .workerStopped) ∧
    s.control.phase ≠ .draining since (some .workerStopped) ∧
    s.control.phase ≠ .ended (some .workerStopped)

section

variable {config : Config} {s t : State}

theorem current_lt (h : s.sessions ≠ []) : s.current < s.sessions.length :=
  Nat.sub_lt (List.length_pos_iff.mpr h) Nat.one_pos

theorem exists_current (h : s.sessions ≠ []) : ∃ session, s.sessions[s.current]? = some session :=
  ⟨_, List.getElem?_eq_getElem (current_lt h)⟩

structure Kept (session changed : Session) : Prop where
  accepting : changed.accepting = session.accepting
  dropped : changed.dropped = session.dropped
  length : changed.listeners.length = session.listeners.length
  listeners : ∀ (k : Nat) (listener : Listener), changed.listeners[k]? = some listener →
    ∃ before : Listener, session.listeners[k]? = some before ∧ listener.workspace = before.workspace ∧
      listener.closed = before.closed ∧ (before.Ready → listener.Ready)

theorem Kept.refl (session : Session) : Kept session session :=
  ⟨rfl, rfl, rfl, fun _ listener h => ⟨listener, h, rfl, rfl, id⟩⟩

theorem Kept.over {session changed : Session} (h : Kept session changed) (hover : Over session) :
    Over changed where
  refusing := h.accepting.trans hover.refusing
  dropped := h.dropped.trans hover.dropped
  closed := by
    intro k listener hlistener
    obtain ⟨before, hbefore, -, hclosed, -⟩ := h.listeners k listener hlistener
    exact hclosed.trans (hover.closed k before hbefore)

theorem Kept.closing {session changed : Session} {control : Supervisor.State} {left : Nat}
    (h : Kept session changed) (hclosing : Closing control left session) : Closing control left changed where
  refusing := h.accepting.trans hclosing.refusing
  alive := h.dropped.trans hclosing.alive
  length := h.length.trans hclosing.length
  few := hclosing.few
  closed := by
    intro k listener hlistener hk
    obtain ⟨before, hbefore, -, hclosed, -⟩ := h.listeners k listener hlistener
    exact hclosed.trans (hclosing.closed k before hbefore hk)

theorem Kept.current {session changed : Session} {control : Supervisor.State} (h : Kept session changed)
    (hcurrent : Current config control session) : Current config control changed := by
  unfold Current at hcurrent ⊢
  cases hphase : control.phase with
  | session stage =>
      rw [hphase] at hcurrent
      refine ⟨h.accepting.trans hcurrent.accepting, h.length.trans hcurrent.length, ?_, ?_, ?_, ?_⟩
      · rw [h.length]
        exact hcurrent.pending
      · intro k listener hlistener hk
        obtain ⟨before, hbefore, -, -, hready⟩ := h.listeners k listener hlistener
        rw [h.length] at hk
        exact hready (hcurrent.ready k before hbefore hk)
      · intro k listener hlistener
        obtain ⟨before, hbefore, hworkspace, -⟩ := h.listeners k listener hlistener
        rw [hworkspace]
        exact hcurrent.names k before hbefore
      · rw [h.length]
        exact hcurrent.all
  | closing since left ended =>
      rw [hphase] at hcurrent
      exact h.closing hcurrent
  | draining since ended =>
      rw [hphase] at hcurrent
      exact h.closing hcurrent
  | ended ended =>
      rw [hphase] at hcurrent
      exact h.over hcurrent
  | sleeping since delay =>
      rw [hphase] at hcurrent
      exact h.over hcurrent
  | returned result =>
      rw [hphase] at hcurrent
      exact h.over hcurrent

theorem kept_health {session changed : Session} (hsound : session.Sound) {index : Nat}
    {action : Health.Action} (h : session.step (.health index action) = some changed) :
    Kept session changed := by
  cases Session.stepped_of_step h with
  | health _ _ listener health hlistener hhealth =>
      refine ⟨rfl, rfl, List.length_set, fun k other hother => ?_⟩
      rw [List.getElem?_set] at hother
      split at hother
      · rename_i hk
        subst hk
        split at hother
        · cases Option.some.inj hother
          refine ⟨listener, hlistener, rfl, rfl, fun hready => ?_⟩
          exact (Health.fresh_step (Health.fresh_reachable
            (hsound.health listener (List.mem_of_getElem? hlistener))) hhealth).2 hready
        · cases hother
      · exact ⟨other, hother, rfl, rfl, id⟩

theorem kept_work {session changed : Session} {world : Worker.World}
    (h : session.step (.work world) = some changed) : Kept session changed := by
  cases Session.stepped_of_step h with
  | worked => exact ⟨rfl, rfl, rfl, fun _ listener h => ⟨listener, h, rfl, rfl, id⟩⟩

theorem kept_send {session changed : Session} {message : QueuedMessage}
    (h : session.step (.send message) = some changed) : Kept session changed := by
  cases Session.stepped_of_step h with
  | lost => exact .refl session
  | sent => exact ⟨rfl, rfl, rfl, fun _ listener h => ⟨listener, h, rfl, rfl, id⟩⟩

@[simp] theorem current_set (sessions : List Session) (index : Nat) (changed : Session) :
    (sessions.set index changed).length - 1 = sessions.length - 1 := by rw [List.length_set]

theorem Linked.set (h : Linked config s) {index : Nat} {session changed : Session}
    (hsession : s.sessions[index]? = some session) (hkept : Kept session changed)
    (hcontrol : t.control = s.control) (hsessions : t.sessions = s.sessions.set index changed) :
    Linked config t := by
  have hcurrent : t.current = s.current := by
    rw [State.current, hsessions, List.length_set]
    rfl
  have hback (k : Nat) (other : Session) (hother : t.sessions[k]? = some other) :
      ∃ before, s.sessions[k]? = some before ∧ Kept before other := by
    rw [hsessions, List.getElem?_set] at hother
    split at hother
    · rename_i hk
      subst hk
      split at hother
      · cases Option.some.inj hother
        exact ⟨session, hsession, hkept⟩
      · cases hother
    · exact ⟨other, hother, .refl other⟩
  refine ⟨?_, ?_, ?_, ?_, ?_, ?_⟩
  · rw [hsessions]
    simpa using h.nonempty
  · intro i other hother hi
    obtain ⟨before, hbefore, hkept⟩ := hback i other hother
    exact hkept.over (h.past i before hbefore (hcurrent ▸ hi))
  · intro other hother
    rw [hcurrent] at hother
    obtain ⟨before, hbefore, hkept⟩ := hback _ other hother
    rw [hcontrol]
    exact hkept.current (h.now before hbefore)
  · rw [hcontrol]
    exact h.running
  · rw [hcontrol]
    exact h.waits
  · rw [hcontrol]
    exact h.ended

theorem Linked.same (h : Linked config s) (hcontrol : t.control = s.control)
    (hsessions : t.sessions = s.sessions) : Linked config t := by
  obtain ⟨session, hsession⟩ := exists_current h.nonempty
  refine h.set hsession (.refl session) hcontrol ?_
  obtain ⟨hlt, rfl⟩ := List.getElem?_eq_some_iff.mp hsession
  rw [hsessions, List.set_getElem_self]

theorem current_congr {control other : Supervisor.State} {session : Session}
    (hphase : other.phase = control.phase) (hlisteners : other.listeners = control.listeners)
    (h : Current config control session) : Current config other session := by
  unfold Current at h ⊢
  rw [hphase]
  cases hcase : control.phase <;> rw [hcase] at h
  · exact ⟨h.accepting, h.length.trans hlisteners.symm, h.pending, h.ready, h.names, h.all⟩
  · exact ⟨h.refusing, h.alive, h.length.trans hlisteners.symm, hlisteners ▸ h.few, hlisteners ▸ h.closed⟩
  · exact ⟨h.refusing, h.alive, h.length.trans hlisteners.symm, hlisteners ▸ h.few, hlisteners ▸ h.closed⟩
  all_goals exact h

theorem Linked.control (h : Linked config s) {control : Supervisor.State}
    (hnow : ∀ session, s.sessions[s.current]? = some session → Current config control session)
    (hrunning : control.workerFinished = false)
    (hwaits : ∀ wait ∈ control.waits, wait.error ≠ .workerStopped)
    (hended : ∀ since left, control.phase ≠ .closing since left (some .workerStopped) ∧
      control.phase ≠ .draining since (some .workerStopped) ∧ control.phase ≠ .ended (some .workerStopped)) :
    Linked config { s with control := control } :=
  ⟨h.nonempty, h.past, hnow, hrunning, hwaits, hended⟩

theorem over_drop {control : Supervisor.State} {session changed : Session} (h : Closing control 0 session)
    (hdrop : session.step .drop = some changed) : Over changed := by
  cases Session.stepped_of_step hdrop with
  | dropped haccepting =>
      refine ⟨haccepting, rfl, fun k listener hlistener => h.closed k listener hlistener ?_⟩
      rw [← h.length]
      exact (List.getElem?_eq_some_iff.mp hlistener).1

theorem linked_closeNext (control : Supervisor.State) (left : Nat) (ended : Option Supervisor.SessionError)
    (hnonempty : s.sessions ≠ [])
    (hpast : ∀ i session, s.sessions[i]? = some session → i < s.current → Over session)
    (hnow : ∀ session, s.sessions[s.current]? = some session → Closing control left session)
    (hrunning : control.workerFinished = false)
    (hwaits : ∀ wait ∈ control.waits, wait.error ≠ .workerStopped) (hended : ended ≠ some .workerStopped)
    (hcontrol : s.control = control.closeNext left ended) (h : s.settle = some t) : Linked config t := by
  have hsame : t = s ∧ ∀ session, s.sessions[s.current]? = some session →
      Current config s.control session := by
    have hphase : s.control.phase = (control.closeNext left ended).phase := congrArg _ hcontrol
    cases left with
    | succ left =>
        rw [State.settle, hphase] at h
        refine ⟨(Option.some.inj h).symm, fun session hsession => ?_⟩
        rw [hcontrol]
        obtain ⟨hrefusing, halive, hlength, hfew, hclosed⟩ := hnow session hsession
        exact ⟨hrefusing, halive, hlength, hfew, hclosed⟩
    | zero =>
        rw [Supervisor.State.closeNext, hrunning] at hphase
        rw [State.settle, hphase] at h
        refine ⟨(Option.some.inj h).symm, fun session hsession => ?_⟩
        rw [hcontrol, Supervisor.State.closeNext, hrunning]
        obtain ⟨hrefusing, halive, hlength, hfew, hclosed⟩ := hnow session hsession
        exact ⟨hrefusing, halive, hlength, hfew, hclosed⟩
  obtain ⟨rfl, hcurrent⟩ := hsame
  refine ⟨hnonempty, hpast, hcurrent, ?_, ?_, ?_⟩
  · rw [hcontrol]
    cases left <;> exact hrunning
  · rw [hcontrol]
    simpa using hwaits
  · intro since count
    rw [hcontrol]
    rcases control.closeNext_phase left ended with ⟨rest, -, hphase⟩ | hphase | hphase <;>
      simp [hphase, hended]

theorem getElem?_set_current {sessions : List Session} {index : Nat} {changed session : Session}
    (h : (sessions.set index changed)[index]? = some session) : session = changed := by
  rw [List.getElem?_set_self'] at h
  cases hfound : sessions[index]? with
  | none => simp [hfound] at h
  | some before =>
      rw [hfound] at h
      exact (Option.some.inj h).symm

theorem past_set (changed : Session) (h : Linked config s) (i : Nat) (session : Session)
    (hsession : (s.sessions.set s.current changed)[i]? = some session) (hi : i < s.current) : Over session := by
  rw [List.getElem?_set_ne (Nat.ne_of_gt hi)] at hsession
  exact h.past i session hsession hi

theorem linked_drained (h : Linked config s) {since : Nat} {ended : Option Supervisor.SessionError}
    (hphase : s.control.phase = .draining since ended)
    (hsettle : State.settle { s with control := { s.control with phase := .ended ended } } = some t) :
    Linked config t := by
  simp only [State.settle] at hsettle
  obtain ⟨session, changed, hsession, hdrop, rfl⟩ := onSession_eq hsettle
  have hclosing : Closing s.control 0 session := by
    have := h.now session hsession
    rw [Current, hphase] at this
    exact this
  refine ⟨by simpa using h.nonempty, ?_, ?_, h.running, h.waits, ?_⟩
  · intro i other hother hi
    refine past_set changed h i other hother ?_
    simpa [State.current] using hi
  · intro other hother
    simp only [State.current, List.length_set] at hother
    cases getElem?_set_current hother
    exact over_drop hclosing hdrop
  · intro since' left
    have := (h.ended since left).2.1
    rw [hphase] at this
    refine ⟨by simp, by simp, ?_⟩
    simpa using this

def ending : Supervisor.Action → Option (Option Supervisor.SessionError)
  | .takeShutdown => some none
  | .fail error => some (some error)
  | .timeout => some (some .timedOut)
  | _ => none

theorem step_ending {total : Nat} {control changed : Supervisor.State} {action : Supervisor.Action}
    {stage : Supervisor.Stage} {ended : Option Supervisor.SessionError}
    (hphase : control.phase = .session stage) (hending : ending action = some ended)
    (h : Supervisor.step total control action = some changed) : changed = control.close ended := by
  cases action <;> cases hending
  · simp only [Supervisor.step, hphase] at h
    split at h
    · rename_i heq _
      cases heq
      exact (Option.some.inj h).symm
    · rename_i heq _
      cases heq
    · contradiction
  · simp only [Supervisor.step, hphase] at h
    exact (Option.some.inj h).symm
  · simp only [Supervisor.step, hphase] at h
    split at h
    · exact (Option.some.inj h).symm
    · contradiction

theorem linked_finish (h : Linked config s) {action : Supervisor.Action} {stage : Supervisor.Stage}
    {ended : Option Supervisor.SessionError} (hphase : s.control.phase = .session stage)
    (hending : ending action = some ended) (hended : ended ≠ some .workerStopped)
    (hfinish : finish config s action = some t) (hrunning : ∀ session, s.sessions[s.current]? = some session →
      session.dropped = false) : Linked config t := by
  obtain ⟨closed, hclosed, hfinish⟩ := Option.bind_eq_some_iff.mp hfinish
  obtain ⟨session, changed, hsession, hchanged, rfl⟩ := onSession_eq hclosed
  obtain ⟨controlled, hcontrolled, hsettle⟩ := Option.bind_eq_some_iff.mp hfinish
  obtain ⟨control, hcontrol, rfl⟩ := controlled_eq hcontrolled
  cases step_ending hphase hending hcontrol
  have hconnecting : Connecting config s.control stage session := by
    have := h.now session hsession
    rw [Current, hphase] at this
    exact this
  refine linked_closeNext s.control s.control.listeners ended
    (by simpa using h.nonempty) ?_ ?_ h.running h.waits hended rfl hsettle
  · intro i other hother hi
    refine past_set changed h i other hother ?_
    simpa [State.current] using hi
  · intro other hother
    simp only [State.current, List.length_set] at hother
    cases getElem?_set_current hother
    cases Session.stepped_of_step hchanged with
    | closed haccepting =>
        exact ⟨rfl, hrunning session hsession, hconnecting.length, Nat.le_refl _,
          fun k listener _ hk => absurd hk (by omega)⟩

theorem linked_shut (h : Linked config s) {action : Supervisor.Action} {since left : Nat}
    {ended : Option Supervisor.SessionError} (hphase : s.control.phase = .closing since left ended)
    (haction : action = .closed ∨ action = .timeout) (hshut : shut config s action left = some t) :
    Linked config t := by
  obtain ⟨closed, hclosed, hshut⟩ := Option.bind_eq_some_iff.mp hshut
  obtain ⟨session, changed, hsession, hchanged, rfl⟩ := onSession_eq hclosed
  obtain ⟨controlled, hcontrolled, hsettle⟩ := Option.bind_eq_some_iff.mp hshut
  obtain ⟨control, hcontrol, rfl⟩ := controlled_eq hcontrolled
  have hnext : control = s.control.closeNext left ended := by
    rcases haction with rfl | rfl
    · simp only [Supervisor.step, hphase] at hcontrol
      exact (Option.some.inj hcontrol).symm
    · simp only [Supervisor.step, hphase] at hcontrol
      split at hcontrol
      · exact (Option.some.inj hcontrol).symm
      · contradiction
  subst hnext
  have hclosing : Closing s.control (left + 1) session := by
    have := h.now session hsession
    rw [Current, hphase] at this
    exact this
  have hended : ended ≠ some .workerStopped := by
    have := (h.ended since left).1
    rw [hphase] at this
    simpa using this
  refine linked_closeNext s.control left ended
    (by simpa using h.nonempty) ?_ ?_ h.running h.waits hended rfl hsettle
  · intro i other hother hi
    refine past_set changed h i other hother ?_
    simpa [State.current] using hi
  · intro other hother
    simp only [State.current, List.length_set] at hother
    cases getElem?_set_current hother
    cases Session.stepped_of_step hchanged with
    | shut _ listener hlistener =>
        refine ⟨hclosing.refusing, hclosing.alive, List.length_set.trans hclosing.length,
          Nat.le_of_succ_le hclosing.few, fun k other hother hk => ?_⟩
        -- Either the listener was closed before, or it is the one closed now.
        rw [List.getElem?_set] at hother
        split at hother
        · split at hother
          · cases Option.some.inj hother
            rfl
          · cases hother
        · exact hclosing.closed k other hother (by omega)

theorem Linked.stage (h : Linked config s) {control : Supervisor.State} {stage : Supervisor.Stage}
    (hphase : control.phase = .session stage)
    (hnow : ∀ session, s.sessions[s.current]? = some session → Connecting config control stage session)
    (hrunning : control.workerFinished = s.control.workerFinished)
    (hwaits : control.waits = s.control.waits) : Linked config { s with control := control } := by
  refine h.control (fun session hsession => ?_) (hrunning.trans h.running) (hwaits ▸ h.waits)
    fun since left => by simp [hphase]
  rw [Current, hphase]
  exact hnow session hsession

theorem Linked.connecting (h : Linked config s) {stage : Supervisor.Stage}
    (hphase : s.control.phase = .session stage) (session : Session)
    (hsession : s.sessions[s.current]? = some session) : Connecting config s.control stage session := by
  have := h.now session hsession
  rw [Current, hphase] at this
  exact this

theorem linked_waiting (h : Linked config s) {stage next : Supervisor.Stage}
    (hphase : s.control.phase = .session stage) (hpending : pending stage = 1)
    (hnext : pending next = 1) (hwatching : next ≠ .watching) :
    Linked config { s with control := { s.control with phase := .session next } } := by
  refine h.stage rfl (fun session hsession => ?_) rfl rfl
  obtain ⟨haccepting, hlength, hsome, hready, hnames, -⟩ := h.connecting hphase session hsession
  rw [hpending] at hsome hready
  refine ⟨haccepting, hlength, ?_, ?_, hnames, fun hnot => absurd hnot hwatching⟩
  · rw [hnext]
    exact hsome
  · rw [hnext]
    exact hready

theorem linked_registered (h : Linked config s) (hstep : controlled config s .registered = some t) :
    Linked config t := by
  obtain ⟨control, hcontrol, rfl⟩ := controlled_eq hstep
  simp only [Supervisor.step] at hcontrol
  split at hcontrol
  · rename_i since hphase
    cases Option.some.inj hcontrol
    exact linked_waiting h hphase rfl rfl (by simp)
  · contradiction

theorem linked_started (h : Linked config s) (hstep : controlled config s .started = some t) :
    Linked config t := by
  obtain ⟨control, hcontrol, rfl⟩ := controlled_eq hstep
  simp only [Supervisor.step] at hcontrol
  split at hcontrol
  · rename_i since hphase
    cases Option.some.inj hcontrol
    exact linked_waiting h hphase rfl rfl (by simp)
  · contradiction

theorem linked_ready (h : Linked config s) {since : Nat} (hphase : s.control.phase = .session (.greeting since))
    {session : Session} {listener : Listener} {index : Nat} (hsession : s.sessions[s.current]? = some session)
    (hlistener : session.listeners[index]? = some listener) (hnewest : index + 1 = s.control.listeners)
    (hready : listener.Ready) (hstep : controlled config s .ready = some t) : Linked config t := by
  obtain ⟨control, hcontrol, rfl⟩ := controlled_eq hstep
  obtain ⟨haccepting, hlength, hsome, hearlier, hnames, -⟩ := h.connecting hphase session hsession
  have hall (k : Nat) (other : Listener) (hother : session.listeners[k]? = some other) : other.Ready := by
    rcases Nat.lt_or_ge (k + 1) session.listeners.length with hlt | hge
    · exact hearlier k other hother hlt
    · have hk := (List.getElem?_eq_some_iff.mp hother).1
      obtain rfl : k = index := by omega
      rw [hlistener] at hother
      cases Option.some.inj hother
      exact hready
  simp only [Supervisor.step, hphase] at hcontrol
  split at hcontrol
  · rename_i hlast
    cases Option.some.inj hcontrol
    refine h.stage rfl (fun other hother => ?_) rfl rfl
    rw [hsession] at hother
    cases Option.some.inj hother
    exact ⟨haccepting, hlength, Nat.zero_le _, fun k listener hk _ => hall k listener hk, hnames,
      fun _ => hlength.trans hlast⟩
  · cases Option.some.inj hcontrol
    refine h.stage rfl (fun other hother => ?_) rfl rfl
    rw [hsession] at hother
    cases Option.some.inj hother
    exact ⟨haccepting, hlength, Nat.zero_le _, fun k listener hk _ => hall k listener hk, hnames,
      fun hnot => by cases hnot⟩

theorem alive_of_connecting (hreached : ∀ session ∈ s.sessions, Reached config session)
    {control : Supervisor.State} {stage : Supervisor.Stage} {session : Session}
    (hsession : s.sessions[s.current]? = some session) (h : Connecting config control stage session) :
    session.dropped = false :=
  ((hreached session (List.mem_of_getElem? hsession)).sound.running h.accepting).1

theorem linked_connected (hreached : ∀ session ∈ s.sessions, Reached config session) (h : Linked config s)
    {teamId appId : Str} (hstep : connected config s teamId appId = some t) : Linked config t := by
  obtain ⟨session, hsession, hstep⟩ := Option.bind_eq_some_iff.mp hstep
  obtain ⟨name, hname, hstep⟩ := Option.bind_eq_some_iff.mp hstep
  split at hstep
  · rename_i hphase
    have hconnecting := h.connecting hphase session hsession
    split at hstep
    · refine linked_finish h hphase rfl (by simp) hstep fun other hother => ?_
      exact alive_of_connecting hreached hother (h.connecting hphase other hother)
    · obtain ⟨joined, hjoined, hstep⟩ := Option.bind_eq_some_iff.mp hstep
      obtain ⟨found, changed, hfound, hchanged, rfl⟩ := onSession_eq hjoined
      rw [hsession] at hfound
      cases Option.some.inj hfound
      obtain ⟨control, hcontrol, rfl⟩ := controlled_eq hstep
      simp only [Supervisor.step, hphase] at hcontrol
      split at hcontrol
      · cases Option.some.inj hcontrol
        obtain ⟨haccepting, hlength, -, hready, hnames, -⟩ := hconnecting
        cases Session.stepped_of_step hchanged with
        | joined workspace _ hfresh =>
            refine ⟨by simpa using h.nonempty, ?_, ?_, h.running, h.waits, by simp⟩
            · intro i other hother hi
              refine past_set _ h i other hother ?_
              simpa [State.current] using hi
            · intro other hother
              simp only [State.current, List.length_set] at hother
              cases getElem?_set_current hother
              refine ⟨haccepting, ?_, ?_, ?_, ?_, fun hnot => by cases hnot⟩
              · simpa using hlength
              · simp [pending]
              · intro k listener hlistener hk
                simp only [pending, List.length_append, List.length_singleton] at hk
                rw [List.getElem?_append_left (by omega)] at hlistener
                exact hready k listener hlistener (by simp only [pending]; omega)
              · intro k listener hlistener
                rcases Nat.lt_or_ge k session.listeners.length with hlt | hge
                · rw [List.getElem?_append_left hlt] at hlistener
                  exact hnames k listener hlistener
                · rw [List.getElem?_append_right hge] at hlistener
                  have hk := (List.getElem?_eq_some_iff.mp hlistener).1
                  simp only [List.length_singleton] at hk
                  obtain rfl : k = session.listeners.length := by omega
                  rw [Nat.sub_self, List.getElem?_singleton, if_pos rfl] at hlistener
                  cases Option.some.inj hlistener
                  exact hname
      · contradiction
  · contradiction

theorem returned_cases {health : Health.State} {action : Supervisor.Action}
    (h : returned health = some action) :
    (action = .ready ∧ health.watcher = .between) ∨ ∃ message, action = .fail (.health message) := by
  unfold returned at h
  split at h
  · rename_i hwatcher
    exact .inl ⟨(Option.some.inj h).symm, hwatcher⟩
  · exact .inr ⟨_, (Option.some.inj h).symm⟩
  · exact .inr ⟨_, (Option.some.inj h).symm⟩
  · contradiction

theorem watch_between {health changed : Health.State} (hwatch : Health.watch health = some changed)
    (hbetween : changed.watcher = .between) : ¬ health.watcher.starting = false := by
  intro hstarting
  cases Health.watched hwatch with
  | failed loop message hwatcher _ => cases loop <;> simp_all [Health.returned]
  | connected hwatcher _ => simp_all [Health.Watcher.starting]
  | checked | unfailed | unready | permitted | suspended | resumed | followed => simp_all

theorem linked_watch (hreached : ∀ session ∈ s.sessions, Reached config session) (h : Linked config s)
    {index : Nat} (hstep : watch config s index = some t) : Linked config t := by
  unfold watch at hstep
  split at hstep
  · rename_i hpolled
    obtain ⟨watched, hwatched, hstep⟩ := Option.bind_eq_some_iff.mp hstep
    obtain ⟨session, hsession, hstep⟩ := Option.bind_eq_some_iff.mp hstep
    obtain ⟨listener, hlistener, hstep⟩ := Option.bind_eq_some_iff.mp hstep
    obtain ⟨before, changed, hbefore, hchanged, rfl⟩ := onSession_eq hwatched
    have hsound := (hreached before (List.mem_of_getElem? hbefore)).sound
    have hkept := kept_health hsound hchanged
    have hlinked : Linked config { s with sessions := s.sessions.set s.current changed } :=
      h.set hbefore hkept rfl rfl
    simp only [State.current, List.length_set] at hsession
    have hsame := getElem?_set_current hsession
    subst hsame
    have hcurrent : (s.sessions.set s.current session)[State.current
        { s with sessions := s.sessions.set s.current session }]? = some session := by
      simpa [State.current] using hsession
    obtain ⟨stage, hphase⟩ : ∃ stage, s.control.phase = .session stage := by
      unfold polled at hpolled
      split at hpolled
      · exact ⟨_, ‹_›⟩
      · exact ⟨_, ‹_›⟩
      · cases hpolled
    have halive (other : Session) (hother : (s.sessions.set s.current session)[State.current
        { s with sessions := s.sessions.set s.current session }]? = some other) : other.dropped = false := by
      rw [hcurrent] at hother
      cases Option.some.inj hother
      exact hkept.dropped.trans (alive_of_connecting hreached hbefore (h.connecting hphase before hbefore))
    cases hreturned : returned listener.health with
    | none =>
        simp only [hreturned] at hstep
        cases Option.some.inj hstep
        exact hlinked
    | some action =>
        rcases returned_cases hreturned with ⟨rfl, hbetween⟩ | ⟨message, rfl⟩
        · simp only [hreturned] at hstep
          cases Session.stepped_of_step hchanged with
          | health _ _ old health hold hhealth =>
              have hnew : listener = { old with health := health } := by
                rw [List.getElem?_set_self'] at hlistener
                rw [hold] at hlistener
                exact (Option.some.inj hlistener).symm
              subst hnew
              have hfresh := Health.fresh_reachable (hsound.health old (List.mem_of_getElem? hold))
              have hready : Listener.Ready { old with health := health } :=
                (Health.fresh_watch hfresh hhealth).2.2 hbetween
              -- A watcher that returns ready was in `wait_ready`, so its workspace is the newest.
              have hgreeting : ∃ since, s.control.phase = .session (.greeting since) ∧
                  index + 1 = s.control.listeners := by
                unfold polled at hpolled
                split at hpolled
                · exact ⟨_, ‹_›, by simpa using hpolled⟩
                · rename_i hwatching
                  obtain ⟨_, _, _, hallReady, _, _⟩ := h.connecting hwatching before hbefore
                  have hoks := hallReady index old hold (by
                    simpa [pending] using (List.getElem?_eq_some_iff.mp hold).1)
                  exfalso
                  refine watch_between hhealth hbetween ?_
                  cases hstarting : old.health.watcher.starting with
                  | false => rfl
                  | true =>
                      rw [Listener.Ready, hfresh hstarting] at hoks
                      cases hoks
                · cases hpolled
              obtain ⟨since, hgreet, hnewest⟩ := hgreeting
              exact linked_ready hlinked hgreet hcurrent hlistener hnewest hready hstep
        · simp only [hreturned] at hstep
          exact linked_finish hlinked hphase rfl (by simp) hstep halive
  · contradiction

theorem linked_work (hreached : ∀ session ∈ s.sessions, Reached config session) (h : Linked config s)
    {world : Worker.World} (hstep : work config s world = some t) : Linked config t := by
  obtain ⟨session, hsession, hstep⟩ := Option.bind_eq_some_iff.mp hstep
  obtain ⟨worked, hworked, hstep⟩ := Option.bind_eq_some_iff.mp hstep
  dsimp only at hstep
  have hlinked : Linked config { s with
      sessions := s.sessions.set s.current worked
      counters := s.counters.add (counted config session.worker worked.worker) } :=
    h.set hsession (kept_work hworked) rfl rfl
  split at hstep
  · rename_i stage hphase
    have haccepting := (h.connecting hphase session hsession).accepting
    have hrunning := (Session.sound_step (hreached session (List.mem_of_getElem? hsession)).sound hworked).running
      ((kept_work hworked).accepting.trans haccepting)
    rw [if_neg hrunning.2.2.2.2] at hstep
    cases Option.some.inj hstep
    exact hlinked
  · rename_i since ended hphase
    split at hstep
    · obtain ⟨controlled, hcontrolled, hsettle⟩ := Option.bind_eq_some_iff.mp hstep
      obtain ⟨control, hcontrol, rfl⟩ := controlled_eq hcontrolled
      simp only [Supervisor.step, hphase] at hcontrol
      cases Option.some.inj hcontrol
      exact linked_drained hlinked hphase hsettle
    · cases Option.some.inj hstep
      exact hlinked
  · contradiction

theorem linked_timeout (hreached : ∀ session ∈ s.sessions, Reached config session) (h : Linked config s)
    (hstep : timeout config s = some t) : Linked config t := by
  unfold timeout at hstep
  split at hstep
  · rename_i stage hphase
    exact linked_finish h hphase rfl (by simp) hstep fun session hsession =>
      alive_of_connecting hreached hsession (h.connecting hphase session hsession)
  · rename_i since left ended hphase
    exact linked_shut h hphase (.inr rfl) hstep
  · rename_i hsession hclosing
    obtain ⟨controlled, hcontrolled, hsettle⟩ := Option.bind_eq_some_iff.mp hstep
    obtain ⟨control, hcontrol, rfl⟩ := controlled_eq hcontrolled
    simp only [Supervisor.step] at hcontrol
    split at hcontrol
    · rename_i stage hphase
      exact absurd hphase (hsession stage)
    · rename_i since left ended hphase
      exact absurd hphase (hclosing since left ended)
    · rename_i since ended hphase
      split at hcontrol
      · cases Option.some.inj hcontrol
        exact linked_drained h hphase hsettle
      · contradiction
    · contradiction

theorem Linked.over (h : Linked config s)
    (hphase : (∃ ended, s.control.phase = .ended ended) ∨ (∃ since delay, s.control.phase = .sleeping since delay) ∨
      ∃ result, s.control.phase = .returned result) (i : Nat) (session : Session)
    (hsession : s.sessions[i]? = some session) : Over session := by
  have hlast : s.sessions[s.current]? = some session → Over session := fun hcurrent => by
    have := h.now session hcurrent
    rcases hphase with ⟨_, hcase⟩ | ⟨_, _, hcase⟩ | ⟨_, hcase⟩ <;> rwa [Current, hcase] at this
  have hlt := (List.getElem?_eq_some_iff.mp hsession).1
  rcases Nat.lt_or_ge i s.current with hi | hi
  · exact h.past i session hsession hi
  · obtain rfl : i = s.current := by
      have : s.current = s.sessions.length - 1 := rfl
      omega
    exact hlast hsession

theorem linked_leave (h : Linked config s) {millis : Nat} (hstep : controlled config s (.leave millis) = some t) :
    Linked config t := by
  obtain ⟨control, hcontrol, rfl⟩ := controlled_eq hstep
  simp only [Supervisor.step] at hcontrol
  split at hcontrol
  · rename_i result time hphase hshutdown
    cases Option.some.inj hcontrol
    exact h.control (fun session hsession => h.over (.inl ⟨_, hphase⟩) _ session hsession) h.running h.waits
      (by simp)
  · rename_i error hphase
    split at hcontrol
    · cases Option.some.inj hcontrol
      have herror : error ≠ .workerStopped := by
        have := (h.ended 0 0).2.2
        rw [hphase] at this
        simpa using this
      refine h.control (fun session hsession => h.over (.inl ⟨_, hphase⟩) _ session hsession) h.running ?_
        (by simp [Supervisor.State.sleep])
      intro wait hmem
      rcases List.mem_cons.mp hmem with rfl | hold
      · exact herror
      · exact h.waits wait hold
    · contradiction
  · contradiction

theorem linked_wake (h : Linked config s) (hstep : step config s .wake = some t) : Linked config t := by
  obtain ⟨woken, hwoken, hstep⟩ := Option.bind_eq_some_iff.mp hstep
  obtain ⟨control, hcontrol, rfl⟩ := controlled_eq hwoken
  cases Option.some.inj hstep
  simp only [Supervisor.step] at hcontrol
  split at hcontrol
  · rename_i since delay hphase
    split at hcontrol
    · cases Option.some.inj hcontrol
      refine ⟨by simp, ?_, ?_, rfl, h.waits, by simp [Supervisor.State.restart]⟩
      · intro i session hsession hi
        simp only [State.current, List.length_append, List.length_singleton, Nat.add_sub_cancel] at hi
        rw [List.getElem?_append_left hi] at hsession
        exact h.over (.inr (.inl ⟨_, _, hphase⟩)) i session hsession
      · intro session hsession
        simp only [State.current, List.length_append, List.length_singleton, Nat.add_sub_cancel,
          List.getElem?_concat_length] at hsession
        cases Option.some.inj hsession
        exact ⟨rfl, rfl, Nat.zero_le _, fun k listener hk => by simp [Session.new] at hk,
          fun k listener hk => by simp [Session.new] at hk, fun hnot => by cases hnot⟩
    · contradiction
  · contradiction

theorem linked_onHealth (hreached : ∀ session ∈ s.sessions, Reached config session) (h : Linked config s)
    {index position : Nat} {action : Health.Action}
    (hstep : s.onSession index (.health position action) = some t) : Linked config t := by
  obtain ⟨session, changed, hsession, hchanged, rfl⟩ := onSession_eq hstep
  exact h.set hsession (kept_health (hreached session (List.mem_of_getElem? hsession)).sound hchanged) rfl rfl

theorem linked_push (hreached : ∀ session ∈ s.sessions, Reached config session) (h : Linked config s)
    {index position : Nat} {event : SlackPushEventCallback}
    (hstep : push config s index position event = some t) : Linked config t := by
  obtain ⟨session, hsession, hstep⟩ := Option.bind_eq_some_iff.mp hstep
  obtain ⟨listener, hlistener, hstep⟩ := Option.bind_eq_some_iff.mp hstep
  dsimp only at hstep
  split at hstep
  · have hdelivered : Linked config (s.deliver ⟨index, listener.workspace, event, s.clock⟩) := h.same rfl rfl
    exact linked_onHealth (s := s.deliver _) hreached hdelivered hstep
  · cases Option.some.inj hstep
    exact h.same rfl rfl
  · cases Option.some.inj hstep
    exact h.same rfl rfl
  · split at hstep <;> cases Option.some.inj hstep <;> exact h.same rfl rfl

theorem linked_advance (h : Linked config s) (elapsed : Nat) : Linked config (s.tick elapsed) := by
  have hback (i : Nat) (session : Session) (hsession : (s.tick elapsed).sessions[i]? = some session) :
      ∃ before, s.sessions[i]? = some before ∧ Kept before session := by
    simp only [State.tick, List.getElem?_map, Option.map_eq_some_iff] at hsession
    obtain ⟨before, hbefore, rfl⟩ := hsession
    exact ⟨before, hbefore, rfl, rfl, rfl, fun _ listener hk => ⟨listener, hk, rfl, rfl, id⟩⟩
  have hcurrent : (s.tick elapsed).current = s.current := by simp [State.current, State.tick]
  refine ⟨by simpa [State.tick] using h.nonempty, ?_, ?_, h.running, h.waits, h.ended⟩
  · intro i session hsession hi
    obtain ⟨before, hbefore, hkept⟩ := hback i session hsession
    exact hkept.over (h.past i before hbefore (hcurrent ▸ hi))
  · intro session hsession
    rw [hcurrent] at hsession
    obtain ⟨before, hbefore, hkept⟩ := hback _ session hsession
    exact hkept.current (current_congr (by rfl) (by rfl) (h.now before hbefore))

theorem linked_step (hreached : ∀ session ∈ s.sessions, Reached config session) (h : Linked config s)
    {a : Action} (hstep : step config s a = some t) : Linked config t := by
  have hrunning {stage : Supervisor.Stage} (hphase : s.control.phase = .session stage) (session : Session)
      (hsession : s.sessions[s.current]? = some session) : session.dropped = false :=
    alive_of_connecting hreached hsession (h.connecting hphase session hsession)
  cases a with
  | advance elapsed =>
      cases Option.some.inj hstep
      exact linked_advance h elapsed
  | signal result =>
      obtain ⟨control, hcontrol, rfl⟩ := controlled_eq hstep
      simp only [Supervisor.step] at hcontrol
      split at hcontrol
      · contradiction
      · cases Option.some.inj hcontrol
        exact h.control (fun session hsession => current_congr (by rfl) (by rfl) (h.now session hsession)) h.running
          h.waits h.ended
  | takeShutdown =>
      simp only [step] at hstep
      split at hstep
      · rename_i stage hphase
        exact linked_finish h hphase rfl (by simp) hstep (hrunning hphase)
      · rename_i hnot
        obtain ⟨control, hcontrol, rfl⟩ := controlled_eq hstep
        simp only [Supervisor.step] at hcontrol
        split at hcontrol
        · rename_i stage _ hphase _
          exact absurd hphase (hnot stage)
        · rename_i since delay result time hphase hshutdown
          cases Option.some.inj hcontrol
          exact h.control (fun session hsession => h.over (.inr (.inl ⟨_, _, hphase⟩)) _ session hsession)
            h.running h.waits (by simp)
        · contradiction
  | connected teamId appId => exact linked_connected hreached h hstep
  | refused error =>
      have hends : some (clientEnds error) ≠ some Supervisor.SessionError.workerStopped := by
        cases error <;> simp [clientEnds]
      simp only [step] at hstep
      split at hstep
      · rename_i hphase
        exact linked_finish h hphase rfl hends hstep (hrunning hphase)
      · rename_i since hphase
        exact linked_finish h hphase rfl hends hstep (hrunning hphase)
      · contradiction
  | registered => exact linked_registered h hstep
  | started => exact linked_started h hstep
  | watch index => exact linked_watch hreached h hstep
  | work world => exact linked_work hreached h hstep
  | closed =>
      simp only [step] at hstep
      split at hstep
      · rename_i since left ended hphase
        exact linked_shut h hphase (.inl rfl) hstep
      · contradiction
  | timeout => exact linked_timeout hreached h hstep
  | leave millis => exact linked_leave h hstep
  | wake => exact linked_wake h hstep
  | push index position found event =>
      simp only [step] at hstep
      split at hstep
      · exact linked_push hreached h hstep
      · cases Option.some.inj hstep
        exact h
  | lock position iteration =>
      obtain ⟨call, session, -, hsession, sessions, rfl, hsessions⟩ := lock_cases hstep
      rcases hsessions with ⟨-, rfl⟩ | ⟨-, changed, hsent, rfl⟩
      · exact h.same rfl rfl
      · exact h.set hsession (kept_send hsent) rfl rfl
  | hello index position found appId => exact linked_onHealth hreached h hstep
  | failure index position named found error =>
      obtain ⟨session, -, hstep⟩ := Option.bind_eq_some_iff.mp hstep
      obtain ⟨listener, -, hstep⟩ := Option.bind_eq_some_iff.mp hstep
      split at hstep
      · exact linked_onHealth hreached h hstep
      · cases Option.some.inj hstep
        exact h
  | notify index position => exact linked_onHealth hreached h hstep
  | report =>
      cases Option.some.inj hstep
      exact h.same rfl rfl

theorem linked_reachable (h : Reachable (machine config) s) : Linked config s := by
  refine h.invariant (P := Linked config) ?_ fun s a t hs hlinked _ hstep =>
    linked_step (sessions_reached hs) hlinked hstep
  rintro s ⟨clock, rfl⟩
  refine ⟨by simp [initial], fun i session _ hi => absurd hi (Nat.not_lt_zero i), ?_, rfl, ?_, ?_⟩
  · intro session hsession
    cases Option.some.inj hsession
    exact ⟨rfl, rfl, Nat.zero_le _, fun k listener hk => by simp [Session.new] at hk,
      fun k listener hk => by simp [Session.new] at hk, fun hnot => by cases hnot⟩
  · simp [initial, Supervisor.initial]
  · simp [initial, Supervisor.initial]

/-- Whatever the callbacks of old sessions still do, a message is admitted only by
the session of the loop's pass, before its worker is dropped. -/
theorem admits_current (h : Linked config s) {position : Nat} {iteration : Iteration (Entry Ingress.EventKey Unit)}
    (hlock : lock s position iteration = some t) (hadmitted : t.admitted ≠ s.admitted) :
    ∃ call session, s.waiting[position]? = some call ∧ call.session = s.current ∧
      s.sessions[s.current]? = some session ∧ session.dropped = false := by
  obtain ⟨call, session, hcall, hsession, sessions, rfl, -⟩ := lock_cases hlock
  have hafter := enqueued iteration { s.ingress with waiting := s.waiting.eraseIdx position } call session.ingress
  generalize Ingress.enqueue iteration { s.ingress with waiting := s.waiting.eraseIdx position } call
    session.ingress = after at hafter hadmitted
  cases hafter with
  | duplicate | full | closed => exact absurd rfl hadmitted
  | queued seen queue hget hsend =>
      have halive : session.dropped = false := by
        cases hdropped : session.dropped with
        | false => rfl
        | true => simp [Session.ingress, hdropped, Mpsc.dropReceiver, Mpsc.trySend] at hsend
      have hindex : call.session = s.current := by
        have hlt := (List.getElem?_eq_some_iff.mp hsession).1
        have hlast : s.current = s.sessions.length - 1 := rfl
        rcases Nat.lt_or_ge call.session s.current with hi | hi
        · rw [(h.past _ session hsession hi).dropped] at halive
          cases halive
        · omega
      exact ⟨call, session, hcall, hindex, hindex ▸ hsession, halive⟩

def cleaned (s : State) : Bool :=
  match s.control.phase with
  | .ended _ | .sleeping _ _ | .returned _ => true
  | _ => false

/-- A session that runs has its worker; one that is over refuses every message, its
worker is dropped, and all its listeners were shut down before the loop went on. -/
theorem sessions_end_clean (h : Reachable (machine config) s) :
    (∀ i session, s.sessions[i]? = some session → i < s.current ∨ cleaned s = true →
      session.accepting = false ∧ session.dropped = true ∧
        ∀ listener ∈ session.listeners, listener.closed = true) ∧
    (∀ stage session, s.control.phase = .session stage → s.sessions[s.current]? = some session →
      session.accepting = true ∧ session.dropped = false ∧ session.worker.queue.closed = false ∧
        session.worker.task ≠ .returned) ∧
    (s.control.workerFinished = false ∧ ∀ wait ∈ s.control.waits, wait.error ≠ .workerStopped) ∧
    ∀ position iteration t, lock s position iteration = some t → t.admitted ≠ s.admitted →
      ∃ call session, s.waiting[position]? = some call ∧ call.session = s.current ∧
        s.sessions[s.current]? = some session ∧ session.dropped = false := by
  have hlinked := linked_reachable h
  refine ⟨fun i session hsession hover => ?_, fun stage session hphase hsession => ?_,
    ⟨hlinked.running, hlinked.waits⟩, fun position iteration t hlock => admits_current hlinked hlock⟩
  · have hend : Over session := by
      rcases hover with hi | hcleaned
      · exact hlinked.past i session hsession hi
      · refine hlinked.over ?_ i session hsession
        unfold cleaned at hcleaned
        split at hcleaned
        · exact .inl ⟨_, ‹_›⟩
        · exact .inr (.inl ⟨_, _, ‹_›⟩)
        · exact .inr (.inr ⟨_, ‹_›⟩)
        · cases hcleaned
    refine ⟨hend.refusing, hend.dropped, fun listener hmem => ?_⟩
    obtain ⟨k, hk⟩ := List.getElem?_of_mem hmem
    exact hend.closed k listener hk
  · have haccepting := (hlinked.connecting hphase session hsession).accepting
    have hrunning := (sessions_reached h session (List.mem_of_getElem? hsession)).sound.running haccepting
    exact ⟨haccepting, hrunning.1, hrunning.2.2.2.1, hrunning.2.2.2.2⟩

def shutdownRun : List Action :=
  harvestRun ++ [.signal (.ok ()), .takeShutdown, .closed, .work Worker.quiet, .work Worker.quiet, .leave 0]

theorem sessions_end_clean_shutdown : ∃ (s : State) (session : Session),
    s.control.phase = .returned (.ok ()) ∧ s.sessions = [session] ∧ session.accepting = false ∧
      session.dropped = true ∧ ∀ listener ∈ session.listeners, listener.closed = true := by
  have hrun : ∃ s : State, Reachable (machine sampleConfig) s ∧
      (s.control.phase = .returned (.ok ()) ∧ s.sessions.length = 1) :=
    exists_reachable (s := initial 0) shutdownRun ⟨0, rfl⟩ (by decide +kernel)
  obtain ⟨s, hs, hphase, hlength⟩ := hrun
  obtain ⟨session, hsession⟩ := List.length_eq_one_iff.mp hlength
  refine ⟨s, session, hphase, hsession, (sessions_end_clean hs).1 0 session ?_ (.inr ?_)⟩
  · rw [hsession]
    rfl
  · rw [cleaned, hphase]

/-- The session counts as registered only when every configured workspace, in order
and as an installation of its own, has heard a hello for its own app. -/
theorem watching_ready (h : Reachable (machine config) s) (hphase : s.control.phase = .session .watching) :
    ∃ session, s.sessions[s.current]? = some session ∧
      session.listeners.map (fun listener => listener.workspace.name) = config.names ∧
      (session.listeners.map fun listener => (listener.workspace.teamId, listener.workspace.appId)).Nodup ∧
      ∀ listener ∈ session.listeners, listener.workspace.appId ∈ listener.health.hellos := by
  have hlinked := linked_reachable h
  obtain ⟨session, hsession⟩ := exists_current hlinked.nonempty
  obtain ⟨-, -, -, hready, hnames, hall⟩ := hlinked.connecting hphase session hsession
  have hsound := (sessions_reached h session (List.mem_of_getElem? hsession)).sound
  refine ⟨session, hsession, ?_, hsound.distinct, fun listener hmem => ?_⟩
  · apply List.ext_getElem?
    intro k
    rw [List.getElem?_map]
    cases hk : session.listeners[k]? with
    | some listener => exact (hnames k listener hk).symm
    | none =>
        rw [List.getElem?_eq_none_iff, hall rfl] at hk
        exact (List.getElem?_eq_none_iff.mpr hk).symm
  · obtain ⟨k, hk⟩ := List.getElem?_of_mem hmem
    refine (Health.sound_reachable (hsound.health listener hmem)).waitReady (hready k listener hk ?_)
    exact (List.getElem?_eq_some_iff.mp hk).1

theorem watching_ready_harvesting : ∃ (s : State) (session : Session), s.sessions[s.current]? = some session ∧
    session.listeners.map (fun listener => listener.workspace.name) = ["w".toList] ∧
      ∀ listener ∈ session.listeners, listener.workspace.appId ∈ listener.health.hellos := by
  obtain ⟨s, hs, hphase, -, -⟩ := harvestRun_reached
  obtain ⟨session, hsession, hnames, -, hhellos⟩ := watching_ready hs hphase
  exact ⟨s, session, hsession, hnames, hhellos⟩

end

end Sessions

end SjmbSlack.SocketMode
