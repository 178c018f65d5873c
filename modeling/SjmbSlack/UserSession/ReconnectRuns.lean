import SjmbSlack.UserSession.HeartbeatRuns
import SjmbSlack.UserSession.Reconnect
import SjmbSlack.UserSession.Steps

/-! Runs of the loop around the connections: each is one of the session, the waits
follow the backoff, and no URL but a trusted one is connected to. -/
namespace SjmbSlack.UserSession

namespace Session
open Api Slackbot

def Leaves (s t : State) : Prop :=
  t.stopped = s.stopped ∧
    (t.connection.isSome = true ∧ t.unsaved = s.unsaved ∨ t.connection = none ∧ t.unsaved = true)

theorem leaves_some {s t : State} (hstopped : t.stopped = s.stopped) (hconn : t.connection.isSome = true)
    (hunsaved : t.unsaved = s.unsaved) : Leaves s t := ⟨hstopped, .inl ⟨hconn, hunsaved⟩⟩

theorem leaves_disconnect {s t : State} (h : t.stopped = s.stopped) : Leaves s t.disconnect :=
  ⟨h, .inr ⟨rfl, rfl⟩⟩

section

variable {config : Config} {s t : State} {conn : Connection}

theorem leaves_read {result : Except ReadError Link} : Leaves s (afterRead s conn result) := by
  unfold afterRead
  split
  · exact leaves_some rfl rfl rfl
  · exact leaves_disconnect rfl
  · exact leaves_disconnect rfl

theorem leaves_passFailed (s : State) (conn : Connection) (rest : List (Str × Channel)) (error : ApiError) :
    Leaves s (passFailed s conn rest error) := by
  unfold passFailed
  split
  · exact leaves_disconnect rfl
  · split <;> exact leaves_some rfl rfl rfl

theorem leaves_request (s : State) (conn : Connection) (paging : Paging) :
    Leaves s (request s conn paging) := by
  unfold request
  split
  · exact leaves_passFailed ..
  · exact leaves_some rfl rfl rfl

theorem leaves_nextThread (s : State) (conn : Connection) (paging : Paging) :
    Leaves s (nextThread config s conn paging) := by
  unfold nextThread
  split
  · exact leaves_some rfl rfl rfl
  · exact leaves_request ..

theorem leaves_requestDone (s : State) (conn : Connection) (paging : Paging) :
    Leaves s (requestDone config s conn paging) := by
  unfold requestDone
  dsimp only
  split <;> exact leaves_nextThread ..

theorem leaves_requestFailed (s : State) (conn : Connection) (paging : Paging) (error : ApiError) :
    Leaves s (requestFailed config s conn paging error) := by
  unfold requestFailed
  split
  · split
    · exact leaves_nextThread (s.withStore _) conn _
    · exact leaves_passFailed ..
  · exact leaves_passFailed ..

theorem leaves_page (s : State) (conn : Connection) (paging : Paging) (response : Except ApiError Json) :
    Leaves s (page config s conn paging response) := by
  unfold page
  split
  · exact leaves_requestFailed ..
  · split
    · exact leaves_requestFailed ..
    · split
      · exact leaves_requestFailed ..
      · exact leaves_some rfl rfl rfl

theorem leaves_scan (s : State) (conn : Connection) (paging : Paging) (response : Json)
    (events : List Json) : Leaves s (scan config s conn paging response events) := by
  unfold scan
  split
  · split
    · exact leaves_requestFailed ..
    · split <;> exact leaves_some rfl rfl rfl
  · split
    · exact leaves_requestFailed ..
    · split
      · exact leaves_requestDone ..
      · split
        · exact leaves_requestFailed ..
        · exact leaves_request ..

theorem leaves_choose (s : State) (conn : Connection) (channels : List (Str × Channel)) :
    Leaves s (choose config s conn channels) := by
  unfold choose
  split
  · exact leaves_some rfl rfl rfl
  · split
    · exact leaves_some rfl rfl rfl
    · exact leaves_request (s.withStore _) conn _

theorem leaves_answered (s : State) (conn : Connection) (event : Json) (id : Str)
    (response : Except ApiError Json) : Leaves s (answered s conn event id response) := by
  unfold answered
  split
  · exact leaves_disconnect rfl
  · dsimp only
    split
    · exact leaves_some rfl rfl rfl
    · split
      · exact leaves_disconnect rfl
      · split
        · exact leaves_some rfl rfl rfl
        · exact leaves_disconnect rfl

theorem leaves_discover {responses : List (Except ApiError Json)} {order : List Str}
    (h : discover config s conn responses order = some t) : Leaves s t := by
  unfold discover at h
  split at h
  · split at h
    · cases Option.some.inj h
      exact leaves_disconnect rfl
    · split at h
      · cases Option.some.inj h
        exact leaves_disconnect rfl
      · contradiction
  · split at h
    · contradiction
    · split at h
      · cases Option.some.inj h
        unfold start
        dsimp only
        split
        · exact leaves_some rfl rfl rfl
        · exact leaves_disconnect rfl
      · dsimp only at h
        split at h <;> cases Option.some.inj h
        · exact leaves_some rfl rfl rfl
        · exact leaves_disconnect rfl
      · contradiction

theorem leaves_consume (h : consume config s conn = some t) : Leaves s t := by
  unfold consume at h
  split at h
  · dsimp only at h
    split at h
    · cases Option.some.inj h
      exact leaves_some rfl rfl rfl
    · split at h
      · cases Option.some.inj h
        exact leaves_some rfl rfl rfl
      · split at h
        · cases Option.some.inj h
          exact leaves_some rfl rfl rfl
        · split at h <;> cases Option.some.inj h <;> exact leaves_some rfl rfl rfl
  · contradiction

theorem leaves_turn {caller : Caller} {step : Turn} (h : turn config s conn caller step = some t) :
    Leaves s t := by
  cases caller with
  | live =>
      simp only [turn] at h
      split at h
      · obtain ⟨⟨core, outcome⟩, -, rfl⟩ := Option.map_eq_some_iff.mp h
        dsimp only
        split
        · exact leaves_some rfl rfl rfl
        · exact leaves_some rfl rfl rfl
        · exact leaves_disconnect rfl
      · contradiction
  | recovery =>
      simp only [turn] at h
      split at h
      · obtain ⟨⟨core, outcome⟩, -, rfl⟩ := Option.map_eq_some_iff.mp h
        dsimp only
        split
        · exact leaves_some rfl rfl rfl
        · exact leaves_some rfl rfl rfl
        · exact leaves_requestFailed { s with core := core } conn _ _
      · contradiction

theorem leaves_save {caller : Option Caller} {ok : Bool} (h : save s conn caller ok = some t) :
    Leaves s t := by
  unfold save at h
  split at h
  · contradiction
  · split at h
    · contradiction
    · split at h <;> cases Option.some.inj h
      · rcases caller with _ | _ | _ <;> exact leaves_some rfl rfl rfl
      · exact leaves_disconnect rfl

theorem leaves_connected {a : Action} (h : stepConnected config s conn a = some t) :
    Leaves s t := by
  cases a with
  | place frame =>
      simp only [stepConnected] at h
      split at h <;> cases h
      exact leaves_some rfl rfl rfl
  | receivePing | answer | recordPing =>
      obtain ⟨link, -, rfl⟩ := Option.map_eq_some_iff.mp h
      exact leaves_some rfl rfl rfl
  | opened =>
      simp only [stepConnected] at h
      split at h <;> cases h
      exact leaves_some rfl rfl rfl
  | greet =>
      simp only [stepConnected] at h
      split at h
      · obtain ⟨result, -, rfl⟩ := Option.map_eq_some_iff.mp h
        split
        · exact leaves_some rfl rfl rfl
        · exact leaves_disconnect rfl
      · contradiction
  | tick | read =>
      simp only [stepConnected] at h
      split at h
      · obtain ⟨result, -, rfl⟩ := Option.map_eq_some_iff.mp h
        exact leaves_read
      · contradiction
  | fail =>
      cases Option.some.inj h
      exact leaves_disconnect rfl
  | discover responses order => exact leaves_discover h
  | consume =>
      simp only [stepConnected] at h
      split at h
      · exact leaves_consume h
      · contradiction
  | answered response =>
      simp only [stepConnected] at h
      split at h <;> cases h
      exact leaves_answered ..
  | turn caller step => exact leaves_turn h
  | startPass =>
      simp only [stepConnected] at h
      split at h
      · split at h <;> cases h
        exact leaves_some rfl rfl rfl
      · contradiction
  | choose =>
      simp only [stepConnected] at h
      split at h <;> cases h
      exact leaves_choose ..
  | page response =>
      simp only [stepConnected] at h
      split at h <;> cases h
      exact leaves_page ..
  | scan =>
      simp only [stepConnected] at h
      split at h <;> cases h
      exact leaves_scan ..
  | copy caller =>
      simp only [stepConnected] at h
      split at h <;> cases h
      exact leaves_some rfl rfl rfl
  | save caller ok => exact leaves_save h
  | advance | post | worker | connect | saveAfter | stop | restart | crash => cases h

end

end Session

namespace Reconnect
open Machine Api Slackbot Gateway

section

variable {settings : Settings} {s t : State}

inductive Stepped (settings : Settings) (s : State) : Action → State → Prop where
  | dialed (session : Session.State) (url : Str) (hphase : s.phase = .starting)
      (hconnect : Session.step settings.config s.session .connect = some session)
      (hurl : s.reconnectUrl.or settings.gateway = some url)
      (hvalid : settings.config.validSocketUrl url = true) :
      Stepped settings s .dial { s with
        session := session
        reconnectUrl := none
        startedAt := s.clock
        phase := .connected s.clock
        dials := s.dials ++ [⟨url, s.reconnectUrl.isSome⟩] }
  | refused (connected session : Session.State) (hphase : s.phase = .starting)
      (hconnect : Session.step settings.config s.session .connect = some connected)
      (hfail : Session.step settings.config connected .fail = some session) :
      Stepped settings s .dial { s with
        session := session
        reconnectUrl := none
        startedAt := s.clock
        phase := .saving s.clock .other }
  | kept (action : Session.Action) (error : ApiError) (session : Session.State) (since : Nat)
      (hphase : s.phase = .connected since) (hapart : apart action = false)
      (hstep : Session.step settings.config s.session action = some session)
      (hconn : session.connection.isSome = true) :
      Stepped settings s (.act action error) { s with
        session := session
        reconnectUrl := (taken s.session action).or s.reconnectUrl
        tickets := s.tickets ++ (taken s.session action).toList }
  | ended (action : Session.Action) (error : ApiError) (session : Session.State) (since : Nat)
      (hphase : s.phase = .connected since) (hapart : apart action = false)
      (hstep : Session.step settings.config s.session action = some session)
      (hconn : session.connection = none) :
      Stepped settings s (.act action error) { s with session := session, phase := .saving since error }
  | passed (action : Session.Action) (error : ApiError) (session : Session.State)
      (hphase : ∀ since, s.phase ≠ .connected since) (haround : around action = true)
      (hstep : Session.step settings.config s.session action = some session) :
      Stepped settings s (.act action error) { s with session := session }
  | unauthenticated (millis since : Nat) (error : ApiError) (session : Session.State)
      (hphase : s.phase = .saving since error)
      (hstep : Session.step settings.config s.session .saveAfter = some session) :
      Stepped settings s (.saved true millis) { s with session := session, phase := .returned error }
  | slept (millis since : Nat) (error : ApiError) (session : Session.State)
      (hphase : s.phase = .saving since error)
      (hstep : Session.step settings.config s.session .saveAfter = some session)
      (herror : authenticationError error = false) (hmillis : millis < 1000) :
      Stepped settings s (.saved true millis) ({ s with session := session }.sleep since millis error)
  | unsaved (millis since : Nat) (error : ApiError) (hphase : s.phase = .saving since error) :
      Stepped settings s (.saved false millis) { s with phase := .returned .other }
  | woke (since delay : Nat) (hphase : s.phase = .sleeping since delay) (hdue : since + delay ≤ s.clock) :
      Stepped settings s .wake { s with backoff := Backoff.next 30 s.backoff, phase := .starting }

theorem stepped_of_step {a : Action} (h : step settings s a = some t) : Stepped settings s a t := by
  cases a with
  | dial =>
      simp only [step] at h
      split at h
      · rename_i hphase
        obtain ⟨session, hconnect, h⟩ := Option.bind_eq_some_iff.mp h
        obtain ⟨url, hurl, h⟩ := Option.bind_eq_some_iff.mp h
        dsimp only at h
        split at h
        · rename_i hvalid
          cases Option.some.inj h
          exact .dialed session url hphase hconnect hurl hvalid
        · obtain ⟨failed, hfail, h⟩ := Option.bind_eq_some_iff.mp h
          cases Option.some.inj h
          exact .refused session failed hphase hconnect hfail
      · contradiction
  | act action error =>
      obtain ⟨session, hstep, h⟩ := Option.bind_eq_some_iff.mp h
      split at h
      · rename_i since hphase
        split at h
        · contradiction
        · rename_i hapart
          have hapart : apart action = false := by simpa using hapart
          split at h <;> rename_i hconn <;> cases Option.some.inj h
          · exact .kept action error session since hphase hapart hstep hconn
          · exact .ended action error session since hphase hapart hstep (by simpa using hconn)
      · rename_i hphase
        split at h
        · rename_i haround
          cases Option.some.inj h
          exact .passed action error session hphase haround hstep
        · contradiction
  | saved ok millis =>
      simp only [step] at h
      split at h
      · rename_i since error hphase
        split at h
        · rename_i hok
          subst hok
          obtain ⟨session, hstep, h⟩ := Option.bind_eq_some_iff.mp h
          split at h
          · cases Option.some.inj h
            exact .unauthenticated millis since error session hphase hstep
          · rename_i herror
            split at h
            · rename_i hmillis
              cases Option.some.inj h
              exact .slept millis since error session hphase hstep (by simpa using herror) hmillis
            · contradiction
        · rename_i hok
          cases Option.some.inj h
          rw [Bool.eq_false_iff.mpr hok]
          exact .unsaved millis since error hphase
      · contradiction
  | wake =>
      simp only [step] at h
      split at h
      · rename_i since delay hphase
        split at h
        · rename_i hdue
          cases Option.some.inj h
          exact .woke since delay hphase hdue
        · contradiction
      · contradiction

def Wait.pause (wait : Wait) : Backoff.Pause where
  startedAt := wait.startedAt
  since := wait.since
  delay := wait.delay
  reset := wait.long
  asked := match wait.error with
    | .rateLimited pause => pause
    | _ => 0

def State.pauses (s : State) : List Backoff.Pause := s.waits.map Wait.pause

/-- How the phase of the loop fits the session, and what the save before a connection took. -/
def Fits (s : State) : Prop :=
  match s.phase with
  | .connected since => s.session.connection.isSome = true ∧ s.session.unsaved = false ∧ since ≤ s.clock
  | .saving since _ => s.session.connection = none ∧ s.session.unsaved = true ∧ since ≤ s.clock
  | .starting | .sleeping _ _ => s.session.connection = none ∧ s.session.unsaved = false ∧
      (s.waits ≠ [] → s.session.saved = some s.session.core.store)
  | .returned _ => s.session.connection = none

def Paced (s : State) : Prop :=
  match s.phase with
  | .starting => Backoff.Ready 2 30 SECOND s.pauses s.backoff s.clock
  | .connected since | .saving since _ => Backoff.Ready 2 30 SECOND s.pauses s.backoff since
  | .sleeping since delay => Backoff.Waiting 2 30 SECOND s.pauses s.backoff since delay
  | .returned _ => Backoff.Spaced 2 30 SECOND s.pauses

structure Sound (settings : Settings) (s : State) : Prop where
  session : Reachable (Session.machine settings.config) s.session
  stopped : s.session.stopped = false
  fits : Fits s
  paced : Paced s
  refused : ∀ wait ∈ s.waits, authenticationError wait.error = false

theorem retryDelay_eq (backoff millis : Nat) (error : ApiError) :
    retryDelay backoff millis error = max (backoff * SECOND + millis * MILLISECOND)
      (match error with
      | .rateLimited pause => pause
      | _ => 0) := by
  cases error with
  | rateLimited pause => rfl
  | _ => exact (Nat.max_zero _).symm

theorem jitter_lt {millis : Nat} (h : millis < 1000) : millis * MILLISECOND < SECOND :=
  Nat.mul_lt_mul_of_pos_right h (by decide)

theorem around_session {session after : Session.State} {action : Session.Action}
    (haround : around action = true) (h : Session.step settings.config session action = some after) :
    after.stopped = session.stopped ∧ after.unsaved = session.unsaved ∧ after.saved = session.saved ∧
      after.core.store = session.core.store ∧
      after.connection.isSome = session.connection.isSome := by
  rcases Session.step_cases h with hstep | ⟨conn, -, hstep⟩
  · cases hstep with
    | advance | worker => exact ⟨rfl, rfl, rfl, rfl, rfl⟩
    | post => exact ⟨rfl, rfl, rfl, rfl, Option.isSome_map⟩
    | connect | saveAfter | stop | restart | crash => cases haround
  · cases action with
    | advance | post | worker => cases hstep
    | _ => cases haround

theorem leaves_session {session after : Session.State} {action : Session.Action}
    (hapart : apart action = false) (hconn : session.connection.isSome = true)
    (h : Session.step settings.config session action = some after) : Session.Leaves session after := by
  rcases Session.step_cases h with hstep | ⟨conn, -, hstep⟩
  · cases hstep with
    | advance | worker => exact ⟨rfl, .inl ⟨hconn, rfl⟩⟩
    | post => exact ⟨rfl, .inl ⟨by rw [Option.isSome_map]; exact hconn, rfl⟩⟩
    | connect | saveAfter | stop | restart | crash => cases hapart
  · exact Session.leaves_connected hstep

theorem reachable_step {session after : Session.State} {action : Session.Action}
    (h : Reachable (Session.machine settings.config) session)
    (hstep : Session.step settings.config session action = some after) :
    Reachable (Session.machine settings.config) after := .next h trivial hstep

theorem connect_session {session after : Session.State}
    (h : Session.step settings.config session .connect = some after) :
    after = { session with
      connection := some (Session.newConnection session), connections := session.connections + 1 } := by
  simp only [Session.step] at h
  split at h <;> cases h
  rfl

theorem saveAfter_session {session after : Session.State}
    (h : Session.step settings.config session .saveAfter = some after) :
    after = { session with saved := some session.core.store, unsaved := false } := by
  simp only [Session.step] at h
  split at h <;> cases h
  rfl

theorem fail_session {session after : Session.State} {conn : Session.Connection}
    (hconn : session.connection = some conn)
    (h : Session.step settings.config session .fail = some after) : after = session.disconnect := by
  simp only [Session.step, hconn, Option.bind_some, Session.stepConnected] at h
  exact (Option.some.inj h).symm

theorem Sound.around {session : Session.State} (h : Sound settings s)
    (hphase : ∀ since, s.phase ≠ .connected since)
    (hstep : Reachable (Session.machine settings.config) session)
    (hsame : session.stopped = s.session.stopped ∧ session.unsaved = s.session.unsaved ∧
      session.saved = s.session.saved ∧ session.core.store = s.session.core.store ∧
      session.connection.isSome = s.session.connection.isSome)
    (hclock : s.clock ≤ session.clock) : Sound settings { s with session := session } := by
  obtain ⟨hstopped, hunsaved, hsaved, hstore, hconn⟩ := hsame
  have hnone (hbefore : s.session.connection = none) : session.connection = none := by
    simpa [hbefore] using hconn
  have hfits := h.fits
  have hpaced := h.paced
  unfold Fits at hfits
  unfold Paced at hpaced
  refine ⟨hstep, hstopped.trans h.stopped, ?_, ?_, h.refused⟩
  · unfold Fits
    cases hnow : s.phase with
    | connected since => exact absurd hnow (hphase since)
    | saving since error =>
        rw [hnow] at hfits
        exact ⟨hnone hfits.1, hunsaved.trans hfits.2.1, hfits.2.2.trans hclock⟩
    | starting | sleeping =>
        rw [hnow] at hfits
        refine ⟨hnone hfits.1, hunsaved.trans hfits.2.1, fun hwaits => ?_⟩
        rw [hsaved, hstore]
        exact hfits.2.2 hwaits
    | returned error =>
        rw [hnow] at hfits
        exact hnone hfits
  · unfold Paced
    cases hnow : s.phase with
    | starting =>
        rw [hnow] at hpaced
        exact hpaced.later hclock
    | connected | saving | sleeping | returned =>
        rw [hnow] at hpaced
        exact hpaced

theorem sound_step {a : Action} (h : Sound settings s) (hstep : step settings s a = some t) :
    Sound settings t := by
  have hfits := h.fits
  have hpaced := h.paced
  unfold Fits at hfits
  unfold Paced at hpaced
  cases stepped_of_step hstep with
  | dialed session url hphase hconnect hurl hvalid =>
      rw [hphase] at hfits hpaced
      have hreached := reachable_step h.session hconnect
      rw [connect_session hconnect] at hreached ⊢
      exact ⟨hreached, h.stopped, ⟨rfl, hfits.2.1, Nat.le_refl _⟩, hpaced, h.refused⟩
  | refused connected session hphase hconnect hfail =>
      rw [hphase] at hfits hpaced
      have hreached := reachable_step (reachable_step h.session hconnect) hfail
      rw [connect_session hconnect] at hfail
      rw [fail_session rfl hfail] at hreached ⊢
      exact ⟨hreached, h.stopped, ⟨rfl, rfl, Nat.le_refl _⟩, hpaced, h.refused⟩
  | kept action error session since hphase hapart hact hconn =>
      rw [hphase] at hfits hpaced
      obtain ⟨hstopped, ⟨-, hunsaved⟩ | ⟨hnone, -⟩⟩ := leaves_session hapart hfits.1 hact
      · refine ⟨reachable_step h.session hact, hstopped.trans h.stopped, ?_, ?_, h.refused⟩
        · simp only [Fits, hphase]
          exact ⟨hconn, hunsaved.trans hfits.2.1, hfits.2.2.trans (Session.step_keeps hact).1⟩
        · simp only [Paced, hphase]
          exact hpaced
      · rw [hnone] at hconn
        cases hconn
  | ended action error session since hphase hapart hact hconn =>
      rw [hphase] at hfits hpaced
      obtain ⟨hstopped, ⟨hsome, -⟩ | ⟨-, hunsaved⟩⟩ := leaves_session hapart hfits.1 hact
      · rw [hconn] at hsome
        cases hsome
      · exact ⟨reachable_step h.session hact, hstopped.trans h.stopped,
          ⟨hconn, hunsaved, hfits.2.2.trans (Session.step_keeps hact).1⟩, hpaced, h.refused⟩
  | passed action error session hphase haround hact =>
      exact h.around hphase (reachable_step h.session hact) (around_session haround hact)
        (Session.step_keeps hact).1
  | unauthenticated millis since error session hphase hsave =>
      rw [hphase] at hfits hpaced
      have hreached := reachable_step h.session hsave
      rw [saveAfter_session hsave] at hreached ⊢
      exact ⟨hreached, h.stopped, hfits.1, hpaced.spaced, h.refused⟩
  | slept millis since error session hphase hsave herror hmillis =>
      rw [hphase] at hfits hpaced
      have hreached := reachable_step h.session hsave
      rw [saveAfter_session hsave] at hreached ⊢
      let backoff := if 60 * SECOND ≤ s.clock - since then 2 else s.backoff
      let wait : Wait := ⟨since, s.clock - since, error, s.clock, retryDelay backoff millis error⟩
      have hlong : (if wait.pause.reset = true then 2 else s.backoff) = backoff := by
        simp only [Wait.pause, Wait.long, decide_eq_true_eq]
        rfl
      have hwaiting := hpaced.wait wait.pause (jitter_lt hmillis) hfits.2.2
        (by rw [hlong]; exact retryDelay_eq backoff millis error)
      rw [hlong] at hwaiting
      refine ⟨hreached, h.stopped, ⟨hfits.1, rfl, fun _ => rfl⟩, hwaiting, ?_⟩
      intro other hmem
      rcases List.mem_cons.mp hmem with rfl | hold
      · exact herror
      · exact h.refused other hold
  | unsaved millis since error hphase =>
      rw [hphase] at hfits hpaced
      exact ⟨h.session, h.stopped, hfits.1, hpaced.spaced, h.refused⟩
  | woke since delay hphase hdue =>
      rw [hphase] at hfits hpaced
      exact ⟨h.session, h.stopped, hfits, hpaced.attempt hdue, h.refused⟩

theorem sound_reachable (h : Reachable (machine settings) s) : Sound settings s := by
  refine h.invariant (P := Sound settings) ?_ fun _ _ _ _ hsound _ hstep => sound_step hsound hstep
  rintro s ⟨team, user, clock, rfl⟩
  exact ⟨.start ⟨team, user, clock, rfl⟩, rfl, ⟨rfl, rfl, fun hne => absurd rfl hne⟩, .initial _, by simp [initial]⟩

def sampleSettings : Settings where
  session := Session.sampleConfig
  crate := sampleCrate
  forms := sampleForms
  token := "xoxc-a".toList
  team := "T1".toList

/-- A connection over the gateway gets a reconnect URL, which the next one uses. -/
def reconnectRun : List Action :=
  [.dial] ++
    ([.opened, .place (.text (some (Session.sampleEvent "hello".toList))), .greet,
      .place (.text (some (.obj [("type".toList, .str "reconnect_url".toList),
        ("url".toList, .str (GATEWAY ++ "?ticket=1".toList))]))),
      .read, .fail] : List Session.Action).map (Action.act · .other) ++
    [.saved true 0, .act (.advance (2 * SECOND)) .other, .wake, .dial]

theorem reconnectRun_reached : ∃ s : State, Reachable (machine sampleSettings) s ∧
    s.phase = .connected (1000000002 * SECOND) ∧ s.dials.map Dial.ticket = [false, true] ∧
      s.waits.map Wait.delay = [2 * SECOND] :=
  exists_reachable (s := initial "T1".toList "U1".toList (1000000000 * SECOND)) reconnectRun
    ⟨_, _, _, rfl⟩ (by decide +kernel)

/-- The loop refines the session: whatever it does, its connections and saves are
steps of the session. A connection begins only after a save that followed the end of
the one before has returned `Ok`, and that save took all that the session knows. -/
theorem run_refines (h : Reachable (machine settings) s) :
    Reachable (Session.machine settings.config) s.session ∧ s.session.stopped = false ∧ Fits s :=
  ⟨(sound_reachable h).session, (sound_reachable h).stopped, (sound_reachable h).fits⟩

theorem run_refines_reconnected : ∃ s : State, s.waits.length = 1 ∧
    Reachable (Session.machine sampleSettings.config) s.session ∧ s.session.stopped = false ∧ Fits s := by
  obtain ⟨s, hs, -, -, hwaits⟩ := reconnectRun_reached
  exact ⟨s, by simpa using congrArg List.length hwaits, run_refines hs⟩

/-- The waits between connections grow with each in a row that was over within a
minute, heed the rate limit, and keep the connections apart; none follows an
authentication error. -/
theorem connections_backed_off (h : Reachable (machine settings) s) :
    (∀ i wait, s.waits[i]? = some wait →
      let backoff := min (2 * 2 ^ (Backoff.series ((s.waits.drop i).map Wait.long) - 1)) 30
      authenticationError wait.error = false ∧ backoff * SECOND ≤ wait.delay ∧
      wait.pause.asked ≤ wait.delay ∧
      (wait.delay < (backoff + 1) * SECOND ∨ wait.delay = wait.pause.asked) ∧
      wait.startedAt ≤ wait.since ∧
      ∀ earlier, s.waits[i + 1]? = some earlier → earlier.since + earlier.delay ≤ wait.startedAt) ∧
    ∀ since, s.phase = .connected since →
      let inSeries := Backoff.series (s.waits.map Wait.long)
      (∀ last, s.waits.head? = some last → last.since + last.delay ≤ since) ∧
      ∀ first, s.waits[inSeries - 1]? = some first →
        first.since + 30 * (inSeries - 4) * SECOND ≤ since := by
  have hsound := sound_reachable h
  have hpaced := hsound.paced
  unfold Paced at hpaced
  have hspaced : Backoff.Spaced 2 30 SECOND s.pauses := by
    cases hphase : s.phase <;> rw [hphase] at hpaced
    case returned => exact hpaced
    all_goals exact hpaced.spaced
  refine ⟨fun i wait hwait => ⟨hsound.refused wait (List.mem_of_getElem? hwait),
    hspaced.law_map (by decide) hwait⟩, fun since hphase => ?_⟩
  rw [hphase] at hpaced
  exact hpaced.spread (by decide) 4 (by decide)

/-- After the first wait a rate limit asks for ten seconds, and a minute after that resets
the backoff. -/
def resetRun : List Action :=
  reconnectRun ++
    [.act .fail (.rateLimited (10 * SECOND)), .saved true 500, .act (.advance (10 * SECOND)) .other,
      .wake, .dial, .act (.advance (60 * SECOND)) .other, .act .fail .other, .saved true 250,
      .act (.advance (2250 * MILLISECOND)) .other, .wake, .dial]

theorem connections_backed_off_reset : ∃ (s : State) (since : Nat), s.phase = .connected since ∧
    s.waits.map (fun wait => (wait.long, wait.delay)) =
      [(true, 2250 * MILLISECOND), (false, 10 * SECOND), (false, 2 * SECOND)] ∧
    (∀ wait ∈ s.waits, authenticationError wait.error = false ∧ wait.pause.asked ≤ wait.delay) ∧
    ∀ last, s.waits.head? = some last → last.since + last.delay ≤ since := by
  have hrun : ∃ s : State, Reachable (machine sampleSettings) s ∧
      (s.phase = .connected (1000000074250 * MILLISECOND) ∧
        s.waits.map (fun wait => (wait.long, wait.delay)) =
          [(true, 2250 * MILLISECOND), (false, 10 * SECOND), (false, 2 * SECOND)]) :=
    exists_reachable (s := initial "T1".toList "U1".toList (1000000000 * SECOND)) resetRun
      ⟨_, _, _, rfl⟩ (by decide +kernel)
  obtain ⟨s, hs, hphase, hwaits⟩ := hrun
  obtain ⟨hlaw, hspread⟩ := connections_backed_off hs
  refine ⟨s, _, hphase, hwaits, fun wait hmem => ?_, (hspread _ hphase).1⟩
  obtain ⟨i, hwait⟩ := List.getElem?_of_mem hmem
  obtain ⟨haccepted, -, hasked, -⟩ := hlaw i wait hwait
  exact ⟨haccepted, hasked⟩

structure Dialed (settings : Settings) (s : State) : Prop where
  valid : ∀ dial ∈ s.dials, settings.config.validSocketUrl dial.url = true
  gateway : ∀ dial ∈ s.dials, dial.ticket = false → settings.gateway = some dial.url
  tickets : ((s.dials.filter Dial.ticket).map Dial.url ++ s.reconnectUrl.toList).Sublist s.tickets

theorem dialed_step {a : Action} (h : Dialed settings s) (hstep : step settings s a = some t) :
    Dialed settings t := by
  have hused : ((s.dials.filter Dial.ticket).map Dial.url).Sublist s.tickets :=
    (List.sublist_append_left _ _).trans h.tickets
  cases stepped_of_step hstep with
  | dialed session url hphase hconnect hurl hvalid =>
      refine ⟨?_, ?_, ?_⟩
      · intro dial hmem
        rcases List.mem_append.mp hmem with hold | hnew
        · exact h.valid dial hold
        · cases List.mem_singleton.mp hnew
          exact hvalid
      · intro dial hmem hgateway
        rcases List.mem_append.mp hmem with hold | hnew
        · exact h.gateway dial hold hgateway
        · cases List.mem_singleton.mp hnew
          rw [Option.isSome_eq_false_iff, Option.isNone_iff_eq_none] at hgateway
          rw [hgateway, Option.none_or] at hurl
          exact hurl
      · cases hticket : s.reconnectUrl with
        | none => simpa using hused
        | some ticket =>
            rw [hticket, Option.some_or] at hurl
            cases hurl
            have htickets := h.tickets
            rw [hticket] at htickets
            simpa using htickets
  | refused => exact ⟨h.valid, h.gateway, by simpa using hused⟩
  | kept action error session since hphase hapart hact hconn =>
      refine ⟨h.valid, h.gateway, ?_⟩
      cases taken s.session action with
      | none => simpa using h.tickets
      | some ticket => exact hused.append (List.Sublist.refl _)
  | ended | passed | unauthenticated | slept | unsaved | woke => exact ⟨h.valid, h.gateway, h.tickets⟩

theorem validateSocketUrl_ok {crate : UrlCrate} {value : Str} {url : Url}
    (h : validateSocketUrl crate value = .ok url) :
    value.byteLength ≤ 16384 ∧ crate.parse value = some url ∧ url.scheme = "wss".toList ∧
      url.host.any (hostEndsWith ".slack.com".toList) = true ∧ url.username = [] ∧ url.password = none ∧
      knownPort url = some 443 ∧ url.fragment = none := by
  unfold validateSocketUrl at h
  split at h
  · cases h
  · rename_i hlength
    split at h
    · cases h
    · rename_i parsed hparse
      split at h
      · rename_i htrusted
        cases h
        exact ⟨Decidable.not_not.mp hlength, hparse, htrusted⟩
      · cases h

/-- The cookie and the token go to hosts of Slack only, over TLS. A reconnect URL is
used at most once and in the order in which they came; without one the session falls
back to the gateway. -/
theorem connections_trusted (h : Reachable (machine settings) s) :
    (∀ dial ∈ s.dials, dial.url.byteLength ≤ 16384 ∧ ∃ url, settings.crate.parse dial.url = some url ∧
      url.scheme = "wss".toList ∧ url.host.any (hostEndsWith ".slack.com".toList) = true ∧
      url.username = [] ∧ url.password = none ∧ knownPort url = some 443 ∧ url.fragment = none) ∧
    (∀ dial ∈ s.dials, dial.ticket = false → settings.gateway = some dial.url) ∧
    ((s.dials.filter Dial.ticket).map Dial.url ++ s.reconnectUrl.toList).Sublist s.tickets := by
  have hdialed : Dialed settings s := by
    refine h.invariant (P := Dialed settings) ?_ fun _ _ _ _ hdialed _ hstep => dialed_step hdialed hstep
    rintro s ⟨team, user, clock, rfl⟩
    exact ⟨by simp [initial], by simp [initial], .refl _⟩
  refine ⟨fun dial hmem => ?_, hdialed.gateway, hdialed.tickets⟩
  have hvalid := hdialed.valid dial hmem
  simp only [Settings.config] at hvalid
  cases hurl : validateSocketUrl settings.crate dial.url with
  | error error =>
      rw [hurl] at hvalid
      cases hvalid
  | ok url =>
      obtain ⟨hlength, hparse, htrusted⟩ := validateSocketUrl_ok hurl
      exact ⟨hlength, url, hparse, htrusted⟩

theorem connections_trusted_twice : ∃ s : State, s.dials.map Dial.ticket = [false, true] ∧
    (∀ dial ∈ s.dials, dial.ticket = false → sampleSettings.gateway = some dial.url) ∧
    ((s.dials.filter Dial.ticket).map Dial.url ++ s.reconnectUrl.toList).Sublist s.tickets := by
  obtain ⟨s, hs, -, hdials, -⟩ := reconnectRun_reached
  exact ⟨s, hdials, (connections_trusted hs).2⟩

end

end Reconnect

end SjmbSlack.UserSession
