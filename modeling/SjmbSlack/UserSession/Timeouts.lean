import SjmbSlack.UserSession.HeartbeatRuns

/-! The timers of a connection: the timeouts of its start, and the interval of its
heartbeat, which may fire late. -/
namespace SjmbSlack.UserSession.Timeouts
open Machine Slackbot

def START_TIMEOUT : Nat := 30 * SECOND
def PING_INTERVAL : Nat := 15 * SECOND
def WRITE_TIMEOUT : Nat := 5 * SECOND

/-- `ticked` is when the heartbeat ticked last and `nextTick` when it is to tick again;
`since` is when the connection was called, opened, greeted or had its last pong. -/
structure State where
  session : Session.State
  ticked : Nat
  nextTick : Nat
  since : Nat

def State.clock (s : State) : Nat := s.session.clock

def due (s : State) (conn : Session.Connection) : Nat :=
  if Session.serving conn then
    if conn.link.writing.isSome then s.ticked + WRITE_TIMEOUT else s.nextTick
  else s.since + START_TIMEOUT

def answered (before after : Session.State) : Bool :=
  before.connection.any (·.link.pending.isSome) && after.connection.any (·.link.pending.isNone)

def step (config : Config) (s : State) (a : Session.Action) : Option State :=
  (Session.step config s.session a).bind fun session =>
    let after := { s with session := session }
    match a with
    | .connect | .opened => some { after with since := s.clock }
    | .greet =>
        if session.connection.any Session.serving then some { after with since := s.clock, nextTick := s.clock }
        else some after
    | .tick =>
        if s.nextTick ≤ s.clock then
          some { after with ticked := s.clock, nextTick := tickAfter s.nextTick s.clock PING_INTERVAL }
        else none
    | .read => some (if answered s.session session then { after with since := s.clock } else after)
    | _ => some after

def initial (team user : Str) (clock : Nat) : State := ⟨Session.initial team user clock, clock, clock, clock⟩

def machine (config : Config) : System State Session.Action where
  start := fun s => ∃ team user clock, s = initial team user clock
  step := step config

/-- Time passes no timer of the connection by more than the latency, which stands also
for the time that the reader takes to answer a ping of the server. -/
def Prompt (latency : Nat) (s : State) : Session.Action → Prop
  | .advance elapsed => ∀ conn, s.session.connection = some conn →
      s.clock + elapsed ≤ due s conn + latency
  | _ => True

inductive Waits (latency clock : Nat) (s : State) (conn : Session.Connection) : Prop where
  | starting (hserving : Session.serving conn = false) (hwriting : conn.link.writing = none)
      (hpending : conn.link.pending = none) (hclock : clock ≤ s.since + START_TIMEOUT + latency) :
      Waits latency clock s conn
  | idle (hserving : Session.serving conn = true) (hwriting : conn.link.writing = none)
      (hpending : conn.link.pending = none) (hclock : clock ≤ s.nextTick + latency)
      (hnext : s.nextTick ≤ s.since + PING_INTERVAL) : Waits latency clock s conn
  | writing (ping : Nat) (hserving : Session.serving conn = true)
      (hwriting : conn.link.writing = some ping) (hpending : conn.link.pending = none)
      (hclock : clock ≤ s.ticked + WRITE_TIMEOUT + latency) (hticked : s.ticked ≤ clock)
      (hsince : s.ticked ≤ s.since + PING_INTERVAL + latency)
      (hnext : s.ticked + WRITE_TIMEOUT ≤ s.nextTick ∧ s.nextTick ≤ s.ticked + PING_INTERVAL) :
      Waits latency clock s conn
  | pending (pending : Pending) (hserving : Session.serving conn = true)
      (hwriting : conn.link.writing = none) (hpending : conn.link.pending = some pending)
      (hclock : clock ≤ s.nextTick + latency)
      (hsince : pending.sent ≤ s.since + PING_INTERVAL + WRITE_TIMEOUT + 2 * latency)
      (hsent : s.nextTick ≤ pending.sent + PONG_TIMEOUT + PING_INTERVAL)
      (hnext : s.nextTick ≤ clock + PING_INTERVAL) : Waits latency clock s conn

structure Inv (latency : Nat) (s : State) : Prop where
  since : s.since ≤ s.clock
  waits : ∀ conn, s.session.connection = some conn → Waits latency s.clock s conn

def SILENCE : Nat := PING_INTERVAL + WRITE_TIMEOUT + PONG_TIMEOUT + PING_INTERVAL

structure Beats (conn after : Session.Connection) : Prop where
  serving : Session.serving after = Session.serving conn
  writing : after.link.writing = conn.link.writing
  pending : after.link.pending = conn.link.pending

section

variable {config : Config} {latency clock : Nat} {s : State} {session : Session.State}
  {conn after : Session.Connection}

theorem Waits.bound (h : Waits latency clock s conn) : clock ≤ s.since + SILENCE + 3 * latency := by
  have hstart : START_TIMEOUT ≤ SILENCE := by decide
  unfold SILENCE at *
  cases h <;> omega

theorem Waits.beats {t : State} (h : Waits latency clock s conn) (hbeats : Beats conn after)
    (hticked : t.ticked = s.ticked) (hnext : t.nextTick = s.nextTick) (hsince : t.since = s.since) :
    Waits latency clock t after := by
  obtain ⟨hserving, hwriting, hpending⟩ := hbeats
  cases h with
  | starting hs hw hp hclock =>
      exact .starting (hserving.trans hs) (hwriting.trans hw) (hpending.trans hp) (by omega)
  | idle hs hw hp hclock hdue =>
      exact .idle (hserving.trans hs) (hwriting.trans hw) (hpending.trans hp) (by omega) (by omega)
  | writing ping hs hw hp hclock hbefore hwait hdue =>
      exact .writing ping (hserving.trans hs) (hwriting.trans hw) (hpending.trans hp) (by omega) (by omega)
        (by omega) (by rwa [hticked, hnext])
  | pending pending hs hw hp hclock hwait hsent hdue =>
      exact .pending pending (hserving.trans hs) (hwriting.trans hw) (hpending.trans hp) (by omega)
        (by omega) (by omega) (by omega)

theorem tickAfter_bounds {deadline now : Nat} (hdue : deadline ≤ now) :
    now + WRITE_TIMEOUT ≤ tickAfter deadline now PING_INTERVAL ∧
      tickAfter deadline now PING_INTERVAL ≤ now + PING_INTERVAL := by
  have hshort : WRITE_TIMEOUT + 5000000 ≤ PING_INTERVAL := by decide
  unfold tickAfter
  split <;> omega

theorem Waits.still (h : Waits latency clock s conn) {now : Nat} (hnow : now = clock) :
    Waits latency now s conn :=
  hnow ▸ h

theorem Waits.advance (h : Waits latency s.clock s conn) {elapsed : Nat}
    (hdue : s.clock + elapsed ≤ due s conn + latency) : Waits latency (s.clock + elapsed) s conn := by
  unfold due at hdue
  cases h with
  | starting hserving hwriting hpending hclock =>
      rw [hserving, if_neg (by decide)] at hdue
      exact .starting hserving hwriting hpending hdue
  | idle hserving hwriting hpending hclock hnext =>
      rw [hserving, hwriting, if_pos rfl, if_neg (by decide)] at hdue
      exact .idle hserving hwriting hpending hdue hnext
  | writing ping hserving hwriting hpending hclock hticked hsince hnext =>
      simp only [hserving, hwriting, Option.isSome_some, if_true] at hdue
      exact .writing ping hserving hwriting hpending hdue (by omega) hsince hnext
  | pending pending hserving hwriting hpending hclock hsince hsent hnext =>
      rw [hserving, hwriting, if_pos rfl, if_neg (by decide)] at hdue
      exact .pending pending hserving hwriting hpending hdue hsince hsent (by omega)

def beating : Session.Action → Bool
  | .opened | .greet | .tick | .recordPing | .read => true
  | _ => false

theorem beats_discover {responses : List (Except Api.ApiError Json)} {order : List Str} {t : Session.State}
    (hs : Session.discover config session conn responses order = some t) (hafter : t.connection = some after) :
    Beats conn after := by
  by_cases hstage : conn.stage = .discovering
  · rcases Session.started hstage hs with rfl | ⟨ids, -, -, rfl⟩
    · cases hafter
    · rw [Session.start_connection hafter]
      exact ⟨by simp [Session.serving, hstage], rfl, rfl⟩
  · unfold Session.discover at hs
    split at hs
    · rw [if_neg hstage] at hs
      split at hs
      · cases Option.some.inj hs
        cases hafter
      · contradiction
    · split at hs
      · contradiction
      · split at hs
        · rename_i hdiscovering
          exact absurd hdiscovering hstage
        · dsimp only at hs
          split at hs <;> cases Option.some.inj hs <;> cases hafter
          exact ⟨rfl, rfl, rfl⟩
        · contradiction

theorem beats_consume {t : Session.State} (hs : Session.consume config session conn = some t)
    (hafter : t.connection = some after) : Beats conn after := by
  unfold Session.consume at hs
  split at hs
  · dsimp only at hs
    split at hs
    · cases Option.some.inj hs
      cases Option.some.inj hafter
      exact ⟨rfl, rfl, rfl⟩
    · split at hs
      · cases Option.some.inj hs
        cases Option.some.inj hafter
        exact ⟨rfl, rfl, rfl⟩
      · split at hs
        · cases Option.some.inj hs
          cases Option.some.inj hafter
          exact ⟨rfl, rfl, rfl⟩
        · split at hs <;> cases Option.some.inj hs <;> cases Option.some.inj hafter <;>
            exact ⟨rfl, rfl, rfl⟩
  · contradiction

theorem beats_answered (event : Json) (id : Str) (response : Except Api.ApiError Json)
    (hafter : (Session.answered session conn event id response).connection = some after) :
    Beats conn after := by
  unfold Session.answered at hafter
  split at hafter
  · cases hafter
  · dsimp only at hafter
    split at hafter
    · cases Option.some.inj hafter
      exact ⟨rfl, rfl, rfl⟩
    · split at hafter
      · cases hafter
      · split at hafter <;> cases hafter
        exact ⟨rfl, rfl, rfl⟩

theorem beats_live {turn : Turn} {t : Session.State} (hs : Session.turn config session conn .live turn = some t)
    (hafter : t.connection = some after) : Beats conn after := by
  unfold Session.turn at hs
  dsimp only at hs
  split at hs
  · obtain ⟨⟨core, outcome⟩, -, rfl⟩ := Option.map_eq_some_iff.mp hs
    dsimp only at hafter
    split at hafter <;> cases hafter <;> exact ⟨rfl, rfl, rfl⟩
  · contradiction

theorem beats_save {caller : Option Session.Caller} {ok : Bool} {t : Session.State}
    (hs : Session.save session conn caller ok = some t) (hafter : t.connection = some after) :
    Beats conn after := by
  obtain ⟨hsaving, rfl | ⟨snapshot, rfl⟩⟩ := Session.save_cases hs
  · cases hafter
  · unfold Session.saved at hafter
    split at hafter
    · have hstage : conn.stage = .persisting := of_decide_eq_true hsaving
      cases Option.some.inj hafter
      exact ⟨by simp [Session.serving, hstage], rfl, rfl⟩
    · cases Option.some.inj hafter
      exact ⟨rfl, rfl, rfl⟩
    · cases Option.some.inj hafter
      exact ⟨rfl, rfl, rfl⟩

theorem beats_connected {a : Session.Action} {t : Session.State}
    (hs : Session.stepConnected config session conn a = some t) (ha : beating a = false)
    (hafter : t.connection = some after) : Beats conn after := by
  by_cases hrecovers : a.recovers = true
  · have hlive := (Session.tasked hs hrecovers hafter).live
    have hstage : after.stage = conn.stage := congrArg Session.Live.stage hlive
    have hlink : after.link = conn.link := congrArg Session.Live.link hlive
    exact ⟨by simp only [Session.serving, hstage], by rw [hlink], by rw [hlink]⟩
  · cases a with
    | place frame =>
        simp only [Session.stepConnected] at hs
        split at hs <;> cases hs
        cases Option.some.inj hafter
        exact ⟨rfl, rfl, rfl⟩
    | receivePing =>
        obtain ⟨link, hlink, rfl⟩ := Option.map_eq_some_iff.mp hs
        unfold Link.receivePing at hlink
        split at hlink <;> cases hlink
        cases Option.some.inj hafter
        exact ⟨rfl, rfl, rfl⟩
    | answer ping pong =>
        obtain ⟨link, hlink, rfl⟩ := Option.map_eq_some_iff.mp hs
        unfold Link.answer at hlink
        split at hlink <;> cases hlink
        cases Option.some.inj hafter
        exact ⟨rfl, rfl, rfl⟩
    | fail =>
        cases Option.some.inj hs
        cases hafter
    | discover responses order => exact beats_discover hs hafter
    | consume =>
        simp only [Session.stepConnected] at hs
        split at hs
        · exact beats_consume hs hafter
        · contradiction
    | answered response =>
        simp only [Session.stepConnected] at hs
        split at hs <;> cases hs
        exact beats_answered _ _ _ hafter
    | turn caller turn =>
        cases caller with
        | live => exact beats_live hs hafter
        | recovery => exact absurd rfl hrecovers
    | copy caller =>
        simp only [Session.stepConnected] at hs
        split at hs <;> cases hs
        cases Option.some.inj hafter
        exact ⟨rfl, rfl, rfl⟩
    | save caller ok => exact beats_save hs hafter
    | startPass | choose | page | scan => exact absurd rfl hrecovers
    | opened | greet | tick | recordPing | read => cases ha
    | advance | post | worker | connect | saveAfter | stop | restart | crash => cases hs

theorem Waits.begun (h : Waits latency clock s conn) (hserving : Session.serving conn = false) :
    conn.link.writing = none ∧ conn.link.pending = none := by
  cases h with
  | starting _ hwriting hpending => exact ⟨hwriting, hpending⟩
  | idle hs | writing _ hs | pending _ hs =>
      rw [hserving] at hs
      cases hs

theorem greet_frames {link next : Link} {hello : Bool} (h : link.greet = some (.ok (hello, next))) :
    ∃ rest, next = { link with frames := rest } := by
  unfold Link.greet at h
  split at h
  · contradiction
  · rename_i rest _
    refine ⟨rest, ?_⟩
    dsimp only at h
    split at h
    · cases h
    · cases h
    · split at h <;> cases h
      rfl
    · cases h
      rfl
    · cases h
      rfl

variable {a : Session.Action} {t : State}

theorem step_other (hs : step config s a = some t) (ha : beating a = false) (hne : a ≠ .connect) :
    ∃ session, Session.step config s.session a = some session ∧ t = { s with session := session } := by
  obtain ⟨session, hsession, hs⟩ := Option.bind_eq_some_iff.mp hs
  refine ⟨session, hsession, ?_⟩
  cases a
  case connect => exact absurd rfl hne
  case opened | greet | tick | recordPing | read => cases ha
  all_goals exact (Option.some.inj hs).symm

theorem inv_other (h : Inv latency s) (hprompt : Prompt latency s a) (ha : beating a = false)
    (hne : a ≠ .connect) (hs : step config s a = some t) : Inv latency t := by
  obtain ⟨session, hsession, rfl⟩ := step_other hs ha hne
  rcases Session.step_cases hsession with haround | ⟨conn, hconn, hstep⟩
  · cases haround with
    | advance elapsed =>
        refine ⟨h.since.trans (Nat.le_add_right _ _), fun conn hconn => ?_⟩
        exact ((h.waits conn hconn).advance (hprompt conn hconn)).beats ⟨rfl, rfl, rfl⟩ rfl rfl rfl
    | post event channel ts =>
        refine ⟨h.since, fun conn hconn => ?_⟩
        obtain ⟨before, hbefore, rfl⟩ := Option.map_eq_some_iff.mp hconn
        refine (h.waits before hbefore).beats ?_ rfl rfl rfl
        unfold Session.posting
        split <;> exact ⟨rfl, rfl, rfl⟩
    | worker action worker hallowed hworker =>
        have hclock := Session.worker_clock hallowed hworker
        refine ⟨h.since.trans hclock.ge, fun conn hconn => ?_⟩
        refine Waits.still ?_ hclock
        exact (h.waits conn hconn).beats ⟨rfl, rfl, rfl⟩ rfl rfl rfl
    | connect => exact absurd rfl hne
    | saveAfter hnone =>
        refine ⟨h.since, fun conn hconn => ?_⟩
        rw [hnone] at hconn
        cases hconn
    | stop | restart | crash => exact ⟨h.since, fun conn hconn => by cases hconn⟩
  · have hclock : session.clock = s.session.clock := (Session.core_connected hstep).keeps.1
    refine ⟨h.since.trans hclock.ge, fun after hafter => ?_⟩
    refine Waits.still ?_ hclock
    exact (h.waits conn hconn).beats (beats_connected hstep ha hafter) rfl rfl rfl

theorem tick_cases (hs : Session.stepConnected config s.session conn .tick = some session) :
    Session.serving conn = true ∧ conn.link.writing = none ∧
      ((conn.link.pending = none ∧ ∃ link ping, session = s.session.withLink conn link ∧
          link.writing = some ping ∧ link.pending = none) ∨
        ∃ pending, conn.link.pending = some pending ∧
          (s.clock < pending.sent + PONG_TIMEOUT ∧ session = s.session.withLink conn conn.link ∨
            pending.sent + PONG_TIMEOUT ≤ s.clock ∧ session.connection = none)) := by
  simp only [Session.stepConnected] at hs
  split at hs
  · rename_i hserving
    obtain ⟨result, htick, rfl⟩ := Option.map_eq_some_iff.mp hs
    unfold Link.tick at htick
    split at htick
    · contradiction
    · rename_i pending hwriting hpending
      refine ⟨hserving, hwriting, .inr ⟨pending, hpending, ?_⟩⟩
      have hpositive : 0 < PONG_TIMEOUT := by decide
      split at htick <;> cases htick
      · rename_i hlt
        change s.clock - pending.sent < PONG_TIMEOUT at hlt
        exact .inl ⟨by omega, rfl⟩
      · rename_i hge
        change ¬ s.clock - pending.sent < PONG_TIMEOUT at hge
        exact .inr ⟨by omega, rfl⟩
    · rename_i hwriting hpending
      cases htick
      exact ⟨hserving, hwriting, .inl ⟨hpending, _, _, rfl, rfl, hpending⟩⟩
  · contradiction

theorem inv_tick (h : Inv latency s) (hconn : s.session.connection = some conn)
    (hdue : s.nextTick ≤ s.clock)
    (hstep : Session.stepConnected config s.session conn .tick = some session) :
    Inv latency { s with
      session := session
      ticked := s.clock
      nextTick := tickAfter s.nextTick s.clock PING_INTERVAL } := by
  obtain ⟨hlater, hsoon⟩ := tickAfter_bounds hdue
  have hclock : session.clock = s.session.clock := (Session.core_connected hstep).keeps.1
  refine ⟨h.since.trans hclock.ge, fun after hafter => ?_⟩
  obtain ⟨hserving, hwriting, ⟨hpending, link, ping, rfl, hlink, hnone⟩ |
    ⟨pending, hpending, ⟨hearly, rfl⟩ | ⟨-, hnone⟩⟩⟩ := tick_cases hstep
  · cases Option.some.inj hafter
    refine .writing ping hserving hlink hnone ?_ (Nat.le_refl _) ?_ ⟨hlater, hsoon⟩
    · exact (Nat.le_add_right _ _).trans (Nat.le_add_right _ _)
    · cases h.waits conn hconn with
      | starting hs => exact absurd (hserving.symm.trans hs) (by decide)
      | idle _ _ _ hlate hnext => exact hlate.trans (Nat.add_le_add_right hnext _)
      | writing _ _ hw => exact absurd (hwriting.symm.trans hw) (by simp)
      | pending _ _ _ hp => exact absurd (hpending.symm.trans hp) (by simp)
  · cases Option.some.inj hafter
    refine .pending pending hserving hwriting hpending ?_ ?_ ?_ hsoon
    · exact ((Nat.le_add_right _ _).trans hlater).trans (Nat.le_add_right _ _)
    · cases h.waits conn hconn with
      | starting hs => exact absurd (hserving.symm.trans hs) (by decide)
      | idle _ _ hp => exact absurd (hpending.symm.trans hp) (by simp)
      | writing _ _ hw => exact absurd (hwriting.symm.trans hw) (by simp)
      | pending found _ _ hp _ hsince =>
          cases Option.some.inj (hpending.symm.trans hp)
          exact hsince
    · exact hsoon.trans (Nat.add_le_add_right hearly.le _)
  · rw [show session.connection = some after from hafter] at hnone
    cases hnone

theorem inv_recordPing (h : Inv latency s) (hconn : s.session.connection = some conn)
    (hstep : Session.stepConnected config s.session conn .recordPing = some session) :
    Inv latency { s with session := session } := by
  obtain ⟨link, hlink, rfl⟩ := Option.map_eq_some_iff.mp hstep
  unfold Link.recordPing at hlink
  split at hlink
  · contradiction
  · rename_i ping hwriting
    cases hlink
    refine ⟨h.since, fun after hafter => ?_⟩
    cases Option.some.inj hafter
    cases h.waits conn hconn with
    | starting _ hw | idle _ hw | pending _ _ hw => exact absurd (hwriting.symm.trans hw) (by simp)
    | writing _ hserving _ _ hlate hbefore hsince hnext =>
        have hshort : WRITE_TIMEOUT ≤ PING_INTERVAL := by decide
        have hwait : s.clock ≤ s.nextTick + latency := by omega
        have hsent : s.clock ≤ s.since + PING_INTERVAL + WRITE_TIMEOUT + 2 * latency := by omega
        have hsoon : s.nextTick ≤ s.clock + PING_INTERVAL := by omega
        have hpong : s.nextTick ≤ s.clock + PONG_TIMEOUT + PING_INTERVAL := by omega
        exact .pending ⟨ping, s.clock, s.session.now⟩ hserving rfl rfl hwait hsent hpong hsoon

theorem reads_timers {link next : Link} (h : Session.Reads link next) :
    next.writing = link.writing ∧
      (next.pending = link.pending ∨ link.pending.isSome = true ∧ next.pending = none) := by
  cases h with
  | dropped | queued => exact ⟨rfl, .inl rfl⟩
  | barrier _ _ _ pending _ _ hpending => exact ⟨rfl, .inr ⟨by rw [hpending]; rfl, rfl⟩⟩

theorem inv_read (h : Inv latency s) (hconn : s.session.connection = some conn)
    (hstep : Session.stepConnected config s.session conn .read = some session) :
    Inv latency (if answered s.session session then { s with session := session, since := s.clock }
      else { s with session := session }) := by
  have hclock : session.clock = s.session.clock := (Session.core_connected hstep).keeps.1
  simp only [Session.stepConnected] at hstep
  split at hstep
  · rename_i hserving
    obtain ⟨result, hread, rfl⟩ := Option.map_eq_some_iff.mp hstep
    cases result with
    | error error =>
        have hnone : (Session.afterRead s.session conn (.error error)).connection = none := by
          cases error <;> rfl
        rw [answered, hnone, Option.any_none, Bool.and_false, if_neg (by decide)]
        refine ⟨h.since.trans hclock.ge, fun after hafter => ?_⟩
        rw [show _ = some after from hafter] at hnone
        cases hnone
    | ok link =>
        obtain ⟨hwriting, hreads⟩ := Session.reads_of_read hread
        have hanswered : answered s.session (s.session.withLink conn link) =
            (conn.link.pending.isSome && link.pending.isNone) := by
          unfold answered
          rw [hconn]
          rfl
        obtain ⟨hstill, hsame | ⟨hsome, hnone⟩⟩ := reads_timers hreads
        · have hno : answered s.session (s.session.withLink conn link) = false := by
            rw [hanswered, hsame]
            cases conn.link.pending <;> rfl
          change Inv latency (if answered s.session (s.session.withLink conn link) then _ else _)
          rw [hno, if_neg (by decide)]
          refine ⟨h.since, fun after hafter => ?_⟩
          cases Option.some.inj hafter
          exact (h.waits conn hconn).beats ⟨rfl, hstill, hsame⟩ rfl rfl rfl
        · have hyes : answered s.session (s.session.withLink conn link) = true := by
            rw [hanswered, hsome, hnone]
            rfl
          change Inv latency (if answered s.session (s.session.withLink conn link) then _ else _)
          rw [hyes, if_pos rfl]
          refine ⟨Nat.le_refl _, fun after hafter => ?_⟩
          cases Option.some.inj hafter
          cases h.waits conn hconn with
          | starting _ _ hp | idle _ _ hp | writing _ _ _ hp =>
              rw [hp] at hsome
              cases hsome
          | pending _ _ _ _ hlate _ _ hsoon =>
              exact .idle hserving (hstill.trans hwriting) hnone hlate hsoon
  · contradiction

theorem inv_opened (h : Inv latency s) (hconn : s.session.connection = some conn)
    (hstep : Session.stepConnected config s.session conn .opened = some session) :
    Inv latency { s with session := session, since := s.clock } := by
  simp only [Session.stepConnected] at hstep
  split at hstep
  · rename_i hstage
    cases Option.some.inj hstep
    refine ⟨Nat.le_refl _, fun after hafter => ?_⟩
    cases Option.some.inj hafter
    obtain ⟨hwriting, hpending⟩ := (h.waits conn hconn).begun (by simp [Session.serving, hstage])
    refine .starting (by simp [Session.serving]) hwriting hpending ?_
    exact (Nat.le_add_right _ _).trans (Nat.le_add_right _ _)
  · contradiction

theorem inv_greet (h : Inv latency s) (hconn : s.session.connection = some conn)
    (hstep : Session.stepConnected config s.session conn .greet = some session) :
    Inv latency (if session.connection.any Session.serving then
        { s with session := session, since := s.clock, nextTick := s.clock }
      else { s with session := session }) := by
  simp only [Session.stepConnected] at hstep
  split at hstep
  · rename_i hstage
    obtain ⟨result, hgreet, rfl⟩ := Option.map_eq_some_iff.mp hstep
    have hidle : Session.serving conn = false := by simp [Session.serving, hstage]
    obtain ⟨hwriting, hpending⟩ := (h.waits conn hconn).begun hidle
    cases result with
    | error error => exact ⟨h.since, fun after hafter => by cases hafter⟩
    | ok result =>
        obtain ⟨hello, link⟩ := result
        obtain ⟨rest, rfl⟩ := greet_frames hgreet
        cases hello with
        | true =>
            refine ⟨Nat.le_refl _, fun after hafter => ?_⟩
            cases Option.some.inj hafter
            exact .idle rfl hwriting hpending (Nat.le_add_right _ _) (Nat.le_add_right _ _)
        | false =>
            refine ⟨h.since, fun after hafter => ?_⟩
            cases Option.some.inj hafter
            refine (h.waits conn hconn).beats ⟨?_, rfl, rfl⟩ rfl rfl rfl
            exact hidle.symm
  · contradiction

theorem inv_step (h : Inv latency s) (hprompt : Prompt latency s a) (hs : step config s a = some t) :
    Inv latency t := by
  cases ha : beating a with
  | false =>
      by_cases hconnect : a = .connect
      · subst hconnect
        obtain ⟨session, hsession, ht⟩ := Option.bind_eq_some_iff.mp hs
        cases Option.some.inj ht
        rcases Session.step_cases hsession with haround | ⟨conn, -, hstep⟩
        · cases haround
          refine ⟨Nat.le_refl _, fun conn hconn => ?_⟩
          cases Option.some.inj hconn
          exact .starting rfl rfl rfl ((Nat.le_add_right _ _).trans (Nat.le_add_right _ _))
        · cases hstep
      · exact inv_other h hprompt ha hconnect hs
  | true =>
      obtain ⟨session, hsession, ht⟩ := Option.bind_eq_some_iff.mp hs
      obtain ⟨conn, hconn, hstep⟩ : ∃ conn, s.session.connection = some conn ∧
          Session.stepConnected config s.session conn a = some session := by
        rcases Session.step_cases hsession with haround | hconnected
        · cases haround <;> cases ha
        · exact hconnected
      unfold beating at ha
      split at ha
      · cases Option.some.inj ht
        exact inv_opened h hconn hstep
      · have hinv := inv_greet h hconn hstep
        dsimp only at ht
        split at ht
        · rename_i hserving
          rw [if_pos hserving] at hinv
          cases Option.some.inj ht
          exact hinv
        · rename_i hserving
          rw [if_neg hserving] at hinv
          cases Option.some.inj ht
          exact hinv
      · dsimp only at ht
        split at ht
        · rename_i hdue
          cases Option.some.inj ht
          exact inv_tick h hconn hdue hstep
        · contradiction
      · cases Option.some.inj ht
        exact inv_recordPing h hconn hstep
      · cases Option.some.inj ht
        exact inv_read h hconn hstep
      · contradiction

theorem step_session (hs : step config s a = some t) :
    Session.step config s.session a = some t.session := by
  obtain ⟨session, hsession, ht⟩ := Option.bind_eq_some_iff.mp hs
  rw [hsession]
  cases a
  case greet | tick =>
    dsimp only at ht
    split at ht <;> cases ht <;> rfl
  case read =>
    cases Option.some.inj ht
    split <;> rfl
  all_goals
    cases Option.some.inj ht
    rfl

/-- As long as no timer is later than the latency, no connection of a session goes on for
more than 65 seconds, and three times the latency, after it was called, opened, greeted or
had its last pong. A heartbeat ends a connection only where a ping is unanswered for 30
seconds. -/
theorem silence_bounded (h : ReachableBy (machine config) (Prompt latency) s) :
    Reachable (Session.machine config) s.session ∧
    (∀ conn, s.session.connection = some conn → s.clock ≤ s.since + SILENCE + 3 * latency) ∧
    ∀ t, step config s .tick = some t → t.session.connection = none →
      ∃ conn pending, s.session.connection = some conn ∧ conn.link.pending = some pending ∧
        pending.sent + PONG_TIMEOUT ≤ s.clock := by
  have hinv : Reachable (Session.machine config) s.session ∧ Inv latency s := by
    refine h.invariant (P := fun s => Reachable (Session.machine config) s.session ∧ Inv latency s) ?_ ?_
    · rintro s ⟨team, user, clock, rfl⟩
      exact ⟨.start ⟨team, user, clock, rfl⟩, Nat.le_refl _, fun conn hconn => by cases hconn⟩
    · intro s a t _ ⟨hreached, hinv⟩ hprompt hs
      exact ⟨.next hreached trivial (step_session hs), inv_step hinv hprompt hs⟩
  refine ⟨hinv.1, fun conn hconn => (hinv.2.waits conn hconn).bound, fun t hs hnone => ?_⟩
  obtain hsession := step_session hs
  rcases Session.step_cases hsession with haround | ⟨conn, hconn, hstep⟩
  · cases haround
  · refine ⟨conn, ?_⟩
    obtain ⟨-, -, ⟨-, link, ping, heq, -⟩ | ⟨pending, hpending, ⟨-, heq⟩ | ⟨hlate, -⟩⟩⟩ := tick_cases hstep
    · rw [heq] at hnone
      cases hnone
    · rw [heq] at hnone
      cases hnone
    · exact ⟨pending, hconn, hpending, hlate⟩

end

instance (latency : Nat) (s : State) (a : Session.Action) : Decidable (Prompt latency s a) := by
  unfold Prompt
  split
  · exact inferInstanceAs (Decidable (∀ conn, conn ∈ s.session.connection → _))
  · exact inferInstanceAs (Decidable True)

/-- A server that is silent after its hello, and a session that waits for its pong. -/
def silentRun : List Session.Action :=
  [.connect, .opened, .place (.text (some (Session.sampleEvent "hello".toList))), .greet, .tick, .recordPing,
    .advance PING_INTERVAL, .tick, .advance PING_INTERVAL]

theorem silence_bounded_silent :
    ∃ s : State, ReachableBy (machine Session.sampleConfig) (Prompt 0) s ∧
      s.since = 1000000000 * SECOND ∧ s.clock = 1000000030 * SECOND ∧
      (∀ conn, s.session.connection = some conn → s.clock ≤ s.since + SILENCE + 3 * 0) := by
  have hrun : ∃ s : State, ReachableBy (machine Session.sampleConfig) (Prompt 0) s ∧
      (s.since = 1000000000 * SECOND ∧ s.clock = 1000000030 * SECOND) :=
    exists_reachableBy (s := initial "T1".toList "U1".toList (1000000000 * SECOND)) silentRun
      ⟨_, _, _, rfl⟩ (by decide +kernel)
  obtain ⟨s, hs, hsince, hclock⟩ := hrun
  exact ⟨s, hs, hsince, hclock, (silence_bounded hs).2.1⟩

end SjmbSlack.UserSession.Timeouts
