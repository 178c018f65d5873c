import Mathlib.Logic.Relation
import SjmbSlack.SocketMode.Supervisor

/-! Runs of the control loop: how long it waits between sessions, and that a
shutdown ends it. -/
namespace SjmbSlack.SocketMode.Supervisor
open Machine

inductive Stepped (total : Nat) (s : State) : Action → State → Prop where
  | advanced (elapsed : Nat) : Stepped total s (.advance elapsed) { s with clock := s.clock + elapsed }
  | signalled (result : Except Str Unit) (hnone : s.shutdown = none) :
      Stepped total s (.signal result) { s with shutdown := some (result, s.clock) }
  | closing (a : Action) (stage : Stage) (ended : Option SessionError) (finished : Bool)
      (hphase : s.phase = .session stage) (hended : ended = none → s.shutdown.isSome) :
      Stepped total s a ({ s with workerFinished := finished }.close ended)
  | staged (a : Action) (stage next : Stage) (listeners : Nat) (registered : Option Nat)
      (hphase : s.phase = .session stage) (hnext : next.deadline.all (s.clock ≤ ·))
      (hlisteners : s.listeners ≤ total → listeners ≤ total)
      (hregistered : registered = s.registeredSince ∨ registered = some s.clock) :
      Stepped total s a { s with
        phase := .session next, listeners := listeners, registeredSince := registered }
  | closed (a : Action) (since left : Nat) (ended : Option SessionError)
      (hphase : s.phase = .closing since left ended) : Stepped total s a (s.closeNext left ended)
  | drained (a : Action) (since : Nat) (ended : Option SessionError)
      (hphase : s.phase = .draining since ended) : Stepped total s a { s with phase := .ended ended }
  | returned (a : Action) (result : Except Str Unit) (time : Nat)
      (hshutdown : s.shutdown = some (result, time))
      (hphase : s.phase = .ended none ∨ ∃ since delay, s.phase = .sleeping since delay) :
      Stepped total s a { s with phase := .returned result }
  | slept (millis : Nat) (error : SessionError) (hphase : s.phase = .ended (some error))
      (hmillis : millis < 1000) : Stepped total s (.leave millis) (s.sleep millis error)
  | restarted (since delay : Nat) (hphase : s.phase = .sleeping since delay)
      (hdue : since + delay ≤ s.clock) : Stepped total s .wake s.restart

theorem stepped_of_step {total : Nat} {s t : State} {a : Action} (h : step total s a = some t) :
    Stepped total s a t := by
  cases a with
  | advance elapsed =>
      cases Option.some.inj h
      exact .advanced elapsed
  | signal result =>
      simp only [step] at h
      split at h
      · contradiction
      · rename_i hnone
        cases Option.some.inj h
        exact .signalled result (by simpa using hnone)
  | takeShutdown =>
      simp only [step] at h
      split at h
      · rename_i stage shutdown hphase hshutdown
        cases Option.some.inj h
        exact .closing _ stage none s.workerFinished hphase fun _ => by rw [hshutdown]; rfl
      · rename_i since delay result time hphase hshutdown
        cases Option.some.inj h
        exact .returned _ result time hshutdown (.inr ⟨since, delay, hphase⟩)
      · contradiction
  | fail error =>
      simp only [step] at h
      split at h
      · rename_i stage hphase
        cases Option.some.inj h
        exact .closing _ stage (some error) s.workerFinished hphase fun hnone => by cases hnone
      · contradiction
  | connected =>
      simp only [step] at h
      split at h
      · rename_i hphase
        split at h
        · rename_i hlt
          cases Option.some.inj h
          exact .staged _ _ _ (s.listeners + 1) s.registeredSince hphase
            (by simp [Stage.deadline]) (fun _ => hlt) (.inl rfl)
        · contradiction
      · contradiction
  | registered =>
      simp only [step] at h
      split at h
      · rename_i since hphase
        cases Option.some.inj h
        exact .staged _ _ _ s.listeners s.registeredSince hphase (by simp [Stage.deadline]) id (.inl rfl)
      · contradiction
  | started =>
      simp only [step] at h
      split at h
      · rename_i since hphase
        cases Option.some.inj h
        exact .staged _ _ _ s.listeners s.registeredSince hphase (by simp [Stage.deadline]) id (.inl rfl)
      · contradiction
  | ready =>
      simp only [step] at h
      split at h
      · rename_i since hphase
        split at h
        · cases Option.some.inj h
          exact .staged _ _ _ s.listeners _ hphase rfl id (.inr rfl)
        · cases Option.some.inj h
          exact .staged _ _ _ s.listeners s.registeredSince hphase rfl id (.inl rfl)
      · contradiction
  | workerReturned =>
      simp only [step] at h
      split at h
      · rename_i stage hphase
        cases Option.some.inj h
        exact .closing _ stage (some .workerStopped) true hphase fun hnone => by cases hnone
      · rename_i since ended hphase
        cases Option.some.inj h
        exact .drained _ since ended hphase
      · contradiction
  | closed =>
      simp only [step] at h
      split at h
      · rename_i since left ended hphase
        cases Option.some.inj h
        exact .closed _ since left ended hphase
      · contradiction
  | timeout =>
      simp only [step] at h
      split at h
      · rename_i stage hphase
        split at h
        · cases Option.some.inj h
          exact .closing _ stage (some .timedOut) s.workerFinished hphase fun hnone => by cases hnone
        · contradiction
      · rename_i since left ended hphase
        split at h
        · cases Option.some.inj h
          exact .closed _ since left ended hphase
        · contradiction
      · rename_i since ended hphase
        split at h
        · cases Option.some.inj h
          exact .drained _ since ended hphase
        · contradiction
      · contradiction
  | leave millis =>
      simp only [step] at h
      split at h
      · rename_i result time hphase hshutdown
        cases Option.some.inj h
        exact .returned _ result time hshutdown (.inl hphase)
      · rename_i error hphase
        split at h
        · rename_i hmillis
          cases Option.some.inj h
          exact .slept millis error hphase hmillis
        · contradiction
      · contradiction
  | wake =>
      simp only [step] at h
      split at h
      · rename_i since delay hphase
        split at h
        · rename_i hdue
          cases Option.some.inj h
          exact .restarted since delay hphase hdue
        · contradiction
      · contradiction

namespace State

variable (s : State) (left : Nat) (ended : Option SessionError)

@[simp] theorem closeNext_clock : (s.closeNext left ended).clock = s.clock := by cases left <;> rfl

@[simp] theorem closeNext_shutdown : (s.closeNext left ended).shutdown = s.shutdown := by
  cases left <;> rfl

@[simp] theorem closeNext_backoff : (s.closeNext left ended).backoff = s.backoff := by
  cases left <;> rfl

@[simp] theorem closeNext_listeners : (s.closeNext left ended).listeners = s.listeners := by
  cases left <;> rfl

@[simp] theorem closeNext_registeredSince :
    (s.closeNext left ended).registeredSince = s.registeredSince := by cases left <;> rfl

@[simp] theorem closeNext_startedAt : (s.closeNext left ended).startedAt = s.startedAt := by
  cases left <;> rfl

@[simp] theorem closeNext_waits : (s.closeNext left ended).waits = s.waits := by cases left <;> rfl

theorem closeNext_phase :
    (∃ rest, left = rest + 1 ∧ (s.closeNext left ended).phase = .closing s.clock rest ended) ∨
      (s.closeNext left ended).phase = .ended ended ∨
      (s.closeNext left ended).phase = .draining s.clock ended := by
  cases left with
  | succ rest => exact .inl ⟨rest, rfl, rfl⟩
  | zero =>
      cases hfinished : s.workerFinished with
      | true => exact .inr (.inl (by simp [closeNext, hfinished]))
      | false => exact .inr (.inr (by simp [closeNext, hfinished]))

end State

def SessionError.asked : SessionError → Nat
  | .rateLimited retryAfter => retryAfter.getD 0
  | _ => 0

def Wait.pause (wait : Wait) : Backoff.Pause where
  startedAt := wait.startedAt
  since := wait.since
  delay := wait.delay
  reset := wait.long
  asked := wait.error.asked

def State.pauses (s : State) : List Backoff.Pause := s.waits.map Wait.pause

structure Paced (s : State) : Prop where
  spaced : Backoff.Spaced 2 30 SECOND s.pauses
  session : (∀ since delay, s.phase ≠ .sleeping since delay) → (∀ result, s.phase ≠ .returned result) →
    Backoff.Ready 2 30 SECOND s.pauses s.backoff s.startedAt ∧ s.startedAt ≤ s.clock
  sleeping : ∀ since delay, s.phase = .sleeping since delay →
    Backoff.Waiting 2 30 SECOND s.pauses s.backoff since delay

theorem reconnectDelay_eq (backoff millis : Nat) (error : SessionError) :
    reconnectDelay backoff millis error = max (backoff * SECOND + millis * MILLISECOND) error.asked := by
  cases error with
  | rateLimited retryAfter =>
      cases retryAfter with
      | none =>
          rw [reconnectDelay, SessionError.asked, Option.getD_none, Option.getD_none, Nat.max_self,
            Nat.max_zero]
      | some pause => rw [reconnectDelay, SessionError.asked, Option.getD_some, Option.getD_some]
  | _ => exact (Nat.max_zero _).symm

theorem Paced.keep {s t : State} (h : Paced s) (hwaits : t.waits = s.waits)
    (hbackoff : t.backoff = s.backoff) (hstarted : t.startedAt = s.startedAt) (hclock : s.clock ≤ t.clock)
    (hsleeping : ∀ since delay, t.phase = .sleeping since delay → s.phase = .sleeping since delay)
    (hsession : (∀ since delay, t.phase ≠ .sleeping since delay) → (∀ result, t.phase ≠ .returned result) →
      (∀ since delay, s.phase ≠ .sleeping since delay) ∧ ∀ result, s.phase ≠ .returned result) :
    Paced t where
  spaced := by
    rw [State.pauses, hwaits]
    exact h.spaced
  session := by
    intro hawake hgoing
    obtain ⟨hawake', hgoing'⟩ := hsession hawake hgoing
    obtain ⟨hready, hpast⟩ := h.session hawake' hgoing'
    rw [State.pauses, hwaits, hbackoff, hstarted]
    exact ⟨hready, hpast.trans hclock⟩
  sleeping := by
    intro since delay hphase
    rw [State.pauses, hwaits, hbackoff]
    exact h.sleeping since delay (hsleeping since delay hphase)

theorem Paced.move {s t : State} (h : Paced s) (hwaits : t.waits = s.waits)
    (hbackoff : t.backoff = s.backoff) (hstarted : t.startedAt = s.startedAt) (hclock : t.clock = s.clock)
    (hbefore : (∀ since delay, s.phase ≠ .sleeping since delay) ∧ ∀ result, s.phase ≠ .returned result)
    (hafter : ∀ since delay, t.phase ≠ .sleeping since delay) : Paced t :=
  h.keep hwaits hbackoff hstarted (Nat.le_of_eq hclock.symm)
    (fun since delay hphase => absurd hphase (hafter since delay)) fun _ _ => hbefore

theorem closeNext_awake (s : State) (left : Nat) (ended : Option SessionError) (since delay : Nat) :
    (s.closeNext left ended).phase ≠ .sleeping since delay := by
  rcases s.closeNext_phase left ended with ⟨_, -, h⟩ | h | h <;> simp [h]

theorem paced_step {total : Nat} {s t : State} {a : Action} (h : Paced s)
    (hstep : step total s a = some t) : Paced t := by
  cases stepped_of_step hstep with
  | advanced elapsed =>
      exact h.keep rfl rfl rfl (Nat.le_add_right _ _) (fun _ _ => id) fun hawake hgoing => ⟨hawake, hgoing⟩
  | signalled result _ =>
      exact h.keep rfl rfl rfl (Nat.le_refl _) (fun _ _ => id) fun hawake hgoing => ⟨hawake, hgoing⟩
  | closing a stage ended finished hphase _ =>
      exact h.move (State.closeNext_waits _ _ _) (State.closeNext_backoff _ _ _)
        (State.closeNext_startedAt _ _ _) (State.closeNext_clock _ _ _) (by simp [hphase])
        (closeNext_awake _ _ _)
  | staged a stage next listeners registered hphase _ _ _ =>
      exact h.move rfl rfl rfl rfl (by simp [hphase]) (by simp)
  | closed a since left ended hphase =>
      exact h.move (s.closeNext_waits _ _) (s.closeNext_backoff _ _) (s.closeNext_startedAt _ _)
        (s.closeNext_clock _ _) (by simp [hphase]) (closeNext_awake s _ _)
  | drained a since ended hphase =>
      exact h.move rfl rfl rfl rfl (by simp [hphase]) (by simp)
  | returned a result time _ _ =>
      refine ⟨h.spaced, fun _ hgoing => absurd rfl (hgoing result), fun since delay hphase => ?_⟩
      cases hphase
  | slept millis error hphase hmillis =>
      obtain ⟨hready, hpast⟩ := h.session (by simp [hphase]) (by simp [hphase])
      let backoff := if s.uptime.any (60 * SECOND ≤ ·) then 2 else s.backoff
      let wait : Wait := ⟨s.startedAt, s.uptime, error, s.clock, reconnectDelay backoff millis error⟩
      have hjitter : millis * MILLISECOND < SECOND := Nat.mul_lt_mul_of_pos_right hmillis (by decide)
      have hwaiting := hready.wait wait.pause hjitter hpast (reconnectDelay_eq backoff millis error)
      refine ⟨hwaiting.spaced, fun hawake => absurd rfl (hawake _ _), fun since delay hslept => ?_⟩
      cases hslept
      exact hwaiting
  | restarted since delay hphase hdue =>
      have hready := (h.sleeping since delay hphase).attempt hdue
      exact ⟨h.spaced, fun _ _ => ⟨hready, Nat.le_refl _⟩, fun since delay hslept => by cases hslept⟩

theorem paced_reachable {total : Nat} {s : State} (h : Reachable (machine total) s) : Paced s := by
  refine h.invariant (P := Paced) ?_ fun _ _ _ _ hpaced _ hstep => paced_step hpaced hstep
  rintro s ⟨clock, rfl⟩
  exact ⟨trivial, fun _ _ => ⟨.initial clock, Nat.le_refl _⟩, by simp [initial]⟩

def Phase.inSession : Phase → Bool
  | .session _ => true
  | _ => false

/-- The waits between sessions grow with each session in a row that had not been
registered for a minute, heed the rate limit, and keep the sessions apart. -/
theorem sessions_backed_off {total : Nat} {s : State} (h : Reachable (machine total) s) :
    (∀ i wait, s.waits[i]? = some wait →
      let backoff := min (2 * 2 ^ (Backoff.series ((s.waits.drop i).map Wait.long) - 1)) 30
      backoff * SECOND ≤ wait.delay ∧ wait.error.asked ≤ wait.delay ∧
      (wait.delay < (backoff + 1) * SECOND ∨ wait.delay = wait.error.asked) ∧
      wait.startedAt ≤ wait.since ∧
      ∀ earlier, s.waits[i + 1]? = some earlier → earlier.since + earlier.delay ≤ wait.startedAt) ∧
    (s.phase.inSession →
      let inSeries := Backoff.series (s.waits.map Wait.long)
      (∀ last, s.waits.head? = some last → last.since + last.delay ≤ s.startedAt) ∧
      ∀ first, s.waits[inSeries - 1]? = some first →
        first.since + 30 * (inSeries - 4) * SECOND ≤ s.startedAt) := by
  have hpaced := paced_reachable h
  refine ⟨fun i wait hwait => hpaced.spaced.law_map (by decide) hwait, fun hsession => ?_⟩
  obtain ⟨hready, -⟩ := hpaced.session
    (fun since delay hphase => by rw [hphase] at hsession; cases hsession)
    (fun result hphase => by rw [hphase] at hsession; cases hsession)
  exact hready.spread (by decide) 4 (by decide)

/-- A connection fails, then a registration is rate limited, and then a session that had
been registered for a minute ends. -/
def resetRun : List Action :=
  [.fail .other, .workerReturned, .leave 0, .advance (2 * SECOND), .wake,
    .connected, .registered, .fail (.rateLimited (some (10 * SECOND))), .closed, .workerReturned,
    .leave 500, .advance (10 * SECOND), .wake,
    .connected, .registered, .started, .ready, .advance (60 * SECOND), .fail (.health []), .closed,
    .workerReturned, .leave 250, .advance (2250 * MILLISECOND), .wake]

theorem sessions_backed_off_reset : ∃ s : State, s.phase = .session .connecting ∧
    s.waits.map (fun wait => (wait.long, wait.delay)) =
      [(true, 2250 * MILLISECOND), (false, 10 * SECOND), (false, 2 * SECOND)] ∧
    (∀ wait ∈ s.waits, wait.error.asked ≤ wait.delay) ∧
    ∀ last, s.waits.head? = some last → last.since + last.delay ≤ s.startedAt := by
  have hrun : ∃ s : State, Reachable (machine 1) s ∧ (s.phase = .session .connecting ∧
      s.waits.map (fun wait => (wait.long, wait.delay)) =
        [(true, 2250 * MILLISECOND), (false, 10 * SECOND), (false, 2 * SECOND)]) :=
    exists_reachable (s := initial 0) resetRun ⟨_, rfl⟩ (by decide +kernel)
  obtain ⟨s, hs, hphase, hwaits⟩ := hrun
  obtain ⟨hlaw, hspread⟩ := sessions_backed_off hs
  refine ⟨s, hphase, hwaits, fun wait hmem => ?_, (hspread (by rw [hphase]; rfl)).1⟩
  obtain ⟨i, hwait⟩ := List.getElem?_of_mem hmem
  exact (hlaw i wait hwait).2.1

/-- The next instant at which the loop is polled whatever else happens. -/
def State.due (s : State) : Option Nat :=
  match s.phase with
  | .session stage => if s.shutdown.isSome then some s.clock else stage.deadline
  | .closing since _ _ => some (since + SHUTDOWN_TIMEOUT)
  | .draining since _ => some (since + DRAIN_TIMEOUT)
  | .ended _ => some s.clock
  | .sleeping since delay => if s.shutdown.isSome then some s.clock else some (since + delay)
  | .returned _ => none

/-- Timers fire when they are due, and a branch that is ready is taken at once. -/
def OnTime (s : State) : Action → Prop
  | .advance elapsed => ∀ due ∈ s.due, s.clock + elapsed ≤ due
  | _ => True

def shutdownTime (listeners : Nat) : Nat := listeners * SHUTDOWN_TIMEOUT + DRAIN_TIMEOUT

/-- When the cleanup is over at the latest if a shutdown is waiting. -/
def State.endsBy (total : Nat) (s : State) : Nat :=
  match s.phase with
  | .session _ => s.clock + shutdownTime total
  | .closing since left _ => since + shutdownTime (left + 1)
  | .draining since _ => since + DRAIN_TIMEOUT
  | .ended _ => s.clock
  -- The sleep and the shutdown may be ready together, and then either is taken.
  | .sleeping since delay => if s.clock < since + delay then s.clock else s.clock + shutdownTime total
  | .returned _ => 0

def State.Timely (total : Nat) (s : State) : Prop :=
  match s.phase with
  | .closing since left _ => left < total ∧ since ≤ s.clock ∧ s.clock ≤ since + SHUTDOWN_TIMEOUT
  | .draining since _ => since ≤ s.clock ∧ s.clock ≤ since + DRAIN_TIMEOUT
  | _ => True

def Phase.shutDown : Phase → Bool
  | .closing _ _ none | .draining _ none | .ended none => true
  | _ => false

structure Prompt (total : Nat) (s : State) : Prop where
  backoff : 0 < s.backoff
  listeners : s.listeners ≤ total
  timely : s.Timely total
  ends : ∀ result time, s.shutdown = some (result, time) → s.endsBy total ≤ time + shutdownTime total
  shutDown : s.phase.shutDown → s.shutdown.isSome
  returned : ∀ result, s.phase = .returned result → ∃ time, s.shutdown = some (result, time)

theorem shutdownTime_mono {few many : Nat} (h : few ≤ many) : shutdownTime few ≤ shutdownTime many :=
  Nat.add_le_add_right (Nat.mul_le_mul_right _ h) _

theorem shutdownTime_succ (listeners : Nat) :
    shutdownTime (listeners + 1) = shutdownTime listeners + SHUTDOWN_TIMEOUT := by
  rw [shutdownTime, shutdownTime, Nat.succ_mul]
  omega

theorem drain_le_shutdownTime (listeners : Nat) : DRAIN_TIMEOUT ≤ shutdownTime listeners :=
  Nat.le_add_left _ _

section

variable {total : Nat} {s t : State}

theorem prompt_closeNext {left : Nat} {ended : Option SessionError} (hbackoff : 0 < s.backoff)
    (hlisteners : s.listeners ≤ total)
    (hleft : left ≤ total)
    (hends : ∀ result time, s.shutdown = some (result, time) →
      s.clock + shutdownTime left ≤ time + shutdownTime total)
    (hended : ended = none → s.shutdown.isSome) : Prompt total (s.closeNext left ended) := by
  have hdrain := drain_le_shutdownTime left
  rcases s.closeNext_phase left ended with ⟨rest, rfl, hphase⟩ | hphase | hphase
  · refine ⟨by simpa using hbackoff, by simpa using hlisteners, ?_, ?_, ?_, by simp [hphase]⟩
    · simp [State.Timely, hphase]
      omega
    · simpa [State.endsBy, hphase] using hends
    · intro hshut
      cases ended <;> simp_all [Phase.shutDown]
  · refine ⟨by simpa using hbackoff, by simpa using hlisteners, by simp [State.Timely, hphase], ?_, ?_, by simp [hphase]⟩
    · intro result time hshutdown
      have := hends result time (by simpa using hshutdown)
      simp only [State.endsBy, hphase, State.closeNext_clock]
      omega
    · intro hshut
      cases ended <;> simp_all [Phase.shutDown]
  · refine ⟨by simpa using hbackoff, by simpa using hlisteners, by simp [State.Timely, hphase], ?_, ?_, by simp [hphase]⟩
    · intro result time hshutdown
      have := hends result time (by simpa using hshutdown)
      simp only [State.endsBy, hphase]
      omega
    · intro hshut
      cases ended <;> simp_all [Phase.shutDown]

theorem endsBy_le (h : s.Timely total) : s.endsBy total ≤ s.clock + shutdownTime total := by
  have hdrain := drain_le_shutdownTime total
  unfold State.Timely at h
  unfold State.endsBy
  cases hphase : s.phase with
  | session stage => exact Nat.le_refl _
  | closing since left ended =>
      rw [hphase] at h
      have := shutdownTime_mono (show left + 1 ≤ total from h.1)
      dsimp only
      omega
  | draining since ended =>
      rw [hphase] at h
      dsimp only
      omega
  | ended ended => exact Nat.le_add_right _ _
  | sleeping since delay =>
      dsimp only
      split <;> omega
  | returned result => exact Nat.zero_le _

theorem prompt_advanced (h : Prompt total s) {elapsed : Nat} (hdue : OnTime s (.advance elapsed)) :
    Prompt total { s with clock := s.clock + elapsed } := by
  refine ⟨h.backoff, h.listeners, ?_, ?_, h.shutDown, h.returned⟩
  · have htimely := h.timely
    unfold State.Timely at htimely ⊢
    unfold OnTime State.due at hdue
    split at htimely <;> simp_all
    · omega
    · omega
  · intro result time hshutdown
    have hends := h.ends result time hshutdown
    unfold State.endsBy at hends ⊢
    unfold OnTime State.due at hdue
    split at hends <;> simp_all

theorem prompt_step {a : Action} (h : Prompt total s) (hontime : OnTime s a)
    (hstep : step total s a = some t) : Prompt total t := by
  cases stepped_of_step hstep with
  | advanced elapsed => exact prompt_advanced h hontime
  | signalled result hnone =>
      refine ⟨h.backoff, h.listeners, h.timely, ?_, fun _ => rfl, ?_⟩
      · intro result' time hsome
        cases hsome
        exact endsBy_le h.timely
      · intro result' hphase
        obtain ⟨time, hsome⟩ := h.returned result' hphase
        rw [hnone] at hsome
        cases hsome
  | closing a stage ended finished hphase hended =>
      refine prompt_closeNext (s := { s with workerFinished := finished }) h.backoff h.listeners
        h.listeners ?_ hended
      intro result time hshutdown
      have hends := h.ends result time hshutdown
      have := shutdownTime_mono h.listeners
      simp only [State.endsBy, hphase] at hends
      show s.clock + shutdownTime s.listeners ≤ _
      omega
  | staged a stage next listeners registered hphase hnext hlisteners _ =>
      refine ⟨h.backoff, hlisteners h.listeners, trivial, fun result time hshutdown => ?_, fun hshut => ?_, ?_⟩
      · have hends := h.ends result time hshutdown
        simp only [State.endsBy, hphase] at hends
        exact hends
      · cases hshut
      · intro result hreturned
        cases hreturned
  | closed a since left ended hphase =>
      have htimely := h.timely
      simp only [State.Timely, hphase] at htimely
      refine prompt_closeNext h.backoff h.listeners (Nat.le_of_lt htimely.1) ?_ ?_
      · intro result time hshutdown
        have hends := h.ends result time hshutdown
        simp only [State.endsBy, hphase, shutdownTime_succ] at hends
        omega
      · rintro rfl
        exact h.shutDown (by rw [hphase]; rfl)
  | drained a since ended hphase =>
      have htimely := h.timely
      simp only [State.Timely, hphase] at htimely
      refine ⟨h.backoff, h.listeners, trivial, fun result time hshutdown => ?_, fun hshut => ?_, ?_⟩
      · have hends := h.ends result time hshutdown
        simp only [State.endsBy, hphase] at hends
        simp only [State.endsBy]
        omega
      · refine h.shutDown ?_
        rw [hphase]
        cases ended with
        | none => rfl
        | some error => cases hshut
      · intro result hreturned
        cases hreturned
  | returned a result time hshutdown _ =>
      refine ⟨h.backoff, h.listeners, trivial, fun _ _ _ => Nat.zero_le _, fun hshut => (by cases hshut), ?_⟩
      intro result' hphase
      cases hphase
      exact ⟨time, hshutdown⟩
  | slept millis error hphase hmillis =>
      have hbackoff : 0 < (s.sleep millis error).backoff := by
        simp only [State.sleep]
        split
        · decide
        · exact h.backoff
      refine ⟨hbackoff, h.listeners, trivial, fun result time hshutdown => ?_,
        fun hshut => (by cases hshut), ?_⟩
      · have hends := h.ends result time hshutdown
        simp only [State.endsBy, hphase] at hends
        have hdelay : (s.sleep millis error).backoff * SECOND ≤
            reconnectDelay (s.sleep millis error).backoff millis error := by
          rw [reconnectDelay_eq]
          exact (Nat.le_add_right _ _).trans (Nat.le_max_left _ _)
        have hpos : 0 < (s.sleep millis error).backoff * SECOND := Nat.mul_pos hbackoff (by decide)
        have hlater : s.clock < s.clock +
            reconnectDelay (s.sleep millis error).backoff millis error := by omega
        exact (Nat.le_of_eq (if_pos hlater)).trans hends
      · intro result hreturned
        cases hreturned
  | restarted since delay hphase hdue =>
      refine ⟨Nat.lt_min.mpr ⟨Nat.mul_pos h.backoff (by decide), by decide⟩, Nat.zero_le _, trivial,
        fun result time hshutdown => ?_, fun hshut => (by cases hshut), ?_⟩
      · have hends := h.ends result time hshutdown
        simp only [State.endsBy, hphase, if_neg (Nat.not_lt.mpr hdue)] at hends
        exact hends
      · intro result hreturned
        cases hreturned

theorem prompt_reachable (h : ReachableBy (machine total) OnTime s) : Prompt total s := by
  refine h.invariant (P := Prompt total) ?_ fun _ _ _ _ hprompt hontime hstep =>
    prompt_step hprompt hontime hstep
  rintro s ⟨clock, rfl⟩
  exact ⟨by simp [initial], Nat.zero_le _, trivial, by simp [initial], by simp [initial, Phase.shutDown],
    by simp [initial]⟩

/-- Steps that need neither the network nor the worker. -/
def Action.unaided : Action → Bool
  | .advance _ | .takeShutdown | .timeout | .leave _ => true
  | _ => false

def Leads (total : Nat) : State → State → Prop :=
  Relation.ReflTransGen fun s t => ∃ a, Action.unaided a ∧ OnTime s a ∧ step total s a = some t

def Returns (total : Nat) (result : Except Str Unit) (s : State) : Prop :=
  ∃ t, Leads total s t ∧ t.phase = .returned result

variable {result : Except Str Unit} {time : Nat}

theorem Returns.step {a : Action} (h : Returns total result t) (hunaided : a.unaided)
    (hontime : OnTime s a) (hstep : step total s a = some t) : Returns total result s := by
  obtain ⟨u, hleads, hphase⟩ := h
  exact ⟨u, .head ⟨a, hunaided, hontime, hstep⟩ hleads, hphase⟩

theorem Returns.refl (hphase : s.phase = .returned result) : Returns total result s :=
  ⟨s, .refl, hphase⟩

theorem returns_of_sleeping (hshutdown : s.shutdown = some (result, time)) {since delay : Nat}
    (hphase : s.phase = .sleeping since delay) : Returns total result s :=
  Returns.step (a := .takeShutdown) (t := { s with phase := .returned result }) (.refl rfl) rfl trivial
    (by simp [Supervisor.step, hphase, hshutdown])

theorem returns_of_ended (hshutdown : s.shutdown = some (result, time)) {ended : Option SessionError}
    (hphase : s.phase = .ended ended) : Returns total result s := by
  cases ended with
  | none =>
      exact Returns.step (a := .leave 0) (t := { s with phase := .returned result }) (.refl rfl) rfl trivial
        (by simp [Supervisor.step, hphase, hshutdown])
  | some error =>
      have hslept : Returns total result (s.sleep 0 error) := returns_of_sleeping hshutdown rfl
      exact hslept.step (a := .leave 0) rfl trivial (by simp [Supervisor.step, hphase])

theorem returns_of_draining (hshutdown : s.shutdown = some (result, time)) {since : Nat}
    {ended : Option SessionError} (hphase : s.phase = .draining since ended)
    (htimely : s.clock ≤ since + DRAIN_TIMEOUT) : Returns total result s := by
  have hdue : s.clock + (since + DRAIN_TIMEOUT - s.clock) = since + DRAIN_TIMEOUT := by omega
  have hended : Returns total result
      { s with clock := since + DRAIN_TIMEOUT, phase := .ended ended } := returns_of_ended hshutdown rfl
  have hwaited : Returns total result { s with clock := since + DRAIN_TIMEOUT } :=
    hended.step (a := .timeout) rfl trivial (by simp [Supervisor.step, hphase])
  refine hwaited.step (a := .advance (since + DRAIN_TIMEOUT - s.clock)) rfl ?_ ?_
  · intro due hmem
    simp only [State.due, hphase, Option.mem_def, Option.some.injEq] at hmem
    omega
  · simp [Supervisor.step, hdue]

theorem returns_of_closeNext (left : Nat) (hshutdown : s.shutdown = some (result, time))
    (ended : Option SessionError) : Returns total result (s.closeNext left ended) := by
  induction left generalizing s with
  | zero =>
      have hshutdown' : (s.closeNext 0 ended).shutdown = some (result, time) := by simpa using hshutdown
      rcases s.closeNext_phase 0 ended with ⟨rest, hrest, -⟩ | hphase | hphase
      · cases hrest
      · exact returns_of_ended hshutdown' hphase
      · exact returns_of_draining hshutdown' hphase (by simp)
  | succ left ih =>
      -- The listener does not answer, and its timeout passes.
      have hwaited : Returns total result { s with
          phase := .closing s.clock left ended, clock := s.clock + SHUTDOWN_TIMEOUT } :=
        (ih (s := { s with
          phase := .closing s.clock left ended, clock := s.clock + SHUTDOWN_TIMEOUT }) hshutdown).step
          (a := .timeout) rfl trivial (by simp [Supervisor.step])
      refine hwaited.step (a := .advance SHUTDOWN_TIMEOUT) rfl ?_ rfl
      intro due hmem
      simp only [State.due, State.closeNext, Option.mem_def, Option.some.injEq] at hmem
      exact Nat.le_of_eq hmem

theorem returns_of_closing (hshutdown : s.shutdown = some (result, time)) {since left : Nat}
    {ended : Option SessionError} (hphase : s.phase = .closing since left ended)
    (htimely : s.clock ≤ since + SHUTDOWN_TIMEOUT) : Returns total result s := by
  have hdue : s.clock + (since + SHUTDOWN_TIMEOUT - s.clock) = since + SHUTDOWN_TIMEOUT := by omega
  have hwaited : Returns total result { s with clock := since + SHUTDOWN_TIMEOUT } :=
    (returns_of_closeNext (s := { s with clock := since + SHUTDOWN_TIMEOUT }) left hshutdown ended).step
      (a := .timeout) rfl trivial (by simp [Supervisor.step, hphase])
  refine hwaited.step (a := .advance (since + SHUTDOWN_TIMEOUT - s.clock)) rfl ?_ ?_
  · intro due hmem
    simp only [State.due, hphase, Option.mem_def, Option.some.injEq] at hmem
    omega
  · simp [Supervisor.step, hdue]

theorem returns (h : Prompt total s) (hshutdown : s.shutdown = some (result, time)) :
    Returns total result s := by
  have htimely := h.timely
  unfold State.Timely at htimely
  cases hphase : s.phase with
  | session stage =>
      exact (returns_of_closeNext s.listeners hshutdown none).step (a := .takeShutdown) rfl trivial
        (by simp [Supervisor.step, hphase, hshutdown, State.close])
  | closing since left ended =>
      rw [hphase] at htimely
      exact returns_of_closing hshutdown hphase htimely.2.2
  | draining since ended =>
      rw [hphase] at htimely
      exact returns_of_draining hshutdown hphase htimely.2
  | ended ended => exact returns_of_ended hshutdown hphase
  | sleeping since delay => exact returns_of_sleeping hshutdown hphase
  | returned result' =>
      obtain ⟨time', hsome⟩ := h.returned result' hphase
      rw [hshutdown] at hsome
      cases hsome
      exact .refl hphase

/-- The loop ends with the result of the shutdown and in no other way, at most as
long after it as the timeouts of the cleanup take, and it gets there without the
network and the worker. -/
theorem shutdown_ends (h : ReachableBy (machine total) OnTime s) :
    (∀ result, s.phase = .returned result → ∃ time, s.shutdown = some (result, time)) ∧
    ∀ result time, s.shutdown = some (result, time) →
      ((∀ result, s.phase ≠ .returned result) →
        s.clock ≤ time + (total * SHUTDOWN_TIMEOUT + DRAIN_TIMEOUT)) ∧
      Returns total result s := by
  have hprompt := prompt_reachable h
  refine ⟨hprompt.returned, fun result time hshutdown => ⟨fun hgoing => ?_, returns hprompt hshutdown⟩⟩
  refine Nat.le_trans ?_ (hprompt.ends result time hshutdown)
  have htimely := hprompt.timely
  unfold State.Timely at htimely
  unfold State.endsBy
  cases hphase : s.phase with
  | session stage => exact Nat.le_add_right _ _
  | closing since left ended =>
      rw [hphase] at htimely
      simp only [shutdownTime_succ]
      omega
  | draining since ended =>
      rw [hphase] at htimely
      exact htimely.2
  | ended ended => exact Nat.le_refl _
  | sleeping since delay =>
      dsimp only
      split <;> omega
  | returned result => exact absurd hphase (hgoing result)

instance (s : State) (a : Action) : Decidable (OnTime s a) :=
  match a with
  | .advance elapsed => inferInstanceAs (Decidable (∀ due ∈ s.due, s.clock + elapsed ≤ due))
  | .signal _ | .takeShutdown | .fail _ | .connected | .registered | .started | .ready
  | .workerReturned | .closed | .timeout | .leave _ | .wake => isTrue trivial

/-- A shutdown while a listener registers: its own shutdown times out. -/
theorem shutdown_ends_registering : ∃ s : State, s.phase = .draining (8 * SECOND) none ∧
    s.clock ≤ 3 * SECOND + (1 * SHUTDOWN_TIMEOUT + DRAIN_TIMEOUT) ∧ Returns 1 (.ok ()) s := by
  have hrun : ∃ s : State, ReachableBy (machine 1) OnTime s ∧
      (s.phase = .draining (8 * SECOND) none ∧ s.shutdown = some (.ok (), 3 * SECOND)) :=
    exists_reachableBy (s := initial 0)
      [.connected, .advance (3 * SECOND), .signal (.ok ()), .takeShutdown, .advance (5 * SECOND),
        .timeout] ⟨_, rfl⟩ (by decide)
  obtain ⟨s, hs, hphase, hshutdown⟩ := hrun
  obtain ⟨hclock, hreturns⟩ := (shutdown_ends hs).2 _ _ hshutdown
  exact ⟨s, hphase, hclock (by rw [hphase]; simp), hreturns⟩

end

end SjmbSlack.SocketMode.Supervisor
