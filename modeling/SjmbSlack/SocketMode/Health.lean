import SjmbSlack.Library.Machine
import SjmbSlack.Library.Notify
import SjmbSlack.Slackbot.Message

/-! `Health` of a Socket Mode session: the callbacks report a hello or a failure
and then notify, and one watcher runs `wait_ready` and then `wait_failure`, both
waiting on the same notifier. -/
namespace SjmbSlack.SocketMode
open Machine Slackbot

structure Health where
  ready : Bool
  failure : Option Str
  changed : Notify Unit
  deriving DecidableEq

namespace Health

def default : Health := ⟨false, none, .new⟩

/-- `fail` up to `notify_one`. -/
def fail (health : Health) (message : Str) : Health :=
  { health with failure := some (health.failure.getD message) }

def check (health : Health) : Except Str Unit :=
  match health.failure with
  | some message => .error message
  | none => .ok ()

inductive Loop where
  | waitReady
  | waitFailure
  deriving DecidableEq

inductive Watcher where
  | check (loop : Loop)
  /-- `wait_ready` found no failure and is about to load `ready`. -/
  | load
  /-- `notified()` has not been polled yet. -/
  | await (loop : Loop)
  | parked (loop : Loop)
  /-- `wait_ready` returned `Ok` or was dropped; `wait_failure` comes next. -/
  | between
  | done
  deriving DecidableEq

/-- `notifying` counts the calls that have set a field and are yet to call
`notify_one`. `hellos` and `failures` record the app ids of the hellos and the
messages of the failures, in order; `waitReady` and `waitFailure` what the two
returned. -/
structure State where
  health : Health
  notifying : Nat
  watcher : Watcher
  waitReady : Option (Except Str Unit)
  waitFailure : Option (Except Str Unit)
  hellos : List Str
  failures : List Str

def differentApp (workspace : Workspace) : Str :=
  "WS ".toList ++ workspace.name ++ " socket token belongs to a different Slack app".toList

def callFail (message : Str) (s : State) : State := { s with
  health := s.health.fail message
  notifying := s.notifying + 1
  failures := s.failures ++ [message] }

/-- `handle_hello` up to `notify_one`, when `callback_state` has the session. -/
def handleHello (workspace : Workspace) (appId : Str) (s : State) : State :=
  let heard := { s with hellos := s.hellos ++ [appId] }
  if appId ≠ workspace.appId then callFail (differentApp workspace) heard
  else { heard with
    health := { heard.health with ready := true }
    notifying := heard.notifying + 1 }

def returned (loop : Loop) (result : Except Str Unit) (s : State) : State :=
  match loop with
  | .waitReady => { s with
      waitReady := some result
      watcher := if result = .ok () then .between else .done }
  | .waitFailure => { s with waitFailure := some result, watcher := .done }

def watch (s : State) : Option State :=
  match s.watcher with
  | .check loop =>
      match s.health.check, loop with
      | .error message, _ => some (returned loop (.error message) s)
      | .ok (), .waitReady => some { s with watcher := .load }
      | .ok (), .waitFailure => some { s with watcher := .await .waitFailure }
  | .load =>
      if s.health.ready then some (returned .waitReady (.ok ()) s)
      else some { s with watcher := .await .waitReady }
  | .await loop =>
      let polled := s.health.changed.poll ()
      some { s with
        health := { s.health with changed := polled.2 }
        watcher := if polled.1 then .check loop else .parked loop }
  | .parked loop => (s.health.changed.resume ()).map fun changed =>
      { s with health := { s.health with changed := changed }, watcher := .check loop }
  | .between => some { s with watcher := .check .waitFailure }
  | .done => none

/-- The timeout of `wait_ready` drops it while it is suspended. The source gives
up the session then; here `wait_failure` still follows. -/
def timeout (s : State) : Option State :=
  match s.watcher with
  | .parked .waitReady => some { s with
      health := { s.health with changed := s.health.changed.drop () }
      watcher := .between }
  | _ => none

def notify (s : State) : Option State :=
  if 0 < s.notifying then some { s with
    health := { s.health with changed := s.health.changed.notifyOne }
    notifying := s.notifying - 1 }
  else none

inductive Action where
  /-- A hello; `found` says whether `callback_state` has the session. -/
  | hello (found : Bool) (appId : Str)
  | fail (message : Str)
  | notify
  | watch
  | timeout
  deriving DecidableEq

def step (workspace : Workspace) (s : State) : Action → Option State
  | .hello found appId => some (if found then handleHello workspace appId s else s)
  | .fail message => some (callFail message s)
  | .notify => notify s
  | .watch => watch s
  | .timeout => timeout s

def initial : State where
  health := .default
  notifying := 0
  watcher := .check .waitReady
  waitReady := none
  waitFailure := none
  hellos := []
  failures := []

def machine (workspace : Workspace) : System State Action where
  start := fun s => s = initial
  step := step workspace

def Holds (workspace : Workspace) (loop : Loop) (s : State) : Prop :=
  s.failures ≠ [] ∨ loop = .waitReady ∧ workspace.appId ∈ s.hellos

def Outstanding (s : State) : Prop := s.health.changed.Signalled ∨ 0 < s.notifying

def Reported (message : Str) (s : State) : Prop :=
  s.waitReady = some (.error message) ∨ s.waitFailure = some (.error message)

def Unseen (workspace : Workspace) (s : State) : Prop :=
  match s.watcher with
  | .load => s.failures ≠ []
  | .await loop | .parked loop => Holds workspace loop s
  | _ => False

def Watcher.isParked : Watcher → Bool
  | .parked _ => true
  | _ => false

/-- The watcher uses the notifier where it is parked and nowhere else. -/
def Placed (s : State) : Prop :=
  match s.watcher.isParked with
  | true => s.health.changed.UsedBy ()
  | false => s.health.changed.Unused

structure Sound (workspace : Workspace) (s : State) : Prop where
  failure : s.health.failure = s.failures.head?
  ready : s.health.ready = true ↔ workspace.appId ∈ s.hellos
  placed : Placed s
  outstanding : Unseen workspace s → Outstanding s
  waitReady : s.waitReady = some (.ok ()) → workspace.appId ∈ s.hellos
  waitFailure : s.waitFailure ≠ some (.ok ())
  reported : ∀ message, Reported message s → s.failures.head? = some message
  done : s.watcher = .done → ∃ message, Reported message s

inductive Watched (s : State) : State → Prop where
  | failed (loop : Loop) (message : Str) (hwatcher : s.watcher = .check loop)
      (hfailure : s.health.failure = some message) :
      Watched s (returned loop (.error message) s)
  | checked (hwatcher : s.watcher = .check .waitReady) (hfailure : s.health.failure = none) :
      Watched s { s with watcher := .load }
  | unfailed (hwatcher : s.watcher = .check .waitFailure) (hfailure : s.health.failure = none) :
      Watched s { s with watcher := .await .waitFailure }
  | connected (hwatcher : s.watcher = .load) (hready : s.health.ready = true) :
      Watched s (returned .waitReady (.ok ()) s)
  | unready (hwatcher : s.watcher = .load) (hready : s.health.ready = false) :
      Watched s { s with watcher := .await .waitReady }
  | permitted (loop : Loop) (hwatcher : s.watcher = .await loop)
      (hpoll : (s.health.changed.poll ()).1 = true) :
      Watched s { s with
        health := { s.health with changed := (s.health.changed.poll ()).2 }
        watcher := .check loop }
  | suspended (loop : Loop) (hwatcher : s.watcher = .await loop)
      (hpoll : (s.health.changed.poll ()).1 = false) :
      Watched s { s with
        health := { s.health with changed := (s.health.changed.poll ()).2 }
        watcher := .parked loop }
  | resumed (loop : Loop) (changed : Notify Unit) (hwatcher : s.watcher = .parked loop)
      (hresume : s.health.changed.resume () = some changed) :
      Watched s { s with
        health := { s.health with changed := changed }
        watcher := .check loop }
  | followed (hwatcher : s.watcher = .between) :
      Watched s { s with watcher := .check .waitFailure }

theorem watched {s t : State} (h : watch s = some t) : Watched s t := by
  unfold watch at h
  split at h
  · rename_i loop hwatcher
    unfold check at h
    cases hfailure : s.health.failure with
    | some message =>
        rw [hfailure] at h
        cases Option.some.inj h
        exact .failed loop message hwatcher hfailure
    | none =>
        rw [hfailure] at h
        cases loop with
        | waitReady =>
            cases Option.some.inj h
            exact .checked hwatcher hfailure
        | waitFailure =>
            cases Option.some.inj h
            exact .unfailed hwatcher hfailure
  · rename_i hwatcher
    split at h
    · rename_i hready
      cases Option.some.inj h
      exact .connected hwatcher hready
    · rename_i hready
      cases Option.some.inj h
      exact .unready hwatcher (by simpa using hready)
  · rename_i loop hwatcher
    cases Option.some.inj h
    cases hpoll : (s.health.changed.poll ()).1 with
    | true => exact .permitted loop hwatcher hpoll
    | false => exact .suspended loop hwatcher hpoll
  · rename_i loop hwatcher
    obtain ⟨changed, hresume, rfl⟩ := Option.map_eq_some_iff.mp h
    exact .resumed loop changed hwatcher hresume
  · rename_i hwatcher
    cases Option.some.inj h
    exact .followed hwatcher
  · contradiction

theorem notify_eq_some {s t : State} (h : notify s = some t) :
    0 < s.notifying ∧ t = { s with
      health := { s.health with changed := s.health.changed.notifyOne }
      notifying := s.notifying - 1 } := by
  unfold notify at h
  split at h
  · rename_i hpos
    exact ⟨hpos, (Option.some.inj h).symm⟩
  · contradiction

theorem timeout_eq_some {s t : State} (h : timeout s = some t) :
    s.watcher = .parked .waitReady ∧ t = { s with
      health := { s.health with changed := s.health.changed.drop () }
      watcher := .between } := by
  unfold timeout at h
  split at h
  · rename_i hwatcher
    exact ⟨hwatcher, (Option.some.inj h).symm⟩
  · contradiction

section

variable {workspace : Workspace} {s t : State}

theorem failures_eq_nil (h : Sound workspace s) (hfailure : s.health.failure = none) :
    s.failures = [] := List.head?_eq_none_iff.mp (h.failure.symm.trans hfailure)

theorem head?_eq_some_of_prefix {before after : List Str} (h : before <+: after) {first : Str}
    (hfirst : before.head? = some first) : after.head? = some first := by
  obtain ⟨rest, rfl⟩ := h
  rw [List.head?_append, hfirst, Option.some_or]

theorem Sound.called (h : Sound workspace s) {health : Health} {hellos failures : List Str}
    (hchanged : health.changed = s.health.changed) (hfailure : health.failure = failures.head?)
    (hready : health.ready = true ↔ workspace.appId ∈ hellos) (hhellos : s.hellos ⊆ hellos)
    (hfailures : s.failures <+: failures) :
    Sound workspace { s with
      health := health
      notifying := s.notifying + 1
      hellos := hellos
      failures := failures } where
  failure := hfailure
  ready := hready
  placed := by
    unfold Placed
    rw [hchanged]
    exact h.placed
  outstanding := fun _ => .inr (Nat.succ_pos _)
  waitReady := fun hok => hhellos (h.waitReady hok)
  waitFailure := h.waitFailure
  reported := fun message hmessage =>
    head?_eq_some_of_prefix hfailures (h.reported message hmessage)
  done := h.done

theorem failure_fail (h : Sound workspace s) (message : Str) :
    (s.health.fail message).failure = (s.failures ++ [message]).head? := by
  rw [List.head?_append, Health.fail, h.failure]
  cases s.failures.head? <;> rfl

theorem sound_callFail (h : Sound workspace s) (message : Str) :
    Sound workspace (callFail message s) :=
  h.called rfl (failure_fail h message) h.ready (List.Subset.refl _) (List.prefix_append _ _)

theorem sound_handleHello (h : Sound workspace s) (appId : Str) :
    Sound workspace (handleHello workspace appId s) := by
  unfold handleHello
  dsimp only
  split
  · rename_i hother
    refine h.called rfl (failure_fail h _) ?_ (List.subset_append_left _ _)
      (List.prefix_append _ _)
    rw [List.mem_append, List.mem_singleton, or_iff_left (Ne.symm hother)]
    exact h.ready
  · rename_i hsame
    refine h.called rfl h.failure ?_ (List.subset_append_left _ _) List.prefix_rfl
    rw [Decidable.not_not.mp hsame]
    simp

theorem sound_notify (h : Sound workspace s) :
    Sound workspace { s with
      health := { s.health with changed := s.health.changed.notifyOne }
      notifying := s.notifying - 1 } where
  failure := h.failure
  ready := h.ready
  placed := by
    have hplaced := h.placed
    unfold Placed at hplaced ⊢
    cases hparked : s.watcher.isParked with
    | true =>
        rw [hparked] at hplaced
        exact hplaced.notifyOne
    | false =>
        rw [hparked] at hplaced
        exact hplaced.notifyOne
  outstanding := fun _ => .inl (Notify.signalled_notifyOne _)
  waitReady := h.waitReady
  waitFailure := h.waitFailure
  reported := h.reported
  done := h.done

theorem Sound.unused (h : Sound workspace s) {watcher : Watcher} (hwatcher : s.watcher = watcher)
    (hparked : watcher.isParked = false) : s.health.changed.Unused := by
  have hplaced := h.placed
  unfold Placed at hplaced
  rw [hwatcher, hparked] at hplaced
  exact hplaced

theorem Sound.usedBy (h : Sound workspace s) {loop : Loop} (hwatcher : s.watcher = .parked loop) :
    s.health.changed.UsedBy () := by
  have hplaced := h.placed
  unfold Placed at hplaced
  rw [hwatcher] at hplaced
  exact hplaced

theorem Sound.moved (h : Sound workspace s) {changed : Notify Unit} {watcher : Watcher}
    (hplaced : Placed { s with
      health := { s.health with changed := changed }, watcher := watcher })
    (houtstanding : Unseen workspace { s with watcher := watcher } →
      changed.Signalled ∨ 0 < s.notifying)
    (hdone : watcher ≠ .done) : Sound workspace { s with
      health := { s.health with changed := changed }
      watcher := watcher } where
  failure := h.failure
  ready := h.ready
  placed := hplaced
  outstanding := houtstanding
  waitReady := h.waitReady
  waitFailure := h.waitFailure
  reported := h.reported
  done := fun heq => absurd heq hdone

theorem Sound.failed (h : Sound workspace s) {loop : Loop} {message : Str}
    (hwatcher : s.watcher = .check loop) (hfailure : s.health.failure = some message) :
    Sound workspace (returned loop (.error message) s) := by
  have hfirst := h.failure.symm.trans hfailure
  have hunused := h.unused hwatcher rfl
  cases loop with
  | waitReady =>
      refine ⟨h.failure, h.ready, hunused, fun hunseen => hunseen.elim, fun hok => ?_,
        h.waitFailure, ?_, fun _ => ⟨message, .inl rfl⟩⟩
      · cases hok
      · rintro other (hother | hother)
        · cases hother
          exact hfirst
        · exact h.reported other (.inr hother)
  | waitFailure =>
      refine ⟨h.failure, h.ready, hunused, fun hunseen => hunseen.elim, h.waitReady,
        fun hok => ?_, ?_, fun _ => ⟨message, .inr rfl⟩⟩
      · cases hok
      · rintro other (hother | hother)
        · exact h.reported other (.inl hother)
        · cases hother
          exact hfirst

theorem Sound.connected (h : Sound workspace s) (hwatcher : s.watcher = .load)
    (hready : s.health.ready = true) : Sound workspace (returned .waitReady (.ok ()) s) where
  failure := h.failure
  ready := h.ready
  placed := h.unused hwatcher rfl
  outstanding := fun hunseen => hunseen.elim
  waitReady := fun _ => h.ready.mp hready
  waitFailure := h.waitFailure
  reported := by
    rintro message (hmessage | hmessage)
    · cases hmessage
    · exact h.reported message (.inr hmessage)
  done := fun heq => by cases heq

theorem sound_watched (h : Sound workspace s) (hwatched : Watched s t) : Sound workspace t := by
  cases hwatched with
  | failed loop message hwatcher hfailure => exact h.failed hwatcher hfailure
  | checked hwatcher hfailure =>
      refine h.moved (h.unused hwatcher rfl) ?_ (by simp)
      intro hunseen
      exact absurd (failures_eq_nil h hfailure) hunseen
  | unfailed hwatcher hfailure =>
      refine h.moved (h.unused hwatcher rfl) ?_ (by simp)
      rintro (hunseen | ⟨hloop, -⟩)
      · exact absurd (failures_eq_nil h hfailure) hunseen
      · cases hloop
  | connected hwatcher hready => exact h.connected hwatcher hready
  | unready hwatcher hready =>
      refine h.moved (h.unused hwatcher rfl) ?_ (by simp)
      rintro (hunseen | ⟨-, hhello⟩)
      · apply h.outstanding
        unfold Unseen
        rw [hwatcher]
        exact hunseen
      · rw [h.ready.mpr hhello] at hready
        contradiction
  | permitted loop hwatcher hpoll =>
      have hunused := h.unused hwatcher rfl
      exact h.moved (hunused.poll_true hpoll) (fun hunseen => hunseen.elim) (by simp)
  | suspended loop hwatcher hpoll =>
      have hunused := h.unused hwatcher rfl
      obtain ⟨hpermit, hused⟩ := hunused.poll_false hpoll
      refine h.moved hused ?_ (by simp)
      intro hunseen
      have houtstanding : Outstanding s := by
        apply h.outstanding
        unfold Unseen
        rw [hwatcher]
        exact hunseen
      rcases houtstanding with (hstored | hwoken) | hnotifying
      · rw [hpermit] at hstored
        contradiction
      · exact absurd hunused.2 hwoken
      · exact .inr hnotifying
  | resumed loop changed hwatcher hresume =>
      exact h.moved ((h.usedBy hwatcher).resume hresume) (fun hunseen => hunseen.elim) (by simp)
  | followed hwatcher =>
      exact h.moved (h.unused hwatcher rfl) (fun hunseen => hunseen.elim) (by simp)

theorem sound_step (h : Sound workspace s) {action : Action}
    (hstep : step workspace s action = some t) : Sound workspace t := by
  cases action with
  | hello found appId =>
      cases found with
      | true =>
          cases Option.some.inj hstep
          exact sound_handleHello h appId
      | false =>
          cases Option.some.inj hstep
          exact h
  | fail message =>
      cases Option.some.inj hstep
      exact sound_callFail h message
  | notify =>
      obtain ⟨-, rfl⟩ := notify_eq_some hstep
      exact sound_notify h
  | watch => exact sound_watched h (watched hstep)
  | timeout =>
      obtain ⟨hwatcher, rfl⟩ := timeout_eq_some hstep
      exact h.moved (h.usedBy hwatcher).drop (fun hunseen => hunseen.elim) (by simp)

theorem sound_initial : Sound workspace initial where
  failure := rfl
  ready := by simp [initial, Health.default]
  placed := ⟨rfl, rfl⟩
  outstanding := fun hunseen => hunseen.elim
  waitReady := fun hok => by cases hok
  waitFailure := fun hok => by cases hok
  reported := by rintro message (hmessage | hmessage) <;> cases hmessage
  done := fun heq => by cases heq

theorem sound_reachable (h : Reachable (machine workspace) s) : Sound workspace s := by
  apply h.invariant
  · rintro s rfl
    exact sound_initial
  · intro s action t _ hsound _ hstep
    exact sound_step hsound hstep

end

end Health

end SjmbSlack.SocketMode
