import SjmbSlack.Library.Fair
import SjmbSlack.SocketMode.Health

/-! Runs of a Socket Mode session's watcher: it never sleeps through a signal, and
under fair scheduling it reports the first failure that was recorded. -/
namespace SjmbSlack.SocketMode.Health
open Machine Slackbot

def Watcher.rank : Watcher → Nat
  | .done => 0
  | .check .waitFailure => 1
  | .parked .waitFailure => 2
  | .await .waitFailure => 3
  | .between => 4
  | .check .waitReady => 5
  | .parked .waitReady => 6
  | .await .waitReady => 7
  | .load => 8

/-- How far the watcher is from reporting a failure that is recorded: odd while it
is parked and has not been woken. -/
def rank (s : State) : Nat := 2 * s.watcher.rank + s.health.changed.waiting.length

def helpful (rank : Nat) (action : Action) : Prop :=
  if rank % 2 = 1 then action = .notify else action = .watch

structure OnTheWay (workspace : Workspace) (message : Str) (s : State) : Prop where
  sound : Sound workspace s
  recorded : s.failures.head? = some message
  running : s.watcher ≠ .done

variable {workspace : Workspace} {message : Str} {s t : State}

theorem failures_handleHello (workspace : Workspace) (appId : Str) (s : State) :
    s.failures <+: (handleHello workspace appId s).failures := by
  unfold handleHello
  dsimp only
  split
  · exact List.prefix_append _ _
  · exact List.prefix_rfl

theorem head?_failures_step (hrecorded : s.failures.head? = some message) {action : Action}
    (hstep : step workspace s action = some t) : t.failures.head? = some message := by
  apply head?_eq_some_of_prefix ?_ hrecorded
  cases action with
  | hello found appId =>
      cases found with
      | true =>
          cases Option.some.inj hstep
          exact failures_handleHello workspace appId s
      | false =>
          cases Option.some.inj hstep
          exact List.prefix_rfl
  | fail later =>
      cases Option.some.inj hstep
      exact List.prefix_append _ _
  | notify =>
      obtain ⟨-, rfl⟩ := notify_eq_some hstep
      exact List.prefix_rfl
  | watch =>
      cases watched hstep with
      | failed loop later => cases loop <;> exact List.prefix_rfl
      | _ => exact List.prefix_rfl
  | timeout =>
      obtain ⟨-, rfl⟩ := timeout_eq_some hstep
      exact List.prefix_rfl

theorem length_waiting_le (h : Sound workspace s) : s.health.changed.waiting.length ≤ 1 := by
  cases hwatcher : s.watcher with
  | parked loop =>
      rcases h.usedBy hwatcher with ⟨hwaiting, -⟩ | ⟨hwaiting, -⟩ <;> simp [hwaiting]
  | _ =>
      rw [(h.unused hwatcher rfl).1]
      exact Nat.zero_le _

theorem rank_lt (h : Sound workspace t) (hlt : t.watcher.rank < s.watcher.rank) :
    rank t < rank s := by
  have hle := length_waiting_le h
  unfold rank
  omega

theorem rank_watched (hwatched : Watched s t) (hfailure : s.health.failure ≠ none)
    (hrunning : t.watcher ≠ .done) : t.watcher.rank < s.watcher.rank := by
  cases hwatched with
  | failed loop message hwatcher =>
      cases loop with
      | waitReady => exact absurd rfl hrunning
      | waitFailure => exact absurd rfl hrunning
  | checked hwatcher hnone => exact absurd hnone hfailure
  | unfailed hwatcher hnone => exact absurd hnone hfailure
  | connected hwatcher hready =>
      rw [hwatcher]
      simp [returned, Watcher.rank]
  | unready hwatcher hready =>
      rw [hwatcher]
      simp [Watcher.rank]
  | permitted loop hwatcher hpoll =>
      rw [hwatcher]
      cases loop <;> simp [Watcher.rank]
  | suspended loop hwatcher hpoll =>
      rw [hwatcher]
      cases loop <;> simp [Watcher.rank]
  | resumed loop changed hwatcher hresume =>
      rw [hwatcher]
      cases loop <;> simp [Watcher.rank]
  | followed hwatcher =>
      rw [hwatcher]
      simp [Watcher.rank]

theorem rank_notify (h : Sound workspace s) (hnotify : notify s = some t) :
    rank t ≤ rank s ∧ (rank s % 2 = 1 → rank t < rank s) := by
  obtain ⟨-, rfl⟩ := notify_eq_some hnotify
  have hle := length_waiting_le h
  have hless := Notify.length_waiting_notifyOne s.health.changed
  unfold rank
  dsimp only
  omega

theorem rank_handleHello (workspace : Workspace) (appId : Str) (s : State) :
    rank (handleHello workspace appId s) = rank s := by
  unfold handleHello
  dsimp only
  split <;> rfl

theorem rank_step (h : Sound workspace s) (hfailure : s.health.failure ≠ none) {action : Action}
    (hstep : step workspace s action = some t) (hrunning : t.watcher ≠ .done) :
    rank t ≤ rank s ∧ (helpful (rank s) action → rank t < rank s) := by
  have hsound := sound_step h hstep
  unfold helpful
  cases action with
  | hello found appId =>
      have hsame : rank t = rank s := by
        cases found with
        | true =>
            cases Option.some.inj hstep
            exact rank_handleHello workspace appId s
        | false =>
            cases Option.some.inj hstep
            rfl
      exact ⟨hsame.le, fun hhelp => by split at hhelp <;> cases hhelp⟩
  | fail later =>
      cases Option.some.inj hstep
      exact ⟨Nat.le_refl _, fun hhelp => by split at hhelp <;> cases hhelp⟩
  | notify =>
      obtain ⟨hle, hlower⟩ := rank_notify h hstep
      refine ⟨hle, fun hhelp => hlower ?_⟩
      split at hhelp
      · assumption
      · cases hhelp
  | watch =>
      have hlower := rank_lt hsound (rank_watched (watched hstep) hfailure hrunning)
      exact ⟨hlower.le, fun _ => hlower⟩
  | timeout =>
      obtain ⟨hwatcher, rfl⟩ := timeout_eq_some hstep
      have hlower := @rank_lt _ s _ hsound (by simp [hwatcher, Watcher.rank])
      exact ⟨hlower.le, fun _ => hlower⟩

theorem Sound.reported_of_done (h : Sound workspace s)
    (hrecorded : s.failures.head? = some message) (hdone : s.watcher = .done) :
    Reported message s := by
  obtain ⟨first, hreported⟩ := h.done hdone
  cases Option.some.inj ((h.reported first hreported).symm.trans hrecorded)
  exact hreported

theorem OnTheWay.next (h : OnTheWay workspace message s) {action : Action}
    (hstep : step workspace s action = some t) : Reported message t ∨
      OnTheWay workspace message t ∧ rank t ≤ rank s ∧
        (helpful (rank s) action → rank t < rank s) := by
  have hsound := sound_step h.sound hstep
  have hrecorded := head?_failures_step h.recorded hstep
  by_cases hdone : t.watcher = .done
  · exact .inl (hsound.reported_of_done hrecorded hdone)
  · have hfailure : s.health.failure ≠ none := by
      rw [h.sound.failure, h.recorded]
      simp
    exact .inr ⟨⟨hsound, hrecorded, hdone⟩, rank_step h.sound hfailure hstep hdone⟩

def sampleWorkspace : Workspace := ⟨"test".toList, "T1".toList, "A1".toList⟩

/-- A hello of another app finds the watcher parked and not yet woken. -/
def sampleAction : Nat → Option Action
  | 0 | 1 | 2 => some .watch
  | 3 => some (.hello true "A2".toList)
  | 4 => some .notify
  | 5 | 6 => some .watch
  | _ => none

def sampleState : Nat → State
  | 0 => initial
  | i + 1 =>
      ((sampleAction i).bind (step sampleWorkspace (sampleState i))).getD (sampleState i)

def sampleRun : Run (machine sampleWorkspace) where
  state := sampleState
  action := sampleAction
  start := rfl
  next
    | 0 | 1 | 2 | 3 | 4 | 5 | 6 => .inr ⟨_, rfl, rfl⟩
    | _ + 7 => .inl ⟨rfl, rfl⟩

end SjmbSlack.SocketMode.Health
