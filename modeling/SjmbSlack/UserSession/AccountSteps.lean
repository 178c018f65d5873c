import SjmbSlack.UserSession.Accounts
import SjmbSlack.UserSession.ReconnectRuns

/-! The steps of the accounts by what they do, and what one of them means for the sessions
of the others: a step of the worker that is theirs alone to see. -/
namespace SjmbSlack.UserSession

namespace Session
open Slackbot Machine

inductive Offers (before : Worker.State) : Worker.State → Option QueuedMessage → Prop where
  | nothing : Offers before before none
  | message (message : QueuedMessage) (queue : Mpsc QueuedMessage)
      (hqueue : before.queue.trySend message = .ok queue) :
      Offers before { before with queue := queue, accepted := before.accepted ++ [message] } (some message)

section

variable {config : Config} {s t : State} {conn : Connection}

theorem Turned.hands {core after : Core} {call : Process} {outcome : Outcome}
    (h : Turned config core call after outcome) : ∃ message, Offers core.worker after.worker message := by
  cases h with
  | sending id ts thread =>
      refine ⟨none, ?_⟩
      dsimp only
      rw [(@remember_core config core id thread).1]
      exact .nothing
  | admitted job since queue _ hqueue => exact ⟨some job.message, .message job.message queue hqueue⟩
  | harvested | failed | refused => exact ⟨none, .nothing⟩
  | settled id thread =>
      refine ⟨none, ?_⟩
      have hsame := (@remember_core config core id thread).1
      simp only [Process.succeed, hsame]
      exact .nothing

theorem hands_connected {a : Action} (hs : stepConnected config s conn a = some t) :
    ∃ message, Offers s.core.worker t.core.worker message := by
  cases core_connected hs with
  | store a hstore =>
      rw [hstore.core]
      exact ⟨none, .nothing⟩
  | live turn call core outcome hconsumer hstep hcore => exact hcore ▸ (turned hstep).hands
  | recovery turn paging events response call core outcome hrecovery hstep hcore =>
      rw [hcore]
      exact (turned hstep).hands

end

end Session

namespace Accounts
open Machine Api Slackbot

theorem hands_run {settings : Reconnect.Settings} {run after : Reconnect.State} {action : Reconnect.Action}
    (hown : shared action = false) (h : Reconnect.step settings run action = some after) :
    ∃ message, Session.Offers run.session.core.worker after.session.core.worker message := by
  have hact {session : Session.State} {action : Session.Action} {error : ApiError}
      (hown : shared (.act action error) = false) (hapart : Reconnect.apart action = false)
      (hstep : Session.step settings.config run.session action = some session) :
      ∃ message, Session.Offers run.session.core.worker session.core.worker message := by
    rcases Session.step_cases hstep with haround | ⟨conn, -, hconnected⟩
    · cases haround with
      | advance | post | worker => cases hown
      | connect | saveAfter | stop | restart | crash => cases hapart
    · exact Session.hands_connected hconnected
  cases Reconnect.stepped_of_step h with
  | dialed session url hphase hconnect =>
      rw [Reconnect.connect_session hconnect]
      exact ⟨none, .nothing⟩
  | refused connected session hphase hconnect hfail =>
      rw [Reconnect.connect_session hconnect] at hfail
      rw [Reconnect.fail_session rfl hfail]
      exact ⟨none, .nothing⟩
  | kept action error session since hphase hapart hstep => exact hact hown hapart hstep
  | ended action error session since hphase hapart hstep => exact hact hown hapart hstep
  | passed action error session hphase haround hstep =>
      cases action with
      | advance | post | worker => cases hown
      | _ => cases haround
  | unauthenticated millis since error session hphase hsave =>
      rw [Reconnect.saveAfter_session hsave]
      exact ⟨none, .nothing⟩
  | slept millis since error session hphase hsave =>
      rw [Reconnect.saveAfter_session hsave]
      exact ⟨none, .nothing⟩
  | unsaved | woke => exact ⟨none, .nothing⟩

theorem handed_nothing {run after : Reconnect.State}
    (h : after.session.core.worker = run.session.core.worker) : handed run after = none := by
  simp [handed, h]

theorem handed_message {run after : Reconnect.State} {message : QueuedMessage}
    (h : after.session.core.worker.accepted = run.session.core.worker.accepted ++ [message]) :
    handed run after = some message := by
  simp [handed, h]

section

variable {count index other : Nat}

theorem decode_encode (hindex : index < count) (receipt : Nat) :
    decode count index (encode count index receipt) = some receipt := by
  have hmod : (receipt * count + index) % count = index := by
    rw [Nat.mul_add_mod_self_right]
    exact Nat.mod_eq_of_lt hindex
  have hdiv : (receipt * count + index) / count = receipt := by
    rw [Nat.mul_comm, Nat.mul_add_div (Nat.zero_lt_of_lt hindex), Nat.div_eq_of_lt hindex, Nat.add_zero]
  rw [decode, encode, if_pos hmod, hdiv]

theorem decode_iff (hindex : index < count) {code receipt : Nat} :
    decode count index code = some receipt ↔ code = encode count index receipt := by
  constructor
  · intro h
    unfold decode at h
    split at h
    · rename_i hmod
      cases Option.some.inj h
      rw [encode, ← hmod]
      exact (Nat.div_add_mod' code count).symm
    · cases h
  · rintro rfl
    exact decode_encode hindex receipt

theorem decode_other (hindex : index < count) (hne : other ≠ index) (receipt : Nat) :
    decode count other (encode count index receipt) = none := by
  have hmod : (receipt * count + index) % count = index := by
    rw [Nat.mul_add_mod_self_right]
    exact Nat.mod_eq_of_lt hindex
  rw [decode, encode, hmod, if_neg (Ne.symm hne)]

/-- The message of an account as the worker gets it. -/
def sent (count index : Nat) (message : QueuedMessage) : QueuedMessage :=
  Worker.own (fun receipt => some (encode count index receipt)) message

theorem own_sent (hindex : index < count) (message : QueuedMessage) :
    Worker.own (decode count index) (sent count index message) = message := by
  unfold sent Worker.own
  cases hcompletion : message.completion with
  | none => cases message; cases hcompletion; rfl
  | some receipt =>
      dsimp only [Option.bind_some]
      rw [decode_encode hindex, ← hcompletion]

theorem own_other (hindex : index < count) (hne : other ≠ index) (message : QueuedMessage) :
    (Worker.own (decode count other) (sent count index message)).completion = none := by
  unfold sent Worker.own
  cases message.completion with
  | none => rfl
  | some receipt => exact decode_other hindex hne receipt

theorem send_view (hindex : index < count) {worker after : Worker.State} {message : QueuedMessage}
    (hsenders : worker.senders ≠ 0)
    (h : Session.Offers (worker.view (decode count index)) after (some message)) :
    ∃ sending, Worker.step worker (.send (sent count index message)) = some sending ∧
      sending.view (decode count index) = after := by
  cases h with
  | message message queue hqueue =>
      have hmap := Mpsc.trySend_map (Worker.own (decode count index)) worker.queue (sent count index message)
      rw [own_sent hindex] at hmap
      change (worker.queue.map (Worker.own (decode count index))).trySend message = .ok queue at hqueue
      rw [hqueue] at hmap
      cases hsend : worker.queue.trySend (sent count index message) with
      | error error =>
          rw [hsend] at hmap
          cases hmap
      | ok sending =>
          rw [hsend] at hmap
          cases hmap
          refine ⟨_, by simp only [Worker.step, if_neg hsenders, hsend]; rfl, ?_⟩
          simp only [Worker.State.view, List.map_append, List.map_cons, List.map_nil, own_sent hindex]

end

section

variable {setup : Setup} {s t : State}

inductive Stepped (setup : Setup) (s : State) : Action → State → Prop where
  | advance (elapsed : Nat) : Stepped setup s (.advance elapsed)
      (s.withWorker setup.count { s.worker with clock := s.worker.clock + elapsed })
  | began (hphase : s.phase = .opening) :
      Stepped setup s (.database true) { s with phase := .calling, startedAt := s.clock }
  | unopened (hphase : s.phase = .opening) :
      Stepped setup s (.database false) { s with phase := .returned none }
  | authenticated (account : Account) (team user : Str) (readable : Bool) (found : Option Snapshot) (t : State)
      (hphase : s.phase = .calling) (haccount : setup.accounts[s.loops.length]? = some account)
      (hnew : ∀ loop ∈ s.loops, ¬ (loop.team = team ∧ loop.user = user))
      (h : authenticated setup s account team user found = some t) :
      Stepped setup s (.authenticated team user readable found) t
  | paused (error : ApiError) (millis : Nat) (hphase : s.phase = .calling)
      (herror : authenticationError error = false) (hmillis : millis < 1000) :
      Stepped setup s (.refused error millis) { s with
        phase := .pausing s.clock (Reconnect.retryDelay s.delay millis error)
        waits := ⟨s.startedAt, s.clock, Reconnect.retryDelay s.delay millis error, false, asked error⟩ ::
          s.waits }
  | woke (since delay : Nat) (hphase : s.phase = .pausing since delay) (hdue : since + delay ≤ s.clock) :
      Stepped setup s .wake
        { s with phase := .calling, delay := Backoff.next 30 s.delay, startedAt := s.clock }
  | acted (index : Nat) (action : Reconnect.Action) (t : State) (hphase : s.phase = .running)
      (hown : shared action = false) (h : act setup s index action = some t) :
      Stepped setup s (.act index action) t
  | posted (index : Nat) (event : Json) (channel ts : Str) (loop : Loop) (session : Session.State)
      (hloop : s.loops[index]? = some loop)
      (h : Session.step loop.settings.config loop.session (.post event channel ts) = some session) :
      Stepped setup s (.posted index event channel ts) (s.withLoop index (loop.withSession session))
  | worked (world : Worker.World) (worker : Worker.State)
      (hphase : (∀ ending since drained, s.phase ≠ .saving ending since drained) ∧
        ∀ ending, s.phase ≠ .returned ending)
      (h : Worker.step s.worker (.work world) = some worker) :
      Stepped setup s (.work world) (s.withWorker setup.count worker)
  | halted (a : Action) (ending : Ending) (hactive : s.phase.active = true) (hending : ending ≠ .worker) :
      Stepped setup s a (s.halt (.draining ending s.clock))
  | workerEnded (hactive : s.phase.active = true) (htask : s.worker.task = .returned) :
      Stepped setup s .workerEnded (s.halt (.saving .worker s.clock true))
  | drained (ending : Ending) (since : Nat) (hphase : s.phase = .draining ending since)
      (htask : s.worker.task = .returned) :
      Stepped setup s .drained { s with phase := .saving ending since true }
  | cutOff (ending : Ending) (since : Nat) (hphase : s.phase = .draining ending since)
      (hdue : since + DRAIN_TIMEOUT ≤ s.clock) :
      Stepped setup s .cutOff { s with phase := .saving ending since false }
  | saved (ending : Ending) (since : Nat) (drained : Bool) (loop : Loop)
      (hphase : s.phase = .saving ending since drained)
      (hloop : s.loops[s.taken.length]? = some loop) :
      Stepped setup s (.save true) { s with taken := s.taken ++ [loop.session.core.store] }
  | unsaved (ending : Ending) (since : Nat) (drained : Bool)
      (hphase : s.phase = .saving ending since drained) :
      Stepped setup s (.save false) { s with phase := .returned none }
  | finished (ending : Ending) (since : Nat) (drained : Bool)
      (hphase : s.phase = .saving ending since drained)
      (htaken : s.taken.length = s.loops.length) :
      Stepped setup s .finish { s with phase := .returned (some ending) }

theorem stepped_of_step {a : Action} (h : step setup s a = some t) : Stepped setup s a t := by
  cases a with
  | advance elapsed =>
      cases Option.some.inj h
      exact .advance elapsed
  | database ok =>
      simp only [step] at h
      split at h
      · rename_i hphase
        split at h <;> rename_i hok <;> cases Option.some.inj h
        · subst hok
          exact .began hphase
        · rw [Bool.eq_false_iff.mpr hok]
          exact .unopened hphase
      · contradiction
  | authenticated team user readable found =>
      simp only [step] at h
      split at h
      · rename_i account hphase haccount
        split at h
        · rename_i hvalid
          refine .authenticated account team user readable found t hphase haccount ?_ h
          simpa using hvalid.2.2.2
        · cases Option.some.inj h
          exact .halted _ .failed (by rw [hphase]; rfl) nofun
      · contradiction
  | refused error millis =>
      simp only [step] at h
      split at h
      · rename_i hphase
        split at h
        · cases Option.some.inj h
          exact .halted _ .failed (by rw [hphase]; rfl) nofun
        · rename_i herror
          split at h
          · rename_i hmillis
            cases Option.some.inj h
            exact .paused error millis hphase (Bool.eq_false_iff.mpr herror) hmillis
          · contradiction
      · contradiction
  | wake =>
      simp only [step] at h
      split at h
      · rename_i since delay hphase
        split at h
        · rename_i hdue
          cases Option.some.inj h
          exact .woke since delay hphase hdue
        · contradiction
      · contradiction
  | act index action =>
      simp only [step] at h
      split at h
      · rename_i hguard
        exact .acted index action t hguard.1 (Bool.eq_false_iff.mpr hguard.2) h
      · contradiction
  | posted index event channel ts =>
      obtain ⟨loop, hloop, h⟩ := Option.bind_eq_some_iff.mp h
      obtain ⟨session, hsession, h⟩ := Option.bind_eq_some_iff.mp h
      cases Option.some.inj h
      exact .posted index event channel ts loop session hloop hsession
  | work world =>
      simp only [step] at h
      split at h
      · contradiction
      · contradiction
      · rename_i hsaving hreturned
        obtain ⟨worker, hworker, rfl⟩ := Option.map_eq_some_iff.mp h
        exact .worked world worker ⟨hsaving, hreturned⟩ hworker
  | shutdown ok =>
      simp only [step] at h
      split at h
      · rename_i hactive
        cases Option.some.inj h
        exact .halted _ _ hactive nofun
      · contradiction
  | failed index =>
      simp only [step] at h
      split at h
      · rename_i loop hphase hloop
        split at h
        · cases Option.some.inj h
          exact .halted _ _ (by rw [hphase]; rfl) nofun
        · contradiction
      · contradiction
  | workerEnded =>
      simp only [step] at h
      split at h
      · rename_i hguard
        cases Option.some.inj h
        exact .workerEnded hguard.1 hguard.2
      · contradiction
  | drained =>
      simp only [step] at h
      split at h
      · rename_i ending since hphase
        split at h
        · rename_i htask
          cases Option.some.inj h
          exact .drained ending since hphase htask
        · contradiction
      · contradiction
  | cutOff =>
      simp only [step] at h
      split at h
      · rename_i ending since hphase
        split at h
        · rename_i hdue
          cases Option.some.inj h
          exact .cutOff ending since hphase hdue
        · contradiction
      · contradiction
  | save ok =>
      simp only [step] at h
      split at h
      · rename_i ending since drained loop hphase hloop
        split at h <;> rename_i hok <;> cases Option.some.inj h
        · subst hok
          exact .saved ending since drained loop hphase hloop
        · rw [Bool.eq_false_iff.mpr hok]
          exact .unsaved ending since drained hphase
      · contradiction
  | finish =>
      simp only [step] at h
      split at h
      · rename_i ending since drained hphase
        split at h
        · rename_i htaken
          cases Option.some.inj h
          exact .finished ending since drained hphase htaken
        · contradiction
      · contradiction

end

end Accounts

end SjmbSlack.UserSession
