import Mathlib.Algebra.BigOperators.Group.List.Basic
import SjmbSlack.SocketMode.Provenance

/-! The counters of the Socket Mode backend add up: every message that it is handed
is refused, waits or is accepted, and every URL is handed on or counted. -/
namespace SjmbSlack.SocketMode.Sessions
open Machine Limits Slackbot Slackbot.Worker Ingress

def State.sum (s : State) (weight : Session → Nat) : Nat := (s.sessions.map weight).sum

def State.total (s : State) : Counters := s.reported.add s.counters

/-- The URLs that one handling counted; an expired message has none. -/
def urlCounts (config : Config) (handling : Handling) : Harvest.Counters :=
  if handling.outcome.isSome then
    (Harvest.extractUrls config.crate config.captures handling.message.text ⟨0, 0⟩).2
  else ⟨0, 0⟩

namespace Session

def expired (session : Session) : Nat :=
  session.worker.handled.countP fun handling => handling.outcome.isNone

def oversizedUrls (config : Config) (session : Session) : Nat :=
  (session.worker.handled.map fun handling => (urlCounts config handling).oversizedUrls).sum

def invalidUrls (config : Config) (session : Session) : Nat :=
  (session.worker.handled.map fun handling => (urlCounts config handling).invalid).sum

end Session

structure Accounted (config : Config) (s : State) : Prop where
  delivered : s.delivered.countP (fun delivery => (delivery.fate config).enqueues) =
    s.waiting.length + s.results.length
  answered : s.results.countP Except.isOk = s.admitted.length + s.total.duplicates + s.total.full
  admitted : s.admitted.length = s.sum fun session => session.worker.accepted.length
  expired : s.total.expired = s.sum Session.expired
  oversizedMessages : s.total.oversizedMessages =
    s.delivered.countP fun delivery => delivery.fate config = .discarded .oversized
  oversizedUrls : s.total.oversizedUrls = s.sum (Session.oversizedUrls config)
  invalid : s.total.invalid =
    s.delivered.countP (fun delivery => delivery.fate config = .discarded .invalid) +
      s.sum (Session.invalidUrls config)

section

variable {config : Config} {s t : State}

theorem sum_set {sessions : List Session} {index : Nat} {session : Session} (changed : Session)
    (weight : Session → Nat) (hsession : sessions[index]? = some session) :
    ((sessions.set index changed).map weight).sum + weight session =
      (sessions.map weight).sum + weight changed := by
  induction sessions generalizing index with
  | nil => cases hsession
  | cons first rest ih =>
      cases index with
      | zero =>
          cases Option.some.inj hsession
          simp only [List.set_cons_zero, List.map_cons, List.sum_cons]
          omega
      | succ index =>
          have := ih hsession
          simp only [List.set_cons_succ, List.map_cons, List.sum_cons]
          omega

theorem sum_same {sessions : List Session} {index : Nat} {session changed : Session}
    (weight : Session → Nat) (hsession : sessions[index]? = some session)
    (hsame : weight changed = weight session) :
    ((sessions.set index changed).map weight).sum = (sessions.map weight).sum := by
  have := sum_set changed weight hsession
  omega

theorem Accounted.same {sessions : List Session} (h : Accounted config s)
    (haccepted : (sessions.map fun session => session.worker.accepted.length).sum =
      s.sum fun session => session.worker.accepted.length)
    (hexpired : (sessions.map Session.expired).sum = s.sum Session.expired)
    (hoversized : (sessions.map (Session.oversizedUrls config)).sum = s.sum (Session.oversizedUrls config))
    (hinvalid : (sessions.map (Session.invalidUrls config)).sum = s.sum (Session.invalidUrls config)) :
    Accounted config { s with sessions := sessions } where
  delivered := h.delivered
  answered := h.answered
  admitted := h.admitted.trans haccepted.symm
  expired := h.expired.trans hexpired.symm
  oversizedMessages := h.oversizedMessages
  oversizedUrls := h.oversizedUrls.trans hoversized.symm
  invalid := h.invalid.trans (congrArg _ hinvalid.symm)

theorem Accounted.set {index : Nat} {session changed : Session} (h : Accounted config s)
    (hsession : s.sessions[index]? = some session)
    (haccepted : changed.worker.accepted = session.worker.accepted)
    (hhandled : changed.worker.handled = session.worker.handled) :
    Accounted config { s with sessions := s.sessions.set index changed } := by
  refine h.same ?_ ?_ ?_ ?_ <;> refine sum_same _ hsession ?_
  · rw [haccepted]
  · rw [Session.expired, hhandled, Session.expired]
  · rw [Session.oversizedUrls, hhandled, Session.oversizedUrls]
  · rw [Session.invalidUrls, hhandled, Session.invalidUrls]

theorem counted_worked {session worked : Session} {world : World}
    (h : session.step (.work (extracting config world)) = some worked) :
    let counts := counted config session.worker worked.worker
    counts.full = 0 ∧ counts.duplicates = 0 ∧ counts.oversizedMessages = 0 ∧
      worked.worker.accepted.length = session.worker.accepted.length ∧
      worked.expired = session.expired + counts.expired ∧
      worked.oversizedUrls config = session.oversizedUrls config + counts.oversizedUrls ∧
      worked.invalidUrls config = session.invalidUrls config + counts.invalid := by
  cases Session.stepped_of_step h with
  | worked _ worker hlive hworker =>
      refine ⟨rfl, rfl, rfl, congrArg _ (handled_of_work hworker).1, ?_⟩
      cases htask : session.worker.task with
      | selecting =>
          simp only [Worker.step, htask] at hworker
          unfold select at hworker
          split at hworker
          · cases Option.some.inj hworker
            simp [counted, htask, Counters.zero, Session.expired, Session.oversizedUrls, Session.invalidUrls]
          · split at hworker
            · split at hworker
              · cases Option.some.inj hworker
                simp [counted, htask, Counters.zero, Session.expired, Session.oversizedUrls,
                  Session.invalidUrls]
              · contradiction
            · split at hworker <;> cases Option.some.inj hworker <;>
                simp [counted, htask, Counters.zero, Session.expired, Session.oversizedUrls,
                  Session.invalidUrls, urlCounts]
      | handling message takenAt =>
          simp only [Worker.step, htask] at hworker
          cases Option.some.inj hworker
          simp [counted, htask, Counters.zero, Session.expired, Session.oversizedUrls,
            Session.invalidUrls, urlCounts, Worker.finish]
      | returned =>
          simp only [Worker.step, htask] at hworker
          contradiction

theorem accepted_sent {session changed : Session} {message : QueuedMessage}
    (h : session.step (.send message) = some changed) :
    changed.worker.handled = session.worker.handled ∧
    (∀ queue, session.ingress.queue.trySend message = .ok queue →
      changed.worker.accepted = session.worker.accepted ++ [message]) ∧
    ∀ error, session.ingress.queue.trySend message = .error error →
      changed.worker.accepted = session.worker.accepted := by
  cases Session.stepped_of_step h with
  | lost _ hdropped =>
      refine ⟨rfl, fun queue hqueue => ?_, fun _ _ => rfl⟩
      simp [Session.ingress, hdropped, Mpsc.dropReceiver, Mpsc.trySend] at hqueue
  | sent _ worker hlive hworker =>
      have hqueue : session.ingress.queue = session.worker.queue := by simp [Session.ingress, hlive]
      simp only [Worker.step] at hworker
      rw [hqueue]
      split at hworker
      · contradiction
      · split at hworker <;> rename_i hsend <;> cases Option.some.inj hworker <;> rw [hsend]
        · exact ⟨rfl, fun _ _ => rfl, fun _ hno => by cases hno⟩
        · exact ⟨rfl, fun _ hno => (by cases hno), fun _ _ => rfl⟩

theorem accounted_locked {position : Nat} {iteration : Iteration (Entry EventKey Unit)}
    (h : Accounted config s) (hstep : lock s position iteration = some t) : Accounted config t := by
  obtain ⟨call, session, hcall, hsession, sessions, rfl, hsessions⟩ := lock_cases hstep
  have hwaiting : (s.waiting.eraseIdx position).length + 1 = s.waiting.length := by
    obtain ⟨hlt, -⟩ := List.getElem?_eq_some_iff.mp hcall
    rw [List.length_eraseIdx_of_lt hlt]
    omega
  have hdelivered := h.delivered
  have hanswered := h.answered
  have hafter := enqueued iteration { s.ingress with waiting := s.waiting.eraseIdx position } call
    session.ingress
  generalize Ingress.enqueue iteration { s.ingress with waiting := s.waiting.eraseIdx position } call
    session.ingress = after at hafter ⊢
  -- A call that is not queued leaves what the sessions accepted as it was.
  have hkept (hsame : sessions = s.sessions ∨ ∃ changed, sessions = s.sessions.set call.session changed ∧
      changed.worker.accepted = session.worker.accepted ∧
      changed.worker.handled = session.worker.handled) :
      Accounted config { s with sessions := sessions } := by
    rcases hsame with rfl | ⟨changed, rfl, haccepted, hhandled⟩
    · exact h
    · exact h.set hsession haccepted hhandled
  have hmissed (hget : (s.seen.get call.key s.clock).1 = none) (error : Mpsc.TrySendError)
      (hsend : session.ingress.queue.trySend call.message = .error error) :
      sessions = s.sessions ∨ ∃ changed, sessions = s.sessions.set call.session changed ∧
        changed.worker.accepted = session.worker.accepted ∧
        changed.worker.handled = session.worker.handled := by
    rcases hsessions with ⟨hhit, -⟩ | ⟨-, changed, hsent, hset⟩
    · exact absurd hget (Option.isSome_iff_ne_none.mp hhit)
    · obtain ⟨hhandled, -, hrefused⟩ := accepted_sent hsent
      exact .inr ⟨changed, hset, hrefused error hsend, hhandled⟩
  cases hafter with
  | duplicate seen hget =>
      have hsum := hkept (hsessions.elim (fun hhit => .inl hhit.2) fun hmiss =>
        absurd hmiss.1 (Option.isSome_iff_ne_none.mp hget))
      refine { hsum with delivered := ?_, answered := ?_ }
      · simp only [List.length_append, List.length_singleton, State.ingress]
        omega
      · simp only [List.countP_append, List.countP_singleton, State.ingress, State.total,
          Counters.add, Except.isOk, Except.toBool] at hanswered ⊢
        simp only [if_true]
        omega
  | queued seen queue hget hsend =>
      rcases hsessions with ⟨hhit, -⟩ | ⟨-, changed, hsent, rfl⟩
      · exact absurd hget (Option.isSome_iff_ne_none.mp hhit)
      obtain ⟨hhandled, hqueued, -⟩ := accepted_sent hsent
      have haccepted := hqueued queue hsend
      have hadmitted := h.admitted
      have hsum := sum_set changed (fun session => session.worker.accepted.length) hsession
      refine ⟨?_, ?_, ?_, ?_, h.oversizedMessages, ?_, ?_⟩
      · simp only [List.length_append, List.length_singleton, State.ingress]
        omega
      · simp only [List.countP_append, List.countP_singleton, List.length_append, List.length_singleton,
          State.ingress, State.total, Counters.add, Except.isOk, Except.toBool] at hanswered ⊢
        simp only [if_true]
        omega
      · simp only [List.length_append, List.length_singleton, State.ingress, State.sum,
          haccepted] at hadmitted hsum ⊢
        omega
      · exact h.expired.trans (sum_same _ hsession (by
          rw [Session.expired, hhandled, Session.expired])).symm
      · exact h.oversizedUrls.trans (sum_same _ hsession (by
          rw [Session.oversizedUrls, hhandled, Session.oversizedUrls])).symm
      · exact h.invalid.trans (congrArg _ (sum_same _ hsession (by
          rw [Session.invalidUrls, hhandled, Session.invalidUrls])).symm)
  | full seen hget hsend =>
      have hsum := hkept (hmissed hget _ hsend)
      refine { hsum with delivered := ?_, answered := ?_ }
      · simp only [List.length_append, List.length_singleton, State.ingress]
        omega
      · simp only [List.countP_append, List.countP_singleton, State.ingress, State.total,
          Counters.add, Except.isOk, Except.toBool] at hanswered ⊢
        simp only [if_true]
        omega
  | closed seen hget hsend =>
      have hsum := hkept (hmissed hget _ hsend)
      refine { hsum with delivered := ?_, answered := ?_ }
      · simp only [List.length_append, List.length_singleton, State.ingress]
        omega
      · simp only [List.countP_append, List.countP_singleton, State.ingress, State.total,
          Counters.add, Except.isOk, Except.toBool] at hanswered ⊢
        simpa using hanswered

theorem accounted_move (h : Accounted config s) (hmove : Move config s t) : Accounted config t := by
  have hdelivered := h.delivered
  have hoversized := h.oversizedMessages
  have hinvalid := h.invalid
  simp only [State.total, Counters.add, State.sum] at hoversized hinvalid
  cases hmove with
  | controlled => exact { h with }
  | acted index action session changed hplain hsession hstep =>
      refine h.set hsession (accepted_of_acted hstep (by rintro message rfl; cases hplain)) ?_
      cases Session.stepped_of_step hstep <;> first | rfl | cases hplain
  | advanced elapsed =>
      have hsame (weight : Session → Nat) (hweight : ∀ session clock, weight { session with
          worker := { session.worker with clock := clock } } = weight session) :
          (s.tick elapsed).sum weight = s.sum weight := by
        simp only [State.sum, State.tick, List.map_map, Function.comp_def, hweight]
      exact ⟨h.delivered, h.answered, h.admitted.trans (hsame _ fun _ _ => rfl).symm,
        h.expired.trans (hsame _ fun _ _ => rfl).symm, h.oversizedMessages,
        h.oversizedUrls.trans (hsame _ fun _ _ => rfl).symm,
        h.invalid.trans (congrArg _ (hsame _ fun _ _ => rfl).symm)⟩
  | began =>
      refine h.same ?_ ?_ ?_ ?_ <;>
        simp [State.sum, Session.new, Worker.initial, Session.expired, Session.oversizedUrls,
          Session.invalidUrls]
  | worked world session worked hsession hstep =>
      obtain ⟨hfull, hduplicates, hmessages, haccepted, hexpired, hurls, hbad⟩ := counted_worked hstep
      have hset (weight : Session → Nat) := sum_set worked weight hsession
      have hanswered := h.answered
      have hsums := h.expired
      have hbytes := h.oversizedUrls
      simp only [State.total, Counters.add, State.sum] at hanswered hsums hbytes
      refine ⟨h.delivered, ?_, ?_, ?_, ?_, ?_, ?_⟩
      · simp only [State.total, Counters.add, hfull, hduplicates]
        omega
      · exact h.admitted.trans (sum_same _ hsession haccepted).symm
      · have := hset Session.expired
        simp only [State.total, Counters.add, State.sum] at this ⊢
        omega
      · simp only [State.total, Counters.add, hmessages]
        omega
      · have := hset (Session.oversizedUrls config)
        simp only [State.total, Counters.add, State.sum] at this ⊢
        omega
      · have := hset (Session.invalidUrls config)
        simp only [State.total, Counters.add, State.sum] at this ⊢
        omega
  | ignored delivery hfate =>
      have hnot : (delivery.fate config).enqueues = false ∧
          ∀ discard, delivery.fate config ≠ .discarded discard := by
        rcases hfate with ⟨failure, hfate⟩ | hfate <;> rw [hfate] <;> exact ⟨rfl, by simp⟩
      refine ⟨?_, h.answered, h.admitted, h.expired, ?_, h.oversizedUrls, ?_⟩
      · simpa [State.deliver, hnot.1] using hdelivered
      · simpa [State.deliver, State.total, Counters.add, hnot.2] using hoversized
      · simpa [State.deliver, State.total, Counters.add, State.sum, hnot.2] using hinvalid
  | discarded delivery discard hfate =>
      refine ⟨?_, ?_, h.admitted, ?_, ?_, ?_, ?_⟩
      · simpa [State.deliver, hfate, Pushed.enqueues] using hdelivered
      · cases discard <;> exact h.answered
      · cases discard <;> exact h.expired
      · cases discard <;> simp [State.deliver, State.total, Counters.add, Counters.discard, hfate] <;> omega
      · cases discard <;> exact h.oversizedUrls
      · cases discard <;>
          simp [State.deliver, State.total, Counters.add, Counters.discard, State.sum, hfate] <;> omega
  | waited delivery message session hfate hsession haccepting hlisteners =>
      refine ⟨?_, h.answered, h.admitted, h.expired, ?_, h.oversizedUrls, ?_⟩
      · have hone : (delivery.fate config).enqueues = true := by rw [hfate]; rfl
        simp [State.deliver, hone]
        omega
      · simpa [State.deliver, State.total, Counters.add, hfate] using hoversized
      · simpa [State.deliver, State.total, Counters.add, State.sum, hfate] using hinvalid
  | refused delivery message session hfate hsession haccepting =>
      refine ⟨?_, ?_, h.admitted, h.expired, ?_, h.oversizedUrls, ?_⟩
      · have hone : (delivery.fate config).enqueues = true := by rw [hfate]; rfl
        simp [State.deliver, hone]
        omega
      · have hanswered := h.answered
        simp only [State.total, Counters.add] at hanswered
        simpa [State.deliver, State.total, Counters.add, Except.isOk, Except.toBool] using hanswered
      · simpa [State.deliver, State.total, Counters.add, hfate] using hoversized
      · simpa [State.deliver, State.total, Counters.add, State.sum, hfate] using hinvalid
  | locked position iteration t hstep => exact accounted_locked h hstep
  | reported => exact { h with }

/-- The log lines of the counters add up to what happened, whatever the order of
callbacks, workers, sessions and reports. -/
theorem counters_account (h : Reachable (machine config) s) : Accounted config s := by
  refine moves_invariant (P := Accounted config) (fun clock => ?_) (fun _ _ => accounted_move) h
  refine ⟨rfl, rfl, ?_, ?_, rfl, ?_, ?_⟩ <;>
    simp [State.sum, initial, Session.new, Worker.initial, Session.expired, Session.oversizedUrls,
      Session.invalidUrls, State.total, Counters.add, Counters.zero]

theorem counters_account_harvesting : ∃ s : State, s.admitted.length = 1 ∧ Accounted sampleConfig s := by
  obtain ⟨s, hs, -, hadmitted, -⟩ := harvestRun_reached
  exact ⟨s, by rw [hadmitted]; rfl, counters_account hs⟩

end

end SjmbSlack.SocketMode.Sessions
