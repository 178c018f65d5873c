import SjmbSlack.SocketMode.Lifecycle

/-! Where the rows of the Socket Mode backend come from, and what becomes of every
message that it is handed. -/
namespace SjmbSlack.Slackbot.Worker

end SjmbSlack.Slackbot.Worker

namespace SjmbSlack.SocketMode.Sessions
open Machine Limits Slackbot Slackbot.Worker Ingress

section

variable {config : Config} {s t : State}

theorem handled_of_work {worker worked : Worker.State} {world : World}
    (h : Worker.step worker (.work world) = some worked) :
    worked.accepted = worker.accepted ∧ (worked.handled = worker.handled ∨
      (∃ message, worker.task = .selecting ∧
        worked.handled = worker.handled ++ [⟨message, worker.clock, none⟩]) ∨
      ∃ message takenAt, worker.task = .handling message takenAt ∧
        worked.handled = worker.handled ++ [⟨message, takenAt, some (handleMsg world message)⟩]) := by
  cases htask : worker.task with
  | selecting =>
      simp only [Worker.step, htask] at h
      unfold select at h
      split at h
      · cases Option.some.inj h
        exact ⟨rfl, .inl rfl⟩
      · split at h
        · split at h
          · cases Option.some.inj h
            exact ⟨rfl, .inl rfl⟩
          · contradiction
        · split at h <;> cases Option.some.inj h
          · exact ⟨rfl, .inr (.inl ⟨_, rfl, rfl⟩)⟩
          · exact ⟨rfl, .inl rfl⟩
  | handling message takenAt =>
      simp only [Worker.step, htask] at h
      cases Option.some.inj h
      exact ⟨rfl, .inr (.inr ⟨message, takenAt, rfl, rfl⟩)⟩
  | returned =>
      simp only [Worker.step, htask] at h
      contradiction

/-- What waits for the lock, and what the sessions accepted, was delivered to them. -/
structure Traced (config : Config) (s : State) : Prop where
  waiting : ∀ call ∈ s.waiting, ∃ delivery ∈ s.delivered, delivery.session = call.session ∧
    delivery.event.eventId = call.eventId ∧ delivery.fate config = .enqueue call.message
  accepted : ∀ (i : Nat) (session : Session), s.sessions[i]? = some session →
    ∀ message ∈ session.worker.accepted, ∃ delivery ∈ s.delivered, delivery.session = i ∧ delivery.fate config = .enqueue message

theorem Traced.more (h : Traced config s) (hwaiting : ∀ call ∈ t.waiting, call ∈ s.waiting)
    (hdelivered : s.delivered ⊆ t.delivered)
    (hsessions : ∀ (i : Nat) (session : Session), t.sessions[i]? = some session →
      session.worker.accepted ≠ [] → ∃ before : Session, s.sessions[i]? = some before ∧ session.worker.accepted = before.worker.accepted) :
    Traced config t where
  waiting := by
    intro call hcall
    obtain ⟨delivery, hdelivery, hrest⟩ := h.waiting call (hwaiting call hcall)
    exact ⟨delivery, hdelivered hdelivery, hrest⟩
  accepted := by
    intro i session hsession message hmem
    obtain ⟨before, hbefore, hsame⟩ := hsessions i session hsession (List.ne_nil_of_mem hmem)
    rw [hsame] at hmem
    obtain ⟨delivery, hdelivery, hrest⟩ := h.accepted i before hbefore message hmem
    exact ⟨delivery, hdelivered hdelivery, hrest⟩

theorem accepted_of_acted {session changed : Session} {action : Session.Action}
    (h : session.step action = some changed) (hquiet : ∀ message, action ≠ .send message) :
    changed.worker.accepted = session.worker.accepted := by
  cases Session.stepped_of_step h with
  | worked world worker hlive hworker => exact (handled_of_work hworker).1
  | lost message | sent message => exact absurd rfl (hquiet message)
  | advanced | joined | health | shut | closed | dropped => rfl

end

end SjmbSlack.SocketMode.Sessions
