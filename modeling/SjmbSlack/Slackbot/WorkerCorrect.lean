import SjmbSlack.Slackbot.Worker

/-! What holds of the worker in every interleaving with senders and the drain
signal: nothing accepted is lost, repeated or reordered, and every message taken
is answered once. -/
namespace SjmbSlack.Slackbot.Worker
open Machine

def Task.messages : Task → List QueuedMessage
  | .handling message _ => [message]
  | _ => []

def Handling.verdict (h : Handling) : Bool := h.outcome.any Prod.snd

def Handling.effects (h : Handling) : List Effect := (h.outcome.map Prod.fst).getD []

/-- A message is skipped exactly where it had expired when it was taken; else
`handle_msg` ran on it. -/
def Handling.Sound (h : Handling) : Prop :=
  match h.outcome with
  | none => h.message.expiresAt ≤ h.takenAt
  | some outcome => h.takenAt < h.message.expiresAt ∧ ∃ world, outcome = handleMsg world h.message

structure Inv (s : State) : Prop where
  order : s.accepted = s.handled.map Handling.message ++ s.task.messages ++ s.queue.buffer
  answers : s.answers = s.handled.flatMap fun h => answer h.message h.verdict
  effects : s.effects = s.handled.flatMap Handling.effects
  expired : s.expired = s.handled.countP fun h => h.outcome.isNone
  sound : ∀ h ∈ s.handled, h.Sound
  fresh : ∀ message takenAt, s.task = .handling message takenAt → takenAt < message.expiresAt
  closed : s.draining = true → s.queue.closed = true
  returned : s.task = .returned →
    (s.queue.closed = true ∨ s.senders = 0) ∧ s.queue.buffer = []

theorem inv_initial (clock capacity senders : Nat) : Inv (initial clock capacity senders) where
  order := rfl
  answers := rfl
  effects := rfl
  expired := rfl
  sound := by simp [initial]
  fresh := by simp [initial]
  closed := by simp [initial]
  returned := by simp [initial]

theorem inv_select {s t : State} (h : Inv s) (htask : s.task = .selecting)
    (hstep : select s = some t) : Inv t := by
  have horder : s.accepted = s.handled.map Handling.message ++ s.queue.buffer := by
    simpa [htask, Task.messages] using h.order
  unfold select at hstep
  split at hstep
  · cases Option.some.inj hstep
    exact { h with closed := fun _ => rfl, returned := by simp [htask] }
  · split at hstep
    · rename_i hempty
      split at hstep
      · rename_i hclosed
        cases Option.some.inj hstep
        have hbuffer := Mpsc.recv_none hempty
        exact { h with
          order := by simp [horder, hbuffer, Task.messages]
          fresh := by simp
          returned := fun _ => ⟨hclosed, hbuffer⟩ }
      · contradiction
    · rename_i message queue hrecv
      obtain ⟨hbuffer, hclosed, -⟩ := Mpsc.recv_some hrecv
      split at hstep
      · rename_i hexpired
        cases Option.some.inj hstep
        refine { h with
          order := ?_, answers := ?_, effects := ?_, expired := ?_, sound := ?_,
          closed := ?_, returned := by simp [htask] }
        · simp [horder, hbuffer, htask, Task.messages]
        · simp [h.answers, Handling.verdict]
        · simp [h.effects, Handling.effects]
        · simp [h.expired]
        · intro handling hmem
          rcases List.mem_append.mp hmem with hold | hnew
          · exact h.sound _ hold
          · cases List.mem_singleton.mp hnew
            exact hexpired
        · exact fun hdraining => hclosed.trans (h.closed hdraining)
      · rename_i hfresh
        cases Option.some.inj hstep
        refine { h with order := ?_, fresh := ?_, closed := ?_, returned := by simp }
        · simp [horder, hbuffer, Task.messages]
        · intro other takenAt heq
          cases heq
          exact Nat.lt_of_not_le hfresh
        · exact fun hdraining => hclosed.trans (h.closed hdraining)

theorem inv_finish {s : State} (h : Inv s) {message : QueuedMessage} {takenAt : Nat}
    (htask : s.task = .handling message takenAt) (world : World) :
    Inv (finish s message takenAt world) where
  order := by simpa [finish, htask, Task.messages] using h.order
  answers := by simp [finish, h.answers, Handling.verdict]
  effects := by simp [finish, h.effects, Handling.effects]
  expired := by simp [finish, h.expired]
  sound := by
    intro handling hmem
    rcases List.mem_append.mp hmem with hold | hnew
    · exact h.sound _ hold
    · cases List.mem_singleton.mp hnew
      exact ⟨h.fresh _ _ htask, world, rfl⟩
  fresh := by simp [finish]
  closed := h.closed
  returned := by simp [finish]

theorem inv_send {s t : State} (h : Inv s) {message : QueuedMessage}
    (hstep : step s (.send message) = some t) : Inv t := by
  simp only [step] at hstep
  split at hstep
  · contradiction
  · rename_i hsenders
    split at hstep
    · rename_i queue hsend
      cases Option.some.inj hstep
      obtain ⟨hopen, hbuffer, -, -⟩ := Mpsc.trySend_ok hsend
      refine { h with order := ?_, closed := ?_, returned := ?_ }
      · simp [h.order, hbuffer]
      · exact fun hdraining => absurd (h.closed hdraining) (by simp [hopen])
      · intro hreturned
        rcases (h.returned hreturned).1 with hclosed | hnone
        · exact absurd hclosed (by simp [hopen])
        · exact absurd hnone hsenders
    · cases Option.some.inj hstep
      exact h

theorem inv_step {s t : State} {a : Action} (h : Inv s) (hstep : step s a = some t) : Inv t := by
  cases a with
  | advance elapsed => cases Option.some.inj hstep; exact { h with }
  | cloneSender =>
      simp only [step] at hstep
      split at hstep
      · contradiction
      · rename_i hsenders
        cases Option.some.inj hstep
        exact { h with returned := fun hreturned =>
          ⟨.inl ((h.returned hreturned).1.resolve_right hsenders), (h.returned hreturned).2⟩ }
  | dropSender =>
      simp only [step] at hstep
      split at hstep
      · contradiction
      · rename_i hsenders
        cases Option.some.inj hstep
        exact { h with returned := fun hreturned =>
          ⟨.inl ((h.returned hreturned).1.resolve_right hsenders), (h.returned hreturned).2⟩ }
  | send message => exact inv_send h hstep
  | signalDrain => cases Option.some.inj hstep; exact { h with }
  | work world =>
      simp only [step] at hstep
      split at hstep
      · exact inv_select h ‹_› hstep
      · cases Option.some.inj hstep
        exact inv_finish h ‹_› world
      · contradiction

theorem inv_reachable {s : State} (h : Reachable machine s) : Inv s := by
  refine h.invariant (P := Inv) ?_ fun _ _ _ _ hinv _ hstep => inv_step hinv hstep
  rintro s ⟨clock, capacity, senders, rfl⟩
  exact inv_initial clock capacity senders

theorem work_running {worker worked : Worker.State} {world : World} (hsenders : worker.senders ≠ 0)
    (hsignal : worker.drainSignal = false) (hopen : worker.queue.closed = false)
    (h : Worker.step worker (.work world) = some worked) :
    worked.senders = worker.senders ∧ worked.drainSignal = false ∧
      worked.draining = worker.draining ∧ worked.queue.closed = false ∧ worked.task ≠ .returned := by
  cases htask : worker.task with
  | selecting =>
      simp only [Worker.step, htask] at h
      unfold select at h
      split at h
      · rename_i hdrain
        rw [hsignal] at hdrain
        exact absurd hdrain.1 (by decide)
      · split at h
        · split at h
          · rename_i hover
            rcases hover with hclosed | hnone
            · rw [hopen] at hclosed
              cases hclosed
            · exact absurd hnone hsenders
          · contradiction
        · rename_i hrecv
          obtain ⟨-, hclosed, -⟩ := Mpsc.recv_some hrecv
          split at h <;> cases Option.some.inj h
          · exact ⟨rfl, hsignal, rfl, hclosed.trans hopen, by simp [htask]⟩
          · exact ⟨rfl, hsignal, rfl, hclosed.trans hopen, by simp⟩
  | handling message takenAt =>
      simp only [Worker.step, htask] at h
      cases Option.some.inj h
      exact ⟨rfl, hsignal, rfl, hopen, by simp [Worker.finish]⟩
  | returned =>
      simp only [Worker.step, htask] at h
      contradiction

theorem work_keeps {worker worked : Worker.State} {world : World}
    (h : Worker.step worker (.work world) = some worked) :
    worked.senders = worker.senders ∧ worked.clock = worker.clock ∧
      worked.drainSignal = worker.drainSignal := by
  simp only [Worker.step] at h
  split at h
  · unfold select at h
    split at h
    · cases Option.some.inj h
      exact ⟨rfl, rfl, rfl⟩
    · split at h
      · split at h
        · cases Option.some.inj h
          exact ⟨rfl, rfl, rfl⟩
        · contradiction
      · split at h <;> cases Option.some.inj h <;> exact ⟨rfl, rfl, rfl⟩
  · cases Option.some.inj h
    exact ⟨rfl, rfl, rfl⟩
  · contradiction

theorem work_senders {worker worked : Worker.State} {world : World}
    (h : Worker.step worker (.work world) = some worked) : worked.senders = worker.senders :=
  (work_keeps h).1

theorem send_clock {worker sent : Worker.State} {message : QueuedMessage}
    (h : Worker.step worker (.send message) = some sent) : sent.clock = worker.clock := by
  simp only [Worker.step] at h
  split at h
  · contradiction
  · split at h <;> cases Option.some.inj h <;> rfl

theorem send_fields {worker sent : Worker.State} {message : QueuedMessage}
    (h : Worker.step worker (.send message) = some sent) :
    sent.senders = worker.senders ∧ sent.drainSignal = worker.drainSignal ∧
      sent.draining = worker.draining ∧ sent.queue.closed = worker.queue.closed ∧
      sent.task = worker.task := by
  simp only [Worker.step] at h
  split at h
  · contradiction
  · split at h
    · rename_i hsend
      cases Option.some.inj h
      obtain ⟨hopen, -, hclosed, -⟩ := Mpsc.trySend_ok hsend
      exact ⟨rfl, rfl, rfl, hclosed.trans hopen.symm, rfl⟩
    · cases Option.some.inj h
      exact ⟨rfl, rfl, rfl, rfl, rfl⟩

def remaining (s : State) : Nat :=
  2 * s.queue.buffer.length + s.task.messages.length + (if s.draining then 0 else 1) +
    (if s.task = .returned then 0 else 1)

def sample (expiresAt receipt : Nat) : QueuedMessage where
  workspace := ⟨"name".toList, "T1".toList, "A1".toList⟩
  expiresAt := expiresAt
  ts := 0
  channel := "C1".toList
  text := []
  sender := ⟨none, none, none⟩
  completion := some receipt
  dryRun := false

def quiet : World where
  senderNick _ := ("nick".toList, [])
  channelName _ := ("#chan".toList, [])
  extractUrls _ := []
  check _ _ := (true, none)
  dbAddUrl _ _ := true

end SjmbSlack.Slackbot.Worker
