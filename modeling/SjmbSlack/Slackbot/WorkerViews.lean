import SjmbSlack.Slackbot.Worker

/-! What one of several senders sees of a worker that they share: the receipts of its
own messages, by its own numbers. The worker runs in each view as it runs itself. -/
namespace SjmbSlack

namespace Mpsc

variable {α β : Type*}

def map (f : α → β) (queue : Mpsc α) : Mpsc β :=
  ⟨queue.capacity, queue.buffer.map f, queue.closed, by
    rw [List.length_map]
    exact queue.bounded⟩

@[simp] theorem map_capacity (f : α → β) (queue : Mpsc α) : (queue.map f).capacity = queue.capacity := rfl

@[simp] theorem map_buffer (f : α → β) (queue : Mpsc α) : (queue.map f).buffer = queue.buffer.map f := rfl

@[simp] theorem map_closed (f : α → β) (queue : Mpsc α) : (queue.map f).closed = queue.closed := rfl

@[simp] theorem map_close (f : α → β) (queue : Mpsc α) : (queue.map f).close = queue.close.map f := rfl

theorem ext {left right : Mpsc α} (hcapacity : left.capacity = right.capacity)
    (hbuffer : left.buffer = right.buffer) (hclosed : left.closed = right.closed) : left = right := by
  cases left
  cases right
  cases hcapacity
  cases hbuffer
  cases hclosed
  rfl

theorem trySend_map (f : α → β) (queue : Mpsc α) (item : α) :
    (queue.map f).trySend (f item) = (queue.trySend item).map (map f) := by
  unfold trySend
  by_cases hclosed : queue.closed = true
  · rw [if_pos hclosed, if_pos (show (queue.map f).closed = true from hclosed)]
    rfl
  · rw [if_neg hclosed, if_neg (show ¬ (queue.map f).closed = true from hclosed)]
    by_cases hroom : queue.buffer.length < queue.capacity
    · have hroom' : (queue.map f).buffer.length < (queue.map f).capacity := by simpa using hroom
      rw [dif_pos hroom, dif_pos hroom']
      refine congrArg Except.ok (ext rfl ?_ rfl)
      simp [push]
    · have hfull : ¬ (queue.map f).buffer.length < (queue.map f).capacity := by simpa using hroom
      rw [dif_neg hroom, dif_neg hfull]
      rfl

theorem recv_map (f : α → β) (queue : Mpsc α) :
    (queue.map f).recv = queue.recv.map fun taken => (f taken.1, taken.2.map f) := by
  obtain ⟨capacity, buffer, closed, bounded⟩ := queue
  cases buffer <;> rfl

end Mpsc

namespace Slackbot.Worker

def own (receipts : Nat → Option Nat) (message : QueuedMessage) : QueuedMessage :=
  { message with completion := message.completion.bind receipts }

namespace State

variable (receipts : Nat → Option Nat)

def viewTask : Task → Task
  | .handling message takenAt => .handling (own receipts message) takenAt
  | .selecting => .selecting
  | .returned => .returned

def viewHandling (handling : Handling) : Handling := { handling with message := own receipts handling.message }

def viewAnswer (answer : Nat × Bool) : Option (Nat × Bool) := (receipts answer.1).map (·, answer.2)

def view (s : State) : State := { s with
  queue := s.queue.map (own receipts)
  task := viewTask receipts s.task
  accepted := s.accepted.map (own receipts)
  handled := s.handled.map (viewHandling receipts)
  answers := s.answers.filterMap (viewAnswer receipts) }

end State

def Action.view (receipts : Nat → Option Nat) : Action → Action
  | .send message => .send (own receipts message)
  | action => action

section

variable {receipts : Nat → Option Nat} {s t : State}

theorem handleUrls_own (world : World) (message : QueuedMessage) (nick channel : Str) (position : Nat)
    (urls : List Str) : handleUrls world (own receipts message) nick channel position urls =
      handleUrls world message nick channel position urls := by
  induction urls generalizing position with
  | nil => rfl
  | cons url rest ih =>
      unfold handleUrls
      simp only [ih]
      rfl

theorem handleMsg_own (world : World) (message : QueuedMessage) :
    handleMsg world (own receipts message) = handleMsg world message := by
  unfold handleMsg
  dsimp only
  rw [handleUrls_own]
  rfl

theorem answer_own (message : QueuedMessage) (result : Bool) :
    answer (own receipts message) result =
      (answer message result).filterMap (State.viewAnswer receipts) := by
  unfold answer own State.viewAnswer
  cases hcompletion : message.completion with
  | none => rfl
  | some receipt => cases hreceipt : receipts receipt <;> simp [hreceipt]

theorem select_view (h : select s = some t) : select (s.view receipts) = some (t.view receipts) := by
  unfold select at h ⊢
  split at h
  · rename_i hdrain
    cases Option.some.inj h
    exact if_pos hdrain
  · rename_i hdrain
    refine (if_neg hdrain).trans ?_
    rw [show (s.view receipts).queue = s.queue.map (own receipts) from rfl, Mpsc.recv_map]
    cases hrecv : s.queue.recv with
    | none =>
        rw [hrecv] at h
        dsimp only [Option.map_none] at h ⊢
        split at h
        · rename_i hclosed
          cases Option.some.inj h
          exact if_pos hclosed
        · contradiction
    | some taken =>
        obtain ⟨message, queue⟩ := taken
        rw [hrecv] at h
        dsimp only [Option.map_some] at h ⊢
        split at h
        · rename_i hexpired
          cases Option.some.inj h
          refine (if_pos hexpired).trans (congrArg some ?_)
          simp only [State.view, List.filterMap_append, List.map_append, answer_own]
          rfl
        · rename_i hlive
          cases Option.some.inj h
          exact if_neg hlive

/-- Each step of the worker is a step in every view of it. -/
theorem step_view {a : Action} (h : step s a = some t) :
    step (s.view receipts) (a.view receipts) = some (t.view receipts) := by
  cases a with
  | advance | signalDrain =>
      cases Option.some.inj h
      rfl
  | cloneSender | dropSender =>
      simp only [step] at h
      split at h
      · contradiction
      · rename_i hsenders
        cases Option.some.inj h
        exact if_neg hsenders
  | send message =>
      simp only [step] at h
      split at h
      · contradiction
      · rename_i hsenders
        refine (if_neg hsenders).trans ?_
        rw [show (s.view receipts).queue = s.queue.map (own receipts) from rfl, Mpsc.trySend_map]
        cases hsend : s.queue.trySend message with
        | ok queue =>
            rw [hsend] at h
            cases Option.some.inj h
            simp [Except.map, State.view]
        | error error =>
            rw [hsend] at h
            cases Option.some.inj h
            rfl
  | work world =>
      simp only [step, Action.view] at h ⊢
      cases htask : s.task with
      | selecting =>
          rw [htask] at h
          have htask' : (s.view receipts).task = .selecting := by
            simp only [State.view, htask, State.viewTask]
          rw [htask']
          exact select_view h
      | handling message takenAt =>
          rw [htask] at h
          have htask' : (s.view receipts).task = .handling (own receipts message) takenAt := by
            simp only [State.view, htask, State.viewTask]
          rw [htask']
          cases Option.some.inj h
          simp only [finish, State.view, handleMsg_own, answer_own, List.map_append, List.filterMap_append]
          rfl
      | returned =>
          rw [htask] at h
          contradiction

end

end Slackbot.Worker

end SjmbSlack
