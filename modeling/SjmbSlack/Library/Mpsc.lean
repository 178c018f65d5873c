import Mathlib.Data.List.Basic

/-! A bounded queue with many senders and one receiver, which either side can
close: the receiver by an explicit close, the senders by all going away. -/
namespace SjmbSlack

structure Mpsc (α : Type*) where
  capacity : Nat
  buffer : List α
  closed : Bool
  bounded : buffer.length ≤ capacity

namespace Mpsc

variable {α : Type*}

inductive TrySendError where
  | full
  | closed
  deriving DecidableEq

def channel (capacity : Nat) : Mpsc α := ⟨capacity, [], false, Nat.zero_le _⟩

def push (queue : Mpsc α) (item : α) (h : queue.buffer.length < queue.capacity) : Mpsc α :=
  ⟨queue.capacity, queue.buffer ++ [item], queue.closed, by
    rw [List.length_append]
    exact h⟩

def trySend (queue : Mpsc α) (item : α) : Except TrySendError (Mpsc α) :=
  if queue.closed then .error .closed
  else if h : queue.buffer.length < queue.capacity then .ok (queue.push item h)
  else .error .full

def recv (queue : Mpsc α) : Option (α × Mpsc α) :=
  match h : queue.buffer with
  | [] => none
  | item :: rest => some (item, ⟨queue.capacity, rest, queue.closed, by
      have := queue.bounded
      simp only [h, List.length_cons] at this
      omega⟩)

def close (queue : Mpsc α) : Mpsc α := { queue with closed := true }

def dropReceiver (queue : Mpsc α) : Mpsc α := ⟨queue.capacity, [], true, Nat.zero_le _⟩

@[simp] theorem close_buffer (queue : Mpsc α) : queue.close.buffer = queue.buffer := rfl

@[simp] theorem close_closed (queue : Mpsc α) : queue.close.closed = true := rfl

@[simp] theorem close_capacity (queue : Mpsc α) : queue.close.capacity = queue.capacity := rfl

theorem trySend_ok {queue sent : Mpsc α} {item : α} (h : queue.trySend item = .ok sent) :
    queue.closed = false ∧ sent.buffer = queue.buffer ++ [item] ∧ sent.closed = false ∧
      sent.capacity = queue.capacity := by
  unfold trySend at h
  split at h
  · contradiction
  · rename_i hopen
    split at h
    · cases Except.ok.inj h
      exact ⟨by simpa using hopen, rfl, by simpa [push] using hopen, rfl⟩
    · contradiction

theorem recv_some {queue rest : Mpsc α} {item : α} (h : queue.recv = some (item, rest)) :
    queue.buffer = item :: rest.buffer ∧ rest.closed = queue.closed ∧
      rest.capacity = queue.capacity := by
  unfold recv at h
  split at h
  · contradiction
  · rename_i hbuffer
    cases h
    exact ⟨hbuffer, rfl, rfl⟩

theorem recv_none {queue : Mpsc α} (h : queue.recv = none) : queue.buffer = [] := by
  unfold recv at h
  split at h
  · assumption
  · contradiction

end Mpsc

end SjmbSlack
