import Mathlib.Data.List.Basic

/-! A notifier with at most one stored permit. `notify_one` wakes the task that
has waited longest, or stores the permit where none waits; a wake-up of a task
that goes away before it runs is sent again. -/
namespace SjmbSlack

structure Notify (ι : Type*) where
  permit : Bool
  waiting : List ι
  /-- Tasks that were woken and have not run since. -/
  woken : List ι
  idle : permit = true → waiting = []
  deriving DecidableEq

namespace Notify

variable {ι : Type*}

def new : Notify ι := ⟨false, [], [], fun _ => rfl⟩

def notifyOne (n : Notify ι) : Notify ι :=
  match n.waiting with
  | [] => ⟨true, [], n.woken, fun _ => rfl⟩
  | task :: rest => ⟨false, rest, n.woken ++ [task], fun h => by contradiction⟩

/-- The first poll of `notified()`: whether the task goes on at once. -/
def poll (n : Notify ι) (task : ι) : Bool × Notify ι :=
  if n.permit then (true, { n with permit := false, idle := fun h => by contradiction })
  else (false, ⟨false, n.waiting ++ [task], n.woken, fun h => by contradiction⟩)

variable [DecidableEq ι]

def resume (n : Notify ι) (task : ι) : Option (Notify ι) :=
  if task ∈ n.woken then some { n with woken := n.woken.erase task } else none

/-- The future of a task is dropped while it waits. -/
def drop (n : Notify ι) (task : ι) : Notify ι :=
  if task ∈ n.woken then notifyOne { n with woken := n.woken.erase task }
  else { n with
    waiting := n.waiting.erase task
    idle := fun h => by rw [n.idle h, List.erase_nil] }

omit [DecidableEq ι]

def Unused (n : Notify ι) : Prop := n.waiting = [] ∧ n.woken = []

def UsedBy (n : Notify ι) (task : ι) : Prop :=
  n.waiting = [task] ∧ n.woken = [] ∨ n.waiting = [] ∧ n.woken = [task]

def Signalled (n : Notify ι) : Prop := n.permit = true ∨ n.woken ≠ []

variable {n : Notify ι} {task : ι}

theorem signalled_notifyOne (n : Notify ι) : n.notifyOne.Signalled := by
  unfold notifyOne
  split
  · exact .inl rfl
  · exact .inr (by simp)

theorem Unused.notifyOne (h : n.Unused) : n.notifyOne.Unused := by
  unfold Notify.notifyOne
  rw [h.1]
  exact ⟨rfl, h.2⟩

theorem UsedBy.notifyOne (h : n.UsedBy task) : n.notifyOne.UsedBy task := by
  unfold Notify.notifyOne
  rcases h with ⟨hwaiting, hwoken⟩ | ⟨hwaiting, hwoken⟩
  · rw [hwaiting, hwoken]
    exact .inr ⟨rfl, rfl⟩
  · rw [hwaiting]
    exact .inr ⟨rfl, hwoken⟩

theorem length_waiting_notifyOne (n : Notify ι) :
    n.notifyOne.waiting.length = n.waiting.length - 1 := by
  unfold notifyOne
  split <;> rename_i h <;> rw [h] <;> rfl

theorem Unused.poll_true (h : n.Unused) (hpoll : (n.poll task).1 = true) :
    (n.poll task).2.Unused := by
  unfold poll at hpoll ⊢
  split
  · exact h
  · rename_i hpermit
    rw [if_neg hpermit] at hpoll
    contradiction

theorem Unused.poll_false (h : n.Unused) (hpoll : (n.poll task).1 = false) :
    n.permit = false ∧ (n.poll task).2.UsedBy task := by
  unfold poll at hpoll ⊢
  split
  · rename_i hpermit
    rw [if_pos hpermit] at hpoll
    contradiction
  · rename_i hpermit
    refine ⟨by simpa using hpermit, .inl ⟨?_, h.2⟩⟩
    change n.waiting ++ [task] = [task]
    rw [h.1, List.nil_append]

variable [DecidableEq ι]

theorem UsedBy.resume {after : Notify ι} (h : n.UsedBy task) (hresume : n.resume task = some after) :
    after.Unused := by
  unfold Notify.resume at hresume
  split at hresume
  · rename_i hmem
    cases Option.some.inj hresume
    rcases h with ⟨-, hwoken⟩ | ⟨hwaiting, hwoken⟩
    · rw [hwoken] at hmem
      exact absurd hmem List.not_mem_nil
    · exact ⟨hwaiting, by simp [hwoken]⟩
  · contradiction

theorem UsedBy.drop (h : n.UsedBy task) : (n.drop task).Unused := by
  unfold Notify.drop
  split
  · rename_i hmem
    apply Unused.notifyOne
    rcases h with ⟨-, hwoken⟩ | ⟨hwaiting, hwoken⟩
    · rw [hwoken] at hmem
      exact absurd hmem List.not_mem_nil
    · exact ⟨hwaiting, by simp [hwoken]⟩
  · rename_i hmem
    rcases h with ⟨hwaiting, hwoken⟩ | ⟨-, hwoken⟩
    · exact ⟨by simp [hwaiting], hwoken⟩
    · rw [hwoken] at hmem
      exact absurd (List.mem_singleton.mpr rfl) hmem

end Notify

end SjmbSlack
