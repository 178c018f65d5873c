import Mathlib.Data.List.Basic

/-! Systems given by a guarded, executable step function. A run is a list of
actions; `ReachableBy` restricts every step of it to those that meet a
condition, so that one invariant rule serves unconditional and conditional
results. -/
namespace SjmbSlack.Machine

structure System (σ α : Type*) where
  start : σ → Prop
  step : σ → α → Option σ

variable {σ α : Type*} {M : System σ α} {meets : σ → α → Prop}

inductive ReachableBy (M : System σ α) (meets : σ → α → Prop) : σ → Prop where
  | start {s : σ} : M.start s → ReachableBy M meets s
  | next {s t : σ} {a : α} : ReachableBy M meets s → meets s a → M.step s a = some t →
      ReachableBy M meets t

abbrev Reachable (M : System σ α) : σ → Prop := ReachableBy M fun _ _ => True

/-- The invariant rule: what a run may assume of a state before a step is that
it is reachable and satisfies the invariant. -/
theorem ReachableBy.invariant {P : σ → Prop} (hstart : ∀ s, M.start s → P s)
    (hstep : ∀ s a t, ReachableBy M meets s → P s → meets s a → M.step s a = some t → P t)
    {s : σ} (h : ReachableBy M meets s) : P s := by
  induction h with
  | start hs => exact hstart _ hs
  | next hr hm hs ih => exact hstep _ _ _ hr ih hm hs

theorem ReachableBy.mono {weaker : σ → α → Prop} (himp : ∀ s a, meets s a → weaker s a)
    {s : σ} (h : ReachableBy M meets s) : ReachableBy M weaker s := by
  induction h with
  | start hs => exact .start hs
  | next _ hm hs ih => exact .next ih (himp _ _ hm) hs

theorem ReachableBy.reachable {s : σ} (h : ReachableBy M meets s) : Reachable M s :=
  h.mono fun _ _ _ => trivial

/-- Execute the actions in order; `none` when one of them is not possible. -/
def exec (M : System σ α) : σ → List α → Option σ
  | s, [] => some s
  | s, a :: as => (M.step s a).bind fun t => exec M t as

@[simp] theorem exec_nil (s : σ) : exec M s [] = some s := rfl

theorem exec_cons (s : σ) (a : α) (as : List α) :
    exec M s (a :: as) = (M.step s a).bind fun t => exec M t as := rfl

theorem reachable_exec {s t : σ} {as : List α} (hs : Reachable M s)
    (h : exec M s as = some t) : Reachable M t := by
  induction as generalizing s with
  | nil => cases Option.some.inj h; exact hs
  | cons a as ih =>
      obtain ⟨u, hu, hrest⟩ := Option.bind_eq_some_iff.mp h
      exact ih (.next hs trivial hu) hrest

def execBy (M : System σ α) (meets : σ → α → Prop) [∀ s a, Decidable (meets s a)] :
    σ → List α → Option σ
  | s, [] => some s
  | s, a :: as =>
      if meets s a then (M.step s a).bind fun t => execBy M meets t as else none

theorem reachableBy_execBy [∀ s a, Decidable (meets s a)] {s t : σ} {as : List α}
    (hs : ReachableBy M meets s) (h : execBy M meets s as = some t) :
    ReachableBy M meets t := by
  induction as generalizing s with
  | nil => cases Option.some.inj h; exact hs
  | cons a as ih =>
      unfold execBy at h
      split at h
      · rename_i hm
        obtain ⟨u, hu, hrest⟩ := Option.bind_eq_some_iff.mp h
        exact ih (.next hs hm hu) hrest
      · contradiction

/-- A concrete run is checked by evaluation: its last state is reachable. -/
theorem exists_reachable {s : σ} (as : List α) {P : σ → Prop} [DecidablePred P]
    (hs : M.start s) (h : (exec M s as).any (fun t => decide (P t)) = true) :
    ∃ t, Reachable M t ∧ P t := by
  cases hx : exec M s as with
  | none => simp [hx] at h
  | some t =>
      simp only [hx, Option.any_some, decide_eq_true_eq] at h
      exact ⟨t, reachable_exec (.start hs) hx, h⟩

theorem exists_reachableBy [∀ s a, Decidable (meets s a)] {s : σ} (as : List α)
    {P : σ → Prop} [DecidablePred P] (hs : M.start s)
    (h : (execBy M meets s as).any (fun t => decide (P t)) = true) :
    ∃ t, ReachableBy M meets t ∧ P t := by
  cases hx : execBy M meets s as with
  | none => simp [hx] at h
  | some t =>
      simp only [hx, Option.any_some, decide_eq_true_eq] at h
      exact ⟨t, reachableBy_execBy (.start hs) hx, h⟩

end SjmbSlack.Machine
