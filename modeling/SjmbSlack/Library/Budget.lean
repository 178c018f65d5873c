import Mathlib.Algebra.Ring.Nat
import Mathlib.Data.List.Infix

/-! Beginnings of a list that fit a budget. The longest one is characterized by
the beginnings it has, so that budgets compose by their minimum. -/
namespace SjmbSlack.Budget

variable {α β : Type*}

def cost (weight : α → Nat) (items : List α) : Nat := (items.map weight).sum

def takeWithin (weight : α → Nat) : Nat → List α → List α
  | _, [] => []
  | budget, item :: rest =>
      if weight item ≤ budget then item :: takeWithin weight (budget - weight item) rest else []

@[simp] theorem cost_nil (weight : α → Nat) : cost weight [] = 0 := rfl

@[simp] theorem cost_cons (weight : α → Nat) (item : α) (rest : List α) :
    cost weight (item :: rest) = weight item + cost weight rest := by
  simp [cost]

theorem cost_map (weight : β → Nat) (change : α → β) (items : List α) :
    cost weight (items.map change) = cost (fun item => weight (change item)) items := by
  simp [cost, Function.comp_def]

theorem prefix_takeWithin_iff (weight : α → Nat) (budget : Nat) (start items : List α) :
    start <+: takeWithin weight budget items ↔ start <+: items ∧ cost weight start ≤ budget := by
  induction items generalizing budget start with
  | nil =>
      rw [takeWithin, List.prefix_nil]
      constructor
      · intro h
        subst h
        exact ⟨rfl, Nat.zero_le _⟩
      · exact And.left
  | cons item rest ih =>
      cases start with
      | nil => simp
      | cons first tail =>
          unfold takeWithin
          split
          · rw [List.cons_prefix_cons, List.cons_prefix_cons, ih, cost_cons]
            constructor
            · rintro ⟨rfl, hbegins, hcost⟩
              exact ⟨⟨rfl, hbegins⟩, by omega⟩
            · rintro ⟨⟨rfl, hbegins⟩, hcost⟩
              exact ⟨rfl, hbegins, by omega⟩
          · rw [List.cons_prefix_cons, cost_cons, List.prefix_nil]
            constructor
            · intro h
              cases h
            · rintro ⟨⟨rfl, -⟩, hcost⟩
              omega

theorem takeWithin_prefix (weight : α → Nat) (budget : Nat) (items : List α) :
    takeWithin weight budget items <+: items :=
  ((prefix_takeWithin_iff weight budget _ items).mp List.prefix_rfl).1

theorem cost_takeWithin_le (weight : α → Nat) (budget : Nat) (items : List α) :
    cost weight (takeWithin weight budget items) ≤ budget :=
  ((prefix_takeWithin_iff weight budget _ items).mp List.prefix_rfl).2

theorem eq_of_prefix_iff {left right : List α} (h : ∀ start, start <+: left ↔ start <+: right) :
    left = right := by
  have hle := ((h left).mp List.prefix_rfl).length_le
  have hge := ((h right).mpr List.prefix_rfl).length_le
  exact ((h left).mp List.prefix_rfl).eq_of_length (by omega)

theorem takeWithin_takeWithin (weight : α → Nat) (budget again : Nat) (items : List α) :
    takeWithin weight again (takeWithin weight budget items) =
      takeWithin weight (min budget again) items := by
  apply eq_of_prefix_iff
  intro start
  rw [prefix_takeWithin_iff, prefix_takeWithin_iff, prefix_takeWithin_iff, and_assoc, Nat.le_min]

theorem takeWithin_map (weight : β → Nat) (change : α → β) (budget : Nat) (items : List α) :
    takeWithin weight budget (items.map change) =
      (takeWithin (fun item => weight (change item)) budget items).map change := by
  induction items generalizing budget with
  | nil => rfl
  | cons item rest ih =>
      rw [List.map_cons]
      unfold takeWithin
      split
      · rw [ih, List.map_cons]
      · rfl

end SjmbSlack.Budget
