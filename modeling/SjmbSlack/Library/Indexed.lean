import Mathlib.Data.List.Basic

/-! A property of the items of a list that may depend on where they stand, and how it
goes over to a list made from it. -/
namespace SjmbSlack

variable {α β : Type*} {P : Nat → α → Prop} {items : List α}

def EachAt (P : Nat → α → Prop) (items : List α) : Prop :=
  ∀ index item, items[index]? = some item → P index item

namespace EachAt

theorem nil : EachAt P [] := fun _ _ h => (nomatch h)

theorem mono {Q : Nat → α → Prop} (h : EachAt P items) (himp : ∀ index item, P index item → Q index item) :
    EachAt Q items := fun index item hitem => himp index item (h index item hitem)

theorem mem {Q : α → Prop} (h : EachAt (fun _ => Q) items) : ∀ item ∈ items, Q item := by
  intro item hmem
  obtain ⟨index, hindex⟩ := List.getElem?_of_mem hmem
  exact h index item hindex

theorem mapIdx {Q : Nat → β → Prop} {f : Nat → α → β} (h : EachAt P items)
    (himp : ∀ index item, P index item → Q index (f index item)) : EachAt Q (items.mapIdx f) := by
  intro index item hitem
  rw [List.getElem?_mapIdx] at hitem
  obtain ⟨before, hbefore, rfl⟩ := Option.map_eq_some_iff.mp hitem
  exact himp index before (h index before hbefore)

theorem map {Q : Nat → β → Prop} {f : α → β} (h : EachAt P items)
    (himp : ∀ index item, P index item → Q index (f item)) : EachAt Q (items.map f) := by
  intro index item hitem
  rw [List.getElem?_map] at hitem
  obtain ⟨before, hbefore, rfl⟩ := Option.map_eq_some_iff.mp hitem
  exact himp index before (h index before hbefore)

theorem push {item : α} (h : EachAt P items) (hitem : P items.length item) : EachAt P (items ++ [item]) := by
  intro index other hother
  rcases Nat.lt_trichotomy index items.length with hlt | rfl | hgt
  · rw [List.getElem?_append_left hlt] at hother
    exact h index other hother
  · rw [List.getElem?_concat_length] at hother
    cases Option.some.inj hother
    exact hitem
  · rw [List.getElem?_eq_none (by simpa using Nat.succ_le_of_lt hgt)] at hother
    cases hother

theorem set {Q : Nat → α → Prop} {index : Nat} {item : α} (h : EachAt P items)
    (hothers : ∀ other before, other ≠ index → P other before → Q other before) (hitem : Q index item) :
    EachAt Q (items.set index item) := by
  intro other after hafter
  rw [List.getElem?_set] at hafter
  split at hafter
  · rename_i hsame
    subst hsame
    split at hafter
    · cases Option.some.inj hafter
      exact hitem
    · cases hafter
  · rename_i hne
    exact hothers other after (Ne.symm hne) (h other after hafter)

end EachAt

theorem map_set_same {f : α → β} {index : Nat} {before after : α} (hbefore : items[index]? = some before)
    (hsame : f after = f before) : (items.set index after).map f = items.map f := by
  apply List.ext_getElem?
  intro other
  rw [List.getElem?_map, List.getElem?_map]
  by_cases hother : other = index
  · subst hother
    rw [List.getElem?_set_self (List.getElem?_eq_some_iff.mp hbefore).1, hbefore]
    exact congrArg some hsame
  · rw [List.getElem?_set_ne (Ne.symm hother)]

end SjmbSlack
