import Mathlib.Data.Finset.Sort

/-! The greatest members of a finite set, as many as a capacity allows: a member
stays when fewer than that many are greater. Tests that only the greater members
pass commute with it, and dropping the head of a sorted list computes it. -/
namespace SjmbSlack.Newest

variable {α κ : Type*}

theorem mem_drop_iff {items : List α} {key : α → κ} (h : (items.map key).Nodup) {count : Nat}
    {item : α} : item ∈ items.drop count ↔
      item ∈ items ∧ ∀ gone ∈ items.take count, key item ≠ key gone := by
  have hsplit := List.take_append_drop count items
  rw [← hsplit, List.map_append, List.nodup_append] at h
  constructor
  · intro hmem
    refine ⟨List.mem_of_mem_drop hmem, ?_⟩
    intro gone hgone heq
    exact h.2.2 _ (List.mem_map_of_mem hgone) _ (List.mem_map_of_mem hmem) heq.symm
  · rintro ⟨hmem, hkey⟩
    rw [← hsplit, List.mem_append] at hmem
    rcases hmem with hgone | hdrop
    · exact absurd rfl (hkey item hgone)
    · exact hdrop

variable [LinearOrder α]

def newest (capacity : Nat) (s : Finset α) : Finset α :=
  s.filter fun a => (s.filter fun b => a < b).card < capacity

theorem newest_subset (capacity : Nat) (s : Finset α) : newest capacity s ⊆ s :=
  Finset.filter_subset _ s

theorem card_filter_lt {s : Finset α} {a : α} (h : a ∈ s) :
    (s.filter fun b => a < b).card < s.card := by
  apply Finset.card_lt_card
  rw [Finset.filter_ssubset]
  exact ⟨a, h, lt_irrefl a⟩

theorem newest_eq_self {capacity : Nat} {s : Finset α} (h : s.card ≤ capacity) :
    newest capacity s = s := by
  apply Finset.filter_true_of_mem
  intro a ha
  exact (card_filter_lt ha).trans_le h

theorem mem_newest_of_le {capacity : Nat} {s : Finset α} {a b : α} (ha : a ∈ newest capacity s)
    (hb : b ∈ s) (hab : a ≤ b) : b ∈ newest capacity s := by
  rw [newest, Finset.mem_filter] at ha ⊢
  refine ⟨hb, lt_of_le_of_lt (Finset.card_le_card ?_) ha.2⟩
  apply Finset.monotone_filter_right
  intro c _ hc
  exact hab.trans_lt hc

theorem filter_newest {capacity : Nat} {s : Finset α} (keep : α → Prop) [DecidablePred keep]
    (h : ∀ a b, a ≤ b → keep a → keep b) :
    (newest capacity s).filter keep = newest capacity (s.filter keep) := by
  have hgreater : ∀ a, keep a →
      ((s.filter keep).filter fun b => a < b) = s.filter fun b => a < b := by
    intro a ha
    rw [Finset.filter_filter]
    apply Finset.filter_congr
    intro b _
    exact ⟨And.right, fun hab => ⟨h a b hab.le ha, hab⟩⟩
  ext a
  simp only [newest, Finset.mem_filter]
  constructor
  · rintro ⟨⟨hmem, hcard⟩, hkeep⟩
    rw [hgreater a hkeep]
    exact ⟨⟨hmem, hkeep⟩, hcard⟩
  · rintro ⟨⟨hmem, hkeep⟩, hcard⟩
    rw [hgreater a hkeep] at hcard
    exact ⟨⟨hmem, hcard⟩, hkeep⟩

theorem pairwise_lt_mergeSort {items : List α} (h : items.Nodup) :
    (items.mergeSort fun a b => decide (a ≤ b)).Pairwise (· < ·) := by
  have hsorted : (items.mergeSort fun a b => decide (a ≤ b)).Pairwise (· ≤ ·) := by
    simpa using @List.pairwise_mergeSort α (fun a b => decide (a ≤ b))
      (fun a b c hab hbc => by simpa using le_trans (of_decide_eq_true hab) (of_decide_eq_true hbc))
      (fun a b => by simpa using le_total a b) items
  have hnodup := (List.mergeSort_perm items fun a b => decide (a ≤ b)).nodup_iff.mpr h
  exact hsorted.imp₂ (fun a b hab hne => lt_of_le_of_ne hab hne) hnodup

theorem toFinset_drop [DecidableEq α] {capacity : Nat} {sorted : List α} (h : sorted.Pairwise (· < ·)) :
    (sorted.drop (sorted.length - capacity)).toFinset = newest capacity sorted.toFinset := by
  induction sorted with
  | nil =>
      rw [List.drop_nil]
      exact (newest_eq_self (Nat.zero_le capacity)).symm
  | cons first rest ih =>
      obtain ⟨hfirst, hrest⟩ := List.pairwise_cons.mp h
      have hcard : rest.toFinset.card = rest.length :=
        List.toFinset_card_of_nodup (hrest.imp ne_of_lt)
      rcases Nat.lt_or_ge rest.length capacity with hroom | hfull
      · rw [Nat.sub_eq_zero_of_le (by exact hroom), List.drop_zero, newest_eq_self]
        rw [List.toFinset_card_of_nodup (h.imp ne_of_lt)]
        exact hroom
      · have hlength : (first :: rest).length - capacity = rest.length - capacity + 1 := by
          rw [List.length_cons]
          omega
        have hall : ((insert first rest.toFinset).filter fun b => first < b) = rest.toFinset := by
          rw [Finset.filter_insert, if_neg (lt_irrefl first)]
          apply Finset.filter_true_of_mem
          intro b hb
          exact hfirst b (List.mem_toFinset.mp hb)
        have hsame : ∀ a ∈ rest.toFinset, ((insert first rest.toFinset).filter fun b => a < b) =
            rest.toFinset.filter fun b => a < b := by
          intro a ha
          rw [Finset.filter_insert, if_neg (hfirst a (List.mem_toFinset.mp ha)).le.not_gt]
        rw [hlength, List.drop_succ_cons, ih hrest, List.toFinset_cons, newest, newest,
          Finset.filter_insert, hall, if_neg (by omega)]
        apply Finset.filter_congr
        intro a ha
        rw [hsame a ha]

theorem card_newest (capacity : Nat) (s : Finset α) :
    (newest capacity s).card = min capacity s.card := by
  have hsorted : s.sort.Pairwise (· < ·) := s.sortedLT_sort.pairwise
  have hdrop : (s.sort.drop (s.sort.length - capacity)).toFinset = newest capacity s := by
    rw [toFinset_drop hsorted, Finset.sort_toFinset]
  rw [← hdrop, List.toFinset_card_of_nodup ((hsorted.imp ne_of_lt).sublist (List.drop_sublist _ _)),
    List.length_drop, Finset.length_sort]
  omega

theorem newest_newest (capacity : Nat) (s : Finset α) :
    newest capacity (newest capacity s) = newest capacity s := by
  apply newest_eq_self
  rw [card_newest]
  exact Nat.min_le_left _ _

end SjmbSlack.Newest
