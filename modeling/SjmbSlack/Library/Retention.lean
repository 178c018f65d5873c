import Mathlib.Data.List.Basic

/-! A log that forgets: entries go when they fail a test, and the oldest go where
there are too many. What is kept is compared with everything that was logged. -/
namespace SjmbSlack.Retention

variable {α : Type*}

def trim (capacity : Nat) (log : List α) : List α := log.drop (log.length - capacity)

theorem length_trim (capacity : Nat) (log : List α) :
    (trim capacity log).length = min capacity log.length := by
  rw [trim, List.length_drop]
  omega

theorem trim_eq_self {capacity : Nat} {log : List α} (h : log.length ≤ capacity) :
    trim capacity log = log := by
  rw [trim, Nat.sub_eq_zero_of_le h, List.drop_zero]

theorem trim_trim (capacity : Nat) (log : List α) :
    trim capacity (trim capacity log) = trim capacity log := by
  apply trim_eq_self
  rw [length_trim]
  omega

theorem suffix_trim_iff (capacity : Nat) (ending log : List α) :
    ending <:+ trim capacity log ↔ ending <:+ log ∧ ending.length ≤ capacity := by
  constructor
  · intro h
    have hlength := h.length_le
    rw [length_trim] at hlength
    exact ⟨h.trans (List.drop_suffix _ _), by omega⟩
  · rintro ⟨hsuffix, hlength⟩
    apply List.suffix_of_suffix_length_le hsuffix (List.drop_suffix _ _)
    have hle := hsuffix.length_le
    rw [List.length_drop]
    omega

theorem filter_trim (capacity : Nat) {keep : α → Bool} {log : List α}
    (h : log.Pairwise fun older newer => keep older = true → keep newer = true) :
    (trim capacity log).filter keep = trim capacity (log.filter keep) := by
  induction log with
  | nil => simp [trim]
  | cons entry rest ih =>
      obtain ⟨hentry, hrest⟩ := List.pairwise_cons.mp h
      rcases Nat.lt_or_ge rest.length capacity with hroom | hfull
      · have hfilter := List.length_filter_le keep (entry :: rest)
        rw [List.length_cons] at hfilter
        rw [trim_eq_self (by exact hroom), trim_eq_self (by omega)]
      · have hdrop : trim capacity (entry :: rest) = trim capacity rest := by
          rw [trim, trim, List.length_cons, Nat.succ_sub hfull, List.drop_succ_cons]
        rw [hdrop, ih hrest]
        cases hkeep : keep entry with
        | true =>
            have hall : rest.filter keep = rest :=
              List.filter_eq_self.mpr fun newer hmem => hentry newer hmem hkeep
            rw [List.filter_cons_of_pos hkeep, hall, hdrop]
        | false => rw [List.filter_cons_of_neg (by simp [hkeep])]

/-- The entries kept of a log: those that pass the test, without the oldest of the
log if at least as many as the capacity came after them. -/
def Retained (capacity : Nat) (keep : α → Bool) (log kept : List α) : Prop :=
  ∃ dropped ≤ log.length, kept = (log.drop dropped).filter keep ∧
    (dropped = 0 ∨ dropped + capacity ≤ log.length)

theorem exists_drop_filter (keep : α → Bool) (log : List α) (count : Nat)
    (h : count ≤ (log.filter keep).length) :
    ∃ dropped ≤ log.length, (log.drop dropped).filter keep = (log.filter keep).drop count := by
  induction log generalizing count with
  | nil => exact ⟨0, Nat.le_refl _, by simp⟩
  | cons entry rest ih =>
      cases count with
      | zero => exact ⟨0, Nat.zero_le _, rfl⟩
      | succ count =>
          cases hkeep : keep entry with
          | true =>
              rw [List.filter_cons_of_pos hkeep, List.length_cons] at h
              obtain ⟨dropped, hle, heq⟩ := ih count (Nat.le_of_succ_le_succ h)
              refine ⟨dropped + 1, Nat.succ_le_succ hle, ?_⟩
              rw [List.drop_succ_cons, heq, List.filter_cons_of_pos hkeep, List.drop_succ_cons]
          | false =>
              have hnot : ¬ keep entry = true := by simp [hkeep]
              rw [List.filter_cons_of_neg hnot] at h ⊢
              obtain ⟨dropped, hle, heq⟩ := ih (count + 1) h
              exact ⟨dropped + 1, Nat.succ_le_succ hle, by rw [List.drop_succ_cons, heq]⟩

namespace Retained

variable {capacity : Nat} {keep : α → Bool} {log kept : List α}

theorem nil : Retained capacity keep [] [] := ⟨0, Nat.le_refl _, rfl, .inl rfl⟩

theorem push (h : Retained capacity keep log kept) {entry : α} (hentry : keep entry = true) :
    Retained capacity keep (log ++ [entry]) (kept ++ [entry]) := by
  obtain ⟨dropped, hle, rfl, hdropped⟩ := h
  refine ⟨dropped, ?_, ?_, hdropped.imp_right fun h => ?_⟩
  · rw [List.length_append]
    omega
  · rw [List.drop_append_of_le_length hle, List.filter_append, List.filter_cons_of_pos hentry,
      List.filter_nil]
  · rw [List.length_append]
    omega

theorem filter (h : Retained capacity keep log kept) (also : α → Bool) :
    Retained capacity (fun entry => also entry && keep entry) log (kept.filter also) := by
  obtain ⟨dropped, hle, rfl, hdropped⟩ := h
  exact ⟨dropped, hle, List.filter_filter, hdropped⟩

theorem trim (h : Retained capacity keep log kept) :
    Retained capacity keep log (trim capacity kept) := by
  obtain ⟨dropped, hle, rfl, hdropped⟩ := h
  unfold Retention.trim
  cases hexcess : ((log.drop dropped).filter keep).length - capacity with
  | zero => exact ⟨dropped, hle, rfl, hdropped⟩
  | succ excess =>
      obtain ⟨more, hmore, heq⟩ := exists_drop_filter keep (log.drop dropped) (excess + 1)
        (by omega)
      have hlength := congrArg List.length heq
      have hfilter := List.length_filter_le keep ((log.drop dropped).drop more)
      rw [List.length_drop] at hmore hlength
      rw [List.length_drop, List.length_drop] at hfilter
      refine ⟨dropped + more, by omega, ?_, .inr (by omega)⟩
      rw [← heq, List.drop_drop]

theorem mem (h : Retained capacity keep log kept) {older newer : List α} {entry : α}
    (hlog : log = older ++ entry :: newer) (hentry : keep entry = true)
    (hnewer : newer.length < capacity) : entry ∈ kept := by
  obtain ⟨dropped, hle, rfl, hdropped⟩ := h
  have hlength := congrArg List.length hlog
  rw [List.length_append, List.length_cons] at hlength
  have holder : dropped ≤ older.length := by omega
  rw [hlog, List.drop_append_of_le_length holder]
  exact List.mem_filter.mpr ⟨List.mem_append_right _ List.mem_cons_self, hentry⟩

theorem mem_iff (h : Retained capacity keep log kept) (hlog : log.length ≤ capacity) {entry : α} :
    entry ∈ kept ↔ entry ∈ log ∧ keep entry = true := by
  obtain ⟨dropped, hle, rfl, hdropped⟩ := h
  have hzero : (log.drop dropped).filter keep = log.filter keep := by
    rcases hdropped with rfl | hdropped
    · rw [List.drop_zero]
    · rw [show dropped = 0 by omega, List.drop_zero]
  rw [hzero, List.mem_filter]

theorem subset (h : Retained capacity keep log kept) {entry : α} (hentry : entry ∈ kept) :
    entry ∈ log ∧ keep entry = true := by
  obtain ⟨dropped, -, rfl, -⟩ := h
  obtain ⟨hmem, hkeep⟩ := List.mem_filter.mp hentry
  exact ⟨List.mem_of_mem_drop hmem, hkeep⟩

end Retained

end SjmbSlack.Retention
