import SjmbSlack.Limits.ExpiringCache

/-! An `ExpiringCache` over a whole sequence of operations, and the plain map with
expiry that it refines: what is found is the last insertion of its key, until it
expires or makes room for a new key. -/
namespace SjmbSlack.Limits.ExpiringCache

variable {κ ν : Type*} [DecidableEq κ]

/-- A call of `insert`, with the iteration over the map that it meets. -/
structure Insertion (κ ν : Type*) where
  key : κ
  value : ν
  now : Nat
  ttl : Nat
  iteration : Iteration (Entry κ ν)

namespace Insertion

def expires (insertion : Insertion κ ν) : Nat := insertion.now + insertion.ttl

def entry (insertion : Insertion κ ν) : Entry κ ν :=
  ⟨insertion.key, insertion.expires, insertion.value⟩

def apply (insertion : Insertion κ ν) (cache : ExpiringCache κ ν) : ExpiringCache κ ν :=
  cache.insert insertion.iteration insertion.key insertion.value insertion.now insertion.ttl

end Insertion

inductive Operation (κ ν : Type*) where
  | get (key : κ) (now : Nat)
  | insert (insertion : Insertion κ ν)

def Operation.now : Operation κ ν → Nat
  | .get _ now => now
  | .insert insertion => insertion.now

def after (capacity : Nat) (h : 0 < capacity) : List (Operation κ ν) → ExpiringCache κ ν
  | [] => new capacity h
  | .get key now :: history => (get (after capacity h history) key now).2
  | .insert insertion :: history => insertion.apply (after capacity h history)

/-- The last insertion of a key: the map that a cache without a bound would hold. -/
def lastInsertion (key : κ) : List (Operation κ ν) → Option (Insertion κ ν)
  | [] => none
  | .get _ _ :: history => lastInsertion key history
  | .insert insertion :: history =>
      if insertion.key = key then some insertion else lastInsertion key history

def Timed (history : List (Operation κ ν)) : Prop :=
  history.Pairwise fun newer older => older.now ≤ newer.now

/-- The last insertion of a key made room for a new key in a full cache that held no
entry expiring earlier. -/
def Evicted (capacity : Nat) (h : 0 < capacity) (history : List (Operation κ ν))
    (insertion : Insertion κ ν) : Prop :=
  ∃ later evicting earlier, history = later ++ .insert evicting :: earlier ∧
    lastInsertion insertion.key earlier = some insertion ∧
    (after capacity h earlier).find evicting.key = none ∧
    (after capacity h earlier).entries.length = capacity ∧
    insertion.entry ∈ (after capacity h earlier).entries ∧
    insertion.entry ∉ (evicting.apply (after capacity h earlier)).entries ∧
    ∀ other ∈ (after capacity h earlier).entries, insertion.expires ≤ other.expires

section

variable {capacity : Nat} {h : 0 < capacity} {history : List (Operation κ ν)}

@[simp] theorem after_capacity : (after capacity h history).capacity = capacity := by
  induction history with
  | nil => rfl
  | cons operation history ih =>
      cases operation with
      | get key now => exact (get_capacity _ key now).trans ih
      | insert insertion => exact ih

omit [DecidableEq κ] in
theorem Timed.of_cons {operation : Operation κ ν} (htimed : Timed (operation :: history)) :
    Timed history :=
  (List.pairwise_cons.mp htimed).2

theorem mem_get {cache : ExpiringCache κ ν} {key : κ} {now : Nat} {entry : Entry κ ν}
    (hmem : entry ∈ (cache.get key now).2.entries) : entry ∈ cache.entries := by
  cases hget : cache.get key now with
  | mk found rest =>
      rw [hget] at hmem
      cases found with
      | some value => exact (get_some hget).1 ▸ hmem
      | none =>
          rw [(get_none hget).1] at hmem
          exact (mem_remove.mp hmem).1

theorem lost_to_get {cache : ExpiringCache κ ν} {key : κ} {now : Nat} {entry : Entry κ ν}
    (hmem : entry ∈ cache.entries) (hlost : entry ∉ (cache.get key now).2.entries) :
    entry.expires ≤ now := by
  cases hget : cache.get key now with
  | mk found rest =>
      rw [hget] at hlost
      cases found with
      | some value =>
          rw [(get_some hget).1] at hlost
          exact absurd hmem hlost
      | none =>
          obtain ⟨rfl, hdead⟩ := get_none hget
          by_contra hlive
          refine hlost (mem_remove.mpr ⟨hmem, fun hkey => hlive ?_⟩)
          exact hdead entry hmem hkey

theorem stored_last {entry : Entry κ ν} (hmem : entry ∈ (after capacity h history).entries) :
    ∃ insertion, lastInsertion entry.key history = some insertion ∧ entry = insertion.entry := by
  induction history with
  | nil => exact absurd hmem List.not_mem_nil
  | cons operation history ih =>
      cases operation with
      | get key now => exact ih (mem_get hmem)
      | insert insertion =>
          rcases mem_insert.mp hmem with rfl | ⟨hroom, hkey⟩
          · exact ⟨insertion, if_pos rfl, rfl⟩
          · rw [lastInsertion, if_neg (Ne.symm hkey)]
            exact ih ((room_sublist _ _ _).subset hroom)

theorem Evicted.cons {insertion : Insertion κ ν} (operation : Operation κ ν)
    (hevicted : Evicted capacity h history insertion) :
    Evicted capacity h (operation :: history) insertion := by
  obtain ⟨later, evicting, earlier, rfl, hrest⟩ := hevicted
  exact ⟨operation :: later, evicting, earlier, rfl, hrest⟩

theorem lastInsertion_key {key : κ} {insertion : Insertion κ ν}
    (hlast : lastInsertion key history = some insertion) : insertion.key = key := by
  induction history with
  | nil => contradiction
  | cons operation history ih =>
      cases operation with
      | get other now => exact ih hlast
      | insert other =>
          unfold lastInsertion at hlast
          split at hlast
          · cases Option.some.inj hlast
            assumption
          · exact ih hlast

theorem stored_or_evicted {key : κ} {now : Nat} {insertion : Insertion κ ν} (htimed : Timed history)
    (hnow : ∀ operation ∈ history, operation.now ≤ now)
    (hlast : lastInsertion key history = some insertion) (hlive : now < insertion.expires) :
    insertion.entry ∈ (after capacity h history).entries ∨ Evicted capacity h history insertion := by
  induction history with
  | nil => contradiction
  | cons operation history ih =>
      have hpast := fun other hother => hnow other (List.mem_cons_of_mem _ hother)
      cases operation with
      | get other time =>
          rcases ih htimed.of_cons hpast hlast with hmem | hevicted
          · refine .inl (by_contra fun hlost => ?_)
            have hdead := lost_to_get hmem hlost
            have hbefore : time ≤ now := hnow _ List.mem_cons_self
            change insertion.expires ≤ time at hdead
            omega
          · exact .inr (hevicted.cons _)
      | insert other =>
          unfold lastInsertion at hlast
          split at hlast
          · cases Option.some.inj hlast
            exact .inl (mem_insert.mpr (.inl rfl))
          · rename_i hkey
            rcases ih htimed.of_cons hpast hlast with hmem | hevicted
            · have hother : insertion.entry.key ≠ other.key := fun heq =>
                hkey (heq.symm.trans (lastInsertion_key hlast))
              by_cases hroom : insertion.entry ∈ room other.iteration (after capacity h history) other.key
              · exact .inl (mem_insert.mpr (.inr ⟨hroom, hother⟩))
              · obtain ⟨hnew, hfull, holdest⟩ := lost_to_room hmem hroom
                rw [after_capacity] at hfull
                refine .inr ⟨[], other, history, rfl, ?_, hnew, hfull, hmem, fun hstored => ?_, holdest⟩
                · rw [lastInsertion_key hlast]
                  exact hlast
                · rcases mem_insert.mp hstored with heq | ⟨hkept, -⟩
                  · exact hother (congrArg Entry.key heq)
                  · exact hroom hkept
            · exact .inr (hevicted.cons _)

theorem evicted_live {cache : ExpiringCache κ ν} {insertion : Insertion κ ν} {entry : Entry κ ν}
    (hmem : entry ∈ cache.entries) (hkey : entry.key ≠ insertion.key)
    (hlost : entry ∉ (insertion.apply cache).entries) :
    cache.find insertion.key = none ∧ (insertion.now < entry.expires →
      ∀ other ∈ cache.entries, insertion.now < other.expires) := by
  have hroom : entry ∉ room insertion.iteration cache insertion.key := fun hroom =>
    hlost (mem_insert.mpr (.inr ⟨hroom, hkey⟩))
  obtain ⟨hnew, -, holdest⟩ := lost_to_room hmem hroom
  exact ⟨hnew, fun hlive other hother => hlive.trans_le (holdest other hother)⟩

end

/-- The cache refines the map of last insertions with expiry: it stays within its
capacity, finds nothing but the last insertion of a key while it has not expired,
and misses that one only if it made room for a new key when the cache was full and
held nothing that expires earlier. No insertion evicts a live entry while an expired
one is stored, or anything at all for a key that is present. -/
theorem cache_refines (capacity : Nat) (h : 0 < capacity) (history : List (Operation κ ν))
    (htimed : Timed history) :
    (after capacity h history).entries.length ≤ capacity ∧
    (∀ key now, (∀ operation ∈ history, operation.now ≤ now) →
      (∀ value, ((after capacity h history).get key now).1 = some value →
        ∃ insertion, lastInsertion key history = some insertion ∧ insertion.value = value ∧
          now < insertion.now + insertion.ttl) ∧
      ∀ insertion, lastInsertion key history = some insertion →
        now < insertion.now + insertion.ttl →
        ((after capacity h history).get key now).1 = none → Evicted capacity h history insertion) ∧
    ∀ later insertion earlier, history = later ++ .insert insertion :: earlier →
      ∀ entry ∈ (after capacity h earlier).entries, entry.key ≠ insertion.key →
        entry ∉ (insertion.apply (after capacity h earlier)).entries →
        (after capacity h earlier).find insertion.key = none ∧
          (insertion.now < entry.expires →
            ∀ other ∈ (after capacity h earlier).entries, insertion.now < other.expires) := by
  refine ⟨?_, fun key now hnow => ⟨fun value hget => ?_, fun insertion hlast hlive hget => ?_⟩,
    fun later insertion earlier _ entry hmem hkey hlost => evicted_live hmem hkey hlost⟩
  · have hbounded := (after capacity h history).bounded
    rwa [after_capacity] at hbounded
  · unfold get at hget
    split at hget
    · rename_i entry hfind
      obtain ⟨hmem, rfl⟩ := find_eq_some hfind
      split at hget
      · rename_i hlive
        obtain ⟨insertion, hlast, rfl⟩ := stored_last hmem
        exact ⟨insertion, hlast, Option.some.inj hget, hlive⟩
      · contradiction
    · contradiction
  · rcases stored_or_evicted (h := h) htimed hnow hlast hlive with hmem | hevicted
    · have hfound : ((after capacity h history).get key now).1.isSome = true :=
        get_isSome_iff.mpr ⟨_, hmem, lastInsertion_key hlast, hlive⟩
      rw [hget] at hfound
      contradiction
    · exact hevicted

/-- Two keys in a cache for one: the second insertion evicts the first, live, entry. -/
theorem cache_refines_evicting :
    let first : Insertion Nat Nat := ⟨1, 10, 0, 3600, .stored _⟩
    let second : Insertion Nat Nat := ⟨2, 20, 5, 30, .stored _⟩
    ((after 1 (by decide) [.insert second, .insert first]).get 1 6).1 = none ∧
      Evicted 1 (by decide) [.insert second, .insert first] first := by
  intro first second
  have hmiss : ((after 1 (by decide) [.insert second, .insert first]).get 1 6).1 = none := by decide
  refine ⟨hmiss, ?_⟩
  have htimed : Timed [.insert second, .insert first] :=
    List.pairwise_cons.mpr ⟨by simp [Operation.now, first, second], List.pairwise_singleton _ _⟩
  exact ((cache_refines 1 (by decide) _ htimed).2.1 1 6 (by
    simp [Operation.now, first, second])).2 first rfl (by decide) hmiss

end SjmbSlack.Limits.ExpiringCache
