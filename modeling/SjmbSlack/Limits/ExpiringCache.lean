import Mathlib.Data.List.MinMax
import Mathlib.Data.List.Nodup
import Mathlib.Data.List.Perm.Basic

/-! `ExpiringCache`: a bounded map whose entries expire a fixed time after their
insertion. The order in which a hash map is iterated is not specified, so each
insertion takes the order it meets. -/
namespace SjmbSlack.Limits

structure Entry (κ ν : Type*) where
  key : κ
  expires : Nat
  value : ν
  deriving DecidableEq

/-- The order of one iteration over a hash map. -/
structure Iteration (α : Type*) where
  visit : List α → List α
  perm : ∀ items, (visit items).Perm items

def Iteration.stored (α : Type*) : Iteration α := ⟨id, fun _ => .refl _⟩

structure ExpiringCache (κ ν : Type*) where
  entries : List (Entry κ ν)
  capacity : Nat
  positive : 0 < capacity
  distinct : (entries.map Entry.key).Nodup
  bounded : entries.length ≤ capacity

namespace ExpiringCache

variable {κ ν : Type*} [DecidableEq κ]

omit [DecidableEq κ] in
@[ext] theorem ext {left right : ExpiringCache κ ν} (hentries : left.entries = right.entries)
    (hcapacity : left.capacity = right.capacity) : left = right := by
  cases left
  cases right
  cases hentries
  cases hcapacity
  rfl

def new (capacity : Nat) (h : 0 < capacity) : ExpiringCache κ ν :=
  ⟨[], capacity, h, .nil, Nat.zero_le _⟩

def without (entries : List (Entry κ ν)) (key : κ) : List (Entry κ ν) :=
  entries.filter fun entry => entry.key ≠ key

theorem without_nodup {entries : List (Entry κ ν)} (h : (entries.map Entry.key).Nodup) (key : κ) :
    ((without entries key).map Entry.key).Nodup :=
  h.sublist (List.filter_sublist.map _)

@[simp] theorem mem_without {entries : List (Entry κ ν)} {key : κ} {entry : Entry κ ν} :
    entry ∈ without entries key ↔ entry ∈ entries ∧ entry.key ≠ key := by
  simp [without]

theorem length_without_lt {entries : List (Entry κ ν)} {entry : Entry κ ν} (h : entry ∈ entries) :
    (without entries entry.key).length < entries.length := by
  refine Nat.lt_of_le_of_ne (List.length_filter_le _ _) fun heq => ?_
  have := List.length_filter_eq_length_iff.mp heq entry h
  simp at this

def remove (cache : ExpiringCache κ ν) (key : κ) : ExpiringCache κ ν :=
  ⟨without cache.entries key, cache.capacity, cache.positive, without_nodup cache.distinct key,
    (List.length_filter_le _ _).trans cache.bounded⟩

def find (cache : ExpiringCache κ ν) (key : κ) : Option (Entry κ ν) :=
  cache.entries.find? fun entry => entry.key = key

def get (cache : ExpiringCache κ ν) (key : κ) (now : Nat) : Option ν × ExpiringCache κ ν :=
  match cache.find key with
  | some entry =>
      if entry.expires > now then (some entry.value, cache) else (none, cache.remove key)
  | none => (none, cache.remove key)

/-- `min_by_key` over one iteration: the first of the entries that expire soonest. -/
def oldest (iteration : Iteration (Entry κ ν)) (cache : ExpiringCache κ ν) :
    Option (Entry κ ν) :=
  (iteration.visit cache.entries).argmin Entry.expires

def room (iteration : Iteration (Entry κ ν)) (cache : ExpiringCache κ ν) (key : κ) :
    List (Entry κ ν) :=
  if (cache.find key).isNone ∧ cache.entries.length = cache.capacity then
    match oldest iteration cache with
    | some entry => without cache.entries entry.key
    | none => cache.entries
  else cache.entries

omit [DecidableEq κ] in
theorem oldest_mem {iteration : Iteration (Entry κ ν)} {cache : ExpiringCache κ ν}
    {entry : Entry κ ν} (h : oldest iteration cache = some entry) : entry ∈ cache.entries :=
  (iteration.perm _).mem_iff.mp (List.argmin_mem h)

omit [DecidableEq κ] in
theorem oldest_le {iteration : Iteration (Entry κ ν)} {cache : ExpiringCache κ ν}
    {entry other : Entry κ ν} (h : oldest iteration cache = some entry)
    (hother : other ∈ cache.entries) : entry.expires ≤ other.expires :=
  List.le_of_mem_argmin ((iteration.perm _).mem_iff.mpr hother) h

omit [DecidableEq κ] in
theorem oldest_isSome (iteration : Iteration (Entry κ ν)) {cache : ExpiringCache κ ν}
    (h : cache.entries ≠ []) : ∃ entry, oldest iteration cache = some entry := by
  refine Option.ne_none_iff_exists'.mp fun hnone => h ?_
  have hnil := List.argmin_eq_none.mp hnone
  exact ((iteration.perm cache.entries).symm.trans (hnil ▸ .refl _)).eq_nil

theorem find_eq_some {cache : ExpiringCache κ ν} {key : κ} {entry : Entry κ ν}
    (h : cache.find key = some entry) : entry ∈ cache.entries ∧ entry.key = key :=
  ⟨List.mem_of_find?_eq_some h, by simpa using List.find?_some h⟩

theorem find_eq_none {cache : ExpiringCache κ ν} {key : κ} (h : cache.find key = none)
    {entry : Entry κ ν} (hmem : entry ∈ cache.entries) : entry.key ≠ key := by
  simpa using List.find?_eq_none.mp h entry hmem

omit [DecidableEq κ] in
theorem eq_of_key_eq {cache : ExpiringCache κ ν} {left right : Entry κ ν}
    (hleft : left ∈ cache.entries) (hright : right ∈ cache.entries)
    (hkey : left.key = right.key) : left = right :=
  List.inj_on_of_nodup_map cache.distinct hleft hright hkey

theorem find_of_mem {cache : ExpiringCache κ ν} {entry : Entry κ ν} (h : entry ∈ cache.entries) :
    cache.find entry.key = some entry := by
  cases hfind : cache.find entry.key with
  | none => exact absurd rfl (find_eq_none hfind h)
  | some other =>
      obtain ⟨hmem, hkey⟩ := find_eq_some hfind
      rw [eq_of_key_eq hmem h hkey]

theorem room_sublist (iteration : Iteration (Entry κ ν)) (cache : ExpiringCache κ ν) (key : κ) :
    (room iteration cache key).Sublist cache.entries := by
  unfold room
  split
  · split
    · exact List.filter_sublist
    · exact .refl _
  · exact .refl _

theorem room_length (iteration : Iteration (Entry κ ν)) (cache : ExpiringCache κ ν) (key : κ) :
    (without (room iteration cache key) key).length < cache.capacity := by
  unfold room
  split
  · rename_i hfull
    have hne : cache.entries ≠ [] := by
      intro hnil
      have := hfull.2
      have := cache.positive
      simp only [hnil, List.length_nil] at *
      omega
    obtain ⟨entry, hentry⟩ := oldest_isSome iteration hne
    simp only [hentry]
    refine (List.length_filter_le _ _).trans_lt ?_
    exact (length_without_lt (oldest_mem hentry)).trans_le cache.bounded
  · rename_i hroom
    cases hfind : cache.find key with
    | none =>
        have hlt : cache.entries.length ≠ cache.capacity := fun heq => hroom ⟨by simp [hfind], heq⟩
        exact (List.length_filter_le _ _).trans_lt (Nat.lt_of_le_of_ne cache.bounded hlt)
    | some entry =>
        obtain ⟨hmem, rfl⟩ := find_eq_some hfind
        exact (length_without_lt hmem).trans_le cache.bounded

def insert (iteration : Iteration (Entry κ ν)) (cache : ExpiringCache κ ν) (key : κ) (value : ν)
    (now ttl : Nat) : ExpiringCache κ ν where
  entries := ⟨key, now + ttl, value⟩ :: without (room iteration cache key) key
  capacity := cache.capacity
  positive := cache.positive
  distinct := by
    rw [List.map_cons, List.nodup_cons]
    refine ⟨by simp, without_nodup ?_ key⟩
    exact cache.distinct.sublist ((room_sublist iteration cache key).map _)
  bounded := room_length iteration cache key

@[simp] theorem insert_capacity (iteration : Iteration (Entry κ ν)) (cache : ExpiringCache κ ν)
    (key : κ) (value : ν) (now ttl : Nat) :
    (insert iteration cache key value now ttl).capacity = cache.capacity := rfl

theorem mem_remove {cache : ExpiringCache κ ν} {key : κ} {entry : Entry κ ν} :
    entry ∈ (cache.remove key).entries ↔ entry ∈ cache.entries ∧ entry.key ≠ key :=
  mem_without

theorem mem_insert {iteration : Iteration (Entry κ ν)} {cache : ExpiringCache κ ν} {key : κ}
    {value : ν} {now ttl : Nat} {entry : Entry κ ν} :
    entry ∈ (insert iteration cache key value now ttl).entries ↔
      entry = ⟨key, now + ttl, value⟩ ∨ entry ∈ room iteration cache key ∧ entry.key ≠ key := by
  simp [insert]

theorem lost_to_room {iteration : Iteration (Entry κ ν)} {cache : ExpiringCache κ ν} {key : κ}
    {entry : Entry κ ν} (hmem : entry ∈ cache.entries) (h : entry ∉ room iteration cache key) :
    cache.find key = none ∧ cache.entries.length = cache.capacity ∧
      ∀ other ∈ cache.entries, entry.expires ≤ other.expires := by
  unfold room at h
  split at h
  · rename_i hfull
    split at h
    · rename_i oldest holdest
      have hkey : entry.key = oldest.key := by
        by_contra hkey
        exact h (mem_without.mpr ⟨hmem, hkey⟩)
      rw [eq_of_key_eq hmem (oldest_mem holdest) hkey]
      exact ⟨Option.isNone_iff_eq_none.mp hfull.1, hfull.2,
        fun other hother => oldest_le holdest hother⟩
    · exact absurd hmem h
  · exact absurd hmem h

theorem get_some {cache after : ExpiringCache κ ν} {key : κ} {now : Nat} {value : ν}
    (h : cache.get key now = (some value, after)) :
    after = cache ∧ ∃ entry ∈ cache.entries, entry.key = key ∧ now < entry.expires := by
  unfold get at h
  split at h
  · rename_i entry hfind
    obtain ⟨hmem, hkey⟩ := find_eq_some hfind
    split at h
    · rename_i hlive
      cases h
      exact ⟨rfl, entry, hmem, hkey, hlive⟩
    · cases h
  · cases h

theorem get_none {cache after : ExpiringCache κ ν} {key : κ} {now : Nat}
    (h : cache.get key now = (none, after)) :
    after = cache.remove key ∧ ∀ entry ∈ cache.entries, entry.key = key → entry.expires ≤ now := by
  unfold get at h
  split at h
  · rename_i entry hfind
    split at h
    · cases h
    · rename_i hdead
      obtain ⟨hmem, hkey⟩ := find_eq_some hfind
      cases h
      refine ⟨rfl, fun other hother hsame => ?_⟩
      rw [eq_of_key_eq hother hmem (hsame.trans hkey.symm)]
      omega
  · rename_i hfind
    cases h
    exact ⟨rfl, fun entry hmem hsame => absurd hsame (find_eq_none hfind hmem)⟩

theorem get_isSome_iff {cache : ExpiringCache κ ν} {key : κ} {now : Nat} :
    (cache.get key now).1.isSome ↔ ∃ entry ∈ cache.entries, entry.key = key ∧ now < entry.expires := by
  cases hget : cache.get key now with
  | mk found after =>
      cases found with
      | some value => simpa using (get_some hget).2
      | none =>
          simp only [Option.isSome_none, Bool.false_eq_true, false_iff, not_exists, not_and,
            Nat.not_lt]
          exact (get_none hget).2

theorem get_after_miss {cache after : ExpiringCache κ ν} {key : κ} {now : Nat}
    (h : cache.get key now = (none, after)) (other : κ) {later : Nat} (hlater : now ≤ later) :
    (after.get other later).1.isSome = (cache.get other later).1.isSome := by
  obtain ⟨rfl, hdead⟩ := get_none h
  rw [Bool.eq_iff_iff, get_isSome_iff, get_isSome_iff]
  constructor
  · rintro ⟨entry, hmem, hkey, hlive⟩
    exact ⟨entry, (mem_remove.mp hmem).1, hkey, hlive⟩
  · rintro ⟨entry, hmem, hkey, hlive⟩
    refine ⟨entry, mem_remove.mpr ⟨hmem, fun hsame => ?_⟩, hkey, hlive⟩
    have := hdead entry hmem hsame
    omega

def All (P : ν → Prop) (cache : ExpiringCache κ ν) : Prop := ∀ entry ∈ cache.entries, P entry.value

section All

variable {P : ν → Prop} {cache : ExpiringCache κ ν}

omit [DecidableEq κ] in
theorem all_new (capacity : Nat) (h : 0 < capacity) : All P (new capacity h : ExpiringCache κ ν) :=
  fun _ hmem => absurd hmem List.not_mem_nil

theorem All.insert (h : All P cache) (iteration : Iteration (Entry κ ν)) (key : κ) {value : ν}
    (hvalue : P value) (now ttl : Nat) : All P (insert iteration cache key value now ttl) := by
  intro entry hmem
  rcases mem_insert.mp hmem with rfl | ⟨hroom, -⟩
  · exact hvalue
  · exact h entry ((room_sublist iteration cache key).subset hroom)

theorem All.get_after (h : All P cache) (key : κ) (now : Nat) : All P (cache.get key now).2 := by
  unfold get
  split
  · split
    · exact h
    · exact fun entry hmem => h entry (mem_remove.mp hmem).1
  · exact fun entry hmem => h entry (mem_remove.mp hmem).1

theorem All.get_value (h : All P cache) {key : κ} {now : Nat} {value : ν}
    (hget : (cache.get key now).1 = some value) : P value := by
  unfold get at hget
  split at hget
  · rename_i entry hfind
    split at hget
    · cases Option.some.inj hget
      exact h entry (find_eq_some hfind).1
    · contradiction
  · contradiction

end All

@[simp] theorem get_capacity (cache : ExpiringCache κ ν) (key : κ) (now : Nat) :
    (get cache key now).2.capacity = cache.capacity := by
  unfold get
  split
  · split <;> rfl
  · rfl

end ExpiringCache

end SjmbSlack.Limits
