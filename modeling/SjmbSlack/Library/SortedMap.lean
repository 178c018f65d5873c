import Mathlib.Algebra.Order.BigOperators.Group.List
import Mathlib.Algebra.Order.Ring.Nat
import Mathlib.Data.List.Nodup
import Mathlib.Order.Lattice

/-! Finite maps as lists of entries in increasing order of their keys, which is
the order in which they are iterated. -/
namespace SjmbSlack

structure SortedMap (κ ν : Type*) [LinearOrder κ] where
  entries : List (κ × ν)
  sorted : (entries.map Prod.fst).Pairwise (· < ·)

namespace SortedMap

variable {κ ν : Type*} [LinearOrder κ]

instance [DecidableEq ν] : DecidableEq (SortedMap κ ν) := fun left right =>
  decidable_of_iff (left.entries = right.entries)
    ⟨fun h => by cases left; cases right; cases h; rfl, fun h => h ▸ rfl⟩

def empty : SortedMap κ ν := ⟨[], .nil⟩

def length (m : SortedMap κ ν) : Nat := m.entries.length

def total (weight : ν → Nat) (m : SortedMap κ ν) : Nat :=
  (m.entries.map fun entry => weight entry.2).sum

def keys (m : SortedMap κ ν) : List κ := m.entries.map Prod.fst

def get (m : SortedMap κ ν) (key : κ) : Option ν :=
  (m.entries.find? fun entry => entry.1 = key).map Prod.snd

def contains (m : SortedMap κ ν) (key : κ) : Bool := (m.get key).isSome

def insertEntry (key : κ) (value : ν) : List (κ × ν) → List (κ × ν)
  | [] => [(key, value)]
  | entry :: rest =>
      if key < entry.1 then (key, value) :: entry :: rest
      else if entry.1 < key then entry :: insertEntry key value rest
      else (key, value) :: rest

theorem mem_keys_insertEntry {key other : κ} {value : ν} {entries : List (κ × ν)}
    (h : other ∈ (insertEntry key value entries).map Prod.fst) :
    other = key ∨ other ∈ entries.map Prod.fst := by
  induction entries with
  | nil => simpa [insertEntry] using h
  | cons entry rest ih =>
      unfold insertEntry at h
      split at h
      · simpa using h
      · split at h
        · rw [List.map_cons, List.mem_cons] at h ⊢
          rcases h with h | h
          · exact .inr (.inl h)
          · exact (ih h).imp_right .inr
        · rw [List.map_cons, List.mem_cons] at h ⊢
          exact h.imp_right .inr

theorem sorted_insertEntry {key : κ} {value : ν} {entries : List (κ × ν)}
    (h : (entries.map Prod.fst).Pairwise (· < ·)) :
    ((insertEntry key value entries).map Prod.fst).Pairwise (· < ·) := by
  induction entries with
  | nil => simp [insertEntry]
  | cons entry rest ih =>
      have hcons := List.pairwise_cons.mp h
      unfold insertEntry
      split
      · rename_i hlt
        refine List.pairwise_cons.mpr ⟨fun other hmem => ?_, h⟩
        rcases List.mem_cons.mp hmem with rfl | hmem
        · exact hlt
        · exact hlt.trans (hcons.1 other hmem)
      · split
        · rename_i hgt
          refine List.pairwise_cons.mpr ⟨fun other hmem => ?_, ih hcons.2⟩
          rcases mem_keys_insertEntry hmem with rfl | hmem
          · exact hgt
          · exact hcons.1 other hmem
        · rename_i hge hle
          have heq : key = entry.1 := le_antisymm (not_lt.mp hle) (not_lt.mp hge)
          exact List.pairwise_cons.mpr ⟨heq ▸ hcons.1, hcons.2⟩

def insert (m : SortedMap κ ν) (key : κ) (value : ν) : SortedMap κ ν :=
  ⟨insertEntry key value m.entries, sorted_insertEntry m.sorted⟩

def filter (m : SortedMap κ ν) (keep : κ → ν → Bool) : SortedMap κ ν :=
  ⟨m.entries.filter fun entry => keep entry.1 entry.2,
    m.sorted.sublist (List.filter_sublist.map _)⟩

def map (m : SortedMap κ ν) (change : κ → ν → ν) : SortedMap κ ν :=
  ⟨m.entries.map fun entry => (entry.1, change entry.1 entry.2), by
    rw [List.map_map]
    exact m.sorted⟩

def erase (m : SortedMap κ ν) (key : κ) : SortedMap κ ν := m.filter fun other _ => other ≠ key

def modify (m : SortedMap κ ν) (key : κ) (change : ν → ν) : SortedMap κ ν :=
  m.map fun other value => if other = key then change value else value

theorem nodup_keys (m : SortedMap κ ν) : m.keys.Nodup := m.sorted.imp ne_of_lt

theorem get_eq_some {m : SortedMap κ ν} {key : κ} {value : ν} :
    m.get key = some value ↔ (key, value) ∈ m.entries := by
  unfold get
  constructor
  · intro h
    obtain ⟨⟨found, _⟩, hfind, rfl⟩ := Option.map_eq_some_iff.mp h
    have hkey : found = key := by simpa using List.find?_some hfind
    exact hkey ▸ List.mem_of_find?_eq_some hfind
  · intro hmem
    cases hfind : m.entries.find? fun entry => entry.1 = key with
    | none =>
        have := List.find?_eq_none.mp hfind _ hmem
        simp at this
    | some entry =>
        have hkey : entry.1 = key := by simpa using List.find?_some hfind
        have heq : entry = (key, value) :=
          List.inj_on_of_nodup_map m.nodup_keys (List.mem_of_find?_eq_some hfind) hmem hkey
        rw [heq, Option.map_some]

theorem mem_keys {m : SortedMap κ ν} {key : κ} : key ∈ m.keys ↔ ∃ value, m.get key = some value := by
  simp only [keys, List.mem_map, get_eq_some]
  constructor
  · rintro ⟨⟨found, value⟩, hmem, rfl⟩
    exact ⟨value, hmem⟩
  · rintro ⟨value, hmem⟩
    exact ⟨_, hmem, rfl⟩

theorem contains_iff {m : SortedMap κ ν} {key : κ} : m.contains key = true ↔ key ∈ m.keys := by
  rw [mem_keys, contains, Option.isSome_iff_exists]

theorem ext_get {left right : SortedMap κ ν} (h : ∀ key, left.get key = right.get key) :
    left = right := by
  have hperm : left.entries.Perm right.entries := by
    refine (List.perm_ext_iff_of_nodup left.nodup_keys.of_map right.nodup_keys.of_map).mpr ?_
    rintro ⟨key, value⟩
    rw [← get_eq_some, ← get_eq_some, h key]
  have heq : left.entries = right.entries :=
    hperm.eq_of_pairwise (fun _ _ _ _ hab hba => absurd hab (not_lt.mpr hba.le))
      (List.pairwise_map.mp left.sorted) (List.pairwise_map.mp right.sorted)
  cases left
  cases right
  cases heq
  rfl

@[simp] theorem get_empty (key : κ) : (empty : SortedMap κ ν).get key = none := rfl

theorem mem_insertEntry {key : κ} {value : ν} {entries : List (κ × ν)} {other : κ × ν}
    (h : (entries.map Prod.fst).Pairwise (· < ·)) :
    other ∈ insertEntry key value entries ↔
      other = (key, value) ∨ other.1 ≠ key ∧ other ∈ entries := by
  induction entries with
  | nil => simp [insertEntry]
  | cons entry rest ih =>
      have hcons := List.pairwise_cons.mp h
      have hlater : ∀ found ∈ rest, entry.1 < found.1 := fun found hmem =>
        hcons.1 found.1 (List.mem_map_of_mem hmem)
      unfold insertEntry
      split
      · rename_i hlt
        grind
      · split
        · rename_i hgt
          rw [List.mem_cons, ih hcons.2]
          grind
        · rename_i hge hle
          have heq : key = entry.1 := le_antisymm (not_lt.mp hle) (not_lt.mp hge)
          grind

@[simp] theorem get_insert (m : SortedMap κ ν) (key : κ) (value : ν) (other : κ) :
    (m.insert key value).get other = if other = key then some value else m.get other := by
  apply Option.ext
  intro found
  rw [get_eq_some, insert, mem_insertEntry m.sorted]
  split
  · rename_i heq
    subst heq
    simp [eq_comm]
  · rename_i hne
    simp [hne, get_eq_some]

@[simp] theorem get_filter (m : SortedMap κ ν) (keep : κ → ν → Bool) (key : κ) :
    (m.filter keep).get key = (m.get key).filter (keep key) := by
  apply Option.ext
  intro found
  rw [get_eq_some, Option.filter_eq_some_iff, get_eq_some]
  simp [filter]

@[simp] theorem get_map (m : SortedMap κ ν) (change : κ → ν → ν) (key : κ) :
    (m.map change).get key = (m.get key).map (change key) := by
  apply Option.ext
  intro found
  rw [get_eq_some, Option.map_eq_some_iff]
  simp only [map, List.mem_map, Prod.mk.injEq, get_eq_some]
  constructor
  · rintro ⟨⟨_, value⟩, hmem, rfl, rfl⟩
    exact ⟨value, hmem, rfl⟩
  · rintro ⟨value, hmem, rfl⟩
    exact ⟨_, hmem, rfl, rfl⟩

@[simp] theorem get_erase (m : SortedMap κ ν) (key other : κ) :
    (m.erase key).get other = if other = key then none else m.get other := by
  unfold erase
  rw [get_filter]
  by_cases h : other = key <;> cases m.get other <;> simp [h]

@[simp] theorem get_modify (m : SortedMap κ ν) (key : κ) (change : ν → ν) (other : κ) :
    (m.modify key change).get other =
      if other = key then (m.get other).map change else m.get other := by
  unfold modify
  rw [get_map]
  by_cases h : other = key <;> cases m.get other <;> simp [h]

@[simp] theorem length_empty : (empty : SortedMap κ ν).length = 0 := rfl

@[simp] theorem length_map (m : SortedMap κ ν) (change : κ → ν → ν) :
    (m.map change).length = m.length := List.length_map _

@[simp] theorem length_modify (m : SortedMap κ ν) (key : κ) (change : ν → ν) :
    (m.modify key change).length = m.length := length_map _ _

theorem length_filter_le (m : SortedMap κ ν) (keep : κ → ν → Bool) :
    (m.filter keep).length ≤ m.length := List.length_filter_le _ _

theorem length_eq_total (m : SortedMap κ ν) : m.length = m.total fun _ => 1 := by
  simp [length, total]

theorem total_map_le {weight : ν → Nat} {change : κ → ν → ν}
    (h : ∀ key value, weight (change key value) ≤ weight value) (m : SortedMap κ ν) :
    (m.map change).total weight ≤ m.total weight := by
  unfold total map
  rw [List.map_map]
  exact List.sum_le_sum fun entry _ => h entry.1 entry.2

theorem total_filter_le (weight : ν → Nat) (m : SortedMap κ ν) (keep : κ → ν → Bool) :
    (m.filter keep).total weight ≤ m.total weight :=
  (List.filter_sublist.map _).sum_le_sum fun _ _ => Nat.zero_le _

theorem total_insertEntry (weight : ν → Nat) (key : κ) (value : ν) {entries : List (κ × ν)}
    (h : (entries.map Prod.fst).Pairwise (· < ·)) :
    ((insertEntry key value entries).map fun entry => weight entry.2).sum +
        ((entries.find? fun entry => entry.1 = key).map fun entry => weight entry.2).getD 0 =
      (entries.map fun entry => weight entry.2).sum + weight value := by
  induction entries with
  | nil => simp [insertEntry]
  | cons entry rest ih =>
      obtain ⟨hlater, hrest⟩ := List.pairwise_cons.mp h
      have hcons := ih hrest
      unfold insertEntry
      split
      · rename_i hlt
        have hnone : (entry :: rest).find? (fun entry => entry.1 = key) = none := by
          refine List.find?_eq_none.mpr fun other hmem => ?_
          have hlt' : key < other.1 := by
            rcases List.mem_cons.mp hmem with rfl | hmem
            · exact hlt
            · exact hlt.trans (hlater _ (List.mem_map_of_mem hmem))
          simpa using hlt'.ne'
        rw [hnone]
        simp only [List.map_cons, List.sum_cons, Option.map_none, Option.getD_none]
        omega
      · split
        · rename_i hgt
          rw [List.find?_cons_of_neg (by simpa using hgt.ne)]
          simp only [List.map_cons, List.sum_cons]
          omega
        · rename_i hge hle
          have heq : entry.1 = key := le_antisymm (not_lt.mp hge) (not_lt.mp hle)
          rw [List.find?_cons_of_pos (by simpa using heq)]
          simp only [List.map_cons, List.sum_cons, Option.map_some, Option.getD_some]
          omega

theorem total_insert (weight : ν → Nat) (m : SortedMap κ ν) (key : κ) (value : ν) :
    (m.insert key value).total weight + ((m.get key).map weight).getD 0 =
      m.total weight + weight value := by
  have h := total_insertEntry weight key value m.sorted
  unfold get
  rw [Option.map_map]
  exact h

theorem length_insert (m : SortedMap κ ν) (key : κ) (value : ν) :
    (m.insert key value).length = if m.contains key then m.length else m.length + 1 := by
  have h := m.total_insert (fun _ => 1) key value
  rw [← length_eq_total, ← length_eq_total] at h
  unfold contains
  cases hget : m.get key <;> simp [hget] at h ⊢ <;> omega

end SortedMap

end SjmbSlack
