import Mathlib.Data.List.Basic

/-! Named files with their contents kept by inode, so that a handle opened by one
name goes on writing to the file that another name has got by a rename. No two
names share an inode. -/
namespace SjmbSlack

structure Files (ν : Type*) where
  contents : List (List UInt8)
  entry : ν → Option Nat
  bounded : ∀ name inode, entry name = some inode → inode < contents.length
  single : ∀ left right inode, entry left = some inode → entry right = some inode → left = right

namespace Files

variable {ν : Type*} {files : Files ν} {name other : ν} {inode : Nat}

def read (files : Files ν) (name : ν) : Option (List UInt8) :=
  (files.entry name).bind fun inode => files.contents[inode]?

/-- Bytes written at an offset; a gap before it reads as zeros. -/
def splice (offset : Nat) (bytes content : List UInt8) : List UInt8 :=
  content.take offset ++ List.replicate (offset - content.length) 0 ++ bytes ++
    content.drop (offset + bytes.length)

def writeAt (files : Files ν) (inode offset : Nat) (bytes : List UInt8) : Files ν where
  contents := files.contents.modify inode (splice offset bytes)
  entry := files.entry
  bounded := fun name inode h => by
    rw [List.length_modify]
    exact files.bounded name inode h
  single := files.single

def truncate (files : Files ν) (inode : Nat) : Files ν where
  contents := files.contents.set inode []
  entry := files.entry
  bounded := fun name inode h => by
    rw [List.length_set]
    exact files.bounded name inode h
  single := files.single

theorem splice_end (bytes content : List UInt8) :
    splice content.length bytes content = content ++ bytes := by
  simp [splice]

theorem read_of_contents {after : Files ν} (hentry : after.entry name = files.entry name)
    (hcontents : ∀ inode, files.entry name = some inode →
      after.contents[inode]? = files.contents[inode]?) : after.read name = files.read name := by
  unfold read
  rw [hentry]
  cases h : files.entry name with
  | none => rfl
  | some inode => exact hcontents inode h

theorem read_writeAt (h : files.entry name = some inode) (offset : Nat) (bytes : List UInt8) :
    (files.writeAt inode offset bytes).read name = (files.read name).map (splice offset bytes) := by
  unfold read writeAt
  dsimp only
  rw [h, Option.bind_some, Option.bind_some, List.getElem?_modify_eq]
  rfl

theorem read_writeAt_ne (h : files.entry name ≠ some inode) (offset : Nat) (bytes : List UInt8) :
    (files.writeAt inode offset bytes).read name = files.read name := by
  refine read_of_contents rfl fun found hfound => ?_
  unfold writeAt
  dsimp only
  refine List.getElem?_modify_ne _ _ ?_
  rintro rfl
  exact h hfound

variable [DecidableEq ν]

def create (files : Files ν) (name : ν) : Files ν where
  contents := files.contents ++ [[]]
  entry := fun other => if other = name then some files.contents.length else files.entry other
  bounded := fun other inode h => by
    rw [List.length_append, List.length_singleton]
    split at h
    · cases Option.some.inj h
      exact Nat.lt_succ_self _
    · exact Nat.lt_succ_of_lt (files.bounded other inode h)
  single := fun left right inode hleft hright => by
    have hfresh : ∀ other, files.entry other ≠ some files.contents.length :=
      fun other h => Nat.lt_irrefl _ (files.bounded other _ h)
    split at hleft <;> split at hright
    · rename_i hl hr
      rw [hl, hr]
    · cases Option.some.inj hleft
      exact absurd hright (hfresh right)
    · cases Option.some.inj hright
      exact absurd hleft (hfresh left)
    · exact files.single left right inode hleft hright

/-- Open for writing, creating the file or emptying it; the result has the inode. -/
def openTruncate (files : Files ν) (name : ν) : Files ν × Nat :=
  match files.entry name with
  | some inode => (files.truncate inode, inode)
  | none => (files.create name, files.contents.length)

/-- Rename a file over another; `none` where there is no such file. -/
def rename (files : Files ν) (source target : ν) : Option (Files ν) :=
  if hsame : source = target then (files.entry source).map fun _ => files
  else match h : files.entry source with
    | none => none
    | some inode => some {
        contents := files.contents
        entry := fun other =>
          if other = target then some inode
          else if other = source then none
          else files.entry other
        bounded := fun other found hfound => by
          split at hfound
          · cases Option.some.inj hfound
            exact files.bounded source _ h
          · split at hfound
            · contradiction
            · exact files.bounded other found hfound
        single := fun left right found hleft hright => by
          have hother : ∀ name, name ≠ source → files.entry name ≠ some inode :=
            fun name hne heq => hne (files.single name source inode heq h)
          split at hleft <;> split at hright
          · rename_i hl hr
            rw [hl, hr]
          · cases Option.some.inj hleft
            split at hright
            · contradiction
            · exact absurd hright (hother right ‹_›)
          · cases Option.some.inj hright
            split at hleft
            · contradiction
            · exact absurd hleft (hother left ‹_›)
          · split at hleft
            · contradiction
            · split at hright
              · contradiction
              · exact files.single left right found hleft hright }

theorem entry_openTruncate (files : Files ν) (name : ν) :
    (files.openTruncate name).1.entry name = some (files.openTruncate name).2 := by
  unfold openTruncate
  split
  · rename_i inode h
    exact h
  · exact if_pos rfl

theorem read_openTruncate (files : Files ν) (name : ν) :
    (files.openTruncate name).1.read name = some [] := by
  unfold openTruncate
  split
  · rename_i inode h
    have hlt := files.bounded name inode h
    unfold read truncate
    dsimp only
    rw [h, Option.bind_some, List.getElem?_set_self hlt]
  · unfold read create
    dsimp only
    rw [if_pos rfl, Option.bind_some, List.getElem?_append_right (Nat.le_refl _), Nat.sub_self]
    rfl

theorem entry_openTruncate_ne (h : other ≠ name) :
    (files.openTruncate name).1.entry other = files.entry other := by
  unfold openTruncate
  split
  · rfl
  · exact if_neg h

theorem read_openTruncate_ne (h : other ≠ name) :
    (files.openTruncate name).1.read other = files.read other := by
  refine read_of_contents (entry_openTruncate_ne h) fun inode hinode => ?_
  unfold openTruncate
  split
  · rename_i used hused
    refine List.getElem?_set_ne ?_
    rintro rfl
    exact h (files.single other name _ hinode hused)
  · exact List.getElem?_append_left (files.bounded other inode hinode)

theorem rename_eq_some {source target : ν} (hne : source ≠ target)
    (h : files.entry source = some inode) :
    ∃ after, files.rename source target = some after ∧ after.entry source = none ∧
      after.read target = files.read source := by
  unfold rename
  rw [dif_neg hne]
  split
  · rename_i hnone
    exact absurd (h.symm.trans hnone) nofun
  · rename_i found hfound
    refine ⟨_, rfl, ?_, ?_⟩
    · dsimp only
      rw [if_neg hne, if_pos rfl]
    · unfold read
      dsimp only
      rw [if_pos rfl, hfound]

end Files

end SjmbSlack
