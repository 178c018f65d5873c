import SjmbSlack.UserSession.Store

/-! What each operation of the store does to the progress of a channel and to
the list of processed messages. -/
namespace SjmbSlack.UserSession

structure Progress where
  coveredUntil : Int
  recovering : Bool
  failed : Bool
  deriving DecidableEq

def Channel.progress (channel : Channel) : Progress :=
  ⟨channel.coveredUntil, channel.recovering, channel.failed⟩

def Progress.finished (through : Int) (progress : Progress) : Progress :=
  if ¬ progress.failed then
    { progress with coveredUntil := max progress.coveredUntil through, recovering := false }
  else progress

def Progress.advanced (through : Int) (progress : Progress) : Progress :=
  if ¬ progress.recovering ∧ ¬ progress.failed then
    { progress with coveredUntil := max progress.coveredUntil through }
  else progress

def Progress.begun (window time : Int) (existing : Option Progress) : Progress :=
  let coveredUntil := (existing.map Progress.coveredUntil).getD time
  ⟨if coveredUntil < time - window then time - window else coveredUntil, existing.isSome, false⟩

namespace Snapshot

def progress (data : Snapshot) (id : Str) : Option Progress :=
  (data.channels.get id).map Channel.progress

theorem get_removeThread (channels : SortedMap Str Channel) (id ts other : Str) :
    ((removeThread channels id ts).get other).map Channel.progress =
      (channels.get other).map Channel.progress := by
  unfold removeThread
  rw [SortedMap.get_modify]
  split <;> cases channels.get other <;> rfl

theorem get_removeThreads (removed : List (Int ×ₗ Str ×ₗ Str)) (channels : SortedMap Str Channel)
    (id : Str) :
    ((removeThreads removed channels).get id).map Channel.progress =
      (channels.get id).map Channel.progress := by
  induction removed generalizing channels with
  | nil => rfl
  | cons thread rest ih =>
      unfold removeThreads at ih ⊢
      rw [List.foldl_cons, ih, get_removeThread]

theorem get_evictThreads (channels : SortedMap Str Channel) (id : Str) :
    ((evictThreads channels).get id).map Channel.progress =
      (channels.get id).map Channel.progress := by
  unfold evictThreads
  dsimp only
  split
  · exact get_removeThreads _ channels id
  · rfl

theorem get_pruneThreads (window time : Int) (channels : SortedMap Str Channel) (id : Str) :
    ((pruneThreads window time channels).get id).map Channel.progress =
      (channels.get id).map Channel.progress := by
  unfold pruneThreads
  rw [get_evictThreads, SortedMap.get_map, Option.map_map]
  rfl

@[simp] theorem progress_prune (window time : Int) (data : Snapshot) (id : Str) :
    (data.prune window time).progress id = data.progress id :=
  get_pruneThreads window time data.channels id

theorem progress_onChannel {change : Channel → Channel} {after : Progress → Progress}
    (h : ∀ channel, (change channel).progress = after channel.progress) (data : Snapshot)
    (id other : Str) : (data.onChannel id change).progress other =
      if other = id then (data.progress other).map after else data.progress other := by
  unfold progress onChannel
  rw [SortedMap.get_modify]
  split
  · rw [Option.map_map, Option.map_map]
    congr 1
    exact funext h
  · rfl

@[simp] theorem progress_noteThread (data : Snapshot) (id parent : Str) (time : Int)
    (other : Str) : (data.noteThread id parent time).progress other = data.progress other := by
  unfold noteThread
  split
  · refine (@progress_onChannel _ (fun same => same) (fun _ => by rfl) data id other).trans ?_
    split
    · exact Option.map_id'
    · rfl
  · rfl

@[simp] theorem progress_rememberThread (window : Int) (data : Snapshot) (id parent : Str)
    (now : Int) (other : Str) :
    (data.rememberThread window id parent now).progress other = data.progress other := by
  unfold rememberThread
  rw [progress_prune, progress_noteThread]

@[simp] theorem progress_processed (window : Int) (data : Snapshot) (channel ts : Str)
    (thread : Option Str) (time : Int) (other : Str) :
    (data.processed window channel ts thread time).progress other = data.progress other := by
  unfold processed
  dsimp only
  rw [progress_prune]
  cases thread with
  | none => rfl
  | some parent => exact progress_noteThread _ channel parent time other

@[simp] theorem progress_forgetThread (data : Snapshot) (id ts other : Str) :
    (data.forgetThread id ts).progress other = data.progress other :=
  get_removeThread data.channels id ts other

theorem progress_retryChannel (data : Snapshot) (id other : Str) :
    (data.retryChannel id).progress other =
      if other = id then (data.progress other).map fun progress => { progress with failed := false }
      else data.progress other :=
  progress_onChannel (fun _ => rfl) data id other

theorem progress_failed (data : Snapshot) (id other : Str) :
    (data.failed id).progress other =
      if other = id then (data.progress other).map fun progress => { progress with failed := true }
      else data.progress other :=
  progress_onChannel (fun _ => rfl) data id other

theorem progress_finishRecovery (data : Snapshot) (id : Str) (through : Int) (other : Str) :
    (data.finishRecovery id through).progress other =
      if other = id then (data.progress other).map (Progress.finished through)
      else data.progress other := by
  refine progress_onChannel (fun channel => ?_) data id other
  unfold Progress.finished Channel.progress
  dsimp only
  split <;> rfl

theorem progress_checkpoint (window : Int) (data : Snapshot) (through now : Int) (id : Str) :
    (data.checkpoint window through now).progress id =
      (data.progress id).map (Progress.advanced through) := by
  unfold checkpoint
  rw [progress_prune]
  unfold progress
  dsimp only
  rw [SortedMap.get_map, Option.map_map, Option.map_map]
  congr 1
  funext channel
  unfold Progress.advanced Channel.progress
  simp only [Function.comp]
  split <;> rfl

theorem progress_addChannel {data after : Snapshot} {id : Str} {time : Int}
    (h : data.addChannel id time = .ok after) (other : Str) :
    after.progress other =
      if other = id then some ((data.progress id).getD ⟨time, false, false⟩)
      else data.progress other := by
  unfold addChannel at h
  split at h
  · cases Except.ok.inj h
    unfold progress
    dsimp only
    rw [SortedMap.get_insert]
    split
    · cases data.channels.get id <;> rfl
    · rfl
  · contradiction

theorem progress_beginChannel (window time : Int) (existing : Option Channel) :
    (beginChannel window time existing).progress =
      Progress.begun window time (existing.map Channel.progress) := by
  cases existing <;> rfl

theorem get_beginChannels {window time : Int} {joined : List Str} (hnodup : joined.Nodup)
    (channels : SortedMap Str Channel) (id : Str) :
    (beginChannels window time joined channels).1.get id = channels.get id ∧
        (id ∈ joined → (beginChannels window time joined channels).2 ≠ .ok ()) ∨
      id ∈ joined ∧ (beginChannels window time joined channels).1.get id =
        some (beginChannel window time (channels.get id)) := by
  induction joined generalizing channels with
  | nil => exact .inl ⟨rfl, fun h => absurd h List.not_mem_nil⟩
  | cons first rest ih =>
      obtain ⟨hfirst, hrest⟩ := List.nodup_cons.mp hnodup
      unfold beginChannels
      split
      · exact .inl ⟨rfl, fun _ h => by cases h⟩
      · split
        · exact .inl ⟨rfl, fun _ h => by cases h⟩
        · rcases ih hrest
            (channels.insert first (beginChannel window time (channels.get first))) with
            ⟨hsame, herror⟩ | ⟨hmem, hbegun⟩
          · rw [SortedMap.get_insert] at hsame
            by_cases heq : id = first
            · subst heq
              rw [if_pos rfl] at hsame
              exact .inr ⟨List.mem_cons_self, hsame⟩
            · rw [if_neg heq] at hsame
              refine .inl ⟨hsame, fun hmem => herror ?_⟩
              exact (List.mem_cons.mp hmem).resolve_left heq
          · have hne : id ≠ first := fun heq => hfirst (heq ▸ hmem)
            rw [SortedMap.get_insert, if_neg hne] at hbegun
            exact .inr ⟨List.mem_cons_of_mem _ hmem, hbegun⟩

theorem progress_beginConnection {window : Int} {data after : Snapshot} {joined : List Str}
    {time : Int} {result : Except StoreError Unit} (hnodup : joined.Nodup)
    (h : data.beginConnection window joined time = (after, result)) (id : Str) :
    after.progress id = none ∧ id ∉ joined ∨
      id ∈ joined ∧ after.progress id = data.progress id ∧ result ≠ .ok () ∨
      id ∈ joined ∧ after.progress id = some (Progress.begun window time (data.progress id)) := by
  have hafter : after.progress id = ((beginChannels window time joined
      (data.channels.filter fun id _ => joined.contains id)).1.get id).map Channel.progress ∧
      ((beginChannels window time joined
        (data.channels.filter fun id _ => joined.contains id)).2 ≠ .ok () → result ≠ .ok ()) := by
    unfold beginConnection at h
    dsimp only at h
    split at h
    · cases h
      exact ⟨progress_prune .., fun hne => by contradiction⟩
    · cases h
      exact ⟨rfl, fun _ h => by cases h⟩
  rcases @get_beginChannels window time joined hnodup
    (data.channels.filter fun id _ => joined.contains id) id with ⟨hsame, herror⟩ | ⟨hmem, hbegun⟩
  · rw [hsame, SortedMap.get_filter] at hafter
    by_cases hmem : id ∈ joined
    · refine .inr (.inl ⟨hmem, hafter.1.trans ?_, hafter.2 (herror hmem)⟩)
      unfold progress
      cases data.channels.get id <;> simp [hmem]
    · refine .inl ⟨hafter.1.trans ?_, hmem⟩
      cases data.channels.get id <;> simp [hmem]
  · refine .inr (.inr ⟨hmem, hafter.1.trans ?_⟩)
    rw [hbegun, Option.map_some, progress_beginChannel, SortedMap.get_filter]
    unfold progress
    cases data.channels.get id <;> simp [hmem, Option.filter]

@[simp] theorem seen_onChannel (data : Snapshot) (id : Str) (change : Channel → Channel) :
    (data.onChannel id change).seen = data.seen := rfl

@[simp] theorem seen_noteThread (data : Snapshot) (id parent : Str) (time : Int) :
    (data.noteThread id parent time).seen = data.seen := by
  unfold noteThread
  split <;> rfl

@[simp] theorem seen_prune (window time : Int) (data : Snapshot) :
    (data.prune window time).seen = pruneSeen window time data.seen := by
  simp only [prune]

@[simp] theorem seen_rememberThread (window : Int) (data : Snapshot) (id parent : Str)
    (now : Int) : (data.rememberThread window id parent now).seen =
      pruneSeen window now data.seen := by
  unfold rememberThread
  rw [seen_prune, seen_noteThread]

@[simp] theorem seen_processed (window : Int) (data : Snapshot) (channel ts : Str)
    (thread : Option Str) (time : Int) :
    (data.processed window channel ts thread time).seen =
      pruneSeen window time (data.seen ++ [⟨channel, ts, time⟩]) := by
  unfold processed
  cases thread <;> simp

@[simp] theorem seen_checkpoint (window : Int) (data : Snapshot) (through now : Int) :
    (data.checkpoint window through now).seen = pruneSeen window now data.seen := by
  simp only [checkpoint, prune]

theorem seen_addChannel {data after : Snapshot} {id : Str} {time : Int}
    (h : data.addChannel id time = .ok after) : after.seen = data.seen := by
  unfold addChannel at h
  split at h
  · cases Except.ok.inj h
    rfl
  · contradiction

theorem seen_beginConnection (window : Int) (data : Snapshot) (joined : List Str) (time : Int) :
    (data.beginConnection window joined time).2 = .ok () ∧
        (data.beginConnection window joined time).1.seen = pruneSeen window time data.seen ∨
      (data.beginConnection window joined time).2 ≠ .ok () ∧
        (data.beginConnection window joined time).1.seen = data.seen := by
  unfold beginConnection
  dsimp only
  split
  · exact .inl ⟨rfl, seen_prune ..⟩
  · exact .inr ⟨fun h => (nomatch h), rfl⟩

end Snapshot

end SjmbSlack.UserSession
