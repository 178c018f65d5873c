import SjmbSlack.Library.Newest
import SjmbSlack.Library.Retention
import SjmbSlack.UserSession.StoreProgress

/-! `Store::prune` keeps the newest: of the processed messages an end of the list,
of the threads of all channels together the greatest by time, channel and
timestamp. Pruning for a later time forgets that there was an earlier one. -/
namespace SjmbSlack.UserSession
open Newest

namespace Persist
open Snapshot

def threadKey (thread : Int ×ₗ Str ×ₗ Str) : Str × Str := ofLex (ofLex thread).2

theorem threadCount_eq (channels : SortedMap Str Channel) :
    threadCount channels = (threadsOf channels).length := by
  unfold threadCount SortedMap.total threadsOf
  rw [List.length_flatMap]
  congr 1
  exact List.map_congr_left fun entry _ => (List.length_map ..).symm

theorem threadsOf_removeThread (channels : SortedMap Str Channel) (id ts : Str) :
    threadsOf (removeThread channels id ts) =
      (threadsOf channels).filter fun thread => threadKey thread ≠ (id, ts) := by
  unfold threadsOf removeThread SortedMap.modify SortedMap.map
  rw [List.flatMap_map, List.filter_flatMap]
  refine List.flatMap_congr fun entry _ => ?_
  rw [List.filter_map]
  dsimp only
  by_cases heq : entry.1 = id
  · rw [if_pos heq]
    unfold SortedMap.erase SortedMap.filter
    congr 1
    refine List.filter_congr fun thread _ => ?_
    simp [threadKey, heq]
  · rw [if_neg heq]
    congr 1
    refine (List.filter_eq_self.mpr fun thread _ => ?_).symm
    simp [threadKey, heq]

theorem threadsOf_removeThreads (removed : List (Int ×ₗ Str ×ₗ Str))
    (channels : SortedMap Str Channel) :
    threadsOf (removeThreads removed channels) = (threadsOf channels).filter fun thread =>
      removed.all fun gone => threadKey thread ≠ threadKey gone := by
  induction removed generalizing channels with
  | nil => exact (List.filter_eq_self.mpr fun _ _ => rfl).symm
  | cons first rest ih =>
      unfold removeThreads at ih ⊢
      rw [List.foldl_cons, ih, threadsOf_removeThread, List.filter_filter]
      refine List.filter_congr fun thread _ => ?_
      rw [List.all_cons, Bool.and_comm]
      rfl

end Persist

namespace Snapshot
open Persist

def tracked (channels : SortedMap Str Channel) : Finset (Int ×ₗ Str ×ₗ Str) :=
  (threadsOf channels).toFinset

def usedAt (thread : Int ×ₗ Str ×ₗ Str) : Int := (ofLex thread).1

def recentSeen (window time : Int) (data : Snapshot) : List Seen :=
  data.seen.filter fun record => record.processedAt ≥ time - window - OVERLAP

def recentThreads (window time : Int) (data : Snapshot) : Finset (Int ×ₗ Str ×ₗ Str) :=
  (tracked data.channels).filter fun thread => time - window ≤ usedAt thread

theorem usedAt_mono {older newer : Int ×ₗ Str ×ₗ Str} (h : older ≤ newer) :
    usedAt older ≤ usedAt newer := Prod.Lex.monotone_fst older newer h

theorem mem_threadsOf {channels : SortedMap Str Channel} {id ts : Str} {time : Int} :
    toLex (time, toLex (id, ts)) ∈ threadsOf channels ↔
      ∃ channel, channels.get id = some channel ∧ channel.threads.get ts = some time := by
  unfold threadsOf
  rw [List.mem_flatMap]
  constructor
  · rintro ⟨⟨found, channel⟩, hchannel, hmem⟩
    obtain ⟨⟨parent, used⟩, hthread, heq⟩ := List.mem_map.mp hmem
    cases heq
    exact ⟨channel, SortedMap.get_eq_some.mpr hchannel, SortedMap.get_eq_some.mpr hthread⟩
  · rintro ⟨channel, hchannel, hthread⟩
    refine ⟨(id, channel), SortedMap.get_eq_some.mp hchannel, ?_⟩
    exact List.mem_map.mpr ⟨(ts, time), SortedMap.get_eq_some.mp hthread, rfl⟩

theorem mem_tracked {channels : SortedMap Str Channel} {id ts : Str} {channel : Channel}
    {time : Int} (h : channels.get id = some channel) :
    toLex (time, toLex (id, ts)) ∈ tracked channels ↔ channel.threads.get ts = some time := by
  rw [tracked, List.mem_toFinset, mem_threadsOf, h]
  simp

theorem ext_threadsOf {left right : SortedMap Str Channel}
    (hprogress : ∀ id, (left.get id).map Channel.progress = (right.get id).map Channel.progress)
    (hthreads : ∀ thread, thread ∈ threadsOf left ↔ thread ∈ threadsOf right) : left = right := by
  apply SortedMap.ext_get
  intro id
  have hid := hprogress id
  cases hleft : left.get id with
  | none =>
      rw [hleft, Option.map_none] at hid
      exact (Option.map_eq_none_iff.mp hid.symm).symm
  | some channel =>
      rw [hleft, Option.map_some] at hid
      obtain ⟨other, hright, heq⟩ := Option.map_eq_some_iff.mp hid.symm
      have hsame : channel.threads = other.threads := by
        apply SortedMap.ext_get
        intro ts
        apply Option.ext
        intro time
        have hmem := hthreads (toLex (time, toLex (id, ts)))
        rw [mem_threadsOf, mem_threadsOf, hleft, hright] at hmem
        simpa using hmem
      rw [hright]
      cases channel
      cases other
      cases hsame
      cases heq
      rfl

theorem nodup_threadKey (channels : SortedMap Str Channel) :
    ((threadsOf channels).map threadKey).Nodup := by
  unfold threadsOf
  rw [List.map_flatMap, List.nodup_flatMap]
  constructor
  · intro entry _
    rw [List.map_map]
    have hinj : entry.2.threads.keys.Nodup := entry.2.threads.nodup_keys
    rw [SortedMap.keys] at hinj
    apply List.Nodup.of_map Prod.snd
    rw [List.map_map]
    exact hinj
  · have hkeys := channels.nodup_keys
    rw [SortedMap.keys, List.nodup_iff_pairwise_ne, List.pairwise_map] at hkeys
    apply hkeys.imp
    intro first second hne
    refine List.disjoint_left.mpr fun key hfirst hsecond => ?_
    dsimp only at hfirst hsecond
    rw [List.map_map, List.mem_map] at hfirst hsecond
    obtain ⟨_, -, rfl⟩ := hfirst
    obtain ⟨_, -, heq⟩ := hsecond
    exact hne (congrArg Prod.fst heq).symm

theorem nodup_threadsOf (channels : SortedMap Str Channel) : (threadsOf channels).Nodup :=
  (nodup_threadKey channels).of_map _

theorem card_tracked (channels : SortedMap Str Channel) :
    (tracked channels).card = threadCount channels := by
  rw [tracked, List.toFinset_card_of_nodup (nodup_threadsOf channels), threadCount_eq]

theorem tracked_evictThreads (channels : SortedMap Str Channel) :
    tracked (evictThreads channels) = newest MAX_THREADS (tracked channels) := by
  unfold evictThreads
  dsimp only
  split
  · generalize horder : (threadsOf channels).mergeSort (fun a b => decide (a ≤ b)) = oldest
    have hperm : oldest.Perm (threadsOf channels) := horder ▸ List.mergeSort_perm _ _
    have hsorted : oldest.Pairwise (· < ·) :=
      horder ▸ pairwise_lt_mergeSort (nodup_threadsOf channels)
    have hkeys : (oldest.map threadKey).Nodup :=
      (hperm.map threadKey).nodup_iff.mpr (nodup_threadKey channels)
    have hset : tracked channels = oldest.toFinset := by
      ext thread
      rw [tracked, List.mem_toFinset, List.mem_toFinset, hperm.mem_iff]
    rw [hset, ← toFinset_drop hsorted]
    ext thread
    rw [tracked, List.mem_toFinset, List.mem_toFinset, threadsOf_removeThreads, List.mem_filter,
      mem_drop_iff hkeys, hperm.mem_iff, List.all_eq_true, hperm.length_eq, threadCount_eq]
    simp only [decide_eq_true_eq]
  · rename_i hfew
    rw [newest_eq_self]
    rw [card_tracked]
    exact Nat.le_of_not_gt hfew

theorem threadsOf_filter (keep : Int → Bool) (channels : SortedMap Str Channel) :
    threadsOf (channels.map fun _ channel =>
        { channel with threads := channel.threads.filter fun _ used => keep used }) =
      (threadsOf channels).filter fun thread => keep (usedAt thread) := by
  unfold threadsOf SortedMap.map SortedMap.filter
  rw [List.flatMap_map, List.filter_flatMap]
  apply List.flatMap_congr
  intro entry _
  rw [List.filter_map]
  rfl

theorem tracked_pruneThreads (window time : Int) (channels : SortedMap Str Channel) :
    tracked (pruneThreads window time channels) =
      newest MAX_THREADS
        ((tracked channels).filter fun thread => time - window ≤ usedAt thread) := by
  rw [pruneThreads, tracked_evictThreads]
  congr 1
  ext thread
  rw [tracked, List.mem_toFinset, threadsOf_filter, List.mem_filter, Finset.mem_filter, tracked,
    List.mem_toFinset, decide_eq_true_eq]

theorem tracked_pruneThreads_of_few (window time : Int) {channels : SortedMap Str Channel}
    (h : threadCount channels ≤ MAX_THREADS) :
    tracked (pruneThreads window time channels) =
      (tracked channels).filter fun thread => time - window ≤ usedAt thread := by
  rw [← card_tracked] at h
  rw [tracked_pruneThreads, newest_eq_self ((Finset.card_filter_le _ _).trans h)]

theorem tracked_prune (window time : Int) (data : Snapshot) :
    tracked (data.prune window time).channels =
      newest MAX_THREADS (recentThreads window time data) :=
  tracked_pruneThreads window time data.channels

theorem pruneSeen_eq_trim (window time : Int) (data : Snapshot) :
    pruneSeen window time data.seen =
      Retention.trim MAX_SEEN (recentSeen window time data) := rfl

theorem recentThreads_prune {window time later : Int} (h : time ≤ later) (data : Snapshot) :
    recentThreads window later (data.prune window time) =
      newest MAX_THREADS (recentThreads window later data) := by
  rw [recentThreads, tracked_prune, filter_newest, recentThreads, recentThreads,
    Finset.filter_filter]
  · congr 1
    apply Finset.filter_congr
    intro thread _
    omega
  · intro older newer hle hrecent
    exact hrecent.trans (usedAt_mono hle)

theorem prune_prune_of_seen {window time later : Int} (h : time ≤ later) {data : Snapshot}
    (hseen : pruneSeen window later (pruneSeen window time data.seen) =
      pruneSeen window later data.seen) :
    (data.prune window time).prune window later = data.prune window later := by
  have hchannels : pruneThreads window later (data.prune window time).channels =
      pruneThreads window later data.channels := by
    apply ext_threadsOf
    · intro id
      rw [get_pruneThreads, prune, get_pruneThreads, get_pruneThreads]
    · intro thread
      rw [← List.mem_toFinset, ← List.mem_toFinset]
      change thread ∈ tracked ((data.prune window time).prune window later).channels ↔
        thread ∈ tracked (data.prune window later).channels
      rw [tracked_prune, tracked_prune, recentThreads_prune h, newest_newest]
  unfold prune at hchannels ⊢
  dsimp only at hchannels ⊢
  rw [hseen, hchannels]

theorem pruneSeen_pruneSeen (window time : Int) (seen : List Seen) :
    pruneSeen window time (pruneSeen window time seen) = pruneSeen window time seen := by
  have hrecent : (pruneSeen window time seen).filter (fun record =>
      record.processedAt ≥ time - window - OVERLAP) = pruneSeen window time seen := by
    apply List.filter_eq_self.mpr
    intro record hmem
    exact (List.mem_filter.mp (List.mem_of_mem_drop hmem)).2
  change Retention.trim MAX_SEEN (List.filter _ _) = _
  rw [hrecent]
  exact Retention.trim_trim MAX_SEEN _

theorem pruneSeen_later {window time later : Int} (h : time ≤ later) {seen : List Seen}
    (hordered : seen.Pairwise fun older newer => older.processedAt ≤ newer.processedAt) :
    pruneSeen window later (pruneSeen window time seen) = pruneSeen window later seen := by
  have hclosed : (seen.filter fun record => decide (record.processedAt ≥
      time - window - OVERLAP)).Pairwise fun older newer =>
        decide (older.processedAt ≥ later - window - OVERLAP) = true →
          decide (newer.processedAt ≥ later - window - OVERLAP) = true := by
    apply (hordered.sublist List.filter_sublist).imp
    intro older newer hle hrecent
    rw [decide_eq_true_eq] at hrecent ⊢
    exact hrecent.trans hle
  have hrecent : (seen.filter fun record => decide (record.processedAt ≥
      time - window - OVERLAP)).filter (fun record =>
        decide (record.processedAt ≥ later - window - OVERLAP)) =
      seen.filter fun record => decide (record.processedAt ≥ later - window - OVERLAP) := by
    rw [List.filter_filter]
    apply List.filter_congr
    intro record _
    rw [Bool.eq_iff_iff, Bool.and_eq_true, decide_eq_true_eq, decide_eq_true_eq]
    omega
  change Retention.trim MAX_SEEN (List.filter _ (Retention.trim MAX_SEEN _)) =
    Retention.trim MAX_SEEN _
  rw [Retention.filter_trim MAX_SEEN hclosed, hrecent, Retention.trim_trim]

theorem seen_longest (window time : Int) (data : Snapshot) (ending : List Seen) :
    ending <:+ (data.prune window time).seen ↔
      ending <:+ recentSeen window time data ∧ ending.length ≤ MAX_SEEN := by
  rw [seen_prune, pruneSeen_eq_trim]
  exact Retention.suffix_trim_iff MAX_SEEN ending _

theorem prune_keeps_few {window time : Int} {data : Snapshot}
    (h : (recentThreads window time data).card ≤ MAX_THREADS) :
    tracked (data.prune window time).channels = recentThreads window time data := by
  rw [tracked_prune, newest_eq_self h]

theorem prune_keeps_greatest {window time : Int} {data : Snapshot}
    (h : MAX_THREADS < (recentThreads window time data).card) :
    tracked (data.prune window time).channels ⊆ recentThreads window time data ∧
      (tracked (data.prune window time).channels).card = MAX_THREADS ∧
      ∀ kept ∈ tracked (data.prune window time).channels,
        ∀ dropped ∈ recentThreads window time data,
          dropped ∉ tracked (data.prune window time).channels → dropped < kept := by
  rw [tracked_prune]
  refine ⟨newest_subset _ _, ?_, ?_⟩
  · rw [card_newest]
    omega
  · intro kept hkept dropped hrecent hdropped
    apply lt_of_not_ge
    intro hle
    exact hdropped (mem_newest_of_le hkept hrecent hle)

theorem usedAt_dropped_le {window time : Int} {data : Snapshot} {kept dropped : Int ×ₗ Str ×ₗ Str}
    (hkept : kept ∈ tracked (data.prune window time).channels)
    (hmem : dropped ∈ tracked data.channels)
    (hdropped : dropped ∉ tracked (data.prune window time).channels) :
    usedAt dropped ≤ usedAt kept := by
  rw [tracked_prune] at hkept hdropped
  apply le_of_not_gt
  intro holder
  have hrecent := newest_subset _ _ hkept
  rw [recentThreads, Finset.mem_filter] at hrecent
  refine hdropped (mem_newest_of_le hkept ?_ ?_)
  · rw [recentThreads, Finset.mem_filter]
    exact ⟨hmem, hrecent.2.trans holder.le⟩
  · exact Prod.Lex.le_iff.mpr (.inl holder)

/-- What `prune` keeps. The times are seconds of the clock and the window is at most
a week, so the differences of the source stay within `i64`. -/
theorem prune_keeps_newest (window time : Int) (data : Snapshot) :
    ((data.prune window time).seen <:+ recentSeen window time data ∧
        (data.prune window time).seen.length ≤ MAX_SEEN ∧
        ∀ ending, ending <:+ recentSeen window time data → ending.length ≤ MAX_SEEN →
          ending.length ≤ (data.prune window time).seen.length) ∧
      ((recentThreads window time data).card ≤ MAX_THREADS →
        tracked (data.prune window time).channels = recentThreads window time data) ∧
      (MAX_THREADS < (recentThreads window time data).card →
        tracked (data.prune window time).channels ⊆ recentThreads window time data ∧
          (tracked (data.prune window time).channels).card = MAX_THREADS ∧
          ∀ kept ∈ tracked (data.prune window time).channels,
            ∀ dropped ∈ recentThreads window time data,
              dropped ∉ tracked (data.prune window time).channels → dropped < kept) ∧
      (∀ kept ∈ tracked (data.prune window time).channels, ∀ dropped ∈ tracked data.channels,
        dropped ∉ tracked (data.prune window time).channels → usedAt dropped ≤ usedAt kept) ∧
      (∀ id, (data.prune window time).progress id = data.progress id) ∧
      (data.prune window time).prune window time = data.prune window time ∧
      ∀ later, time ≤ later →
        (data.seen.Pairwise fun older newer => older.processedAt ≤ newer.processedAt) →
        (data.prune window time).prune window later = data.prune window later := by
  have hseen := (seen_longest window time data _).mp List.suffix_rfl
  refine ⟨⟨hseen.1, hseen.2, ?_⟩, prune_keeps_few, prune_keeps_greatest, ?_,
    progress_prune window time data, prune_prune_of_seen (Int.le_refl time) ?_, ?_⟩
  · intro ending hending hlength
    exact ((seen_longest window time data ending).mpr ⟨hending, hlength⟩).length_le
  · intro kept hkept dropped hmem hdropped
    exact usedAt_dropped_le hkept hmem hdropped
  · exact pruneSeen_pruneSeen window time data.seen
  · intro later hle hordered
    exact prune_prune_of_seen hle (pruneSeen_later hle hordered)

end Snapshot

end SjmbSlack.UserSession
