import SjmbSlack.Library.Machine
import SjmbSlack.UserSession.Prune
import SjmbSlack.UserSession.StateSize

/-! Every operation of the store keeps the limits that `open` asks for, so that
what was saved can be read back. -/
namespace SjmbSlack.UserSession.Persist
open Machine Snapshot

theorem threadCount_evictThreads (channels : SortedMap Str Channel) :
    threadCount (evictThreads channels) ≤ MAX_THREADS := by
  rw [← card_tracked, tracked_evictThreads, Newest.card_newest]
  exact Nat.min_le_left _ _

theorem threadCount_pruneThreads (window time : Int) (channels : SortedMap Str Channel) :
    threadCount (pruneThreads window time channels) ≤ MAX_THREADS :=
  threadCount_evictThreads _

theorem length_pruneSeen (window time : Int) (seen : List Seen) :
    (pruneSeen window time seen).length ≤ MAX_SEEN := by
  change (Retention.trim MAX_SEEN _).length ≤ MAX_SEEN
  rw [Retention.length_trim]
  exact Nat.min_le_left _ _

section

variable {team user : Str} {now : Int} {channels : SortedMap Str Channel} {data : Snapshot}

theorem AllSound.filter (h : AllSound now channels) (keep : Str → Channel → Bool) :
    AllSound now (channels.filter keep) := by
  intro id channel hget
  rw [SortedMap.get_filter] at hget
  exact h id channel (Option.filter_eq_some_iff.mp hget).1

theorem AllSound.insert (h : AllSound now channels) {id : Str} {channel : Channel}
    (hid : validId id = true) (hchannel : ChannelSound now channel) :
    AllSound now (channels.insert id channel) := by
  intro other found hget
  rw [SortedMap.get_insert] at hget
  split at hget
  · rename_i heq
    cases Option.some.inj hget
    exact ⟨heq ▸ hid, hchannel⟩
  · exact h other found hget

theorem AllSound.modify (h : AllSound now channels) {change : Channel → Channel}
    (hchange : ∀ channel, ChannelSound now channel → ChannelSound now (change channel))
    (id : Str) : AllSound now (channels.modify id change) :=
  h.map fun other channel hsound => by
    split
    · exact hchange channel hsound
    · exact hsound

theorem ChannelSound.filter {channel : Channel} (h : ChannelSound now channel)
    (keep : Str → Int → Bool) :
    ChannelSound now { channel with threads := channel.threads.filter keep } :=
  ⟨h.covered, fun ts time hmem => h.threads ts time (List.mem_filter.mp hmem).1⟩

theorem AllSound.removeThread (h : AllSound now channels) (id ts : Str) :
    AllSound now (removeThread channels id ts) :=
  h.modify (fun _ hsound => hsound.filter _) id

theorem AllSound.removeThreads (h : AllSound now channels)
    (removed : List (Int ×ₗ Str ×ₗ Str)) : AllSound now (removeThreads removed channels) := by
  induction removed generalizing channels with
  | nil => exact h
  | cons thread rest ih => exact ih (h.removeThread _ _)

theorem AllSound.pruneThreads (h : AllSound now channels) (window time : Int) :
    AllSound now (pruneThreads window time channels) := by
  have hrecent : AllSound now (channels.map fun _ channel =>
      { channel with threads := channel.threads.filter fun _ used => used ≥ time - window }) :=
    h.map fun _ _ hsound => hsound.filter _
  unfold Snapshot.pruneThreads evictThreads
  dsimp only
  split
  · exact hrecent.removeThreads _
  · exact hrecent

theorem length_removeThreads (removed : List (Int ×ₗ Str ×ₗ Str))
    (channels : SortedMap Str Channel) :
    (removeThreads removed channels).length = channels.length := by
  induction removed generalizing channels with
  | nil => rfl
  | cons thread rest ih => exact (ih _).trans (SortedMap.length_modify ..)

theorem length_pruneThreads (window time : Int) (channels : SortedMap Str Channel) :
    (pruneThreads window time channels).length = channels.length := by
  unfold pruneThreads evictThreads
  dsimp only
  split
  · exact (length_removeThreads ..).trans (SortedMap.length_map ..)
  · exact SortedMap.length_map ..

theorem Contents.prune (h : Contents team user now data) (window time : Int) :
    Limits team user now (data.prune window time) where
  version := h.version
  team := h.team
  user := h.user
  channels := (length_pruneThreads window time data.channels).le.trans h.channels
  sound := h.sound.pruneThreads window time
  records := fun record hmem => by
    rw [seen_prune] at hmem
    exact h.records record (pruneSeen_subset _ _ _ hmem)
  threads := threadCount_pruneThreads window time data.channels
  seen := by
    rw [seen_prune]
    exact length_pruneSeen window time data.seen

theorem Contents.onChannel (h : Contents team user now data) {change : Channel → Channel}
    (hchange : ∀ channel, ChannelSound now channel → ChannelSound now (change channel))
    (id : Str) : Contents team user now (data.onChannel id change) :=
  { h with
    channels := h.channels.trans' (SortedMap.length_modify ..).le
    sound := h.sound.modify hchange id }

theorem threadCount_modify_le {change : Channel → Channel}
    (hthreads : ∀ channel, (change channel).threads.length ≤ channel.threads.length)
    (channels : SortedMap Str Channel) (id : Str) :
    threadCount (channels.modify id change) ≤ threadCount channels := by
  refine SortedMap.total_map_le (fun other channel => ?_) channels
  split
  · exact hthreads channel
  · exact Nat.le_refl _

theorem Limits.onChannel (h : Limits team user now data) {change : Channel → Channel}
    (hchange : ∀ channel, ChannelSound now channel → ChannelSound now (change channel))
    (hthreads : ∀ channel, (change channel).threads.length ≤ channel.threads.length)
    (id : Str) : Limits team user now (data.onChannel id change) :=
  { h.toContents.onChannel hchange id with
    threads := (threadCount_modify_le hthreads data.channels id).trans h.threads
    seen := h.seen }

theorem Contents.noteThread (h : Contents team user now data) {time : Int} (htime : InI64 time)
    (id parent : Str) : Contents team user now (data.noteThread id parent time) := by
  unfold Snapshot.noteThread
  split
  · rename_i hvalid
    refine h.onChannel ?_ id
    refine fun channel hsound => ⟨hsound.covered, fun ts used hmem => ?_⟩
    rcases (SortedMap.mem_insertEntry channel.threads.sorted).mp hmem with heq | ⟨-, hmem⟩
    · cases heq
      exact ⟨hvalid, htime⟩
    · exact hsound.threads ts used hmem
  · exact h

theorem beginChannels_induction {window time : Int} {P : SortedMap Str Channel → Prop}
    (hinsert : ∀ channels id, P channels → validId id = true →
      channels.contains id = true ∨ channels.length < MAX_CHANNELS →
      P (channels.insert id (beginChannel window time (channels.get id))))
    (joined : List Str) (h : P channels) : P (beginChannels window time joined channels).1 := by
  induction joined generalizing channels with
  | nil => exact h
  | cons id rest ih =>
      unfold beginChannels
      split
      · exact h
      · rename_i hvalid
        split
        · exact h
        · rename_i hroom
          exact ih (hinsert channels id h (not_not.mp hvalid) (not_not.mp hroom))

theorem length_insert_room {id : Str} (channel : Channel)
    (hroom : channels.contains id = true ∨ channels.length < MAX_CHANNELS)
    (h : channels.length ≤ MAX_CHANNELS) : (channels.insert id channel).length ≤ MAX_CHANNELS := by
  rw [SortedMap.length_insert]
  split
  · exact h
  · rename_i hnew
    exact hroom.resolve_left hnew

theorem threadCount_insert {id : Str} {channel : Channel}
    (hthreads : channel.threads = ((channels.get id).map Channel.threads).getD .empty) :
    threadCount (channels.insert id channel) = threadCount channels := by
  have htotal := channels.total_insert (fun channel => channel.threads.length) id channel
  have hsame : ((channels.get id).map fun channel => channel.threads.length).getD 0 =
      channel.threads.length := by
    rw [hthreads]
    cases channels.get id <;> rfl
  unfold threadCount
  omega

theorem channelSound_new {time : Int} (htime : 0 ≤ time) (hnow : time ≤ now) :
    ChannelSound now (newChannel time) :=
  ⟨⟨htime, by unfold newChannel; dsimp only; omega⟩, fun _ _ hmem => absurd hmem List.not_mem_nil⟩

theorem channelSound_begin {window time : Int} (hwindow : 0 ≤ window) (hlong : window ≤ time)
    (hnow : time ≤ now) {existing : Option Channel}
    (h : ∀ channel, existing = some channel → ChannelSound now channel) :
    ChannelSound now (beginChannel window time existing) := by
  have hchannel : ChannelSound now (existing.getD (newChannel time)) := by
    cases existing with
    | none => exact channelSound_new (hwindow.trans hlong) hnow
    | some channel => exact h channel rfl
  refine ⟨?_, hchannel.threads⟩
  have hcovered := hchannel.covered
  unfold beginChannel
  dsimp only
  split <;> omega

theorem Limits.begin (h : Limits team user now data) {window time : Int} (hwindow : 0 ≤ window)
    (hlong : window ≤ time) (hnow : time ≤ now) (joined : List Str) :
    Limits team user now (data.beginConnection window joined time).1 := by
  have hbegun : Limits team user now { data with
      channels := (beginChannels window time joined
        (data.channels.filter fun id _ => joined.contains id)).1 } :=
    { h with
      channels := by
        refine beginChannels_induction (P := fun channels => channels.length ≤ MAX_CHANNELS)
          (fun channels id hlength _ hroom => length_insert_room _ hroom hlength) joined ?_
        exact (SortedMap.length_filter_le ..).trans h.channels
      sound := by
        refine beginChannels_induction (fun channels id hsound hvalid _ => hsound.insert hvalid ?_)
          joined (h.sound.filter _)
        exact channelSound_begin hwindow hlong hnow fun channel hget => (hsound id channel hget).2
      threads := by
        refine beginChannels_induction (P := fun channels => threadCount channels ≤ MAX_THREADS)
          (fun channels id hcount _ _ => ?_) joined ?_
        · refine (threadCount_insert ?_).le.trans hcount
          cases hget : channels.get id <;> rfl
        · exact (SortedMap.total_filter_le ..).trans h.threads }
  unfold beginConnection
  dsimp only
  split
  · exact hbegun.toContents.prune window time
  · exact hbegun

theorem Limits.add (h : Limits team user now data) {id : Str} {time : Int} (htime : 0 ≤ time)
    (hnow : time ≤ now) {after : Snapshot} (hadd : data.addChannel id time = .ok after) :
    Limits team user now after := by
  unfold addChannel at hadd
  split at hadd
  · rename_i hroom
    cases Except.ok.inj hadd
    have hchannel : ChannelSound now ((data.channels.get id).getD (newChannel time)) := by
      cases hget : data.channels.get id with
      | none => exact channelSound_new htime hnow
      | some channel => exact (h.sound id channel hget).2
    exact { h with
      channels := length_insert_room _ hroom.2 h.channels
      sound := h.sound.insert hroom.1 hchannel
      threads := by
        refine (threadCount_insert ?_).le.trans h.threads
        cases hget : data.channels.get id <;> rfl }
  · contradiction

end

/-- The operations of a store with what the session passes to them. -/
inductive Operation where
  | beginConnection (joined : List Str) (began : Int)
  | addChannel (id : Str) (time : Int)
  | rememberThread (id parent : Str)
  | processed (channel ts : Str) (thread : Option Str) (time : Int)
  | forgetThread (id ts : Str)
  | failed (id : Str)
  | retryChannel (id : Str)
  | finishRecovery (id : Str) (through : Int)
  | checkpoint (through : Int)

def MAX_WINDOW : Int := 604800

namespace Operation

/-- An operation at a clock; what it did before it failed stays done. -/
def apply (window now : Int) (data : Snapshot) : Operation → Snapshot
  | .beginConnection joined began => (data.beginConnection window joined began).1
  | .addChannel id time =>
      match data.addChannel id time with
      | .ok after => after
      | .error _ => data
  | .rememberThread id parent => data.rememberThread window id parent now
  | .processed channel ts thread time => data.processed window channel ts thread time
  | .forgetThread id ts => data.forgetThread id ts
  | .failed id => data.failed id
  | .retryChannel id => data.retryChannel id
  | .finishRecovery id through => data.finishRecovery id through
  | .checkpoint through => data.checkpoint window through now

/-- Times come from the clock, and processed messages were normalised. -/
def permitted (now : Int) : Operation → Bool
  | .beginConnection _ time | .addChannel _ time => MAX_WINDOW < time ∧ time ≤ now
  | .processed channel ts _ time =>
      validId channel && validTs ts && MAX_WINDOW < time && time ≤ now
  | .finishRecovery _ through | .checkpoint through => through ≤ now
  | _ => true

end Operation

theorem Limits.apply {team user : Str} {now window : Int} {data : Snapshot}
    (h : Limits team user now data) (hwindow : 0 ≤ window ∧ window ≤ MAX_WINDOW)
    (hnow : MAX_WINDOW < now ∧ now ≤ Harvest.maxSeconds) {operation : Operation}
    (hpermitted : operation.permitted now = true) :
    Limits team user now (operation.apply window now data) := by
  have hmax : (Harvest.maxSeconds : Int) = 8210266876799 := rfl
  have hlongest : MAX_WINDOW = 604800 := rfl
  have hwide : ∀ {time : Int}, MAX_WINDOW < time → time ≤ now → InI64 time := by
    intro time hlow hhigh
    unfold InI64
    omega
  cases operation with
  | beginConnection joined time =>
      have htime := of_decide_eq_true hpermitted
      exact h.begin hwindow.1 (by omega) htime.2 joined
  | addChannel id time =>
      have htime := of_decide_eq_true hpermitted
      simp only [Operation.apply]
      split
      · exact h.add (by omega) htime.2 ‹_›
      · exact h
  | rememberThread id parent =>
      exact (h.toContents.noteThread (hwide hnow.1 (le_refl _)) id parent).prune window now
  | processed channel ts thread time =>
      simp only [Operation.permitted, Bool.and_eq_true, decide_eq_true_eq] at hpermitted
      obtain ⟨⟨⟨hchannel, hts⟩, hlow⟩, hhigh⟩ := hpermitted
      have htime := hwide hlow hhigh
      have hpushed : Contents team user now
          { data with seen := data.seen ++ [⟨channel, ts, time⟩] } :=
        { h.toContents with
          records := fun record hmem => (List.mem_append.mp hmem).elim (h.records record)
            fun hnew => List.mem_singleton.mp hnew ▸ ⟨hchannel, hts, htime⟩ }
      cases thread with
      | none => exact hpushed.prune window time
      | some parent => exact (hpushed.noteThread htime channel parent).prune window time
  | forgetThread id ts =>
      exact h.onChannel (fun _ hsound => hsound.filter _)
        (fun _ => List.length_filter_le ..) id
  | failed id =>
      refine h.onChannel ?_ ?_ id
      · exact fun _ hsound => ⟨hsound.covered, hsound.threads⟩
      · exact fun _ => Nat.le_refl _
  | retryChannel id =>
      refine h.onChannel ?_ ?_ id
      · exact fun _ hsound => ⟨hsound.covered, hsound.threads⟩
      · exact fun _ => Nat.le_refl _
  | finishRecovery id through =>
      have hthrough := of_decide_eq_true hpermitted
      refine h.onChannel (fun channel hsound => ?_) (fun channel => ?_) id
      · have hcovered := hsound.covered
        split
        · exact ⟨by dsimp only; omega, hsound.threads⟩
        · exact hsound
      · split <;> exact Nat.le_refl _
  | checkpoint through =>
      have hthrough := of_decide_eq_true hpermitted
      have hadvanced : Contents team user now
          { data with channels := data.channels.map fun _ channel =>
            if ¬ channel.recovering ∧ ¬ channel.failed then
              { channel with coveredUntil := max channel.coveredUntil through }
            else channel } :=
        { h.toContents with
          channels := h.channels.trans' (SortedMap.length_map ..).le
          sound := h.sound.map fun id channel hsound => by
            have hcovered := hsound.covered
            split
            · exact ⟨by dsimp only; omega, hsound.threads⟩
            · exact hsound }
      exact hadvanced.prune window now

structure Opened where
  data : Snapshot
  now : Int

inductive Action where
  | wait (later : Int)
  | call (operation : Operation)

def step (window : Int) (s : Opened) : Action → Option Opened
  | .wait later =>
      if s.now ≤ later ∧ later ≤ Harvest.maxSeconds then some { s with now := later } else none
  | .call operation =>
      if operation.permitted s.now then
        some { s with data := operation.apply window s.now s.data }
      else none

structure OpenedInv (team user : Str) (s : Opened) : Prop where
  clock : MAX_WINDOW < s.now ∧ s.now ≤ Harvest.maxSeconds
  validTeam : validId team = true
  validUser : validId user = true
  limits : Limits team user s.now s.data

def store (fromSlice : List UInt8 → Option Snapshot) (window : Int) (team user : Str) :
    System Opened Action where
  start := fun s => MAX_WINDOW < s.now ∧ s.now ≤ Harvest.maxSeconds ∧
    ∃ disk, openStore fromSlice disk team user s.now = .ok s.data
  step := step window

section

variable {fromSlice : List UInt8 → Option Snapshot} {window : Int} {team user : Str} {s : Opened}

theorem openedInv_start (hwide : ∀ bytes data, fromSlice bytes = some data → Wide data)
    (hclock : MAX_WINDOW < s.now ∧ s.now ≤ Harvest.maxSeconds) {disk : Disk}
    (hopen : openStore fromSlice disk team user s.now = .ok s.data) : OpenedInv team user s :=
  have ⟨hteam, huser, hlimits⟩ := limits_opened hwide hopen
  ⟨hclock, hteam, huser, hlimits⟩

theorem OpenedInv.step (h : OpenedInv team user s) (hwindow : 0 ≤ window ∧ window ≤ MAX_WINDOW)
    {a : Action} {t : Opened} (hs : Persist.step window s a = some t) : OpenedInv team user t := by
  cases a with
  | wait later =>
      simp only [Persist.step] at hs
      split at hs
      · rename_i hlater
        cases Option.some.inj hs
        exact ⟨⟨h.clock.1.trans_le hlater.1, hlater.2⟩, h.validTeam, h.validUser,
          h.limits.later hlater.1⟩
      · contradiction
  | call operation =>
      simp only [Persist.step] at hs
      split at hs
      · rename_i hpermitted
        cases Option.some.inj hs
        exact ⟨h.clock, h.validTeam, h.validUser, h.limits.apply hwindow h.clock hpermitted⟩
      · contradiction

theorem now_le_step {a : Action} {t : Opened} (hs : Persist.step window s a = some t) :
    s.now ≤ t.now := by
  cases a <;> simp only [Persist.step] at hs <;> split at hs
  · rename_i hlater
    cases Option.some.inj hs
    exact hlater.1
  · contradiction
  · cases Option.some.inj hs
    exact le_refl _
  · contradiction

theorem openedInv_reachable (hwide : ∀ bytes data, fromSlice bytes = some data → Wide data)
    (hwindow : 0 ≤ window ∧ window ≤ MAX_WINDOW)
    (h : Reachable (store fromSlice window team user) s) : OpenedInv team user s :=
  h.invariant (fun _ ⟨hlow, hhigh, _, hopen⟩ => openedInv_start hwide ⟨hlow, hhigh⟩ hopen)
    fun _ _ _ _ hinv _ hs => hinv.step hwindow hs

/-- Whatever the operations were, the state keeps its limits, is saved, and is read
back with the same progress. -/
theorem saved_and_reopened (hwide : ∀ bytes data, fromSlice bytes = some data → Wide data)
    (hwindow : 1 ≤ window ∧ window ≤ MAX_WINDOW)
    (h : Reachable (store fromSlice window team user) s)
    (hround : fromSlice (toVec s.data) = some s.data.restored) :
    s.data.channels.length ≤ MAX_CHANNELS ∧ threadCount s.data.channels ≤ MAX_THREADS ∧
    s.data.seen.length ≤ MAX_SEEN ∧ (toVec s.data).length < MAX_STATE_BYTES ∧
    saveBytes s.data = some (toVec s.data) ∧
    ∀ later, s.now ≤ later → ∃ again,
      openStore fromSlice ⟨true, true, false, .bytes (toVec s.data)⟩ team user later = .ok again ∧
      again.seen = s.data.seen ∧ ∀ id, again.channels.get id = (s.data.channels.get id).map
        fun channel => ⟨channel.coveredUntil, channel.threads, false, false⟩ := by
  obtain ⟨hnow, hteam, huser, hlimits⟩ := openedInv_reachable hwide (by omega) h
  have hsize := toVec_lt hnow.2 hteam huser hlimits
  refine ⟨hlimits.channels, hlimits.threads, hlimits.seen, hsize, if_pos hsize.le,
    fun later hlater => ⟨s.data.restored, ?_, rfl, fun id => ?_⟩⟩
  · exact openStore_saved hteam huser hlimits hlater hsize.le hround
  · exact SortedMap.get_map ..

end

def sampleOperations : List Action :=
  [.call (.beginConnection ["C1".toList] 1000000000),
    .call (.processed "C1".toList "1000000000.000001".toList none 1000000000),
    .wait 1000000005,
    .call (.processed "C1".toList "1000000004.000001".toList (some "1000000000.000001".toList)
      1000000005),
    .call (.checkpoint 1000000003)]

def sampleState : Snapshot where
  version := 1
  team := "T1".toList
  user := "U1".toList
  channels := SortedMap.empty.insert "C1".toList
    ⟨1000000003, SortedMap.empty.insert "1000000000.000001".toList 1000000005, false, false⟩
  seen := [⟨"C1".toList, "1000000000.000001".toList, 1000000000⟩,
    ⟨"C1".toList, "1000000004.000001".toList, 1000000005⟩]

def readSample (bytes : List UInt8) : Option Snapshot :=
  if bytes = toVec sampleState then some sampleState.restored else none

theorem wide_of_readSample {bytes : List UInt8} {data : Snapshot}
    (h : readSample bytes = some data) : Wide data := by
  unfold readSample at h
  split at h
  · cases Option.some.inj h
    refine ⟨fun entry hmem thread hthread => ?_, fun record hmem => ?_⟩
    · cases List.mem_singleton.mp hmem
      cases List.mem_singleton.mp hthread
      exact ⟨by decide, by decide⟩
    · rcases List.mem_cons.mp hmem with rfl | hmem
      · exact ⟨by decide, by decide⟩
      · cases List.mem_singleton.mp hmem
        exact ⟨by decide, by decide⟩
  · contradiction

theorem saved_and_reopened_sample :
    ∃ again, openStore readSample ⟨true, true, false, .bytes (toVec sampleState)⟩ "T1".toList
      "U1".toList 1000000060 = .ok again ∧ again.seen = sampleState.seen := by
  have hrun : ∃ s : Opened, Reachable (store readSample 86400 "T1".toList "U1".toList) s ∧
      (s.data = sampleState ∧ s.now = 1000000005) :=
    exists_reachable (s := ⟨.fresh "T1".toList "U1".toList, 1000000000⟩) sampleOperations
      ⟨by decide, by decide, ⟨true, true, false, .missing⟩, rfl⟩ (by decide)
  obtain ⟨s, hs, hdata, hnow⟩ := hrun
  obtain ⟨-, -, -, -, -, hopen⟩ := saved_and_reopened (fun _ _ => wide_of_readSample) (by decide)
    hs (by rw [hdata]; exact if_pos rfl)
  obtain ⟨again, hagain, hseen, -⟩ := hopen 1000000060 (by rw [hnow]; decide)
  rw [hdata] at hagain hseen
  exact ⟨again, hagain, hseen⟩

end SjmbSlack.UserSession.Persist
