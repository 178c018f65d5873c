import SjmbSlack.UserSession.Store
import Mathlib.Data.Nat.Digits.Defs

/-! The state file of an account: the JSON that `Store::save` writes and what
`Store::open` accepts. Reading the JSON is a parameter. -/
namespace SjmbSlack.UserSession.Persist

def QUOTE : Char := Char.ofNat 34
def BACKSLASH : Char := Char.ofNat 92

def escaped (ch : Char) : Str :=
  if ch = QUOTE ∨ ch = BACKSLASH then [BACKSLASH, ch]
  else if 32 ≤ ch.toNat then [ch]
  else match ch.toNat with
    | 8 => [BACKSLASH, 'b']
    | 9 => [BACKSLASH, 't']
    | 10 => [BACKSLASH, 'n']
    | 12 => [BACKSLASH, 'f']
    | 13 => [BACKSLASH, 'r']
    | code => [BACKSLASH, 'u', '0', '0', Nat.digitChar (code / 16), Nat.digitChar (code % 16)]

def quoted (text : Str) : Str := QUOTE :: text.flatMap escaped ++ [QUOTE]

def decimal (value : Int) : Str :=
  if value < 0 then '-' :: Nat.toDigits 10 value.natAbs else Nat.toDigits 10 value.natAbs

def separated : List Str → Str
  | [] => []
  | [text] => text
  | text :: rest => text ++ ',' :: separated rest

def array (items : List Str) : Str := '[' :: separated items ++ [']']

def object (fields : List (Str × Str)) : Str :=
  '\x7b' :: separated (fields.map fun field => quoted field.1 ++ ':' :: field.2) ++ ['\x7d']

def channelText (channel : Channel) : Str :=
  object [("covered_until".toList, decimal channel.coveredUntil),
    ("threads".toList, object (channel.threads.entries.map fun thread => (thread.1, decimal thread.2)))]

def seenText (record : Seen) : Str :=
  object [("channel".toList, quoted record.channel), ("ts".toList, quoted record.ts),
    ("processed_at".toList, decimal record.processedAt)]

def snapshotText (data : Snapshot) : Str :=
  object [("version".toList, decimal data.version), ("team".toList, quoted data.team),
    ("user".toList, quoted data.user),
    ("channels".toList, object (data.channels.entries.map fun entry =>
      (entry.1, channelText entry.2))),
    ("seen".toList, array (data.seen.map seenText))]

def toVec (data : Snapshot) : List UInt8 := (snapshotText data).flatMap String.utf8EncodeChar

/-- What `save` writes to the temporary file; `none` where the state is too large. -/
def saveBytes (data : Snapshot) : Option (List UInt8) :=
  let bytes := toVec data
  if bytes.length ≤ MAX_STATE_BYTES then some bytes else none

inductive OpenError where
  | identity
  | directory
  | lockFile
  | inUse
  | read
  | tooLarge
  | invalid
  | mismatch
  | entryLimit
  | checkpoint
  | threadTimestamp
  | tooManyThreads
  | duplicates
  deriving DecidableEq

inductive StateFile where
  | missing
  | unreadable
  | bytes (content : List UInt8)

/-- What `open` finds: whether the directory and the lock file can be created,
whether another process holds the lock, and the state file. -/
structure Disk where
  directory : Bool
  lockFile : Bool
  inUse : Bool
  file : StateFile

def ensure (condition : Bool) (error : OpenError) : Except OpenError Unit :=
  if condition then .ok () else .error error

def checkChannels (now : Int) : List (Str × Channel) → Nat → Except OpenError Nat
  | [], count => .ok count
  | (id, channel) :: rest, count => do
      ensure (validId id && 0 ≤ channel.coveredUntil && channel.coveredUntil ≤ now + 300) .checkpoint
      ensure (channel.threads.keys.all validTs) .threadTimestamp
      checkChannels now rest (count + channel.threads.length)

def checkSnapshot (team user : Str) (now : Int) (data : Snapshot) : Except OpenError Unit := do
  ensure (data.version = VERSION && data.team = team && data.user = user) .mismatch
  ensure (data.channels.length ≤ MAX_CHANNELS && data.seen.length ≤ MAX_SEEN) .entryLimit
  let threads ← checkChannels now data.channels.entries 0
  ensure (threads ≤ MAX_THREADS) .tooManyThreads
  ensure (data.seen.all fun record => validId record.channel && validTs record.ts) .duplicates

/-- `Store::open`; `fromSlice` reads the JSON of a state. -/
def openStore (fromSlice : List UInt8 → Option Snapshot) (disk : Disk) (team user : Str)
    (now : Int) : Except OpenError Snapshot := do
  ensure (validId team && validId user) .identity
  ensure disk.directory .directory
  ensure disk.lockFile .lockFile
  ensure (!disk.inUse) .inUse
  match disk.file with
  | .missing => return .fresh team user
  | .unreadable => .error .read
  | .bytes content =>
      let bytes := content.take (MAX_STATE_BYTES + 1)
      ensure (bytes.length ≤ MAX_STATE_BYTES) .tooLarge
      let data ← (fromSlice bytes).elim (.error .invalid) .ok
      checkSnapshot team user now data
      return data

def InI64 (value : Int) : Prop := -2 ^ 63 ≤ value ∧ value < 2 ^ 63

structure ChannelSound (now : Int) (channel : Channel) : Prop where
  covered : 0 ≤ channel.coveredUntil ∧ channel.coveredUntil ≤ now + 300
  threads : ∀ ts time, (ts, time) ∈ channel.threads.entries → validTs ts = true ∧ InI64 time

structure SeenSound (record : Seen) : Prop where
  channel : validId record.channel = true
  ts : validTs record.ts = true
  processedAt : InI64 record.processedAt

def AllSound (now : Int) (channels : SortedMap Str Channel) : Prop :=
  ∀ id channel, channels.get id = some channel → validId id = true ∧ ChannelSound now channel

structure Contents (team user : Str) (now : Int) (data : Snapshot) : Prop where
  version : data.version = VERSION
  team : data.team = team
  user : data.user = user
  channels : data.channels.length ≤ MAX_CHANNELS
  sound : AllSound now data.channels
  records : ∀ record ∈ data.seen, SeenSound record

/-- What `open` asks of a state. -/
structure Limits (team user : Str) (now : Int) (data : Snapshot) : Prop
    extends Contents team user now data where
  threads : Snapshot.threadCount data.channels ≤ MAX_THREADS
  seen : data.seen.length ≤ MAX_SEEN

/-- The numbers of a state that was read are of their type. -/
structure Wide (data : Snapshot) : Prop where
  threads : ∀ entry ∈ data.channels.entries, ∀ thread ∈ entry.2.threads.entries, InI64 thread.2
  records : ∀ record ∈ data.seen, InI64 record.processedAt

theorem ensure_ok {condition : Bool} {error : OpenError} {next : Except OpenError α} {value : α} :
    (do ensure condition error; next) = .ok value ↔ condition = true ∧ next = .ok value := by
  cases condition with
  | true => exact (and_iff_right rfl).symm
  | false => exact ⟨fun h => (nomatch h), fun h => (nomatch h.1)⟩

theorem ensure_ok_unit {condition : Bool} {error : OpenError} :
    ensure condition error = .ok () ↔ condition = true := by
  cases condition with
  | true => exact iff_of_true rfl rfl
  | false => exact ⟨fun h => (nomatch h), fun h => (nomatch h)⟩

theorem checkChannels_ok {now : Int} {entries : List (Str × Channel)} {count result : Nat} :
    checkChannels now entries count = .ok result ↔
      (∀ entry ∈ entries, (validId entry.1 = true ∧ 0 ≤ entry.2.coveredUntil ∧
        entry.2.coveredUntil ≤ now + 300) ∧ ∀ ts ∈ entry.2.threads.keys, validTs ts = true) ∧
      result = count + (entries.map fun entry => entry.2.threads.length).sum := by
  induction entries generalizing count with
  | nil =>
      simp only [checkChannels, List.map_nil, List.sum_nil, Nat.add_zero, Except.ok.injEq]
      exact ⟨fun h => ⟨fun _ hmem => absurd hmem List.not_mem_nil, h.symm⟩, fun h => h.2.symm⟩
  | cons entry rest ih =>
      simp only [checkChannels, ensure_ok, ih, List.forall_mem_cons, List.map_cons, List.sum_cons,
        Bool.and_eq_true, decide_eq_true_eq, List.all_eq_true]
      constructor
      · rintro ⟨⟨⟨hid, hlow⟩, hhigh⟩, hkeys, hrest, rfl⟩
        exact ⟨⟨⟨⟨hid, hlow, hhigh⟩, hkeys⟩, hrest⟩, Nat.add_assoc ..⟩
      · rintro ⟨⟨⟨⟨hid, hlow, hhigh⟩, hkeys⟩, hrest⟩, rfl⟩
        exact ⟨⟨⟨hid, hlow⟩, hhigh⟩, hkeys, hrest, (Nat.add_assoc ..).symm⟩

theorem checkSnapshot_ok {team user : Str} {now : Int} {data : Snapshot} :
    checkSnapshot team user now data = .ok () ∧ Wide data ↔ Limits team user now data := by
  have hcheck : checkSnapshot team user now data = .ok () ↔
      ((data.version = VERSION ∧ data.team = team) ∧ data.user = user) ∧
      (data.channels.length ≤ MAX_CHANNELS ∧ data.seen.length ≤ MAX_SEEN) ∧
      ∃ threads, checkChannels now data.channels.entries 0 = .ok threads ∧
        threads ≤ MAX_THREADS ∧
        ∀ record ∈ data.seen, validId record.channel = true ∧ validTs record.ts = true := by
    unfold checkSnapshot
    rw [ensure_ok, ensure_ok]
    simp only [Bool.and_eq_true, decide_eq_true_eq]
    cases checkChannels now data.channels.entries 0 with
    | error error =>
        exact ⟨fun h => (nomatch h.2.2), fun ⟨_, _, _, h, _⟩ => (nomatch h)⟩
    | ok threads =>
        change _ ∧ _ ∧ (do ensure _ _; ensure _ _) = .ok () ↔ _
        rw [ensure_ok, ensure_ok_unit]
        simp
  rw [hcheck]
  simp only [checkChannels_ok, Nat.zero_add]
  constructor
  · rintro ⟨⟨⟨⟨hversion, hteam⟩, huser⟩, ⟨hchannels, hseen⟩, _, ⟨hentries, rfl⟩, hthreads,
      hrecords⟩, hwide⟩
    refine ⟨⟨hversion, hteam, huser, hchannels, fun id channel hget => ?_,
      fun record hmem => ⟨(hrecords record hmem).1, (hrecords record hmem).2,
        hwide.records record hmem⟩⟩, hthreads, hseen⟩
    have hmem := SortedMap.get_eq_some.mp hget
    obtain ⟨⟨hid, hcovered⟩, hkeys⟩ := hentries _ hmem
    exact ⟨hid, hcovered, fun ts time hthread =>
      ⟨hkeys ts (List.mem_map_of_mem hthread), hwide.threads _ hmem _ hthread⟩⟩
  · intro h
    refine ⟨⟨⟨⟨h.version, h.team⟩, h.user⟩, ⟨h.channels, h.seen⟩, _, ⟨fun entry hmem => ?_, rfl⟩,
      h.threads, fun record hmem => ⟨(h.records record hmem).channel, (h.records record hmem).ts⟩⟩,
      ⟨fun entry hmem thread hthread => ?_, fun record hmem => (h.records record hmem).processedAt⟩⟩
    · obtain ⟨hid, hsound⟩ := h.sound entry.1 entry.2 (SortedMap.get_eq_some.mpr hmem)
      refine ⟨⟨hid, hsound.covered⟩, fun ts hts => ?_⟩
      obtain ⟨thread, hthread, rfl⟩ := List.mem_map.mp hts
      exact (hsound.threads _ _ hthread).1
    · have hsound := (h.sound entry.1 entry.2 (SortedMap.get_eq_some.mpr hmem)).2
      exact (hsound.threads _ _ hthread).2

theorem limits_fresh (team user : Str) (now : Int) : Limits team user now (.fresh team user) where
  version := rfl
  team := rfl
  user := rfl
  channels := Nat.zero_le _
  sound := fun _ _ hget => (nomatch hget)
  records := fun _ hmem => absurd hmem List.not_mem_nil
  threads := Nat.zero_le _
  seen := Nat.zero_le _

theorem limits_opened {fromSlice : List UInt8 → Option Snapshot}
    (hwide : ∀ bytes data, fromSlice bytes = some data → Wide data) {disk : Disk}
    {team user : Str} {now : Int} {data : Snapshot}
    (h : openStore fromSlice disk team user now = .ok data) :
    validId team = true ∧ validId user = true ∧ Limits team user now data := by
  unfold openStore at h
  obtain ⟨hidentity, h⟩ := ensure_ok.mp h
  obtain ⟨hteam, huser⟩ := (Bool.and_eq_true ..).mp hidentity
  obtain ⟨-, h⟩ := ensure_ok.mp h
  obtain ⟨-, h⟩ := ensure_ok.mp h
  obtain ⟨-, h⟩ := ensure_ok.mp h
  refine ⟨hteam, huser, ?_⟩
  cases hfile : disk.file with
  | missing =>
      rw [hfile] at h
      cases Except.ok.inj h
      exact limits_fresh team user now
  | unreadable =>
      rw [hfile] at h
      contradiction
  | bytes content =>
      rw [hfile] at h
      obtain ⟨-, h⟩ := ensure_ok.mp h
      cases hread : fromSlice (content.take (MAX_STATE_BYTES + 1)) with
      | none =>
          rw [hread] at h
          contradiction
      | some read =>
          rw [hread] at h
          change (do checkSnapshot team user now read; return read) = .ok data at h
          cases hcheck : checkSnapshot team user now read with
          | error error =>
              rw [hcheck] at h
              contradiction
          | ok _ =>
              rw [hcheck] at h
              cases Except.ok.inj h
              exact checkSnapshot_ok.mp ⟨hcheck, hwide _ _ hread⟩

theorem AllSound.later {now later : Int} {channels : SortedMap Str Channel}
    (h : AllSound now channels) (hlater : now ≤ later) : AllSound later channels := by
  intro id channel hget
  obtain ⟨hid, ⟨hlow, hhigh⟩, hthreads⟩ := h id channel hget
  exact ⟨hid, ⟨hlow, by omega⟩, hthreads⟩

theorem AllSound.map {now : Int} {channels : SortedMap Str Channel}
    {change : Str → Channel → Channel} (h : AllSound now channels)
    (hchange : ∀ id channel, ChannelSound now channel → ChannelSound now (change id channel)) :
    AllSound now (channels.map change) := by
  intro id channel hget
  rw [SortedMap.get_map] at hget
  obtain ⟨before, hbefore, rfl⟩ := Option.map_eq_some_iff.mp hget
  obtain ⟨hid, hsound⟩ := h id before hbefore
  exact ⟨hid, hchange id before hsound⟩

theorem Limits.later {team user : Str} {now later : Int} {data : Snapshot}
    (h : Limits team user now data) (hlater : now ≤ later) : Limits team user later data :=
  { h with sound := h.sound.later hlater }

theorem threadCount_restored (data : Snapshot) :
    Snapshot.threadCount data.restored.channels = Snapshot.threadCount data.channels :=
  congrArg List.sum (List.map_map ..)

theorem Limits.restored {team user : Str} {now : Int} {data : Snapshot}
    (h : Limits team user now data) : Limits team user now data.restored :=
  { h with
    channels := h.channels.trans' (SortedMap.length_map ..).le
    threads := h.threads.trans' (threadCount_restored data).le
    sound := h.sound.map fun _ _ hsound => ⟨hsound.covered, hsound.threads⟩ }

theorem openStore_saved {fromSlice : List UInt8 → Option Snapshot} {team user : Str}
    {now later : Int} {data : Snapshot} (hteam : validId team = true)
    (huser : validId user = true) (h : Limits team user now data) (hlater : now ≤ later)
    (hbytes : (toVec data).length ≤ MAX_STATE_BYTES)
    (hround : fromSlice (toVec data) = some data.restored) :
    openStore fromSlice ⟨true, true, false, .bytes (toVec data)⟩ team user later =
      .ok data.restored := by
  have hcheck := (checkSnapshot_ok.mpr (h.restored.later hlater)).1
  have htake : (toVec data).take (MAX_STATE_BYTES + 1) = toVec data :=
    List.take_of_length_le (Nat.le_succ_of_le hbytes)
  unfold openStore
  refine ensure_ok.mpr ⟨(Bool.and_eq_true ..).mpr ⟨hteam, huser⟩, ?_⟩
  refine ensure_ok.mpr ⟨rfl, ensure_ok.mpr ⟨rfl, ensure_ok.mpr ⟨rfl, ?_⟩⟩⟩
  dsimp only
  rw [htake]
  refine ensure_ok.mpr ⟨decide_eq_true hbytes, ?_⟩
  rw [hround]
  change (do checkSnapshot team user later data.restored; return data.restored) = _
  rw [hcheck]
  rfl

end SjmbSlack.UserSession.Persist
