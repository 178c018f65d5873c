import SjmbSlack.Harvest.Timestamp
import SjmbSlack.Library.SortedMap
import Mathlib.Data.Char
import Mathlib.Data.Prod.Lex

/-! `Store`: the recovery state of one account. Operations take the recovery
window and, where the source reads the clock, the second it reads. -/
namespace SjmbSlack.UserSession

def VERSION : Nat := 1
def MAX_STATE_BYTES : Nat := 16 * 1024 * 1024
def MAX_CHANNELS : Nat := 4096
def MAX_THREADS : Nat := 4096
def MAX_SEEN : Nat := 32768
def OVERLAP : Int := 120

structure Channel where
  coveredUntil : Int
  threads : SortedMap Str Int
  /-- Not persisted. -/
  recovering : Bool
  /-- Not persisted. -/
  failed : Bool
  deriving DecidableEq

structure Seen where
  channel : Str
  ts : Str
  processedAt : Int
  deriving DecidableEq

structure Snapshot where
  version : Nat
  team : Str
  user : Str
  channels : SortedMap Str Channel
  seen : List Seen
  deriving DecidableEq

inductive StoreError where
  | invalidChannelId
  | tooManyChannels
  | channelLimit
  deriving DecidableEq

def validId (id : Str) : Bool :=
  id ≠ [] && id.byteLength ≤ 64 && id.all Str.isAsciiAlphanumeric

def validTs (ts : Str) : Bool :=
  ts.byteLength ≤ 32 && (Harvest.messageTimestamp ts).isSome

namespace Snapshot

def fresh (team user : Str) : Snapshot := ⟨VERSION, team, user, .empty, []⟩

/-- A saved state as it is read back: the flags of the channels are not persisted. -/
def restored (data : Snapshot) : Snapshot :=
  { data with channels := data.channels.map fun _ channel =>
      { channel with recovering := false, failed := false } }

def threadsOf (channels : SortedMap Str Channel) : List (Int ×ₗ Str ×ₗ Str) :=
  channels.entries.flatMap fun (id, channel) =>
    channel.threads.entries.map fun (ts, time) => toLex (time, toLex (id, ts))

def removeThread (channels : SortedMap Str Channel) (id ts : Str) : SortedMap Str Channel :=
  channels.modify id fun channel => { channel with threads := channel.threads.erase ts }

def removeThreads (removed : List (Int ×ₗ Str ×ₗ Str)) (channels : SortedMap Str Channel) :
    SortedMap Str Channel :=
  removed.foldl (fun channels thread =>
    removeThread channels (ofLex (ofLex thread).2).1 (ofLex (ofLex thread).2).2) channels

def threadCount (channels : SortedMap Str Channel) : Nat :=
  channels.total fun channel => channel.threads.length

def evictThreads (channels : SortedMap Str Channel) : SortedMap Str Channel :=
  let count := threadCount channels
  if count > MAX_THREADS then
    let oldest := (threadsOf channels).mergeSort fun a b => decide (a ≤ b)
    removeThreads (oldest.take (count - MAX_THREADS)) channels
  else channels

def pruneSeen (window time : Int) (seen : List Seen) : List Seen :=
  let recent := seen.filter fun record => record.processedAt ≥ time - window - OVERLAP
  recent.drop (recent.length - MAX_SEEN)

theorem pruneSeen_subset (window time : Int) (seen : List Seen) :
    pruneSeen window time seen ⊆ seen := fun _ hmem =>
  List.mem_of_mem_filter (List.mem_of_mem_drop hmem)

def pruneThreads (window time : Int) (channels : SortedMap Str Channel) : SortedMap Str Channel :=
  evictThreads (channels.map fun _ channel =>
    { channel with threads := channel.threads.filter fun _ used => used ≥ time - window })

def prune (window time : Int) (data : Snapshot) : Snapshot :=
  { data with
    seen := pruneSeen window time data.seen
    channels := pruneThreads window time data.channels }

def newChannel (time : Int) : Channel := ⟨time, .empty, false, false⟩

def beginChannel (window time : Int) (existing : Option Channel) : Channel :=
  let channel := existing.getD (newChannel time)
  { channel with
    recovering := existing.isSome
    failed := false
    coveredUntil :=
      if channel.coveredUntil < time - window then time - window else channel.coveredUntil }

/-- The loop of `begin_connection`; what it did before an error stays done. -/
def beginChannels (window time : Int) :
    List Str → SortedMap Str Channel → SortedMap Str Channel × Except StoreError Unit
  | [], channels => (channels, .ok ())
  | id :: rest, channels =>
      if ¬ validId id then (channels, .error .invalidChannelId)
      else if ¬ (channels.contains id ∨ channels.length < MAX_CHANNELS) then
        (channels, .error .tooManyChannels)
      else beginChannels window time rest
        (channels.insert id (beginChannel window time (channels.get id)))

def beginConnection (window : Int) (data : Snapshot) (joined : List Str) (time : Int) :
    Snapshot × Except StoreError Unit :=
  let begun := beginChannels window time joined (data.channels.filter fun id _ => joined.contains id)
  let data := { data with channels := begun.1 }
  match begun.2 with
  | .ok () => (prune window time data, .ok ())
  | .error error => (data, .error error)

def addChannel (data : Snapshot) (id : Str) (time : Int) : Except StoreError Snapshot :=
  if validId id ∧ (data.channels.contains id ∨ data.channels.length < MAX_CHANNELS) then
    let channel := (data.channels.get id).getD (newChannel time)
    .ok { data with channels := data.channels.insert id channel }
  else .error .channelLimit

def recoveryChannels (data : Snapshot) : List (Str × Channel) :=
  data.channels.entries.filter fun entry => entry.2.recovering

def threads (data : Snapshot) (id : Str) : List Str :=
  ((data.channels.get id).map fun channel => channel.threads.keys).getD []

def onChannel (data : Snapshot) (id : Str) (change : Channel → Channel) : Snapshot :=
  { data with channels := data.channels.modify id change }

def retryChannel (data : Snapshot) (id : Str) : Snapshot :=
  data.onChannel id fun channel => { channel with failed := false }

def forgetThread (data : Snapshot) (id ts : Str) : Snapshot :=
  { data with channels := removeThread data.channels id ts }

def noteThread (data : Snapshot) (id parent : Str) (time : Int) : Snapshot :=
  if validTs parent then
    data.onChannel id fun channel => { channel with threads := channel.threads.insert parent time }
  else data

def processed (window : Int) (data : Snapshot) (channel ts : Str) (thread : Option Str)
    (time : Int) : Snapshot :=
  let data := { data with seen := data.seen ++ [⟨channel, ts, time⟩] }
  prune window time (match thread with
    | some parent => data.noteThread channel parent time
    | none => data)

def isSeen (data : Snapshot) (channel ts : Str) : Bool :=
  data.seen.any fun record => record.channel = channel ∧ record.ts = ts

def rememberThread (window : Int) (data : Snapshot) (id parent : Str) (now : Int) : Snapshot :=
  prune window now (data.noteThread id parent now)

def failed (data : Snapshot) (id : Str) : Snapshot :=
  data.onChannel id fun channel => { channel with failed := true }

def finishRecovery (data : Snapshot) (id : Str) (through : Int) : Snapshot :=
  data.onChannel id fun channel =>
    if ¬ channel.failed then { channel with
      coveredUntil := max channel.coveredUntil through
      recovering := false }
    else channel

def checkpoint (window : Int) (data : Snapshot) (through now : Int) : Snapshot :=
  prune window now { data with channels := data.channels.map fun _ channel =>
    if ¬ channel.recovering ∧ ¬ channel.failed then
      { channel with coveredUntil := max channel.coveredUntil through }
    else channel }

end Snapshot

end SjmbSlack.UserSession
