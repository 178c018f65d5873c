import SjmbSlack.UserSession.Capacity
import SjmbSlack.UserSession.Events

/-! `discover_channels` over whatever responses arrive, and the connection that begins
with the members it found. -/
namespace SjmbSlack.UserSession
open Api Slackbot

/-- What a discovery has found so far, with the names that it caches on the way. -/
structure Listing where
  ids : List Str
  names : List (Str × Str)

def cachedName (channel : Json) : Option (Str × Str) := do
  let id ← (channel.get "id".toList).asStr
  let name ← ((channel.get "name_normalized".toList).asStr).or (channel.get "name".toList).asStr
  some (id, Limits.logText name 256)

def Listing.join (listing : Listing) (channel : Json) (id : Str) : Listing where
  ids := if listing.ids.contains id then listing.ids else listing.ids ++ [id]
  names := listing.names ++ (cachedName channel).toList

/-- The loop over the channels of a page. What it cached before an error stays cached. -/
def listChannels : List Json → Listing → Listing × Except ApiError Unit
  | [], listing => (listing, .ok ())
  | channel :: rest, listing =>
      if eligibleChannel channel then
        match (channel.get "id".toList).asStr with
        | none => (listing, .error .other)
        | some id =>
            if ¬ (listing.ids.length < MAX_CHANNELS ∨ listing.ids.contains id) then
              (listing, .error .other)
            else listChannels rest (listing.join channel id)
      else listChannels rest listing

inductive Discovery where
  | waiting
  | failed (error : ApiError)
  | complete
  deriving DecidableEq

structure Discovered where
  requests : Nat
  listing : Listing
  result : Discovery

def discoverFrom (responses : Nat → Option (Except ApiError Json)) (request : Nat) (listing : Listing)
    (cursors : List Str) : Discovered :=
  match responses request with
  | none => ⟨request + 1, listing, .waiting⟩
  | some (.error error) => ⟨request + 1, listing, .failed error⟩
  | some (.ok response) =>
      match (response.get "channels".toList).asArray with
      | none => ⟨request + 1, listing, .failed .other⟩
      | some channels =>
          match listChannels channels listing with
          | (listing, .error error) => ⟨request + 1, listing, .failed error⟩
          | (listing, .ok ()) =>
              match nextCursor response with
              | .error error => ⟨request + 1, listing, .failed error⟩
              | .ok cursor =>
                  if cursor = [] then ⟨request + 1, listing, .complete⟩
                  else if _ : cursors.length < 100 ∧ ¬ cursors.contains cursor then
                    discoverFrom responses (request + 1) listing (cursor :: cursors)
                  else ⟨request + 1, listing, .failed .other⟩
termination_by 100 - cursors.length
decreasing_by simp only [List.length_cons]; omega

/-- What a discovery can change, and the store beside it. -/
structure Joined where
  members : List Str
  names : List (Str × Str)
  store : Snapshot

def Joined.discover (joined : Joined) (responses : Nat → Option (Except ApiError Json)) :
    Joined × Discovered :=
  let found := discoverFrom responses 0 ⟨[], []⟩ []
  ({ joined with
      members := if found.result = .complete then found.listing.ids else joined.members
      names := joined.names ++ found.listing.names }, found)

def Lists (page : Json) (id : Str) : Prop :=
  ∃ channels, (page.get "channels".toList).asArray = some channels ∧
    ∃ channel ∈ channels, eligibleChannel channel = true ∧ (channel.get "id".toList).asStr = some id

structure Listing.Sound (listing : Listing) : Prop where
  nodup : listing.ids.Nodup
  few : listing.ids.length ≤ MAX_CHANNELS
  valid : ∀ id ∈ listing.ids, validId id = true

theorem validId_of_eligible {channel : Json} {id : Str} (h : eligibleChannel channel = true)
    (hid : (channel.get "id".toList).asStr = some id) : validId id = true := by
  simp only [eligibleChannel, hid, Option.any_some, Bool.and_eq_true] at h
  exact h.1.1.1.1

section

variable {listing : Listing} {channel : Json} {channels : List Json} {id : Str}

theorem Listing.mem_join : ∀ other, other ∈ (listing.join channel id).ids ↔ other ∈ listing.ids ∨ other = id := by
  intro other
  unfold join
  dsimp only
  split
  · rename_i hmem
    refine (or_iff_left_of_imp fun heq => ?_).symm
    exact heq ▸ List.contains_iff_mem.mp hmem
  · rw [List.mem_append, List.mem_singleton]

theorem Listing.Sound.join (h : listing.Sound)
    (hroom : listing.ids.length < MAX_CHANNELS ∨ listing.ids.contains id = true)
    (hvalid : validId id = true) : (listing.join channel id).Sound := by
  refine ⟨?_, ?_, fun other hmem => ?_⟩
  · unfold Listing.join
    dsimp only
    split
    · exact h.nodup
    · rename_i hnew
      rw [List.nodup_append]
      refine ⟨h.nodup, List.nodup_singleton id, fun other hother found hfound heq => ?_⟩
      rw [List.mem_singleton.mp hfound] at heq
      exact hnew (List.contains_iff_mem.mpr (heq ▸ hother))
  · unfold Listing.join
    dsimp only
    split
    · exact h.few
    · rename_i hnew
      rw [List.length_append, List.length_singleton]
      exact hroom.resolve_right hnew
  · rcases (Listing.mem_join other).mp hmem with hmem | rfl
    · exact h.valid other hmem
    · exact hvalid

theorem listChannels_sound (h : listing.Sound) (channels : List Json) :
    (listChannels channels listing).1.Sound := by
  induction channels generalizing listing with
  | nil => exact h
  | cons channel rest ih =>
      unfold listChannels
      split
      · rename_i heligible
        split
        · exact h
        · rename_i id hid
          split
          · exact h
          · rename_i hroom
            exact ih (h.join (not_not.mp hroom) (validId_of_eligible heligible hid))
      · exact ih h

theorem listChannels_ok (h : (listChannels channels listing).2 = .ok ()) (id : Str) :
    id ∈ (listChannels channels listing).1.ids ↔ id ∈ listing.ids ∨
      ∃ channel ∈ channels, eligibleChannel channel = true ∧ (channel.get "id".toList).asStr = some id := by
  induction channels generalizing listing with
  | nil => simp [listChannels]
  | cons channel rest ih =>
      unfold listChannels at h ⊢
      rw [List.exists_mem_cons_iff]
      split at h
      · rename_i heligible
        rw [if_pos heligible]
        split at h
        · contradiction
        · rename_i found hfound
          split at h
          · contradiction
          · rename_i hroom
            simp only [hfound, if_neg hroom, heligible, true_and]
            rw [ih h, Listing.mem_join, or_assoc, Option.some.injEq]
            exact or_congr_right (or_congr_left eq_comm)
      · rename_i hother
        rw [if_neg hother, ih h]
        simp only [hother, Bool.false_eq_true, false_and, false_or]

theorem nextCursor_nil {page : Json} (h : nextCursor page = .ok []) :
    (((page.get "response_metadata".toList).get "next_cursor".toList).asStr).getD [] = [] ∧
      (page.get "has_more".toList).isTrue = false := by
  unfold nextCursor at h
  dsimp only at h
  split at h
  · contradiction
  · split at h
    · contradiction
    · rename_i hmore
      have hcursor := Except.ok.inj h
      refine ⟨hcursor, ?_⟩
      rw [Bool.eq_false_iff]
      exact fun htrue => hmore ⟨hcursor, htrue⟩

end

theorem lists_iff {page : Json} {channels : List Json} {id : Str}
    (h : (page.get "channels".toList).asArray = some channels) :
    Lists page id ↔ ∃ channel ∈ channels, eligibleChannel channel = true ∧
      (channel.get "id".toList).asStr = some id := by
  unfold Lists
  rw [h]
  simp only [Option.some.injEq, exists_eq_left']

section

variable {responses : Nat → Option (Except ApiError Json)}

theorem discoverFrom_requests (request : Nat) (listing : Listing) (cursors : List Str)
    (h : cursors.length ≤ 100) :
    (discoverFrom responses request listing cursors).requests + cursors.length ≤ request + 101 := by
  fun_induction discoverFrom responses request listing cursors with
  | case7 request listing cursors response hresponse channels hchannels after hlisted cursor hcursor
      hmore hroom ih =>
      have hnext := ih hroom.1
      rw [List.length_cons] at hnext
      omega
  | _ => dsimp only; omega

theorem discoverFrom_sound (request : Nat) (listing : Listing) (cursors : List Str)
    (h : listing.Sound) : (discoverFrom responses request listing cursors).listing.Sound := by
  fun_induction discoverFrom responses request listing cursors with
  | case1 => exact h
  | case2 => exact h
  | case3 => exact h
  | case7 request listing cursors response hresponse channels hchannels after hlisted cursor hcursor
      hmore hroom ih =>
      refine ih ?_
      have hsound := listChannels_sound h channels
      rwa [hlisted] at hsound
  | case4 request listing cursors response hresponse channels hchannels after error hlisted
  | case5 request listing cursors response hresponse channels hchannels after hlisted
  | case6 request listing cursors response hresponse channels hchannels after hlisted
  | case8 request listing cursors response hresponse channels hchannels after hlisted =>
      have hsound := listChannels_sound h channels
      rwa [hlisted] at hsound

theorem discoverFrom_complete (request : Nat) (listing : Listing) (cursors : List Str)
    (h : (discoverFrom responses request listing cursors).result = .complete) :
    ∃ pages last, (discoverFrom responses request listing cursors).requests =
        request + pages.length + 1 ∧
      (∀ i page, (pages ++ [last])[i]? = some page → responses (request + i) = some (.ok page)) ∧
      nextCursor last = .ok [] ∧
      ∀ id, id ∈ (discoverFrom responses request listing cursors).listing.ids ↔
        id ∈ listing.ids ∨ ∃ page ∈ pages ++ [last], Lists page id := by
  fun_induction discoverFrom responses request listing cursors with
  | case6 request listing cursors response hresponse channels hchannels after hlisted hcursor =>
      refine ⟨[], response, rfl, fun i page hpage => ?_, hcursor, fun id => ?_⟩
      · cases i with
        | zero => exact Option.some.inj hpage ▸ hresponse
        | succ i => simp at hpage
      · have hids := listChannels_ok (congrArg Prod.snd hlisted) id
        rw [hlisted] at hids
        rw [hids, ← lists_iff hchannels]
        simp
  | case7 request listing cursors response hresponse channels hchannels after hlisted cursor hcursor
      hmore hroom ih =>
      obtain ⟨pages, last, hrequests, hpages, hlast, hids⟩ := ih h
      refine ⟨response :: pages, last, ?_, fun i page hpage => ?_, hlast, fun id => ?_⟩
      · rw [hrequests, List.length_cons]
        omega
      · cases i with
        | zero => exact Option.some.inj hpage ▸ hresponse
        | succ i =>
            have hresponse := hpages i page hpage
            rwa [Nat.add_assoc, Nat.add_comm 1 i] at hresponse
      · have hlisted' := listChannels_ok (congrArg Prod.snd hlisted) id
        rw [hlisted] at hlisted'
        rw [hids, hlisted', List.cons_append, List.exists_mem_cons_iff, lists_iff hchannels, or_assoc]
  | _ => contradiction

end

theorem addChannels_eq (channels : List Json) (listing : Listing) :
    addChannels channels listing.ids =
      (listChannels channels listing).2.map fun _ => (listChannels channels listing).1.ids := by
  induction channels generalizing listing with
  | nil => rfl
  | cons channel rest ih =>
      rw [addChannels, listChannels]
      split
      · cases (channel.get "id".toList).asStr with
        | none => rfl
        | some id =>
            dsimp only
            split
            · rfl
            · exact ih (listing.join channel id)
      · exact ih listing

theorem discoverPages_iff {pages : List (Except ApiError Json)} {after : List Str} (request : Nat)
    (listing : Listing) (cursors : List Str) {responses : Nat → Option (Except ApiError Json)}
    (h : ∀ i, responses (request + i) = pages[i]?) :
    discoverPages pages listing.ids cursors = .ok after ↔
      (discoverFrom responses request listing cursors).result = .complete ∧
      (discoverFrom responses request listing cursors).requests = request + pages.length ∧
      (discoverFrom responses request listing cursors).listing.ids = after := by
  induction pages generalizing request listing cursors with
  | nil =>
      have hnone : responses request = none := h 0
      rw [discoverFrom, hnone]
      simp [discoverPages]
  | cons page rest ih =>
      have hpage : responses request = some page := h 0
      have hrest : ∀ i, responses (request + 1 + i) = rest[i]? := fun i => by
        rw [Nat.add_assoc, Nat.add_comm 1 i]
        exact h (i + 1)
      rw [discoverFrom, hpage, discoverPages]
      cases page with
      | error error => simp [bind, Except.bind]
      | ok response =>
          dsimp only [bind, Except.bind]
          generalize (response.get "channels".toList).asArray = found
          generalize nextCursor response = next
          cases found with
          | none => simp
          | some channels =>
              have hadded := addChannels_eq channels listing
              cases hlisted : listChannels channels listing with
              | mk listed result =>
                  rw [hlisted] at hadded
                  cases result with
                  | error error => simp [hlisted, hadded, Except.map]
                  | ok =>
                      cases next with
                      | error error => simp [hlisted, hadded, Except.map]
                      | ok cursor =>
                          simp only [hlisted, hadded, Except.map, Option.elim_some]
                          by_cases hlast : cursor = []
                          · cases rest <;> simp [hlast]
                          · by_cases hroom : cursors.length < 100 ∧ ¬ cursors.contains cursor = true
                            · have hnext := ih (request + 1) listed (cursor :: cursors) hrest
                              rw [if_neg hlast, if_pos hroom, if_neg hlast, dif_pos hroom, hnext,
                                List.length_cons, Nat.add_right_comm, Nat.add_assoc]
                            · rw [if_neg hlast, if_neg hroom, if_neg hlast, dif_neg hroom]
                              simp

theorem discoverChannels_iff {pages : List (Except ApiError Json)} {ids : List Str} :
    discoverChannels pages = .ok ids ↔
      (discoverFrom (fun i => pages[i]?) 0 ⟨[], []⟩ []).result = .complete ∧
      (discoverFrom (fun i => pages[i]?) 0 ⟨[], []⟩ []).requests = pages.length ∧
      (discoverFrom (fun i => pages[i]?) 0 ⟨[], []⟩ []).listing.ids = ids := by
  have hpages : discoverChannels pages = .ok ids ↔ _ ∧ _ ∧ _ :=
    discoverPages_iff 0 ⟨[], []⟩ [] fun i => congrArg (fun i => pages[i]?) (Nat.zero_add i)
  rwa [Nat.zero_add] at hpages

namespace Snapshot

theorem beginChannels_ok {window time : Int} {members joined : List Str}
    (hfew : members.length ≤ MAX_CHANNELS) (hvalid : ∀ id ∈ members, validId id = true)
    (hjoined : ∀ id ∈ joined, id ∈ members) {channels : SortedMap Str Channel}
    (hchannels : ∀ id ∈ channels.keys, id ∈ members) :
    (beginChannels window time joined channels).2 = .ok () := by
  induction joined generalizing channels with
  | nil => rfl
  | cons id rest ih =>
      have hid := hjoined id List.mem_cons_self
      have hroom : channels.contains id = true ∨ channels.length < MAX_CHANNELS := by
        rw [or_iff_not_imp_left]
        intro hnew
        have hnot : id ∉ channels.keys := fun hmem => hnew (SortedMap.contains_iff.mpr hmem)
        have hnodup : (id :: channels.keys).Nodup := List.nodup_cons.mpr ⟨hnot, channels.nodup_keys⟩
        have hsubset : id :: channels.keys ⊆ members := fun other hmem => by
          rcases List.mem_cons.mp hmem with rfl | hmem
          · exact hid
          · exact hchannels other hmem
        have hlength := (List.subperm_of_subset hnodup hsubset).length_le
        rw [List.length_cons, SortedMap.keys, List.length_map] at hlength
        exact Nat.lt_of_lt_of_le (Nat.lt_of_succ_le hlength) hfew
      unfold beginChannels
      rw [if_neg (not_not.mpr (hvalid id hid)), if_neg (not_not.mpr hroom)]
      refine ih (fun other hmem => hjoined other (List.mem_cons_of_mem _ hmem)) fun other hmem => ?_
      rw [SortedMap.mem_keys] at hmem
      obtain ⟨channel, hget⟩ := hmem
      rw [SortedMap.get_insert] at hget
      split at hget
      · rename_i heq
        exact heq ▸ hid
      · exact hchannels other (SortedMap.mem_keys.mpr ⟨channel, hget⟩)

theorem beginConnection_members (window time : Int) (data : Snapshot) {joined : List Str}
    (hnodup : joined.Nodup) (hfew : joined.length ≤ MAX_CHANNELS)
    (hvalid : ∀ id ∈ joined, validId id = true) :
    ∃ begun, data.beginConnection window joined time =
        (prune window time { data with channels := begun }, .ok ()) ∧
      threadCount begun ≤ threadCount data.channels ∧
      ∀ id, begun.get id =
        if id ∈ joined then some (beginChannel window time (data.channels.get id)) else none := by
  have hkept : ∀ id, (data.channels.filter fun id _ => joined.contains id).get id =
      if id ∈ joined then data.channels.get id else none := by
    intro id
    rw [SortedMap.get_filter]
    by_cases hmem : id ∈ joined
    · cases data.channels.get id <;> simp [hmem, Option.filter]
    · cases data.channels.get id <;> simp [hmem]
  have hok : (beginChannels window time joined
      (data.channels.filter fun id _ => joined.contains id)).2 = .ok () := by
    refine beginChannels_ok hfew hvalid (fun _ hmem => hmem) fun id hmem => ?_
    obtain ⟨channel, hget⟩ := SortedMap.mem_keys.mp hmem
    by_contra hnot
    rw [hkept, if_neg hnot] at hget
    contradiction
  refine ⟨(beginChannels window time joined
    (data.channels.filter fun id _ => joined.contains id)).1, ?_, ?_, fun id => ?_⟩
  · unfold beginConnection
    dsimp only
    rw [hok]
  · refine Persist.beginChannels_induction
      (P := fun channels => threadCount channels ≤ threadCount data.channels)
      (fun channels id hcount _ _ => ?_) joined (SortedMap.total_filter_le ..)
    refine (Persist.threadCount_insert ?_).le.trans hcount
    cases channels.get id <;> rfl
  · rcases @get_beginChannels window time joined hnodup
      (data.channels.filter fun id _ => joined.contains id) id with ⟨hsame, hmissed⟩ | ⟨hmem, hbegun⟩
    · have hmem : id ∉ joined := fun hmem => hmissed hmem hok
      rw [hsame, hkept, if_neg hmem, if_neg hmem]
    · rw [hbegun, hkept, if_pos hmem, if_pos hmem]

structure Trimmed (before after : Channel) : Prop where
  progress : after.progress = before.progress
  threads : ∀ ts used, after.threads.get ts = some used → before.threads.get ts = some used

theorem trimmed_pruneThreads {window time : Int} {channels : SortedMap Str Channel} {id : Str}
    {after : Channel} (h : (pruneThreads window time channels).get id = some after) :
    ∃ before, channels.get id = some before ∧ Trimmed before after ∧
      (∀ ts used, after.threads.get ts = some used → used ≥ time - window) ∧
      (threadCount channels ≤ MAX_THREADS →
        after.threads = before.threads.filter fun _ used => used ≥ time - window) := by
  have hprogress := get_pruneThreads window time channels id
  rw [h, Option.map_some] at hprogress
  obtain ⟨before, hbefore, heq⟩ := Option.map_eq_some_iff.mp hprogress.symm
  have hrecent : ∀ ts used, toLex (used, toLex (id, ts)) ∈
      (tracked channels).filter (fun thread => time - window ≤ usedAt thread) ↔
        before.threads.get ts = some used ∧ used ≥ time - window := by
    intro ts used
    rw [Finset.mem_filter, mem_tracked hbefore]
    rfl
  have hkept : ∀ ts used, after.threads.get ts = some used →
      before.threads.get ts = some used ∧ used ≥ time - window := by
    intro ts used hget
    rw [← mem_tracked h, tracked_pruneThreads] at hget
    exact (hrecent ts used).mp (Newest.newest_subset _ _ hget)
  refine ⟨before, hbefore, ⟨heq.symm, fun ts used hget => (hkept ts used hget).1⟩,
    fun ts used hget => (hkept ts used hget).2, fun hfew => ?_⟩
  apply SortedMap.ext_get
  intro ts
  apply Option.ext
  intro used
  rw [← mem_tracked h, tracked_pruneThreads_of_few window time hfew, hrecent,
    SortedMap.get_filter, Option.filter_eq_some_iff, decide_eq_true_eq]

end Snapshot

structure Begun (window time : Int) (existing : Option Channel) (channel : Channel) : Prop where
  covered : channel.coveredUntil =
    max ((existing.map Channel.coveredUntil).getD time) (time - window)
  recovering : channel.recovering = existing.isSome
  failed : channel.failed = false
  threads : ∀ ts used, channel.threads.get ts = some used →
    (existing.any fun before => before.threads.get ts = some used) = true ∧ used ≥ time - window

theorem begun_member {window time : Int} {data : Snapshot} {begun : SortedMap Str Channel} {id : Str}
    (h : begun.get id = some (Snapshot.beginChannel window time (data.channels.get id))) :
    ∃ channel, (Snapshot.pruneThreads window time begun).get id = some channel ∧
      Begun window time (data.channels.get id) channel ∧
      (Snapshot.threadCount begun ≤ MAX_THREADS → channel.threads =
        (((data.channels.get id).map Channel.threads).getD .empty).filter fun _ used =>
          used ≥ time - window) := by
  have hprogress := Snapshot.get_pruneThreads window time begun id
  rw [h, Option.map_some] at hprogress
  obtain ⟨channel, hchannel, -⟩ := Option.map_eq_some_iff.mp hprogress
  obtain ⟨before, hbefore, htrimmed, hrecent, hfew⟩ := Snapshot.trimmed_pruneThreads hchannel
  rw [h] at hbefore
  cases Option.some.inj hbefore
  have hcovered : channel.coveredUntil = _ := congrArg Progress.coveredUntil htrimmed.progress
  refine ⟨channel, hchannel, ⟨?_, ?_, ?_, fun ts used hget => ⟨?_, hrecent ts used hget⟩⟩, fun hcount => ?_⟩
  · have hbegan : ((data.channels.get id).getD (Snapshot.newChannel time)).coveredUntil =
        ((data.channels.get id).map Channel.coveredUntil).getD time := by
      cases data.channels.get id <;> rfl
    rw [hcovered, ← hbegan]
    unfold Snapshot.beginChannel Channel.progress
    dsimp only
    split <;> omega
  · exact congrArg Progress.recovering htrimmed.progress
  · exact congrArg Progress.failed htrimmed.progress
  · have hthread := htrimmed.threads ts used hget
    cases hexisting : data.channels.get id with
    | none =>
        rw [hexisting] at hthread
        contradiction
    | some existing =>
        rw [hexisting] at hthread
        exact decide_eq_true hthread
  · rw [hfew hcount]
    cases data.channels.get id <;> rfl

/-- Only a complete listing changes the members, and the store can begin with them. -/
theorem discovery_complete (joined : Joined) (responses : Nat → Option (Except ApiError Json)) :
    let run := joined.discover responses
    run.2.requests ≤ 101 ∧ run.1.store = joined.store ∧
    (run.2.result ≠ .complete → run.1.members = joined.members) ∧
    (run.2.result = .complete →
      (∃ pages last, run.2.requests = pages.length + 1 ∧
        (∀ i page, (pages ++ [last])[i]? = some page → responses i = some (.ok page)) ∧
        (((last.get "response_metadata".toList).get "next_cursor".toList).asStr).getD [] = [] ∧
        (last.get "has_more".toList).isTrue = false ∧
        ∀ id, id ∈ run.1.members ↔ ∃ page ∈ pages ++ [last], Lists page id) ∧
      run.1.members.length ≤ MAX_CHANNELS ∧
      ∀ (window time : Int) (store : Snapshot) (order : List Str), order.Perm run.1.members →
        ∃ after, store.beginConnection window order time = (after, .ok ()) ∧
          (∀ id, id ∈ after.channels.keys ↔ id ∈ run.1.members) ∧
          ∀ id ∈ run.1.members, ∃ channel, after.channels.get id = some channel ∧
            Begun window time (store.channels.get id) channel ∧
            (Snapshot.threadCount store.channels ≤ MAX_THREADS → channel.threads =
              (((store.channels.get id).map Channel.threads).getD .empty).filter fun _ used =>
                used ≥ time - window)) := by
  intro run
  have hrequests : run.2.requests + 0 ≤ 0 + 101 := discoverFrom_requests 0 ⟨[], []⟩ [] (by simp)
  refine ⟨hrequests, rfl, fun hother => if_neg hother, fun hcomplete => ?_⟩
  have hmembers : run.1.members = run.2.listing.ids := if_pos hcomplete
  have hsound : run.2.listing.Sound :=
    discoverFrom_sound 0 ⟨[], []⟩ [] ⟨.nil, Nat.zero_le _, fun _ hmem => absurd hmem List.not_mem_nil⟩
  obtain ⟨pages, last, hcount, hpages, hlast, hids⟩ := discoverFrom_complete 0 ⟨[], []⟩ [] hcomplete
  obtain ⟨hcursor, hmore⟩ := nextCursor_nil hlast
  refine ⟨⟨pages, last, by rw [← Nat.zero_add pages.length]; exact hcount,
    fun i page hpage => by rw [← Nat.zero_add i]; exact hpages i page hpage, hcursor, hmore,
    fun id => ?_⟩, hmembers ▸ hsound.few, fun window time store order hperm => ?_⟩
  · rw [hmembers]
    exact (hids id).trans (or_iff_right List.not_mem_nil)
  · rw [hmembers] at hperm ⊢
    obtain ⟨begun, hbegin, hless, hget⟩ := store.beginConnection_members window time
      (hperm.nodup_iff.mpr hsound.nodup) (hperm.length_eq ▸ hsound.few)
      fun id hmem => hsound.valid id (hperm.mem_iff.mp hmem)
    have hmember : ∀ id ∈ run.2.listing.ids,
        begun.get id = some (Snapshot.beginChannel window time (store.channels.get id)) := fun id hmem => by
      rw [hget, if_pos (hperm.mem_iff.mpr hmem)]
    refine ⟨_, hbegin, fun id => ⟨fun hmem => ?_, fun hmem => ?_⟩, fun id hmem => ?_⟩
    · obtain ⟨channel, hchannel⟩ := SortedMap.mem_keys.mp hmem
      obtain ⟨before, hbefore, -⟩ := Snapshot.trimmed_pruneThreads hchannel
      rw [hget] at hbefore
      by_contra hnot
      rw [if_neg fun horder => hnot (hperm.mem_iff.mp horder)] at hbefore
      contradiction
    · obtain ⟨channel, hchannel, -⟩ := begun_member (hmember id hmem)
      exact SortedMap.mem_keys.mpr ⟨channel, hchannel⟩
    · obtain ⟨channel, hchannel, hbegun, hthreads⟩ := begun_member (hmember id hmem)
      exact ⟨channel, hchannel, hbegun, fun hcount => hthreads (hless.trans hcount)⟩

end SjmbSlack.UserSession
