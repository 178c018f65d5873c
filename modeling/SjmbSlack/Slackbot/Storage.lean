import SjmbSlack.Slackbot.Config
import SjmbSlack.Slackbot.Names
import SjmbSlack.Slackbot.Retries

/-! What reaches the database: `db_add_url` with its limits, and the worker on the
messages of a workspace while other tasks store the names of channels. -/
namespace SjmbSlack.Slackbot.Storage
open Machine Limits Worker

inductive DbError where
  | oversizedUrl
  | oversizedAttribution
  | timedOut
  | failed
  deriving DecidableEq

/-- `db_add_url`; the outcome is that of `db_add_url_once` under its timeout. -/
def dbAddUrl (record : UrlCtx) (outcome : Except DbError Nat) : Except DbError Nat :=
  if ¬ record.url.byteLength ≤ Harvest.MAX_URL_BYTES then .error .oversizedUrl
  else if ¬ (record.chan.byteLength ≤ 1024 ∧ record.nick.byteLength ≤ 256) then
    .error .oversizedAttribution
  else outcome

inductive Stage where
  /-- It waits for `users.info`, where that was allowed. -/
  | user (message : QueuedMessage) (id : Str) (asked : Bool)
  | named (message : QueuedMessage) (nick : Str)
  /-- It waits for `conversations.info`, where that was allowed. -/
  | channel (message : QueuedMessage) (nick : Str) (asked : Bool)
  | ready (message : QueuedMessage) (nick channel : Str)

structure Handled where
  message : QueuedMessage
  effects : List Effect
  succeeded : Bool

structure State where
  names : Names
  stage : Option Stage
  handled : List Handled

inductive Action where
  /-- Startup discovery and `cache_channel`. -/
  | cacheChannel (visit : Iteration (Entry Str Str)) (id name : Str) (now : Nat)
  /-- The worker takes a message that `prepare_message` accepted. -/
  | take (message : SlackMessageEvent) (dryRun : Bool) (visit : Iteration (Entry Str Str)) (now : Nat)
  | fetchedUser (fetched : Fetched SlackUser) (visit : Iteration (Entry Str Str)) (now : Nat)
  | seekChannel (now : Nat)
  | fetchedChannel (fetched : Fetched (Option Str)) (visit : Iteration (Entry Str Str)) (now : Nat)
  /-- The loop over the URLs, with the filter's verdicts and the database's outcomes. -/
  | store (check : Nat → Str → Bool × Option Str) (outcome : Nat → UrlCtx → Except DbError Nat)

/-- The rest of `handle_msg` once both names are known; the requests for them were
steps of their own. -/
def world (crate : UrlCrate) (captures : Str → List (Option Str)) (nick channel : Str)
    (check : Nat → Str → Bool × Option Str) (outcome : Nat → UrlCtx → Except DbError Nat) : World where
  senderNick _ := (nick, [])
  channelName _ := (channel, [])
  extractUrls text := (Harvest.extractUrls crate captures text ⟨0, 0⟩).1
  check := check
  dbAddUrl position record := (dbAddUrl record (outcome position record)).isOk

section

variable (crate : UrlCrate) (captures : Str → List (Option Str)) (workspace : Workspace)

def step (s : State) : Action → Option State
  | .cacheChannel visit id name now => some { s with names := s.names.cacheChannel visit id name now }
  | .take message dryRun visit now =>
      match s.stage, prepareMessage workspace message now with
      | none, .ok queued =>
          let queued := { queued with dryRun := dryRun }
          let sought := s.names.senderNick visit queued.sender now
          some { s with
            names := sought.1
            stage := some (match sought.2 with
              | .known nick => .named queued nick
              | .unknown id => .user queued id (lookupAllowed s.names.userRetryAt now)) }
      | _, _ => none
  | .fetchedUser fetched visit now =>
      match s.stage with
      | some (.user message id asked) =>
          let found := s.names.fetchedNick visit id (if asked then some fetched else none) now
          some { s with names := found.1, stage := some (.named message found.2) }
      | _ => none
  | .seekChannel now =>
      match s.stage with
      | some (.named message nick) =>
          let sought := s.names.channelName workspace message.channel now
          some { s with
            names := sought.1
            stage := some (match sought.2 with
              | .known channel => .ready message nick channel
              | .unknown _ => .channel message nick (lookupAllowed s.names.channelRetryAt now)) }
      | _ => none
  | .fetchedChannel fetched visit now =>
      match s.stage with
      | some (.channel message nick asked) =>
          let found := s.names.fetchedChannel visit workspace message.channel
            (if asked then some fetched else none) now
          some { s with names := found.1, stage := some (.ready message nick found.2) }
      | _ => none
  | .store check outcome =>
      match s.stage with
      | some (.ready message nick channel) =>
          let result := handleMsg (world crate captures nick channel check outcome) message
          some { s with stage := none, handled := s.handled ++ [⟨message, result.1, result.2⟩] }
      | _ => none

def machine : System State Action where
  start := fun s => s = ⟨.new, none, []⟩
  step := step crate captures workspace

end

def Handled.records (handled : Handled) : List UrlCtx :=
  handled.effects.filterMap Effect.record?

/-- A record that `db_add_url` does not refuse itself. -/
structure Storable (record : UrlCtx) : Prop where
  url : record.url.byteLength ≤ Harvest.MAX_URL_BYTES
  chan : record.chan.byteLength ≤ 1024
  nick : record.nick.byteLength ≤ 256

theorem Storable.dbAddUrl {record : UrlCtx} (h : Storable record) (outcome : Except DbError Nat) :
    dbAddUrl record outcome = outcome := by
  rw [Storage.dbAddUrl, if_neg (not_not.mpr h.url), if_neg (not_not.mpr ⟨h.chan, h.nick⟩)]

def Stage.Bounded : Stage → Prop
  | .user message _ _ => Short message.channel
  | .named message nick => Short message.channel ∧ Short nick
  | .channel message nick _ => Short message.channel ∧ Short nick
  | .ready _ nick name => Short nick ∧ name.byteLength ≤ 1024

structure Bounded (s : State) : Prop where
  names : s.names.Bounded
  stage : ∀ stage ∈ s.stage, stage.Bounded
  records : ∀ handled ∈ s.handled, handled.records.length ≤ Harvest.MAX_URLS_PER_MESSAGE ∧
    ∀ record ∈ handled.records, Storable record

section

variable {crate : UrlCrate} {captures : Str → List (Option Str)} {workspace : Workspace}

theorem records_handleUrls (w : World) (message : QueuedMessage) (nick channel : Str) (position : Nat)
    (urls : List Str) :
    (((handleUrls w message nick channel position urls).1.filterMap Effect.record?).map UrlCtx.url).Sublist
        urls ∧
      ∀ record ∈ (handleUrls w message nick channel position urls).1.filterMap Effect.record?,
        record.chan = channel ∧ record.nick = nick := by
  induction urls generalizing position with
  | nil => exact ⟨.slnil, fun _ hmem => absurd hmem List.not_mem_nil⟩
  | cons url rest ih =>
      obtain ⟨hsublist, hsame⟩ := ih (position + 1)
      unfold handleUrls
      dsimp only
      split
      · rw [records_queries]
        exact ⟨hsublist.cons _, hsame⟩
      · split
        · rw [records_queries]
          exact ⟨hsublist.cons _, hsame⟩
        · rw [records_queries, List.filterMap_cons_some (f := Effect.record?) rfl, List.map_cons]
          exact ⟨hsublist.cons_cons _, List.forall_mem_cons.mpr ⟨⟨rfl, rfl⟩, hsame⟩⟩

theorem records_handleMsg {nick channel : Str} (hnick : Short nick) (hchannel : channel.byteLength ≤ 1024)
    (check : Nat → Str → Bool × Option Str) (outcome : Nat → UrlCtx → Except DbError Nat)
    (message : QueuedMessage) (succeeded : Bool) :
    let records := Handled.records
      ⟨message, (handleMsg (world crate captures nick channel check outcome) message).1, succeeded⟩
    records.length ≤ Harvest.MAX_URLS_PER_MESSAGE ∧ ∀ record ∈ records, Storable record := by
  obtain ⟨hfew, hshort⟩ := Harvest.extractUrls_bounded crate captures message.text ⟨0, 0⟩
  obtain ⟨hsublist, hsame⟩ := records_handleUrls (world crate captures nick channel check outcome) message
    nick channel 0 (Harvest.extractUrls crate captures message.text ⟨0, 0⟩).1
  refine ⟨?_, fun record hmem => ?_⟩
  · have hlength := hsublist.length_le
    rw [List.length_map] at hlength
    exact hlength.trans hfew
  · obtain ⟨hchan, hnick'⟩ := hsame record hmem
    refine ⟨hshort _ (hsublist.subset (List.mem_map_of_mem hmem)), ?_, ?_⟩
    · rw [hchan]
      exact hchannel
    · rw [hnick']
      exact hnick

theorem step_bounded (hworkspace : Short workspace.name) {s t : State} {a : Action} (h : Bounded s)
    (hstep : step crate captures workspace s a = some t) : Bounded t := by
  cases a with
  | cacheChannel visit id name now =>
      cases Option.some.inj hstep
      exact ⟨h.names.cacheChannel visit now id name, h.stage, h.records⟩
  | take message dryRun visit now =>
      unfold step at hstep
      dsimp only at hstep
      split at hstep
      · rename_i queued hstage hprepare
        obtain ⟨text, channel, ts, -, -, -, -, hchannel, -, -, rfl⟩ := prepareMessage_ok hprepare
        obtain ⟨hnames, hnick⟩ :=
          h.names.senderNick visit now (SenderInfo.bounded_ofSender message.sender)
        cases Option.some.inj hstep
        refine ⟨hnames, fun stage hmem => ?_, h.records⟩
        cases Option.some.inj hmem
        split
        · rename_i nick hknown
          exact ⟨hchannel, hnick nick hknown⟩
        · exact hchannel
      · contradiction
  | fetchedUser fetched visit now =>
      unfold step at hstep
      dsimp only at hstep
      split at hstep
      · rename_i message id asked hstage
        obtain ⟨hnames, hnick⟩ := h.names.fetchedNick visit now id (if asked then some fetched else none)
        cases Option.some.inj hstep
        refine ⟨hnames, fun stage hmem => ?_, h.records⟩
        cases Option.some.inj hmem
        exact ⟨h.stage _ hstage, hnick⟩
      · contradiction
  | seekChannel now =>
      unfold step at hstep
      dsimp only at hstep
      split at hstep
      · rename_i message nick hstage
        have hsought : (s.names.channelName workspace message.channel now).1.Bounded ∧ _ :=
          h.names.channelName now hworkspace
        obtain ⟨hnames, hchannel⟩ := hsought
        obtain ⟨hid, hnick⟩ := h.stage _ hstage
        cases Option.some.inj hstep
        refine ⟨hnames, fun stage hmem => ?_, h.records⟩
        cases Option.some.inj hmem
        split
        · rename_i channel hknown
          exact ⟨hnick, hchannel channel hknown⟩
        · exact ⟨hid, hnick⟩
      · contradiction
  | fetchedChannel fetched visit now =>
      unfold step at hstep
      dsimp only at hstep
      split at hstep
      · rename_i message nick asked hstage
        obtain ⟨hid, hnick⟩ := h.stage _ hstage
        obtain ⟨hnames, hchannel⟩ := h.names.fetchedChannel visit now hworkspace hid
          (if asked then some fetched else none)
        cases Option.some.inj hstep
        refine ⟨hnames, fun stage hmem => ?_, h.records⟩
        cases Option.some.inj hmem
        exact ⟨hnick, hchannel⟩
      · contradiction
  | store check outcome =>
      unfold step at hstep
      dsimp only at hstep
      split at hstep
      · rename_i message nick channel hstage
        obtain ⟨hnick, hchannel⟩ := h.stage _ hstage
        cases Option.some.inj hstep
        refine ⟨h.names, fun _ hmem => (nomatch hmem), fun handled hmem => ?_⟩
        rcases List.mem_append.mp hmem with hearlier | hlast
        · exact h.records handled hearlier
        · rw [List.mem_singleton.mp hlast]
          exact records_handleMsg hnick hchannel check outcome message _
      · contradiction

/-- Every record of an admitted message is within the limits of `db_add_url`. -/
theorem records_storable {platform : Platform} {bytes : List UInt8} {bot : Bot} {config : SlackWorkspace}
    (hconfig : fromConfig platform bytes = .ok bot) (hmem : config ∈ bot.workspaces)
    (hname : workspace.name = config.name) {s : State}
    (h : Reachable (machine crate captures workspace) s) {handled : Handled} (hhandled : handled ∈ s.handled) :
    handled.records.length ≤ Harvest.MAX_URLS_PER_MESSAGE ∧
      ∀ record ∈ handled.records, Storable record ∧ ∀ outcome, dbAddUrl record outcome = outcome := by
  have hworkspace : Short workspace.name := by
    rw [hname]
    exact fromConfig_name hconfig hmem
  have hbounded : Bounded s := by
    refine h.invariant (fun s hstart => ?_)
      fun s a t _ hs _ (hstep : step crate captures workspace s a = some t) =>
        step_bounded hworkspace hs hstep
    have hinitial : s = ⟨.new, none, []⟩ := hstart
    rw [hinitial]
    exact ⟨Names.bounded_new, fun _ hmem => (nomatch hmem), fun _ hmem => absurd hmem List.not_mem_nil⟩
  obtain ⟨hfew, hstorable⟩ := hbounded.records handled hhandled
  exact ⟨hfew, fun record hrecord => ⟨hstorable record hrecord, (hstorable record hrecord).dbAddUrl⟩⟩

end

def sampleEvent : SlackMessageEvent where
  ts := "1234.5".toList
  channel := some "C1".toList
  text := some "<https://example.com/a>".toList
  sender := ⟨some "U1".toList, none, none, none⟩
  hidden := none
  subtype := none

def sampleRun : List Action :=
  [.cacheChannel (.stored _) "C2".toList "other".toList 0,
    .take sampleEvent false (.stored _) 1,
    .fetchedUser (.found ⟨none, none, some "nick".toList⟩) (.stored _) 2,
    .seekChannel 3,
    .fetchedChannel (.found (some "general".toList)) (.stored _) 4,
    .store (fun _ _ => (true, none)) fun _ _ => .ok 1]

theorem records_storable_sample :
    ∃ s, Reachable (machine Harvest.pageCrate Harvest.links ⟨"foo".toList, "T1".toList, []⟩) s ∧
      ∃ handled ∈ s.handled, handled.records.length = 1 ∧
        ∀ record ∈ handled.records, Storable record := by
  obtain ⟨s, hs, hhandled⟩ := exists_reachable
    (P := fun s : State => s.handled.map (fun handled => handled.records.length) = [1]) sampleRun
    (M := machine Harvest.pageCrate Harvest.links ⟨"foo".toList, "T1".toList, []⟩) rfl (by decide)
  have hlength := List.mem_map.mp (hhandled ▸ List.mem_cons_self)
  obtain ⟨handled, hmem, hone⟩ := hlength
  have htoken : sessionToken "xoxc-test".toList = true := by decide
  have hconfig := sample_accepted htoken (by decide) (by decide) (by decide)
  exact ⟨s, hs, handled, hmem, hone, fun record hrecord =>
    ((records_storable hconfig List.mem_cons_self rfl hs hmem).2 record hrecord).1⟩

end SjmbSlack.Slackbot.Storage
