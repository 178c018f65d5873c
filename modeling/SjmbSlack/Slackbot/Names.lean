import SjmbSlack.Limits.ExpiringCache
import SjmbSlack.Slackbot.Message
import SjmbSlack.UserSession.Api

/-! The names of senders and channels over the caches of a workspace: `sender_nick`
and `channel_name` up to the request that they may wait for, and after it. -/
namespace SjmbSlack.Slackbot
open Limits

def CACHE_CAPACITY : Nat := 4096
/-- An hour, ten minutes and half a minute in nanoseconds. -/
def USER_TTL : Nat := 3600 * 1000000000
def CHANNEL_TTL : Nat := 600 * 1000000000
def NEGATIVE_TTL : Nat := 30 * 1000000000

structure SlackUser where
  profile : Option SlackUserProfile
  realName : Option Str
  name : Option Str
  deriving DecidableEq

def slackUserNick (user : SlackUser) : Option Str :=
  ((user.profile.bind slackUserProfileNick).or (user.realName.bind nonEmpty)).or
    (user.name.bind nonEmpty)

def slackUserFallback (user : Str) : Str := logText ("<@".toList ++ user ++ ">".toList) 256

/-- Every instant is less than this. -/
def INSTANT_LIMIT : Nat := 2 ^ 63 * 1000000000

def checkedAdd (now delay : Nat) : Option Nat :=
  if now + delay < INSTANT_LIMIT then some (now + delay) else none

/-- What `fetch_user` and `fetch_channel` fail with. The workspace of a user session asks
through the API of the session, whose rate limits are errors of another type. -/
inductive FetchError where
  | client (error : SlackClientError)
  | session (error : UserSession.Api.ApiError)
  deriving DecidableEq

inductive Fetched (α : Type) where
  | found (response : α)
  | failed (error : FetchError)
  | timedOut
  deriving DecidableEq

def Fetched.response? {α : Type} : Fetched α → Option α
  | .found response => some response
  | _ => none

def Fetched.error? {α : Type} : Fetched α → Option FetchError
  | .failed error => some error
  | _ => none

def lookupAllowed (retryAt : Option Nat) (now : Nat) : Bool := retryAt.all (· ≤ now)

/-- `lookup_error`: when the next request may be made. -/
def lookupError (retryAt : Option Nat) (now : Nat) : FetchError → Option Nat
  | .client (.rateLimitError retryAfter) => checkedAdd now (retryAfter.getD NEGATIVE_TTL)
  | _ => retryAt

structure Names where
  users : ExpiringCache Str Str
  channels : ExpiringCache Str Str
  userRetryAt : Option Nat
  channelRetryAt : Option Nat

def Names.new : Names := ⟨.new CACHE_CAPACITY (by decide), .new CACHE_CAPACITY (by decide), none, none⟩

inductive Sought where
  | known (name : Str)
  | unknown (id : Str)
  deriving DecidableEq

/-- `sender_nick` up to the request. -/
def Names.senderNick (names : Names) (visit : Iteration (Entry Str Str)) (sender : SenderInfo)
    (now : Nat) : Names × Sought :=
  match sender.user with
  | none => (names, .known ((sender.hint.or sender.bot).getD "N/A".toList))
  | some user =>
      match sender.hint with
      | some hint =>
          ({ names with users := names.users.insert visit user hint now USER_TTL }, .known hint)
      | none =>
          let found := names.users.get user now
          ({ names with users := found.2 }, found.1.elim (.unknown user) .known)

/-- `sender_nick` after the request; `none` where none was allowed. -/
def Names.fetchedNick (names : Names) (visit : Iteration (Entry Str Str)) (user : Str)
    (fetched : Option (Fetched SlackUser)) (now : Nat) : Names × Str :=
  let nick := ((fetched.bind Fetched.response?).bind slackUserNick).map (logText · 256)
  let ttl := if nick.isSome then USER_TTL else NEGATIVE_TTL
  let name := nick.getD (slackUserFallback user)
  ({ names with
      users := names.users.insert visit user name now ttl
      userRetryAt :=
        (fetched.bind Fetched.error?).elim names.userRetryAt (lookupError names.userRetryAt now) }, name)

def qualified (workspace : Workspace) (name : Str) : Str := workspace.name ++ "-".toList ++ name

/-- `channel_name` up to the request. -/
def Names.channelName (names : Names) (workspace : Workspace) (id : Str) (now : Nat) :
    Names × Sought :=
  let found := names.channels.get id now
  ({ names with channels := found.2 },
    found.1.elim (.unknown id) fun name => .known (qualified workspace name))

/-- `channel_name` after the request, which gives the channel's normalized name. -/
def Names.fetchedChannel (names : Names) (visit : Iteration (Entry Str Str)) (workspace : Workspace)
    (id : Str) (fetched : Option (Fetched (Option Str))) (now : Nat) : Names × Str :=
  let found := (((fetched.bind Fetched.response?).bind fun name => name).bind nonEmpty).map (logText · 256)
  let ttl := if found.isSome then CHANNEL_TTL else NEGATIVE_TTL
  let name := found.getD id
  ({ names with
      channels := names.channels.insert visit id name now ttl
      channelRetryAt :=
        (fetched.bind Fetched.error?).elim names.channelRetryAt (lookupError names.channelRetryAt now) },
    qualified workspace name)

/-- A channel's name from a list of channels or from `conversations.info`, which
`cache_channel` and the discovery at startup store. -/
def Names.cacheChannel (names : Names) (visit : Iteration (Entry Str Str)) (id name : Str) (now : Nat) :
    Names :=
  { names with channels := names.channels.insert visit id (logText name 256) now CHANNEL_TTL }

def Short (name : Str) : Prop := name.byteLength ≤ 256

theorem short_logText (text : Str) : Short (logText text 256) := byteLength_logText text 256

structure Names.Bounded (names : Names) : Prop where
  users : ExpiringCache.All Short names.users
  channels : ExpiringCache.All Short names.channels

structure SenderInfo.Bounded (sender : SenderInfo) : Prop where
  hint : ∀ hint ∈ sender.hint, Short hint
  bot : ∀ bot ∈ sender.bot, Short bot

theorem SenderInfo.bounded_ofSender (sender : SlackMessageSender) : (ofSender sender).Bounded where
  hint hint h := by
    obtain ⟨text, -, rfl⟩ := Option.map_eq_some_iff.mp h
    exact short_logText text
  bot bot h := by
    obtain ⟨text, -, rfl⟩ := Option.map_eq_some_iff.mp h
    exact short_logText text

section

variable {names : Names} (visit : Iteration (Entry Str Str)) {sender : SenderInfo}
  {workspace : Workspace} {id name : Str} (now : Nat)

theorem Names.bounded_new : Names.new.Bounded :=
  ⟨ExpiringCache.all_new _ _, ExpiringCache.all_new _ _⟩

theorem Names.Bounded.senderNick (h : names.Bounded) (hsender : sender.Bounded) :
    (names.senderNick visit sender now).1.Bounded ∧
      ∀ nick, (names.senderNick visit sender now).2 = .known nick → Short nick := by
  unfold Names.senderNick
  split
  · refine ⟨h, fun nick hnick => ?_⟩
    cases hnick
    cases hhint : sender.hint with
    | some hint => exact hsender.hint hint hhint
    | none =>
        cases hbot : sender.bot with
        | some bot => exact hsender.bot bot hbot
        | none => exact Nat.le_of_ble_eq_true rfl
  · split
    · rename_i hint hhint
      refine ⟨⟨h.users.insert visit _ (hsender.hint _ hhint) now _, h.channels⟩, fun nick hnick => ?_⟩
      cases hnick
      exact hsender.hint _ hhint
    · rename_i user _ _ _
      refine ⟨⟨h.users.get_after user now, h.channels⟩, fun nick hnick => ?_⟩
      dsimp only at hnick
      cases hget : (names.users.get user now).1 with
      | none => simp [hget] at hnick
      | some value =>
          rw [hget] at hnick
          cases hnick
          exact h.users.get_value hget

theorem Names.Bounded.fetchedNick (h : names.Bounded) (user : Str)
    (fetched : Option (Fetched SlackUser)) :
    (names.fetchedNick visit user fetched now).1.Bounded ∧
      Short (names.fetchedNick visit user fetched now).2 := by
  have hname : Short (names.fetchedNick visit user fetched now).2 := by
    unfold Names.fetchedNick
    dsimp only
    cases (fetched.bind Fetched.response?).bind slackUserNick with
    | none => exact short_logText _
    | some nick => exact short_logText nick
  exact ⟨⟨h.users.insert visit user hname now _, h.channels⟩, hname⟩

theorem byteLength_qualified (workspace : Workspace) (name : Str) :
    (qualified workspace name).byteLength = workspace.name.byteLength + 1 + name.byteLength := by
  simp [qualified, show "-".toList = ['-'] from rfl, show '-'.utf8Size = 1 from rfl, Nat.add_assoc]

theorem Short.qualified (h : Short name) (hworkspace : Short workspace.name) :
    (qualified workspace name).byteLength ≤ 1024 := by
  rw [byteLength_qualified]
  unfold Short at h hworkspace
  omega

theorem Names.Bounded.channelName (h : names.Bounded) (hworkspace : Short workspace.name) :
    (names.channelName workspace id now).1.Bounded ∧
      ∀ channel, (names.channelName workspace id now).2 = .known channel → channel.byteLength ≤ 1024 := by
  refine ⟨⟨h.users, h.channels.get_after id now⟩, fun channel hchannel => ?_⟩
  unfold Names.channelName at hchannel
  dsimp only at hchannel
  cases hget : (names.channels.get id now).1 with
  | none => simp [hget] at hchannel
  | some value =>
      rw [hget] at hchannel
      cases hchannel
      exact (h.channels.get_value hget).qualified hworkspace

theorem Names.Bounded.fetchedChannel (h : names.Bounded) (hworkspace : Short workspace.name)
    (hid : Short id) (fetched : Option (Fetched (Option Str))) :
    (names.fetchedChannel visit workspace id fetched now).1.Bounded ∧
      (names.fetchedChannel visit workspace id fetched now).2.byteLength ≤ 1024 := by
  have hname : ∀ found : Option Str, Short ((found.map (logText · 256)).getD id) := by
    intro found
    cases found with
    | none => exact hid
    | some name => exact short_logText name
  exact ⟨⟨h.users, h.channels.insert visit id (hname _) now _⟩, (hname _).qualified hworkspace⟩

theorem Names.Bounded.cacheChannel (h : names.Bounded) (id name : Str) :
    (names.cacheChannel visit id name now).Bounded :=
  ⟨h.users, h.channels.insert visit id (short_logText name) now _⟩

end

end SjmbSlack.Slackbot
