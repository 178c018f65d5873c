import SjmbSlack.Limits.LogText
import SjmbSlack.Harvest.Timestamp

/-! Messages as both backends hand them to the worker, and the checks of
`prepare_message` on the way there. -/
namespace SjmbSlack.Slackbot

def MESSAGE_BYTES : Nat := 64 * 1024
def MESSAGE_QUEUE_BOUND : Nat := 256
/-- Three minutes in nanoseconds. -/
def QUEUE_AGE : Nat := 180 * 1000000000

structure Workspace where
  name : Str
  teamId : Str
  appId : Str
  deriving DecidableEq

structure SlackUserProfile where
  displayName : Option Str
  displayNameNormalized : Option Str
  realName : Option Str
  realNameNormalized : Option Str
  deriving DecidableEq

structure SlackMessageSender where
  user : Option Str
  botId : Option Str
  username : Option Str
  userProfile : Option SlackUserProfile
  deriving DecidableEq

inductive SlackMessageEventType where
  | botMessage
  | meMessage
  | fileShare
  | threadBroadcast
  /-- Any other subtype of the SDK. -/
  | unsupported
  deriving DecidableEq

/-- The fields of the SDK's message event that the program reads. -/
structure SlackMessageEvent where
  ts : Str
  channel : Option Str
  /-- The text of the content, where there is a content with a text. -/
  text : Option Str
  sender : SlackMessageSender
  hidden : Option Bool
  subtype : Option SlackMessageEventType
  deriving DecidableEq

/-- The SDK's errors: only a rate limit is told apart from the others. -/
inductive SlackClientError where
  | rateLimitError (retryAfter : Option Nat)
  | other
  deriving DecidableEq

def shouldProcessMessage (message : SlackMessageEvent) : Bool :=
  !message.hidden.getD false && message.subtype ≠ some .unsupported

def nonEmpty (value : Str) : Option Str :=
  if value.all Limits.isWhitespace then none else some value

def slackUserProfileNick (profile : SlackUserProfile) : Option Str :=
  [profile.displayName, profile.displayNameNormalized, profile.realName,
    profile.realNameNormalized].findSome? fun field => field.bind nonEmpty

structure SenderInfo where
  user : Option Str
  bot : Option Str
  hint : Option Str
  deriving DecidableEq

def SenderInfo.ofSender (sender : SlackMessageSender) : SenderInfo where
  user := sender.user
  bot := sender.botId.map (Limits.logText · 256)
  hint := ((sender.username.bind nonEmpty).or
    (sender.userProfile.bind slackUserProfileNick)).map (Limits.logText · 256)

structure QueuedMessage where
  workspace : Workspace
  expiresAt : Nat
  ts : Int
  channel : Str
  text : Str
  sender : SenderInfo
  /-- The sending half of a receipt, named by its number. -/
  completion : Option Nat
  dryRun : Bool
  deriving DecidableEq

/-- Why a message is dropped; the last two are counted. -/
inductive Discard where
  | missing
  | oversized
  | invalid
  deriving DecidableEq

def prepareMessage (workspace : Workspace) (message : SlackMessageEvent) (clock : Nat) :
    Except Discard QueuedMessage :=
  match message.text, message.channel with
  | some text, some channel =>
      if text.byteLength > MESSAGE_BYTES then .error .oversized
      else if channel.byteLength > 256 ∨ channel = [] ∨
          message.sender.user.any (fun user => user.byteLength > 256) then .error .invalid
      else match Harvest.messageTimestamp message.ts with
        | none => .error .invalid
        | some ts => .ok {
            workspace := workspace
            expiresAt := clock + QUEUE_AGE
            ts := ts
            channel := channel
            text := text
            sender := .ofSender message.sender
            completion := none
            dryRun := false }
  | _, _ => .error .missing

theorem prepareMessage_ok {workspace : Workspace} {message : SlackMessageEvent} {clock : Nat}
    {queued : QueuedMessage} (h : prepareMessage workspace message clock = .ok queued) :
    ∃ text channel ts, message.text = some text ∧ text.byteLength ≤ MESSAGE_BYTES ∧
      message.channel = some channel ∧ channel ≠ [] ∧ channel.byteLength ≤ 256 ∧
      (∀ user ∈ message.sender.user, user.byteLength ≤ 256) ∧
      Harvest.messageTimestamp message.ts = some ts ∧
      queued = ⟨workspace, clock + QUEUE_AGE, ts, channel, text, .ofSender message.sender, none,
        false⟩ := by
  unfold prepareMessage at h
  split at h
  · rename_i text channel htext hchannel
    split at h
    · contradiction
    · rename_i hbytes
      split at h
      · contradiction
      · rename_i hvalid
        split at h
        · contradiction
        · rename_i ts hts
          cases h
          push Not at hvalid
          obtain ⟨hlength, hne, huser⟩ := hvalid
          refine ⟨text, channel, ts, htext, Nat.le_of_not_lt hbytes, hchannel, hne, hlength,
            fun user hmem => ?_, hts, rfl⟩
          rw [Option.mem_def.mp hmem] at huser
          simpa using huser
  · contradiction

end SjmbSlack.Slackbot
