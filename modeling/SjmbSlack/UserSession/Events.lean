import SjmbSlack.Slackbot.Message
import SjmbSlack.UserSession.Api
import SjmbSlack.UserSession.Store

/-! What the session reads from the JSON of Slack: events, history pages and
lists of channels. An error that is no `ApiError` is `ApiError.other`. -/
namespace SjmbSlack.UserSession
open Api Slackbot

def isMessage (event : Json) : Bool := (event.get "type".toList).isText "message".toList

def SUBTYPES : List Str :=
  ["bot_message".toList, "me_message".toList, "file_share".toList, "thread_broadcast".toList]

def threadOf (event : Json) (ts : Str) : Option Str :=
  ((event.get "thread_ts".toList).asStr).or
    (((event.get "reply_count".toList).asUnsigned.filter fun count => count > 0).map fun _ => ts)

def normalise (decode : Json → Option SlackMessageEvent) (event : Json) :
    Option (SlackMessageEvent × Str × Option Str) :=
  if ¬ isMessage event ∨ (event.get "hidden".toList).isTrue then none
  else if (event.get "subtype".toList).asStr.any fun subtype => ¬ SUBTYPES.contains subtype then none
  else do
    let ts ← (event.get "ts".toList).asStr
    if ¬ validTs ts then none
    else
      let message ← decode event
      if shouldProcessMessage message then some (message, ts, threadOf event ts) else none

theorem normalise_some {decode : Json → Option SlackMessageEvent} {event : Json}
    {message : SlackMessageEvent} {ts : Str} {thread : Option Str}
    (h : normalise decode event = some (message, ts, thread)) :
    isMessage event = true ∧ (event.get "ts".toList).asStr = some ts ∧ validTs ts = true ∧
      decode event = some message ∧ shouldProcessMessage message = true ∧
      thread = threadOf event ts := by
  unfold normalise at h
  split at h
  · contradiction
  · rename_i hkind
    split at h
    · contradiction
    · obtain ⟨found, hfound, h⟩ := Option.bind_eq_some_iff.mp h
      split at h
      · contradiction
      · rename_i hvalid
        obtain ⟨decoded, hdecoded, h⟩ := Option.bind_eq_some_iff.mp h
        split at h
        · rename_i hprocess
          cases Option.some.inj h
          exact ⟨not_not.mp (not_or.mp hkind).1, hfound, not_not.mp hvalid, hdecoded, hprocess, rfl⟩
        · contradiction

/-- The channel of a live event that `consume` looks at. -/
def liveChannel (event : Json) : Option Str :=
  (event.get "channel".toList).asStr.filter fun id =>
    validId id && ("C".toList.isPrefixOf id || "G".toList.isPrefixOf id)

def eligibleChannel (channel : Json) : Bool :=
  (channel.get "id".toList).asStr.any (fun id =>
    validId id && ("C".toList.isPrefixOf id || "G".toList.isPrefixOf id)) &&
  !(channel.get "is_im".toList).isTrue && !(channel.get "is_mpim".toList).isTrue &&
  !(channel.get "is_archived".toList).isTrue

def ERROR_CODES : List Str :=
  ["invalid_auth".toList, "token_revoked".toList, "token_expired".toList,
    "account_inactive".toList, "not_authed".toList, "session_expired".toList]

def checkError (event : Json) : Except ApiError Unit :=
  if (event.get "type".toList).isText "error".toList then
    let error := event.get "error".toList
    let code := (((error.get "code".toList).asStr).or error.asStr).getD "websocket_error".toList
    if ERROR_CODES.contains code then .error (.authentication code) else .error .other
  else .ok ()

def nextCursor (response : Json) : Except ApiError Str :=
  let cursor := (((response.get "response_metadata".toList).get "next_cursor".toList).asStr).getD []
  if cursor.byteLength > 4096 then .error .other
  else if cursor = [] ∧ (response.get "has_more".toList).isTrue then .error .other
  else .ok cursor

def addChannels : List Json → List Str → Except ApiError (List Str)
  | [], ids => .ok ids
  | channel :: rest, ids =>
      if eligibleChannel channel then
        match (channel.get "id".toList).asStr with
        | none => .error .other
        | some id =>
            if ¬ (ids.length < MAX_CHANNELS ∨ ids.contains id) then .error .other
            else addChannels rest (if ids.contains id then ids else ids ++ [id])
      else addChannels rest ids

/-- `discover_channels` over the responses it gets, to the last. -/
def discoverPages : List (Except ApiError Json) → List Str → List Str → Except ApiError (List Str)
  | [], _, _ => .error .other
  | response :: rest, ids, cursors => do
      let response ← response
      let channels ← ((response.get "channels".toList).asArray).elim (.error .other) .ok
      let ids ← addChannels channels ids
      let cursor ← nextCursor response
      if cursor = [] then if rest = [] then .ok ids else .error .other
      else if cursors.length < 100 ∧ ¬ cursors.contains cursor then
        discoverPages rest ids (cursor :: cursors)
      else .error .other

def discoverChannels (responses : List (Except ApiError Json)) : Except ApiError (List Str) :=
  discoverPages responses [] []

/-- A history message as it goes to `process`; `none` where it is no object. -/
def completeEvent (id : Str) (thread : Option Str) : Json → Option Json
  | .obj fields =>
      let fields := Json.insertField fields "channel".toList (.str id)
      let fields := Json.entryOrInsert fields "type".toList (.str "message".toList)
      some (.obj (match thread with
        | some ts => Json.entryOrInsert fields "thread_ts".toList (.str ts)
        | none => fields))
  | _ => none

theorem get_completeEvent {id field : Str} {message event : Json}
    (h : completeEvent id none message = some event) (hchannel : field ≠ "channel".toList)
    (htype : field ≠ "type".toList) : event.get field = message.get field := by
  unfold completeEvent at h
  split at h
  · cases Option.some.inj h
    rw [Json.get_entryOrInsert_ne _ _ htype, Json.get_insertField_ne _ _ hchannel]
  · contradiction

theorem channel_completeEvent {id : Str} {message event : Json}
    (h : completeEvent id none message = some event) :
    event.get "channel".toList = .str id := by
  unfold completeEvent at h
  split at h
  · cases Option.some.inj h
    rw [Json.get_entryOrInsert_ne _ _ (by decide), Json.get_insertField_self]
  · contradiction

def eventSecond (event : Json) : Option Int :=
  (event.get "ts".toList).asStr.bind Harvest.messageTimestamp

def inRange (oldest through : Int) (event : Json) : Bool :=
  (eventSecond event).any fun second => oldest ≤ second ∧ second ≤ through

end SjmbSlack.UserSession
