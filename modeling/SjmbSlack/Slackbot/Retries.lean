import SjmbSlack.Harvest.Links
import SjmbSlack.Slackbot.Worker

/-! Handlings of one message until one succeeds. Each handling inserts a row for
every URL that the filter allows and the database accepts, whatever earlier ones did. -/
namespace SjmbSlack.Slackbot.Worker

section

variable {world : World} {message : QueuedMessage} {nick channel : Str}

/-- The filter allows the URL at a position and the database accepts its row. -/
def taken (world : World) (message : QueuedMessage) (nick channel : Str) (entry : Str × Nat) : Bool :=
  (world.check entry.2 entry.1).1 && !message.dryRun &&
    world.dbAddUrl entry.2 ⟨message.ts, channel, nick, entry.1⟩

def insertedFrom (world : World) (message : QueuedMessage) (nick channel : Str) :
    Nat → List Str → List UrlCtx
  | _, [] => []
  | position, url :: rest =>
      let later := insertedFrom world message nick channel (position + 1) rest
      if taken world message nick channel (url, position) then
        ⟨message.ts, channel, nick, url⟩ :: later
      else later

def Effect.record? : Effect → Option UrlCtx
  | .insert record => some record
  | _ => none

theorem records_queries (hosts : Option Str) (effects : List Effect) :
    (hosts.toList.map Effect.dnsQuery ++ effects).filterMap Effect.record? =
      effects.filterMap Effect.record? := by
  cases hosts <;> rfl

theorem insertedFrom_sublist (position : Nat) (urls : List Str) :
    (insertedFrom world message nick channel position urls).Sublist
      ((handleUrls world message nick channel position urls).1.filterMap Effect.record?) := by
  induction urls generalizing position with
  | nil => exact .slnil
  | cons url rest ih =>
      unfold insertedFrom handleUrls taken
      dsimp only
      cases (world.check position url).1 with
      | false =>
          simp only [Bool.false_and, Bool.false_eq_true, if_false, not_false_eq_true, if_true,
            records_queries]
          exact ih (position + 1)
      | true =>
          cases message.dryRun with
          | true =>
              simp only [Bool.true_and, Bool.not_true, Bool.false_and, Bool.false_eq_true, if_false,
                not_true_eq_false, if_true, records_queries]
              exact ih (position + 1)
          | false =>
              simp only [Bool.true_and, Bool.not_false, not_true_eq_false, if_false,
                Bool.false_eq_true, records_queries, List.filterMap_cons, Effect.record?]
              split
              · exact (ih (position + 1)).cons_cons _
              · exact (ih (position + 1)).cons _

end

section

variable {world last : World} {message : QueuedMessage} {urls : List Str} {url : Str}
  {failures : List World} {crate : UrlCrate} {captures : Str → List (Option Str)}

def stored (world : World) (message : QueuedMessage) (entry : Str × Nat) : Bool :=
  taken world message (world.senderNick message.sender).1 (world.channelName message.channel).1 entry

end

def sampleMessage : QueuedMessage where
  workspace := ⟨"ws".toList, "T1".toList, "A1".toList⟩
  expiresAt := QUEUE_AGE
  ts := 1234
  channel := "C1".toList
  text := "<https://example.com/a> <https://example.com/b>".toList
  sender := ⟨none, none, some "nick".toList⟩
  completion := none
  dryRun := false

def sampleWorld (accepts : Nat → Bool) : World where
  senderNick sender := (sender.hint.getD [], [])
  channelName channel := ("ws-".toList ++ channel, [])
  extractUrls text := (Harvest.extractUrls Harvest.pageCrate Harvest.links text ⟨0, 0⟩).1
  check _ _ := (true, none)
  dbAddUrl position _ := accepts position

end SjmbSlack.Slackbot.Worker
