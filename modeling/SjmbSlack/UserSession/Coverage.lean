import SjmbSlack.UserSession.Discovery
import SjmbSlack.UserSession.Memory
import SjmbSlack.UserSession.PassRecords

/-! The messages of a channel while it has a checkpoint: what is assumed of Slack,
and what every state then keeps of channels, sockets and passes. -/
namespace SjmbSlack.UserSession.Session
open Machine Api Slackbot

def Posted.carriedBy (m : Posted) (event : Json) : Bool :=
  (event.get "channel".toList).asStr = some m.channel && (event.get "ts".toList).asStr = some m.ts

def Posted.concerns (m : Posted) (id : Str) : Bool := m.channel = id && m.tracked

def Returned (s : State) (m : Posted) : Prop := ∃ event ∈ s.core.returned, m.carriedBy event = true

def inPages (messages : List Posted) (channel : Str) (oldest through : Int) (pages : List Served) :
    Bool :=
  messages.all fun m => !(m.channel = channel && oldest ≤ m.second && m.second ≤ through) ||
    pages.any fun page => (pageMessages page.response).any fun message =>
      (message.get "ts".toList).asStr = some m.ts

def listsHistory (s : State) (conn : Connection) : Bool :=
  match conn.recovery with
  | .scanning paging [] response =>
      match paging.thread, nextCursor response with
      | none, .ok [] => inPages (s.posted.take paging.known) paging.channel paging.oldest conn.began
          paging.served
      | _, _ => true
  | _ => true

/-- What is taken for granted: no message is on the socket before it is posted, the
server puts no pong there but its answers to pings, histories are complete, and the
channel stays joined. The process does not crash. -/
def Action.assumed (id : Str) (s : State) : Action → Bool
  | .post _ channel ts => s.connection.all fun conn =>
      !conn.link.put.any (Posted.carriedBy ⟨channel, ts, s.now, true⟩)
  | .place frame => !frame.isPong
  | .discover responses _ =>
      match discoverChannels responses with
      | .ok ids => (s.progress id).isNone || ids.contains id
      | .error _ => true
  | .scan => s.connection.all (listsHistory s)
  | .crash _ => false
  | _ => true

abbrev Assumed (id : Str) (s : State) (a : Action) : Prop := a.assumed id s = true

theorem answersPings_of_assumed {id : Str} {s : State} {a : Action} (h : Assumed id s a) :
    AnswersPings s a := by
  unfold AnswersPings Action.unprompted
  split
  · exact h
  · rfl

theorem orderly_of_assumed {id : Str} {s : State} {a : Action} (h : Assumed id s a) :
    Orderly s a := by
  unfold Orderly
  split
  · cases h
  · trivial

structure Extends (link after : Link) : Prop where
  done : after.done = link.done
  put : link.put <+: after.put

section

variable {config : Config} {link after : Link}

theorem Extends.refl (link : Link) : Extends link link := ⟨rfl, List.prefix_refl _⟩

theorem extends_place (frame : Frame) : Extends link (link.place frame) := by
  refine ⟨rfl, ?_⟩
  unfold Link.place
  dsimp only
  split
  · exact List.prefix_append _ _
  · exact List.prefix_refl _

theorem extends_receivePing (h : link.receivePing = some after) : Extends link after := by
  unfold Link.receivePing at h
  split at h
  · contradiction
  · cases Option.some.inj h
    exact ⟨rfl, List.prefix_refl _⟩

theorem extends_answer {ping : Nat} {pong : Json} (h : link.answer ping pong = some after) :
    Extends link after := by
  unfold Link.answer at h
  split at h
  · cases Option.some.inj h
    exact ⟨rfl, (extends_place _).put⟩
  · contradiction

theorem extends_tick {clock : Nat} (h : link.tick clock = some (.ok after)) : Extends link after := by
  unfold Link.tick at h
  split at h
  · contradiction
  · split at h <;> cases Option.some.inj h
    exact .refl link
  · cases Option.some.inj h
    exact ⟨rfl, List.prefix_refl _⟩

theorem extends_recordPing {clock : Nat} {now : Int} (h : link.recordPing clock now = some after) :
    Extends link after := by
  unfold Link.recordPing at h
  split at h
  · contradiction
  · cases Option.some.inj h
    exact ⟨rfl, List.prefix_refl _⟩

theorem extends_read (h : link.read config = some (.ok after)) : Extends link after := by
  obtain ⟨-, hreads⟩ := reads_of_read h
  cases hreads <;> exact ⟨rfl, List.prefix_refl _⟩

theorem extends_greet {hello : Bool} (h : link.greet = some (.ok (hello, after))) :
    Extends link after := by
  obtain ⟨_, _, -, -, rfl⟩ := greets h
  exact ⟨rfl, List.prefix_refl _⟩

end

structure Asks (s : State) (conn : Connection) (event : Json) (channel : Str) : Prop where
  running : conn.stage = .running
  live : liveChannel event = some channel
  foreign : channel ∉ s.members
  taken : ∃ queue, conn.link.queue.recv = some (.message event, queue)

/-- What a step does to the events on the socket of a connection and to those that
may be dealt with as of a channel that is not joined. -/
structure Carries (s : State) (conn after : Connection) : Prop where
  put : conn.link.put <+: after.link.put
  asking : ∀ event channel, after.consumer = .asking event channel →
    conn.consumer = .asking event channel ∨ Asks s conn event channel
  unjoined : ∀ event response, .unjoined event response ∈ after.link.done →
    .unjoined event response ∈ conn.link.done ∨ ∃ channel, conn.consumer = .asking event channel

section

variable {config : Config} {s t : State} {conn after : Connection}

theorem carries_link (hconsumer : after.consumer = conn.consumer)
    (hlink : Extends conn.link after.link) : Carries s conn after where
  put := hlink.put
  asking _ _ h := .inl (hconsumer ▸ h)
  unjoined _ _ h := .inl (hlink.done ▸ h)

theorem carries_live (h : after.live = conn.live) : Carries s conn after := by
  have hlink : after.link = conn.link := congrArg Live.link h
  exact carries_link (congrArg Live.consumer h) (hlink ▸ .refl _)

theorem carries_consumer (hlink : after.link.put = conn.link.put ∧ after.link.done = conn.link.done)
    (hconsumer : ∀ event channel, after.consumer = .asking event channel → Asks s conn event channel) :
    Carries s conn after where
  put := hlink.1 ▸ List.prefix_refl _
  asking event channel h := .inr (hconsumer event channel h)
  unjoined _ _ h := .inl (hlink.2 ▸ h)

theorem carries_done {dealt : Dealt} (hconsumer : after.consumer = .receiving)
    (hput : after.link.put = conn.link.put) (hdone : after.link.done = conn.link.done ++ [dealt])
    (h : ∀ event response, dealt = .unjoined event response →
      ∃ channel, conn.consumer = .asking event channel) : Carries s conn after where
  put := hput ▸ List.prefix_refl _
  asking _ _ hasking := by
    rw [hconsumer] at hasking
    contradiction
  unjoined event response hmem := by
    rw [hdone] at hmem
    rcases List.mem_append.mp hmem with hmem | hmem
    · exact .inl hmem
    · exact .inr (h event response (List.mem_singleton.mp hmem).symm)

theorem carries_read {result : Except ReadError Link}
    (h : ∀ link, result = .ok link → Extends conn.link link)
    (hafter : (afterRead s conn result).connection = some after) : Carries s conn after := by
  unfold afterRead at hafter
  split at hafter
  · cases Option.some.inj hafter
    exact carries_link rfl (h _ rfl)
  · contradiction
  · contradiction

theorem carries_discover {responses : List (Except ApiError Json)} {order : List Str}
    (h : discover config s conn responses order = some t) (hafter : t.connection = some after) :
    Carries s conn after := by
  unfold discover at h
  split at h
  · split at h
    · cases Option.some.inj h
      contradiction
    · split at h
      · cases Option.some.inj h
        contradiction
      · contradiction
  · split at h
    · contradiction
    · split at h
      · cases Option.some.inj h
        rw [start_connection hafter]
        exact carries_link rfl (.refl _)
      · dsimp only at h
        split at h <;> cases Option.some.inj h
        · cases Option.some.inj hafter
          exact carries_consumer ⟨rfl, rfl⟩ fun _ _ hasking => (nomatch hasking)
        · contradiction
      · contradiction

theorem carries_consume (hstage : conn.stage = .running) (h : consume config s conn = some t)
    (hafter : t.connection = some after) : Carries s conn after := by
  unfold consume at h
  split at h
  · rename_i event queue hconsumer hrecv
    dsimp only at h
    split at h
    · cases Option.some.inj h
      cases Option.some.inj hafter
      exact carries_consumer ⟨rfl, rfl⟩ fun _ _ hasking => (nomatch hasking)
    · rename_i event
      split at h
      · cases Option.some.inj h
        cases Option.some.inj hafter
        exact carries_consumer ⟨rfl, rfl⟩ fun _ _ hasking => (nomatch hasking)
      · split at h
        · cases Option.some.inj h
          cases Option.some.inj hafter
          exact carries_done rfl rfl rfl fun _ _ hdealt => (nomatch hdealt)
        · rename_i id hlive
          split at h
          · cases Option.some.inj h
            cases Option.some.inj hafter
            exact carries_consumer ⟨rfl, rfl⟩ fun _ _ hasking => (nomatch hasking)
          · rename_i hmember
            cases Option.some.inj h
            cases Option.some.inj hafter
            refine carries_consumer ⟨rfl, rfl⟩ fun found channel hasking => ?_
            cases hasking
            exact ⟨hstage, hlive, fun hmem => hmember (List.contains_iff_mem.mpr hmem), queue, hrecv⟩
  · contradiction

theorem carries_answered {event : Json} {id : Str} (hconsumer : conn.consumer = .asking event id)
    (response : Except ApiError Json)
    (hafter : (answered s conn event id response).connection = some after) :
    Carries s conn after := by
  unfold answered at hafter
  split at hafter
  · contradiction
  · dsimp only at hafter
    split at hafter
    · cases Option.some.inj hafter
      refine carries_done rfl rfl rfl fun _ _ hdealt => ?_
      cases hdealt
      exact ⟨id, hconsumer⟩
    · split at hafter
      · contradiction
      · split at hafter
        · cases Option.some.inj hafter
          exact carries_consumer ⟨rfl, rfl⟩ fun _ _ hasking => (nomatch hasking)
        · contradiction

theorem carries_turn {step : Turn} (h : turn config s conn .live step = some t)
    (hafter : t.connection = some after) : Carries s conn after := by
  unfold turn at h
  dsimp only at h
  split at h
  · obtain ⟨⟨core, outcome⟩, -, rfl⟩ := Option.map_eq_some_iff.mp h
    dsimp only at hafter
    split at hafter
    · cases Option.some.inj hafter
      exact carries_consumer ⟨rfl, rfl⟩ fun _ _ hasking => (nomatch hasking)
    · cases Option.some.inj hafter
      exact carries_done rfl rfl rfl fun _ _ hdealt => (nomatch hdealt)
    · contradiction
  · contradiction

theorem carries_save {caller : Option Caller} {ok : Bool} (h : save s conn caller ok = some t)
    (hafter : t.connection = some after) : Carries s conn after := by
  obtain ⟨-, rfl | ⟨snapshot, rfl⟩⟩ := save_cases h
  · contradiction
  · unfold saved at hafter
    split at hafter <;> cases Option.some.inj hafter
    · exact carries_link rfl (.refl _)
    · exact carries_consumer ⟨rfl, rfl⟩ fun _ _ hasking => (nomatch hasking)
    · exact carries_link rfl (.refl _)

theorem carries_connected {a : Action} (hs : stepConnected config s conn a = some t)
    (hafter : t.connection = some after) : Carries s conn after := by
  cases ha : a.recovers with
  | true => exact carries_live (tasked hs ha hafter).live
  | false =>
      cases a with
      | place frame =>
          simp only [stepConnected] at hs
          split at hs
          · contradiction
          · cases Option.some.inj hs
            cases Option.some.inj hafter
            exact carries_link rfl (extends_place frame)
      | receivePing =>
          obtain ⟨link, hlink, rfl⟩ := Option.map_eq_some_iff.mp hs
          cases Option.some.inj hafter
          exact carries_link rfl (extends_receivePing hlink)
      | answer ping pong =>
          obtain ⟨link, hlink, rfl⟩ := Option.map_eq_some_iff.mp hs
          cases Option.some.inj hafter
          exact carries_link rfl (extends_answer hlink)
      | recordPing =>
          obtain ⟨link, hlink, rfl⟩ := Option.map_eq_some_iff.mp hs
          cases Option.some.inj hafter
          exact carries_link rfl (extends_recordPing hlink)
      | opened =>
          simp only [stepConnected] at hs
          split at hs
          · cases Option.some.inj hs
            cases Option.some.inj hafter
            exact carries_link rfl (.refl _)
          · contradiction
      | greet =>
          simp only [stepConnected] at hs
          split at hs
          · obtain ⟨result, hgreet, hresult⟩ := Option.map_eq_some_iff.mp hs
            split at hresult <;> subst hresult
            · cases Option.some.inj hafter
              exact carries_link rfl (extends_greet hgreet)
            · contradiction
          · contradiction
      | tick =>
          simp only [stepConnected] at hs
          split at hs
          · obtain ⟨result, htick, rfl⟩ := Option.map_eq_some_iff.mp hs
            exact carries_read (fun link hlink => extends_tick (hlink ▸ htick)) hafter
          · contradiction
      | read =>
          simp only [stepConnected] at hs
          split at hs
          · obtain ⟨result, hread, rfl⟩ := Option.map_eq_some_iff.mp hs
            exact carries_read (fun link hlink => extends_read (hlink ▸ hread)) hafter
          · contradiction
      | fail =>
          cases Option.some.inj hs
          contradiction
      | discover responses order => exact carries_discover hs hafter
      | consume =>
          simp only [stepConnected] at hs
          split at hs
          · rename_i hstage
            exact carries_consume hstage hs hafter
          · contradiction
      | answered response =>
          simp only [stepConnected] at hs
          split at hs
          · rename_i hconsumer
            cases Option.some.inj hs
            exact carries_answered hconsumer response hafter
          · contradiction
      | turn caller step =>
          cases caller with
          | live => exact carries_turn hs hafter
          | recovery => contradiction
      | copy caller =>
          simp only [stepConnected] at hs
          split at hs
          · cases Option.some.inj hs
            cases Option.some.inj hafter
            exact carries_link rfl (.refl _)
          · contradiction
      | save caller ok => exact carries_save hs hafter
      | startPass | choose | page | scan => contradiction
      | advance | post | worker | connect | saveAfter | stop | restart | crash => contradiction

end

structure Beside (s t : State) : Prop where
  posted : t.posted = s.posted
  clips : t.clips = s.clips
  members : s.members ⊆ t.members

section

variable {config : Config} {s t : State} {conn : Connection}

theorem Beside.same (hposted : t.posted = s.posted) (hclips : t.clips = s.clips)
    (hmembers : t.members = s.members) : Beside s t :=
  ⟨hposted, hclips, hmembers ▸ List.Subset.refl _⟩

theorem Recovers.beside (h : Recovers s conn t) : Beside s t :=
  .same (by rw [h.rest]) (by rw [h.rest]) (by rw [h.rest])

theorem beside_consume (h : consume config s conn = some t) : Beside s t := by
  unfold consume at h
  split at h
  · dsimp only at h
    split at h
    · cases Option.some.inj h
      exact .same rfl rfl rfl
    · split at h
      · cases Option.some.inj h
        exact .same rfl rfl rfl
      · split at h
        · cases Option.some.inj h
          exact .same rfl rfl rfl
        · split at h <;> cases Option.some.inj h <;> exact .same rfl rfl rfl
  · contradiction

theorem beside_answered (event : Json) (id : Str) (response : Except ApiError Json) :
    Beside s (answered s conn event id response) := by
  unfold answered
  split
  · exact .same rfl rfl rfl
  · dsimp only
    split
    · exact .same rfl rfl rfl
    · split
      · exact .same rfl rfl rfl
      · have hmembers : s.members ⊆ if s.members.contains id then s.members else s.members ++ [id] := by
          split
          · exact List.Subset.refl _
          · exact List.subset_append_left _ _
        split <;> exact ⟨rfl, rfl, hmembers⟩

theorem beside_turn {caller : Caller} {step : Turn} (h : turn config s conn caller step = some t) :
    Beside s t := by
  cases caller with
  | live =>
      unfold turn at h
      dsimp only at h
      split at h
      · obtain ⟨⟨core, outcome⟩, -, rfl⟩ := Option.map_eq_some_iff.mp h
        dsimp only
        split <;> exact .same rfl rfl rfl
      · contradiction
  | recovery =>
      obtain ⟨_, _, _, _, core, _, -, -, ⟨next, -, rfl⟩ | ⟨-, h⟩⟩ := recovers_turn h
      · exact .same rfl rfl rfl
      · exact ⟨h.beside.posted, h.beside.clips, h.beside.members⟩

theorem beside_connected {a : Action} (hs : stepConnected config s conn a = some t)
    (ha : a.discovers = false) : Beside s t := by
  cases hstores : a.stores with
  | false =>
      rcases unstored_cases hs hstores with (rfl | rfl) | ⟨after, saved, rfl⟩ <;> exact .same rfl rfl rfl
  | true =>
      unfold Action.stores at hstores
      split at hstores
      · contradiction
      · simp only [stepConnected] at hs
        split at hs
        · exact beside_consume hs
        · contradiction
      · simp only [stepConnected] at hs
        split at hs
        · cases Option.some.inj hs
          exact beside_answered _ _ _
        · contradiction
      · exact beside_turn hs
      · simp only [stepConnected] at hs
        split at hs
        · cases Option.some.inj hs
          exact (recovers_choose ..).beside
        · contradiction
      · simp only [stepConnected] at hs
        split at hs
        · cases Option.some.inj hs
          exact (recovers_page ..).beside
        · contradiction
      · simp only [stepConnected] at hs
        split at hs
        · cases Option.some.inj hs
          exact (recovers_scan ..).beside
        · contradiction
      · contradiction

theorem rediscovered {responses : List (Except ApiError Json)} {order : List Str}
    (hstage : conn.stage ≠ .discovering) (h : discover config s conn responses order = some t) :
    Beside s { t with members := s.members } ∧ (t.members = s.members ∧ t.connection = none ∨
      ∃ ids, discoverChannels responses = .ok ids ∧ order.Perm ids ∧ t.members = order) := by
  unfold discover at h
  split at h
  · split at h
    · cases Option.some.inj h
      exact ⟨.same rfl rfl rfl, .inl ⟨rfl, rfl⟩⟩
    · split at h
      · cases Option.some.inj h
        exact ⟨.same rfl rfl rfl, .inl ⟨rfl, rfl⟩⟩
      · contradiction
  · rename_i ids hids
    split at h
    · contradiction
    · rename_i hperm
      have hperm : order.Perm ids := by simpa using hperm
      split at h
      · rename_i hdiscovering
        exact absurd hdiscovering hstage
      · dsimp only at h
        split at h <;> cases Option.some.inj h <;>
          exact ⟨.same rfl rfl rfl, .inr ⟨ids, hids, hperm, rfl⟩⟩
      · contradiction

theorem posted_start (joined : List Str) : (start config s conn joined).posted = s.posted ∧
    (start config s conn joined).members = joined ∧ (start config s conn joined).clips =
      s.clips ++ clipped config.window conn.began s.core.store joined := by
  unfold start
  dsimp only
  split <;> exact ⟨rfl, rfl, rfl⟩

theorem posted_connected {a : Action} (hs : stepConnected config s conn a = some t) :
    t.posted = s.posted ∧ s.clips ⊆ t.clips := by
  cases ha : a.discovers with
  | false =>
      have h := beside_connected hs ha
      exact ⟨h.posted, h.clips ▸ List.Subset.refl _⟩
  | true =>
      unfold Action.discovers at ha
      split at ha
      · rename_i responses order
        by_cases hstage : conn.stage = .discovering
        · rcases started hstage hs with rfl | ⟨ids, -, -, rfl⟩
          · exact ⟨rfl, List.Subset.refl _⟩
          · obtain ⟨hposted, -, hclips⟩ := @posted_start config s conn order
            exact ⟨hposted, hclips ▸ List.subset_append_left _ _⟩
        · have h := (rediscovered hstage hs).1
          exact ⟨h.posted, h.clips ▸ List.Subset.refl _⟩
      · contradiction

end

end SjmbSlack.UserSession.Session
