import SjmbSlack.Slackbot.WorkerCorrect
import SjmbSlack.UserSession.Heartbeat

/-! The heartbeat over whole runs: which events are dealt with when a checkpoint
is applied, and in which order checkpoints and failures happen. -/
namespace SjmbSlack.UserSession.Session
open Machine Api Slackbot

def upcoming (link : Link) : List Int :=
  link.queue.buffer.filterMap Event.through? ++ (link.pending.map Pending.through).toList

theorem upcoming_step {config : Config} {placed : Frame → Prop} {s t : State} {live after : Live}
    {label : Option (Int × Nat)} (hone : OnePing live.link)
    (h : LiveStep config placed s t live label after) :
    ∃ recorded : List Int, (∀ through ∈ recorded, through = s.now) ∧
      upcoming live.link ++ recorded = (label.map Prod.fst).toList ++ upcoming after.link := by
  cases h with
  | same | opened | place | advance | consumer | done => exact ⟨[], by simp, by simp [upcoming, Link.place]⟩
  | receivePing stage link after consumer hafter =>
      obtain ⟨-, -, -, -, rfl⟩ := OnePing.receivePing hone hafter
      exact ⟨[], by simp, by simp [upcoming]⟩
  | answer stage link after consumer ping pong hafter =>
      obtain ⟨-, -, -, rfl⟩ := OnePing.answer hone hafter
      exact ⟨[], by simp, by simp [upcoming, Link.place]⟩
  | greet link after consumer hello hafter =>
      obtain ⟨_, _, -, -, rfl⟩ := greets hafter
      exact ⟨[], by simp, by simp [upcoming]⟩
  | tick stage link after consumer hstage hafter =>
      obtain ⟨-, rfl | ⟨-, -, -, rfl⟩⟩ := OnePing.tick hone hafter <;>
        exact ⟨[], by simp, by simp [upcoming]⟩
  | recordPing stage link after consumer hafter =>
      obtain ⟨-, -, hpending, rfl⟩ := OnePing.recordPing hone hafter
      have hnone : link.pending = none := hpending
      exact ⟨[s.now], by simp, by simp [upcoming, hnone]⟩
  | read stage link after consumer hstage hafter =>
      obtain ⟨hwriting, hreads⟩ := reads_of_read hafter
      refine ⟨[], by simp, ?_⟩
      cases hreads with
      | dropped => simp [upcoming]
      | queued event rest queue hframes hpong hqueue =>
          simp [upcoming, (Mpsc.trySend_ok hqueue).2.1, List.filterMap_cons]
      | barrier event rest queue pending hframes hpong hpending hqueue =>
          simp [upcoming, (Mpsc.trySend_ok hqueue).2.1, hpending]
  | checkpoint stage link queue through ping hrecv =>
      refine ⟨[], by simp, ?_⟩
      simp [upcoming, (Mpsc.recv_some hrecv).1]
  | message stage link consumer queue event hrecv hcurrent =>
      refine ⟨[], by simp, ?_⟩
      simp [upcoming, (Mpsc.recv_some hrecv).1, List.filterMap_cons]
  | foreign stage link queue event hrecv hmessage hforeign =>
      refine ⟨[], by simp, ?_⟩
      simp [upcoming, (Mpsc.recv_some hrecv).1, List.filterMap_cons]

def Later (newer older : Happening) : Prop :=
  ∀ number through ping, newer = .applied number through ping → older ≠ .failed number ∧
    ∀ earlier other, older = .applied number earlier other → earlier ≤ through

def Happening.number : Happening → Nat
  | .failed number => number
  | .applied number _ _ => number

structure Connected (s : State) (conn : Connection) : Prop where
  number : conn.number + 1 = s.connections
  barrier : Barrier conn.live
  unfailed : Happening.failed conn.number ∉ s.history
  rising : (upcoming conn.link).Pairwise (· ≤ ·)
  past : ∀ through ∈ upcoming conn.link, through ≤ s.now
  applied : ∀ through ping, Happening.applied conn.number through ping ∈ s.history →
    through ≤ s.now ∧ ∀ later ∈ upcoming conn.link, through ≤ later
  sound : ∀ dealt ∈ conn.link.done, DealtSoundly s.core.returned dealt

structure HeartbeatInv (s : State) : Prop where
  numbers : ∀ entry ∈ s.history, entry.number < s.connections
  ordered : s.history.Pairwise Later
  connected : ∀ conn, s.connection = some conn → Connected s conn

/-- A frame that the server puts on the socket of its own accord is no pong. -/
def Action.unprompted : Action → Bool
  | .place frame => !frame.isPong
  | _ => true

/-- The server puts no pong on the socket but its answers to pings. -/
abbrev AnswersPings (_ : State) (a : Action) : Prop := a.unprompted = true

theorem DealtSoundly.mono {before after : List Json} {dealt : Dealt}
    (h : DealtSoundly before dealt) (hsubset : before ⊆ after) : DealtSoundly after dealt := by
  cases dealt with
  | processed event => exact hsubset h
  | foreign | unjoined => exact h

theorem done_step {config : Config} {placed : Frame → Prop} {s t : State} {live after : Live}
    {label : Option (Int × Nat)} (h : LiveStep config placed s t live label after) :
    ∀ dealt ∈ after.link.done, dealt ∈ live.link.done ∨ DealtSoundly t.core.returned dealt := by
  cases h with
  | same | opened | place | advance | consumer | checkpoint | message => exact fun _ h => .inl h
  | receivePing stage link after consumer hafter =>
      unfold Link.receivePing at hafter
      split at hafter
      · contradiction
      · cases Option.some.inj hafter
        exact fun _ h => .inl h
  | answer stage link after consumer ping pong hafter =>
      unfold Link.answer at hafter
      split at hafter
      · cases Option.some.inj hafter
        exact fun _ h => .inl h
      · contradiction
  | greet link after consumer hello hafter =>
      obtain ⟨_, _, -, -, rfl⟩ := greets hafter
      exact fun _ h => .inl h
  | tick stage link after consumer hstage hafter =>
      unfold Link.tick at hafter
      split at hafter
      · contradiction
      · split at hafter
        · cases Option.some.inj hafter
          exact fun _ h => .inl h
        · cases Option.some.inj hafter
      · cases Option.some.inj hafter
        exact fun _ h => .inl h
  | recordPing stage link after consumer hafter =>
      unfold Link.recordPing at hafter
      split at hafter
      · contradiction
      · cases Option.some.inj hafter
        exact fun _ h => .inl h
  | read stage link after consumer hstage hafter =>
      obtain ⟨-, hreads⟩ := reads_of_read hafter
      cases hreads <;> exact fun _ h => .inl h
  | foreign stage link queue event hrecv hmessage hforeign =>
      intro dealt hmem
      rcases List.mem_append.mp hmem with hmem | hmem
      · exact .inl hmem
      · cases List.mem_singleton.mp hmem
        exact .inr hforeign
  | done stage link consumer dealt hcurrent hdealt =>
      intro other hmem
      rcases List.mem_append.mp hmem with hmem | hmem
      · exact .inl hmem
      · cases List.mem_singleton.mp hmem
        exact .inr hdealt

section

variable {config : Config} {s t : State}

theorem connected_new (h : HeartbeatInv s) (hconn : t.connection = some (newConnection s))
    (hconnections : t.connections = s.connections + 1) (hhistory : t.history = s.history) :
    HeartbeatInv t := by
  have hunused : ∀ entry ∈ s.history, entry.number ≠ s.connections := fun entry hmem =>
    (h.numbers entry hmem).ne
  refine ⟨?_, hhistory ▸ h.ordered, fun conn hsome => ?_⟩
  · intro entry hmem
    have := h.numbers entry (hhistory ▸ hmem)
    omega
  · cases Option.some.inj (hconn.symm.trans hsome)
    refine ⟨hconnections.symm, ⟨⟨?_, ?_, ?_, ?_, ?_, ?_, ?_, ?_, ?_⟩, ⟨?_, ?_, ?_, ?_, ?_⟩⟩,
      fun hfailed => hunused _ (hhistory ▸ hfailed) rfl, ?_, ?_,
      fun _ _ happlied => absurd rfl (hunused _ (hhistory ▸ happlied)), ?_⟩
    all_goals simp [newConnection, Link.opened, Mpsc.channel, upcoming, busy, queued,
      Connection.live, Live.early, Live.taken, Live.inbound, afterHello]

theorem connected_step {conn after : Connection} {label : Option (Int × Nat)} {placed : Frame → Prop}
    (h : HeartbeatInv s) (hconn : s.connection = some conn) (hafter : t.connection = some after)
    (hconnections : t.connections = s.connections) (hnumber : after.number = conn.number)
    (hnow : s.now ≤ t.now) (hreturned : s.core.returned ⊆ t.core.returned)
    (hlive : LiveStep config placed s t conn.live label after.live)
    (hbarrier : Barrier after.live)
    (hhistory : t.history = (label.map fun at' => Happening.applied conn.number at'.1 at'.2).toList ++
      s.history) : HeartbeatInv t := by
  have hc := h.connected conn hconn
  obtain ⟨recorded, hrecorded, hupcoming⟩ := upcoming_step hc.barrier.onePing hlive
  have hsorted : (upcoming conn.link ++ recorded).Pairwise (· ≤ ·) := by
    refine List.pairwise_append.mpr ⟨hc.rising, ?_, fun through hmem other hother => ?_⟩
    · refine List.pairwise_of_forall_mem_list fun a ha b hb => ?_
      rw [hrecorded a ha, hrecorded b hb]
    · rw [hrecorded other hother]
      exact hc.past through hmem
  have hpast : ∀ through ∈ upcoming conn.link ++ recorded, through ≤ t.now := by
    intro through hmem
    rcases List.mem_append.mp hmem with hmem | hmem
    · exact (hc.past through hmem).trans hnow
    · exact (hrecorded through hmem).le.trans hnow
  have happlied : ∀ through ping, Happening.applied conn.number through ping ∈ s.history →
      ∀ later ∈ upcoming conn.link ++ recorded, through ≤ later := by
    intro through ping hmem later hlater
    rcases List.mem_append.mp hlater with hlater | hlater
    · exact (hc.applied through ping hmem).2 later hlater
    · rw [hrecorded later hlater]
      exact (hc.applied through ping hmem).1
  change upcoming conn.link ++ recorded = _ at hupcoming
  rw [hupcoming] at hsorted hpast happlied
  have hsound : ∀ dealt ∈ after.link.done, DealtSoundly t.core.returned dealt := by
    intro dealt hmem
    rcases done_step hlive dealt hmem with hold | hnew
    · exact (hc.sound dealt hold).mono hreturned
    · exact hnew
  cases label with
  | none =>
      simp only [Option.map_none, Option.toList_none, List.nil_append] at hhistory hsorted hpast happlied
      refine ⟨fun entry hmem => hconnections ▸ h.numbers entry (hhistory ▸ hmem),
        hhistory ▸ h.ordered, fun found hfound => ?_⟩
      cases Option.some.inj (hafter.symm.trans hfound)
      exact ⟨by rw [hnumber, hconnections]; exact hc.number, hbarrier,
        by rw [hnumber, hhistory]; exact hc.unfailed, hsorted, hpast, fun through ping hmem => by
          rw [hnumber, hhistory] at hmem
          exact ⟨(hc.applied through ping hmem).1.trans hnow, happlied through ping hmem⟩, hsound⟩
  | some applied =>
      obtain ⟨through, ping⟩ := applied
      simp only [Option.map_some, Option.toList_some, List.singleton_append] at hhistory hsorted hpast happlied
      have hnext := List.pairwise_cons.mp hsorted
      refine ⟨?_, ?_, fun found hfound => ?_⟩
      · intro entry hmem
        rw [hhistory] at hmem
        rcases List.mem_cons.mp hmem with rfl | hmem
        · have := hc.number
          simp only [Happening.number]
          omega
        · exact hconnections ▸ h.numbers entry hmem
      · rw [hhistory]
        refine List.pairwise_cons.mpr ⟨fun older hmem => ?_, h.ordered⟩
        rintro number newest other heq
        cases heq
        refine ⟨fun hfailed => hc.unfailed (hfailed ▸ hmem), fun earlier old hold => ?_⟩
        exact happlied earlier old (hold ▸ hmem) through List.mem_cons_self
      · cases Option.some.inj (hafter.symm.trans hfound)
        refine ⟨by rw [hnumber, hconnections]; exact hc.number, hbarrier, ?_, hnext.2,
          fun later hmem => hpast later (List.mem_cons_of_mem _ hmem), ?_, hsound⟩
        · rw [hnumber, hhistory]
          intro hmem
          rcases List.mem_cons.mp hmem with heq | hmem
          · cases heq
          · exact hc.unfailed hmem
        · intro found old hmem
          rw [hnumber, hhistory] at hmem
          rcases List.mem_cons.mp hmem with heq | hmem
          · cases heq
            exact ⟨hpast _ List.mem_cons_self, hnext.1⟩
          · exact ⟨(hc.applied found old hmem).1.trans hnow,
              fun later hlater => happlied found old hmem later (List.mem_cons_of_mem _ hlater)⟩

theorem heartbeatInv_step {a : Action} (h : HeartbeatInv s) (ha : AnswersPings s a)
    (hs : step config s a = some t) : HeartbeatInv t := by
  cases hconn : s.connection with
  | none =>
      obtain ⟨hhistory, ⟨hnone, hconnections⟩ | ⟨hnew, hconnections⟩⟩ := step_disconnected hs hconn
      · refine ⟨fun entry hmem => hconnections ▸ h.numbers entry (hhistory ▸ hmem),
          hhistory ▸ h.ordered, fun conn hsome => ?_⟩
        rw [hnone] at hsome
        contradiction
      · exact connected_new h hnew hconnections hhistory
  | some conn =>
      obtain ⟨hconnections, ⟨hnone, hhistory⟩ | ⟨after, label, hafter, hnumber, hlive, hhistory⟩⟩ :=
        @follows _ (fun frame => frame.isPong = false) _ _ _ _ hs hconn
          (fun frame heq => by simpa [heq, AnswersPings, Action.unprompted] using ha)
          (fun event hmessage => by
            refine Bool.eq_false_iff.mpr fun hpong => ?_
            exact absurd (hasType_unique hpong hmessage) (by decide))
      · refine ⟨?_, ?_, fun found hsome => by rw [hnone] at hsome; contradiction⟩
        · intro entry hmem
          rcases hhistory with hhistory | hhistory <;> rw [hhistory] at hmem
          · exact hconnections ▸ h.numbers entry hmem
          · rcases List.mem_cons.mp hmem with rfl | hmem
            · have := (h.connected conn hconn).number
              simp only [Happening.number]
              omega
            · exact hconnections ▸ h.numbers entry hmem
        · rcases hhistory with hhistory | hhistory <;> rw [hhistory]
          · exact h.ordered
          · exact List.pairwise_cons.mpr ⟨fun _ _ _ _ _ heq => (nomatch heq), h.ordered⟩
      · exact connected_step h hconn hafter hconnections hnumber (now_mono hs) (step_keeps hs).2
          hlive (barrier_step (h.connected conn hconn).barrier hlive) hhistory

end

theorem heartbeatInv_reachable {config : Config} {s : State}
    (h : ReachableBy (machine config) AnswersPings s) : HeartbeatInv s := by
  refine h.invariant (P := HeartbeatInv) ?_ fun _ _ _ _ hinv ha hs => heartbeatInv_step hinv ha hs
  rintro s ⟨team, user, clock, rfl⟩
  exact ⟨by simp [initial], by simp [initial], by simp [initial]⟩

theorem Connected.dealt {s : State} {conn : Connection} {through : Int} {ping : Nat}
    {rest : List Event} (h : Connected s conn)
    (hbuffer : conn.link.queue.buffer = .checkpoint through ping :: rest)
    (hreceiving : conn.consumer = .receiving) :
    (∃ count, (ping, count) ∈ conn.link.receipts) ∧ ∀ count, (ping, count) ∈ conn.link.receipts →
      count ≤ conn.link.put.length ∧
        (conn.link.done.map Dealt.event).take count = conn.link.put.take count := by
  obtain ⟨-, -, hexists, hcount⟩ := h.barrier.ordered.checkpoint [] through ping rest hbuffer
  refine ⟨hexists, fun count hmem => ⟨(h.barrier.onePing.receipts _ hmem).2, ?_⟩⟩
  have hle := hcount count hmem
  have htaken : Live.taken conn.live = conn.link.done.map Dealt.event := by
    simp [Live.taken, Connection.live, hreceiving]
  rw [htaken, List.filterMap_nil, List.length_nil, Nat.add_zero] at hle
  have hflow := h.barrier.ordered.flow
  rw [htaken, List.append_assoc] at hflow
  rw [show conn.link.put = _ from hflow, List.take_append_of_le_length hle]

theorem consumed_checkpoint {config : Config} {s t : State} {conn : Connection} {number ping : Nat}
    {through : Int} (hs : step config s .consume = some t) (hconn : s.connection = some conn)
    (hhistory : t.history = .applied number through ping :: s.history) :
    ∃ rest, conn.link.queue.buffer = [] ++ .checkpoint through ping :: rest ∧
      conn.number = number ∧ conn.consumer = .receiving := by
  simp only [step, hconn, Option.bind_some, stepConnected] at hs
  split at hs
  · unfold consume at hs
    split at hs
    · rename_i event queue hconsumer hrecv
      dsimp only at hs
      split at hs
      · cases Option.some.inj hs
        cases hhistory
        exact ⟨queue.buffer, (Mpsc.recv_some hrecv).1, rfl, hconsumer⟩
      · split at hs
        · cases Option.some.inj hs
          exact absurd hhistory.symm (List.cons_ne_self _ _)
        · split at hs
          · cases Option.some.inj hs
            exact absurd hhistory.symm (List.cons_ne_self _ _)
          · split at hs <;> cases Option.some.inj hs <;>
              exact absurd hhistory.symm (List.cons_ne_self _ _)
    · contradiction
  · contradiction

/-- The steps in which a message event is lost to the connection: its queue has no
room, or its call of `process` fails. -/
def Loses (config : Config) (s : State) (conn : Connection) : Action → Prop
  | .read => serving conn = true ∧ conn.link.read config = some (.error .messageRefused)
  | .turn .live turn => ∃ call core, conn.consumer = .processing call ∧
      call.step config s.core conn.recovery.holdsLock turn = some (core, .returned false)
  | _ => False

theorem failed_of_loses {config : Config} {s t : State} {conn : Connection} {a : Action}
    (hconn : s.connection = some conn) (hloses : Loses config s conn a)
    (hs : step config s a = some t) :
    t.connection = none ∧ t.history = .failed conn.number :: s.history := by
  unfold Loses at hloses
  split at hloses
  · obtain ⟨hserving, hread⟩ := hloses
    have hresult : step config s .read = some (afterRead s conn (.error .messageRefused)) := by
      simp [step, hconn, stepConnected, hserving, hread]
    cases Option.some.inj (hresult.symm.trans hs)
    exact ⟨rfl, rfl⟩
  · rename_i turn
    obtain ⟨call, core, hconsumer, hstep⟩ := hloses
    have hresult : step config s (.turn .live turn) =
        some ({ s with core := core }.noteFailed conn).disconnect := by
      simp [step, hconn, stepConnected, Session.turn, hconsumer, hstep]
    cases Option.some.inj (hresult.symm.trans hs)
    exact ⟨rfl, rfl⟩
  · contradiction

/-- When a checkpoint is applied, the server did receive its ping, and the message
events it had put on the socket after the hello by then are dealt with, in order;
a connection applies its checkpoints in the order of their send times, and none
after a message event was lost to it. -/
theorem heartbeat_is_barrier {config : Config} {s : State}
    (h : ReachableBy (machine config) AnswersPings s) :
    (∀ t number through ping, step config s .consume = some t →
      t.history = .applied number through ping :: s.history →
      ∃ conn, s.connection = some conn ∧ conn.number = number ∧
        (∃ count, (ping, count) ∈ conn.link.receipts) ∧
        ∀ count, (ping, count) ∈ conn.link.receipts → count ≤ conn.link.put.length ∧
          (conn.link.done.map Dealt.event).take count = conn.link.put.take count ∧
          ∀ dealt ∈ conn.link.done, DealtSoundly s.core.returned dealt) ∧
    s.history.Pairwise Later ∧
    ∀ conn a t, s.connection = some conn → Loses config s conn a → step config s a = some t →
      t.connection = none ∧ t.history = .failed conn.number :: s.history := by
  have hinv := heartbeatInv_reachable h
  refine ⟨fun t number through ping hs hhistory => ?_, hinv.ordered,
    fun _ _ _ hconn hloses hs => failed_of_loses hconn hloses hs⟩
  cases hconn : s.connection with
  | none =>
      have hsame := (step_disconnected hs hconn).1
      rw [hhistory] at hsame
      exact absurd hsame (List.cons_ne_self _ _)
  | some conn =>
      have hc := hinv.connected conn hconn
      obtain ⟨rest, hbuffer, hnumber, hreceiving⟩ := consumed_checkpoint hs hconn hhistory
      obtain ⟨hexists, hcount⟩ := hc.dealt hbuffer hreceiving
      exact ⟨conn, rfl, hnumber, hexists, fun count hmem =>
        ⟨(hcount count hmem).1, (hcount count hmem).2, hc.sound⟩⟩

def sampleDecode (event : Json) : Option SlackMessageEvent := do
  let ts ← (event.get "ts".toList).asStr
  return {
    ts := ts
    channel := (event.get "channel".toList).asStr
    text := (event.get "text".toList).asStr
    sender := ⟨(event.get "user".toList).asStr, none, none, none⟩
    hidden := none
    subtype := none }

def sampleConfig : Config where
  window := 604800
  maxPages := 10
  workspace := ⟨"name".toList, "T1".toList, "A1".toList⟩
  dryRun := false
  decode := sampleDecode
  validSocketUrl _ := true

def sampleMessage (channel ts : Str) : Json :=
  .obj [("type".toList, .str "message".toList), ("channel".toList, .str channel),
    ("ts".toList, .str ts), ("text".toList, .str "text".toList), ("user".toList, .str "U2".toList)]

def sampleEvent (type : Str) : Json := .obj [("type".toList, .str type)]

def hello : List Frame := [.text (some (sampleEvent "hello".toList))]

def sampleChannels : List (Except ApiError Json) :=
  [.ok (.obj [("channels".toList, .arr [.obj [("id".toList, .str "C1".toList)]])])]

def sampleConnect (frames : List Frame) : List Action :=
  [.connect, .opened] ++ frames.map .place ++ frames.map (fun _ => .greet) ++
    [.discover sampleChannels ["C1".toList], .copy none, .save none true]

def samplePing (ping : Nat) : List Action :=
  [.tick, .receivePing, .recordPing, .answer ping (sampleEvent "pong".toList)]

/-- A message event that the server puts on the socket before its hello. -/
def earlyRun : List Action :=
  sampleConnect [.text (some (sampleMessage "C1".toList "1000000000.000001".toList)),
    .text (some (sampleEvent "hello".toList))] ++ samplePing 1 ++ [.read, .consume]

theorem early_message_skipped :
    ∃ s, ReachableBy (machine sampleConfig) AnswersPings s ∧ ∃ conn through count,
      s.connection = some conn ∧ .applied conn.number through 1 ∈ s.history ∧
      (1, count) ∈ conn.link.receipts ∧
      ¬ ∀ event ∈ conn.link.early ++ conn.link.put.take count,
        ∃ dealt ∈ conn.link.done, dealt.event = event := by
  have hrun : ∃ s, ReachableBy (machine sampleConfig) AnswersPings s ∧
      s.history = [.applied 0 1000000000 1] ∧ (s.connection.any fun conn =>
        conn.number = 0 ∧ conn.link.receipts = [(1, 0)] ∧ conn.link.early.length = 1 ∧
        conn.link.done.length = 0) = true :=
    exists_reachableBy (s := initial "T1".toList "U1".toList (1000000000 * SECOND)) earlyRun
      ⟨_, _, _, rfl⟩ (by decide)
  obtain ⟨s, hs, hhistory, hconn⟩ := hrun
  obtain ⟨conn, hconn, hrest⟩ := (Option.any_eq_true _ _).mp hconn
  obtain ⟨hnumber, hreceipts, hearly, hdone⟩ := of_decide_eq_true hrest
  refine ⟨s, hs, conn, 1000000000, 0, hconn, by simp [hhistory, hnumber], by simp [hreceipts],
    fun hall => ?_⟩
  obtain ⟨event, hevent⟩ := List.length_eq_one_iff.mp hearly
  obtain ⟨dealt, hdealt, -⟩ := hall event (by simp [hevent])
  rw [List.length_eq_zero_iff.mp hdone] at hdealt
  contradiction

/-- The same event after the hello is harvested before the checkpoint is applied. -/
def orderlyRun : List Action :=
  sampleConnect hello ++
    [.place (.text (some (sampleMessage "C1".toList "1000000000.000001".toList)))] ++
    samplePing 1 ++ [.read, .read, .consume, .turn .live .lock, .turn .live .send,
      .worker (.work Worker.quiet), .worker (.work Worker.quiet), .turn .live .receipt]

theorem heartbeat_is_barrier_orderly :
    ∃ s conn t, s.connection = some conn ∧ step sampleConfig s .consume = some t ∧
      t.history = .applied 0 1000000000 1 :: s.history ∧ conn.link.receipts = [(1, 1)] ∧
      (conn.link.done.map Dealt.event).take 1 = conn.link.put.take 1 := by
  have hrun : ∃ s, ReachableBy (machine sampleConfig) AnswersPings s ∧
      (s.connection.any fun conn => conn.link.receipts = [(1, 1)]) = true ∧
      ((step sampleConfig s .consume).any fun t =>
        t.history = .applied 0 1000000000 1 :: s.history) = true :=
    exists_reachableBy (s := initial "T1".toList "U1".toList (1000000000 * SECOND)) orderlyRun
      ⟨_, _, _, rfl⟩ (by decide)
  obtain ⟨s, hs, hconn, ht⟩ := hrun
  obtain ⟨conn, hconn, hreceipts⟩ := (Option.any_eq_true _ _).mp hconn
  obtain ⟨t, hstep, hhistory⟩ := (Option.any_eq_true _ _).mp ht
  have hreceipts := of_decide_eq_true hreceipts
  have hhistory := of_decide_eq_true hhistory
  obtain ⟨found, hfound, -, -, hcount⟩ := (heartbeat_is_barrier hs).1 t 0 1000000000 1 hstep hhistory
  cases Option.some.inj (hconn.symm.trans hfound)
  exact ⟨s, conn, t, hconn, hstep, hhistory, hreceipts, (hcount 1 (by simp [hreceipts])).2.1⟩

end SjmbSlack.UserSession.Session
