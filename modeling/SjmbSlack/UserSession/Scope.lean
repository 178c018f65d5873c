import SjmbSlack.UserSession.CoverageFacts

/-! Which messages a user session may hand to its worker: those of public and private
channels that it joined, and never those of direct messages. -/
namespace SjmbSlack.UserSession.Session
open Machine Api Slackbot

/-- The channels that a step of the session finds to be joined and eligible: those of a
complete listing, and that of an event that `conversations.info` answers for. -/
def evidence (s : State) : Action → List Str
  | .discover responses _ => (discoverChannels responses).toOption.getD []
  | .answered (.ok response) =>
      let channel := response.get "channel".toList
      match s.connection.map Connection.consumer with
      | some (.asking _ id) =>
          if eligibleChannel channel ∧ (channel.get "is_member".toList).isTrue then [id] else []
      | _ => []
  | _ => []

def observed (config : Config) : System (State × List Str) Action where
  start := fun s => (machine config).start s.1 ∧ s.2 = []
  step := fun s a => (step config s.1 a).map fun t => (t, s.2 ++ evidence s.1 a)

def InScope (ok : Str → Prop) (event : Json) : Prop :=
  ∃ id, (event.get "channel".toList).asStr = some id ∧ ok id

structure Suited (config : Config) (ok : Str → Prop) (message : QueuedMessage) : Prop where
  channel : ok message.channel
  workspace : message.workspace = config.workspace
  dryRun : message.dryRun = config.dryRun
  bytes : message.text.byteLength ≤ MESSAGE_BYTES

structure CallScoped (config : Config) (ok : Str → Prop) (call : Process) : Prop where
  event : InScope ok call.event
  job : ∀ job, job? call = some job → job.message.channel = job.channel ∧ validTs job.ts = true ∧
    Suited config ok job.message

def Consumer.Scoped (config : Config) (ok : Str → Prop) : Consumer → Prop
  | .asking event id => liveChannel event = some id
  | .processing call => CallScoped config ok call
  | .receiving | .discovering | .saving => True

def Recovery.Scoped (config : Config) (ok : Str → Prop) : Recovery → Prop
  | .requesting paging | .scanning paging _ _ => ok paging.channel
  | .processing paging _ _ call => ok paging.channel ∧ CallScoped config ok call
  | .ticking | .choosing _ | .saving _ => True

structure Scoped (config : Config) (ok : Str → Prop) (s : State) : Prop where
  members : ∀ id ∈ s.members, ok id
  tasks : ∀ conn, s.connection = some conn →
    conn.consumer.Scoped config ok ∧ conn.recovery.Scoped config ok
  handed : ∀ handed ∈ s.core.handed, ok handed.channel
  accepted : ∀ message ∈ s.core.worker.accepted, message.completion ≠ none → Suited config ok message

def Decodes (config : Config) : Prop :=
  ∀ event message, config.decode event = some message →
    message.channel = (event.get "channel".toList).asStr

section

variable {config : Config} {ok : Str → Prop} {s t : State} {conn : Connection}

theorem inScope_completeEvent {id : Str} {thread : Option Str} {message event : Json}
    (hlive : ok id) (h : completeEvent id thread message = some event) : InScope ok event := by
  refine ⟨id, ?_, hlive⟩
  unfold completeEvent at h
  split at h
  · cases Option.some.inj h
    cases thread with
    | none =>
        dsimp only
        rw [Json.get_entryOrInsert_ne _ _ (by decide), Json.get_insertField_self]
        rfl
    | some ts =>
        dsimp only
        rw [Json.get_entryOrInsert_ne _ _ (by decide), Json.get_entryOrInsert_ne _ _ (by decide),
          Json.get_insertField_self]
        rfl
  · contradiction

theorem inScope_of_live {event : Json} {id : Str} (h : liveChannel event = some id) (hok : ok id) :
    InScope ok event :=
  ⟨id, (liveChannel_iff.mp h).1, hok⟩

theorem scoped_locking {event : Json} (h : InScope ok event) :
    CallScoped config ok (.locking event) :=
  ⟨h, fun job hjob => by cases hjob⟩

structure Feeds (config : Config) (ok : Str → Prop) (core after : Core) : Prop where
  handed : ∀ handed ∈ after.handed, handed ∈ core.handed ∨ ok handed.channel
  accepted : ∀ message ∈ after.worker.accepted, message ∈ core.worker.accepted ∨ Suited config ok message

theorem Feeds.same {core after : Core} (hhanded : after.handed = core.handed)
    (haccepted : after.worker.accepted = core.worker.accepted) : Feeds config ok core after :=
  ⟨fun _ hmem => .inl (hhanded ▸ hmem), fun _ hmem => .inl (haccepted ▸ hmem)⟩

theorem suited_prepared {message : SlackMessageEvent} {queued : QueuedMessage} {id : Str} {clock : Nat}
    (h : prepareMessage config.workspace message clock = .ok queued) (hchannel : message.channel = some id)
    (hlive : ok id) (receipt : Nat) :
    let message := { queued with completion := some receipt, dryRun := config.dryRun }
    message.channel = id ∧ Suited config ok message := by
  obtain ⟨text, channel, ts, -, hbytes, hsome, -, -, -, -, rfl⟩ := prepareMessage_ok h
  cases Option.some.inj (hchannel.symm.trans hsome)
  exact ⟨rfl, hlive, rfl, rfl, hbytes⟩

theorem remember_feeds (core : Core) (id : Str) (thread : Option Str) :
    Feeds config ok core (Process.remember config core id thread) := by
  cases thread <;> exact .same rfl rfl

theorem scoped_start (hdecode : Decodes config) {core after : Core} {event : Json} {outcome : Outcome}
    (hevent : InScope ok event) (h : Process.start config core event = (after, outcome)) :
    Feeds config ok core after ∧ ∀ next, outcome = .suspended next → CallScoped config ok next := by
  obtain ⟨id, hid, hlive⟩ := hevent
  unfold Process.start at h
  split at h
  · cases h
    exact ⟨.same rfl rfl, fun next hnext => by cases hnext⟩
  · rename_i message ts thread hnormal
    obtain ⟨-, -, hts, hdecoded, -⟩ := normalise_some hnormal
    have hchannel : message.channel = some id := (hdecode _ _ hdecoded).trans hid
    rw [hchannel] at h
    dsimp only at h
    have hremember : Feeds config ok core (Process.remember config core id thread) :=
      remember_feeds core id thread
    split at h
    · cases h
      exact ⟨⟨hremember.handed, hremember.accepted⟩, fun next hnext => by cases hnext⟩
    · split at h
      · cases h
        exact ⟨⟨hremember.handed, hremember.accepted⟩, fun next hnext => by cases hnext⟩
      · rename_i queued hprepared
        cases h
        refine ⟨⟨hremember.handed, hremember.accepted⟩, fun next hnext => ?_⟩
        cases hnext
        refine ⟨⟨id, hid, hlive⟩, fun job hjob => ?_⟩
        cases hjob
        obtain ⟨hsame, hsuited⟩ := suited_prepared hprepared hchannel hlive
          (Process.remember config core id thread).receipts
        exact ⟨hsame, hts, hsuited⟩

theorem scoped_turn (hdecode : Decodes config) {core after : Core} {locked : Bool} {call : Process}
    {turn : Turn} {outcome : Outcome} (hscoped : CallScoped config ok call)
    (h : call.step config core locked turn = some (after, outcome)) :
    Feeds config ok core after ∧ ∀ next, outcome = .suspended next → CallScoped config ok next := by
  have hfail (channel : Str) : Feeds config ok core (Process.fail core channel).1 := .same rfl rfl
  have hreturned {result : Bool} : ∀ next, Outcome.returned result = .suspended next → CallScoped config ok next :=
    fun next hnext => by cases hnext
  unfold Process.step at h
  split at h
  · split at h
    · contradiction
    · exact scoped_start hdecode hscoped.event (Option.some.inj h)
  · rename_i event job since
    obtain ⟨hchannel, -, hsuited⟩ := hscoped.job job rfl
    split at h
    · cases Option.some.inj h
      refine ⟨⟨fun handed hmem => ?_, fun message hmem => ?_⟩, fun next hnext => ?_⟩
      · refine (List.mem_append.mp hmem).imp_right fun hnew => ?_
        cases List.mem_singleton.mp hnew
        exact hchannel ▸ hsuited.channel
      · refine (List.mem_append.mp hmem).imp_right fun hnew => ?_
        cases List.mem_singleton.mp hnew
        exact hsuited
      · cases hnext
        exact ⟨hscoped.event, hscoped.job⟩
    · cases Option.some.inj h
      exact ⟨hfail _, hreturned⟩
    · contradiction
  · split at h
    · split at h
      · cases Option.some.inj h
        exact ⟨hfail _, hreturned⟩
      · contradiction
    · contradiction
  · split at h
    · cases Option.some.inj h
      exact ⟨.same rfl rfl, hreturned⟩
    · cases Option.some.inj h
      exact ⟨hfail _, hreturned⟩
    · split at h
      · cases Option.some.inj h
        exact ⟨hfail _, hreturned⟩
      · contradiction
  · split at h
    · split at h
      · cases Option.some.inj h
        exact ⟨hfail _, hreturned⟩
      · contradiction
    · contradiction
  · contradiction

theorem Scoped.quiet (h : Scoped config ok s) (hmembers : t.members = s.members)
    (hhanded : t.core.handed = s.core.handed)
    (haccepted : t.core.worker.accepted = s.core.worker.accepted)
    (htasks : ∀ conn, t.connection = some conn →
      conn.consumer.Scoped config ok ∧ conn.recovery.Scoped config ok) : Scoped config ok t :=
  ⟨hmembers ▸ h.members, htasks, hhanded ▸ h.handed, haccepted ▸ h.accepted⟩

theorem Scoped.disconnect (h : Scoped config ok s) (hmembers : t.members = s.members)
    (hhanded : t.core.handed = s.core.handed)
    (haccepted : t.core.worker.accepted = s.core.worker.accepted) : Scoped config ok t.disconnect :=
  h.quiet hmembers hhanded haccepted fun conn hconn => by cases hconn

theorem Scoped.link (h : Scoped config ok s) (hconn : s.connection = some conn) (link : Link) :
    Scoped config ok (s.withLink conn link) :=
  h.quiet rfl rfl rfl fun after hafter => by
    cases Option.some.inj hafter
    exact h.tasks conn hconn

theorem Scoped.recovers (h : Scoped config ok s) (hconsumer : conn.consumer.Scoped config ok)
    {recovery : Recovery} (hrecovery : recovery.Scoped config ok) :
    Scoped config ok (s.withRecovery conn recovery) :=
  h.quiet rfl rfl rfl fun after hafter => by
    cases Option.some.inj hafter
    exact ⟨hconsumer, hrecovery⟩

theorem Scoped.consumes (h : Scoped config ok s) (hrecovery : conn.recovery.Scoped config ok)
    {consumer : Consumer} (hconsumer : consumer.Scoped config ok) :
    Scoped config ok (s.withConsumer conn consumer) :=
  h.quiet rfl rfl rfl fun after hafter => by
    cases Option.some.inj hafter
    exact ⟨hconsumer, hrecovery⟩

theorem Scoped.withStore (h : Scoped config ok s) (store : Snapshot) : Scoped config ok (s.withStore store) :=
  ⟨h.members, h.tasks, h.handed, h.accepted⟩

theorem scoped_passFailed (h : Scoped config ok s) (hconsumer : conn.consumer.Scoped config ok)
    (rest : List (Str × Channel)) (error : ApiError) : Scoped config ok (passFailed s conn rest error) := by
  unfold passFailed
  split
  · exact h.disconnect rfl rfl rfl
  · split <;> exact h.recovers hconsumer trivial

theorem scoped_request (h : Scoped config ok s) (hconsumer : conn.consumer.Scoped config ok) {paging : Paging}
    (hlive : ok paging.channel) : Scoped config ok (request s conn paging) := by
  unfold request
  split
  · exact scoped_passFailed h hconsumer ..
  · exact h.recovers hconsumer hlive

theorem scoped_nextThread (h : Scoped config ok s) (hconsumer : conn.consumer.Scoped config ok) {paging : Paging}
    (hlive : ok paging.channel) : Scoped config ok (nextThread config s conn paging) := by
  unfold nextThread
  split
  · refine (h.withStore _).recovers ?_ trivial
    exact hconsumer
  · exact scoped_request h hconsumer hlive

theorem scoped_requestDone (h : Scoped config ok s) (hconsumer : conn.consumer.Scoped config ok)
    {paging : Paging} (hlive : ok paging.channel) :
    Scoped config ok (requestDone config s conn paging) := by
  unfold requestDone
  dsimp only
  split <;> exact scoped_nextThread h hconsumer hlive

theorem scoped_requestFailed (h : Scoped config ok s) (hconsumer : conn.consumer.Scoped config ok)
    {paging : Paging} (hlive : ok paging.channel) (error : ApiError) :
    Scoped config ok (requestFailed config s conn paging error) := by
  unfold requestFailed
  split
  · split
    · exact scoped_nextThread (h.withStore _) hconsumer hlive
    · exact scoped_passFailed h hconsumer ..
  · exact scoped_passFailed h hconsumer ..

theorem scoped_page (h : Scoped config ok s) (hconsumer : conn.consumer.Scoped config ok) {paging : Paging}
    (hlive : ok paging.channel) (response : Except ApiError Json) :
    Scoped config ok (page config s conn paging response) := by
  unfold page
  split
  · exact scoped_requestFailed h hconsumer hlive _
  · split
    · exact scoped_requestFailed h hconsumer hlive _
    · split
      · exact scoped_requestFailed h hconsumer hlive _
      · exact h.recovers hconsumer hlive

theorem scoped_scan (h : Scoped config ok s) (hconsumer : conn.consumer.Scoped config ok) {paging : Paging}
    (hlive : ok paging.channel) (response : Json) (events : List Json) :
    Scoped config ok (scan config s conn paging response events) := by
  unfold scan
  split
  · split
    · exact scoped_requestFailed h hconsumer hlive _
    · rename_i event hevent
      split
      · exact h.recovers hconsumer ⟨hlive, scoped_locking (inScope_completeEvent hlive hevent)⟩
      · exact h.recovers hconsumer hlive
  · split
    · exact scoped_requestFailed h hconsumer hlive _
    · split
      · exact scoped_requestDone h hconsumer hlive
      · split
        · exact scoped_requestFailed h hconsumer hlive _
        · exact scoped_request h hconsumer hlive

theorem scoped_choose (h : Scoped config ok s) (hconsumer : conn.consumer.Scoped config ok)
    (channels : List (Str × Channel)) : Scoped config ok (choose config s conn channels) := by
  unfold choose
  split
  · exact h.recovers hconsumer trivial
  · split
    · exact h.recovers hconsumer trivial
    · rename_i hmember
      exact scoped_request (h.withStore _) hconsumer
        (h.members _ (List.contains_iff_mem.mp (Decidable.not_not.mp hmember)))

theorem scoped_consume (h : Scoped config ok s) (hconn : s.connection = some conn)
    (hs : consume config s conn = some t) : Scoped config ok t := by
  have hrecovery := (h.tasks conn hconn).2
  unfold consume at hs
  split at hs
  · dsimp only at hs
    split at hs
    · cases Option.some.inj hs
      exact h.quiet rfl rfl rfl fun after hafter => by
        cases Option.some.inj hafter
        exact ⟨trivial, hrecovery⟩
    · split at hs
      · cases Option.some.inj hs
        refine h.consumes ?_ trivial
        exact hrecovery
      · split at hs
        · cases Option.some.inj hs
          exact h.quiet rfl rfl rfl fun after hafter => by
            cases Option.some.inj hafter
            exact ⟨trivial, hrecovery⟩
        · rename_i id hlive
          split at hs
          · rename_i hmember
            cases Option.some.inj hs
            refine h.consumes ?_ (scoped_locking (inScope_of_live hlive
              (h.members id (List.contains_iff_mem.mp hmember))))
            exact hrecovery
          · cases Option.some.inj hs
            refine h.consumes ?_ hlive
            exact hrecovery
  · contradiction

theorem scoped_doneWith (h : Scoped config ok s) (hrecovery : conn.recovery.Scoped config ok) (dealt : Dealt) :
    Scoped config ok (doneWith s conn dealt) :=
  h.quiet rfl rfl rfl fun after hafter => by
    cases Option.some.inj hafter
    exact ⟨trivial, hrecovery⟩

theorem scoped_answered (h : Scoped config ok s) (hrecovery : conn.recovery.Scoped config ok) {event : Json}
    {id : Str} (hlive : liveChannel event = some id) (response : Except ApiError Json)
    (hok : ∀ page, response = .ok page → eligibleChannel (page.get "channel".toList) = true ∧
      ((page.get "channel".toList).get "is_member".toList).isTrue = true → ok id) :
    Scoped config ok (answered s conn event id response) := by
  unfold answered
  split
  · exact h.disconnect rfl rfl rfl
  · rename_i page
    dsimp only
    split
    · exact scoped_doneWith h hrecovery _
    · rename_i hjoined
      have hjoined := hok page rfl (by simpa using hjoined)
      split
      · exact h.disconnect rfl rfl rfl
      · have hmembers : ∀ other ∈ (if s.members.contains id then s.members else s.members ++ [id]),
            ok other := by
          intro other hmem
          split at hmem
          · exact h.members other hmem
          · rcases List.mem_append.mp hmem with hold | hnew
            · exact h.members other hold
            · cases List.mem_singleton.mp hnew
              exact hjoined
        have hmore : Scoped config ok
            { s with members := if s.members.contains id then s.members else s.members ++ [id] } :=
          ⟨hmembers, h.tasks, h.handed, h.accepted⟩
        split
        · exact (hmore.withStore _).consumes hrecovery (scoped_locking (inScope_of_live hlive hjoined))
        · exact hmore.disconnect rfl rfl rfl

theorem scoped_discover (h : Scoped config ok s) (hconn : s.connection = some conn)
    {responses : List (Except ApiError Json)} {order : List Str}
    (hok : ∀ ids, discoverChannels responses = .ok ids → ∀ id ∈ ids, ok id)
    (hs : discover config s conn responses order = some t) : Scoped config ok t := by
  obtain ⟨hconsumer, hrecovery⟩ := h.tasks conn hconn
  unfold discover at hs
  split at hs
  · split at hs
    · cases Option.some.inj hs
      exact h.disconnect rfl rfl rfl
    · split at hs
      · cases Option.some.inj hs
        exact h.disconnect rfl rfl rfl
      · contradiction
  · rename_i ids hids
    split at hs
    · contradiction
    · rename_i hperm
      have hmembers : ∀ id ∈ order, ok id := fun id hmem =>
        hok ids hids id ((Decidable.not_not.mp hperm).mem_iff.mp hmem)
      split at hs
      · cases Option.some.inj hs
        unfold start
        dsimp only
        split
        · refine ⟨hmembers, fun after hafter => ?_, h.handed, h.accepted⟩
          cases Option.some.inj hafter
          exact ⟨hconsumer, hrecovery⟩
        · exact ⟨hmembers, fun after hafter => (by cases hafter), h.handed, h.accepted⟩
      · dsimp only at hs
        split at hs <;> cases Option.some.inj hs
        · refine ⟨hmembers, fun after hafter => ?_, h.handed, h.accepted⟩
          cases Option.some.inj hafter
          exact ⟨trivial, hrecovery⟩
        · exact ⟨hmembers, fun after hafter => (by cases hafter), h.handed, h.accepted⟩
      · contradiction

theorem Scoped.fed (h : Scoped config ok s) {core : Core} (hfeeds : Feeds config ok s.core core) :
    (∀ handed ∈ core.handed, ok handed.channel) ∧
      ∀ message ∈ core.worker.accepted, message.completion ≠ none → Suited config ok message :=
  ⟨fun handed hmem => (hfeeds.handed handed hmem).elim (h.handed handed) id,
    fun message hmem hsome => (hfeeds.accepted message hmem).elim (h.accepted message · hsome) id⟩

theorem scoped_task (hdecode : Decodes config) (h : Scoped config ok s) (hconn : s.connection = some conn)
    {caller : Caller} {step : Turn} (hs : turn config s conn caller step = some t) : Scoped config ok t := by
  obtain ⟨hconsumer, hrecovery⟩ := h.tasks conn hconn
  cases caller with
  | live =>
      simp only [turn] at hs
      split at hs
      · rename_i call hcall
        rw [hcall] at hconsumer
        obtain ⟨⟨core, outcome⟩, hstep, rfl⟩ := Option.map_eq_some_iff.mp hs
        obtain ⟨hfeeds, hnext⟩ := scoped_turn hdecode hconsumer hstep
        obtain ⟨hhanded, haccepted⟩ := h.fed hfeeds
        dsimp only
        split
        · refine ⟨h.members, fun after hafter => ?_, hhanded, haccepted⟩
          cases Option.some.inj hafter
          exact ⟨hnext _ rfl, hrecovery⟩
        · refine ⟨h.members, fun after hafter => ?_, hhanded, haccepted⟩
          cases Option.some.inj hafter
          exact ⟨trivial, hrecovery⟩
        · exact ⟨h.members, fun after hafter => (by cases hafter), hhanded, haccepted⟩
      · contradiction
  | recovery =>
      simp only [turn] at hs
      split at hs
      · rename_i paging events response call hcall
        rw [hcall] at hrecovery
        obtain ⟨hlive, hcalled⟩ := hrecovery
        obtain ⟨⟨core, outcome⟩, hstep, rfl⟩ := Option.map_eq_some_iff.mp hs
        obtain ⟨hfeeds, hnext⟩ := scoped_turn hdecode hcalled hstep
        obtain ⟨hhanded, haccepted⟩ := h.fed hfeeds
        have hfed : Scoped config ok { s with core := core } := ⟨h.members, h.tasks, hhanded, haccepted⟩
        dsimp only
        split
        · exact hfed.recovers hconsumer ⟨hlive, hnext _ rfl⟩
        · exact hfed.recovers hconsumer hlive
        · exact scoped_requestFailed hfed hconsumer hlive _
      · contradiction

theorem scoped_save (h : Scoped config ok s) (hconn : s.connection = some conn) {caller : Option Caller}
    {saved : Bool} (hs : save s conn caller saved = some t) : Scoped config ok t := by
  obtain ⟨hconsumer, hrecovery⟩ := h.tasks conn hconn
  unfold save at hs
  split at hs
  · contradiction
  · split at hs
    · contradiction
    · split at hs <;> cases Option.some.inj hs
      · rcases caller with _ | _ | _ <;> refine h.quiet rfl rfl rfl fun after hafter => ?_ <;>
          cases Option.some.inj hafter
        · exact ⟨hconsumer, hrecovery⟩
        · exact ⟨trivial, hrecovery⟩
        · exact ⟨hconsumer, trivial⟩
      · exact h.disconnect rfl rfl rfl

theorem scoped_connected (hdecode : Decodes config) (h : Scoped config ok s)
    (hconn : s.connection = some conn) {a : Action} (hok : ∀ id ∈ evidence s a, ok id)
    (hs : stepConnected config s conn a = some t) : Scoped config ok t := by
  obtain ⟨hconsumer, hrecovery⟩ := h.tasks conn hconn
  cases a with
  | place frame =>
      simp only [stepConnected] at hs
      split at hs <;> cases hs
      exact h.link hconn _
  | receivePing | answer | recordPing =>
      obtain ⟨link, -, rfl⟩ := Option.map_eq_some_iff.mp hs
      exact h.link hconn _
  | opened =>
      simp only [stepConnected] at hs
      split at hs <;> cases hs
      exact h.quiet rfl rfl rfl fun after hafter => by
        cases Option.some.inj hafter
        exact ⟨hconsumer, hrecovery⟩
  | greet =>
      simp only [stepConnected] at hs
      split at hs
      · obtain ⟨result, -, rfl⟩ := Option.map_eq_some_iff.mp hs
        split
        · exact h.quiet rfl rfl rfl fun after hafter => by
            cases Option.some.inj hafter
            exact ⟨hconsumer, hrecovery⟩
        · exact h.disconnect rfl rfl rfl
      · contradiction
  | tick | read =>
      simp only [stepConnected] at hs
      split at hs
      · obtain ⟨result, -, rfl⟩ := Option.map_eq_some_iff.mp hs
        unfold afterRead
        split
        · exact h.link hconn _
        · exact h.disconnect rfl rfl rfl
        · exact h.disconnect rfl rfl rfl
      · contradiction
  | fail =>
      cases Option.some.inj hs
      exact h.disconnect rfl rfl rfl
  | discover responses order =>
      refine scoped_discover h hconn (fun ids hids id hmem => hok id ?_) hs
      simp only [evidence, hids]
      exact hmem
  | consume =>
      simp only [stepConnected] at hs
      split at hs
      · exact scoped_consume h hconn hs
      · contradiction
  | answered response =>
      simp only [stepConnected] at hs
      split at hs <;> cases hs
      rename_i event id hasking
      rw [hasking] at hconsumer
      refine scoped_answered h hrecovery hconsumer response fun page hpage hjoined => hok id ?_
      subst hpage
      simp only [evidence, hconn, Option.map_some, hasking]
      rw [if_pos hjoined]
      exact List.mem_singleton.mpr rfl
  | turn caller step => exact scoped_task hdecode h hconn hs
  | startPass =>
      simp only [stepConnected] at hs
      split at hs
      · split at hs <;> cases hs
        refine h.recovers ?_ trivial
        exact hconsumer
      · contradiction
  | choose =>
      simp only [stepConnected] at hs
      split at hs <;> cases hs
      exact scoped_choose h hconsumer _
  | page response =>
      simp only [stepConnected] at hs
      split at hs <;> cases hs
      rename_i paging hrequesting
      rw [hrequesting] at hrecovery
      exact scoped_page h hconsumer hrecovery response
  | scan =>
      simp only [stepConnected] at hs
      split at hs <;> cases hs
      rename_i paging events response hscanning
      rw [hscanning] at hrecovery
      exact scoped_scan h hconsumer hrecovery response events
  | copy caller =>
      simp only [stepConnected] at hs
      split at hs <;> cases hs
      exact h.quiet rfl rfl rfl fun after hafter => by
        cases Option.some.inj hafter
        exact ⟨hconsumer, hrecovery⟩
  | save caller ok => exact scoped_save h hconn hs
  | advance | post | worker | connect | saveAfter | stop | restart | crash => cases hs

theorem accepted_of_worker {worker after : Worker.State} {action : Worker.Action}
    (hallowed : allowed worker action = true) (h : Worker.step worker action = some after) :
    ∀ message ∈ after.accepted, message ∈ worker.accepted ∨ message.completion = none := by
  intro message hmem
  cases action with
  | advance | signalDrain => cases hallowed
  | cloneSender | dropSender =>
      simp only [Worker.step] at h
      split at h <;> cases h
      exact .inl hmem
  | send sent =>
      have hnone : sent.completion = none := of_decide_eq_true hallowed
      simp only [Worker.step] at h
      split at h
      · contradiction
      · split at h <;> cases Option.some.inj h
        · refine (List.mem_append.mp hmem).imp_right fun hnew => ?_
          cases List.mem_singleton.mp hnew
          exact hnone
        · exact .inl hmem
  | work world =>
      left
      cases htask : worker.task with
      | selecting =>
          simp only [Worker.step, htask] at h
          unfold Worker.select at h
          split at h
          · cases Option.some.inj h
            exact hmem
          · split at h
            · split at h
              · cases Option.some.inj h
                exact hmem
              · contradiction
            · split at h <;> cases Option.some.inj h <;> exact hmem
      | handling message takenAt =>
          simp only [Worker.step, htask] at h
          cases Option.some.inj h
          exact hmem
      | returned =>
          simp only [Worker.step, htask] at h
          contradiction

theorem scoped_step (hdecode : Decodes config) (h : Scoped config ok s) {a : Action}
    (hok : ∀ id ∈ evidence s a, ok id) (hs : step config s a = some t) : Scoped config ok t := by
  rcases step_cases hs with haround | ⟨conn, hconn, hstep⟩
  · cases haround with
    | advance | saveAfter => exact ⟨h.members, h.tasks, h.handed, h.accepted⟩
    | post event channel ts =>
        refine ⟨h.members, fun conn hconn => ?_, h.handed, h.accepted⟩
        obtain ⟨before, hbefore, rfl⟩ := Option.map_eq_some_iff.mp hconn
        unfold posting
        split <;> exact h.tasks before hbefore
    | worker action worker hallowed hworker =>
        refine ⟨h.members, h.tasks, h.handed, fun message hmem hsome => ?_⟩
        rcases accepted_of_worker hallowed hworker message hmem with hold | hnone
        · exact h.accepted message hold hsome
        · exact absurd hnone hsome
    | connect =>
        refine ⟨h.members, fun conn hconn => ?_, h.handed, h.accepted⟩
        cases Option.some.inj hconn
        exact ⟨trivial, trivial⟩
    | stop => exact ⟨h.members, fun conn hconn => (by cases hconn), h.handed, h.accepted⟩
    | restart | crash =>
        refine ⟨fun id hmem => (by cases hmem), fun conn hconn => (by cases hconn), h.handed,
          fun message hmem => by cases hmem⟩
  · exact scoped_connected hdecode h hconn hok hstep

theorem Scoped.mono {more : Str → Prop} (h : Scoped config ok s) (hmore : ∀ id, ok id → more id) :
    Scoped config more s := by
  have hsuited {message : QueuedMessage} (hmessage : Suited config ok message) : Suited config more message :=
    ⟨hmore _ hmessage.channel, hmessage.workspace, hmessage.dryRun, hmessage.bytes⟩
  have hcall {call : Process} (hcall : CallScoped config ok call) : CallScoped config more call := by
    obtain ⟨⟨id, hid, hok⟩, hjob⟩ := hcall
    refine ⟨⟨id, hid, hmore id hok⟩, fun job hsome => ?_⟩
    obtain ⟨hchannel, hts, hmessage⟩ := hjob job hsome
    exact ⟨hchannel, hts, hsuited hmessage⟩
  refine ⟨fun id hmem => hmore id (h.members id hmem), fun conn hconn => ?_,
    fun handed hmem => hmore _ (h.handed handed hmem),
    fun message hmem hsome => hsuited (h.accepted message hmem hsome)⟩
  obtain ⟨hconsumer, hrecovery⟩ := h.tasks conn hconn
  constructor
  · cases hnow : conn.consumer <;> rw [hnow] at hconsumer
    case processing => exact hcall hconsumer
    all_goals exact hconsumer
  · cases hnow : conn.recovery <;> rw [hnow] at hrecovery
    case processing => exact ⟨hmore _ hrecovery.1, hcall hrecovery.2⟩
    case requesting | scanning => exact hmore _ hrecovery
    all_goals trivial

theorem evidence_live {a : Action} (hs : step config s a = some t)
    (hasking : ∀ conn, s.connection = some conn → conn.consumer.Scoped config ok) {id : Str}
    (h : id ∈ evidence s a) : isLiveId id = true := by
  unfold evidence at h
  split at h
  · rename_i responses order
    cases hids : discoverChannels responses with
    | error error =>
        rw [hids] at h
        cases h
    | ok ids =>
        rw [hids] at h
        exact discovered_live hids h
  · rename_i response
    dsimp only at h
    split at h
    · rename_i event other hconsumer
      obtain ⟨conn, hconn, hnow⟩ := Option.map_eq_some_iff.mp hconsumer
      split at h
      · cases List.mem_singleton.mp h
        have hlive := hasking conn hconn
        rw [hnow] at hlive
        exact (liveChannel_iff.mp hlive).2
      · cases h
    · cases h
  · cases h

/-- Whatever the server sends and the API answers, a user session hands to its worker
only messages of channels that it found to be joined public or private channels before,
each within the size limit and with the session's own workspace and dry run. -/
theorem only_joined_harvested (hdecode : Decodes config) {found : List Str}
    (h : Reachable (observed config) (s, found)) :
    Reachable (machine config) s ∧ (∀ id ∈ found, isLiveId id = true) ∧ s.members ⊆ found ∧
    (∀ handed ∈ s.core.handed, handed.channel ∈ found) ∧
    ∀ message ∈ s.core.worker.accepted, message.completion ≠ none →
      Suited config (· ∈ found) message := by
  have hscoped : ∀ p : State × List Str, Reachable (observed config) p →
      Reachable (machine config) p.1 ∧ (∀ id ∈ p.2, isLiveId id = true) ∧
        Scoped config (· ∈ p.2) p.1 := by
    refine fun p hp => hp.invariant (P := fun p : State × List Str => Reachable (machine config) p.1 ∧
      (∀ id ∈ p.2, isLiveId id = true) ∧ Scoped config (· ∈ p.2) p.1) ?_ ?_
    · rintro ⟨s, found⟩ ⟨⟨team, user, clock, rfl⟩, rfl⟩
      exact ⟨.start ⟨team, user, clock, rfl⟩, fun id hmem => (by cases hmem),
        fun id hmem => (by cases hmem), fun conn hconn => (by cases hconn),
        fun handed hmem => (by cases hmem), fun message hmem => (by cases hmem)⟩
    · rintro ⟨s, found⟩ a ⟨t, more⟩ - ⟨hreached, hlive, hscoped⟩ - hstep
      obtain ⟨next, hs, hnext⟩ := Option.map_eq_some_iff.mp hstep
      cases hnext
      refine ⟨.next hreached trivial hs, fun id hmem => ?_, ?_⟩
      · rcases List.mem_append.mp hmem with hold | hnew
        · exact hlive id hold
        · exact evidence_live hs (fun conn hconn => (hscoped.tasks conn hconn).1) hnew
      · exact scoped_step hdecode (hscoped.mono fun id hmem => List.mem_append_left _ hmem)
          (fun id hmem => List.mem_append_right _ hmem) hs
  obtain ⟨hreached, hlive, hscoped⟩ := hscoped (s, found) h
  exact ⟨hreached, hlive, hscoped.members, hscoped.handed, hscoped.accepted⟩

end

theorem sampleDecodes : Decodes sampleConfig := by
  intro event message h
  obtain ⟨ts, -, h⟩ := Option.bind_eq_some_iff.mp h
  cases h
  rfl

theorem only_joined_harvested_live :
    ∃ (s : State) (message : QueuedMessage), Reachable (machine sampleConfig) s ∧
      message ∈ s.core.worker.accepted ∧ Suited sampleConfig (· ∈ ["C1".toList]) message := by
  have hrun : ∃ p : State × List Str, Reachable (observed sampleConfig) p ∧
      (p.2 = ["C1".toList] ∧ p.1.core.worker.accepted.length = 1 ∧
        p.1.core.worker.accepted.all (·.completion.isSome)) :=
    exists_reachable (s := (initial "T1".toList "U1".toList (1000000000 * SECOND), []))
      (sampleConnect [.text (some (sampleEvent "hello".toList))] ++
        [.place (.text (some (sampleMessage "C1".toList "1000000000.000001".toList))), .read,
          .consume, .turn .live .lock, .turn .live .send])
      ⟨⟨_, _, _, rfl⟩, rfl⟩ (by decide +kernel)
  obtain ⟨⟨s, found⟩, hreachable, hfound, hlength, hsome⟩ := hrun
  obtain ⟨message, hmem⟩ := List.exists_mem_of_length_pos (hlength ▸ Nat.zero_lt_one)
  obtain ⟨hs, -, -, -, hsuited⟩ := only_joined_harvested sampleDecodes hreachable
  have hcompletion := List.all_eq_true.mp hsome message hmem
  cases hfound
  exact ⟨s, message, hs, hmem, hsuited message hmem (Option.isSome_iff_ne_none.mp hcompletion)⟩

end SjmbSlack.UserSession.Session
