import SjmbSlack.UserSession.Steps

/-! The heartbeat as an ordered barrier: message events keep their order from the
socket to the consumer, and a pong stays behind those the server had put there
when it received the ping. -/
namespace SjmbSlack.UserSession.Session
open Machine Api Slackbot

theorem hasType_unique {event : Json} {left right : Str} (hleft : hasType event left = true)
    (hright : hasType event right = true) : left = right := by
  simp only [hasType, Json.isText, decide_eq_true_eq] at hleft hright
  exact Option.some.inj (hleft.symm.trans hright)

/-- What the reader makes of a frame: nothing, a queued event, or the checkpoint
of the pending ping. -/
inductive Reads (link : Link) : Link → Prop where
  | dropped (frame : Frame) (rest : List Frame) (hframes : link.frames = frame :: rest)
      (hmessage : frame.message = none)
      (hpong : ∀ event pending, frame = .text (some event) → hasType event "pong".toList = true →
        link.pending = some pending → Link.repliesTo event pending.ping = false) :
      Reads link { link with frames := rest }
  | queued (event : Json) (rest : List Frame) (queue : Mpsc Event)
      (hframes : link.frames = .text (some event) :: rest)
      (hpong : hasType event "pong".toList = false)
      (hqueue : link.queue.trySend (.message event) = .ok queue) :
      Reads link { link with frames := rest, queue := queue }
  | barrier (event : Json) (rest : List Frame) (queue : Mpsc Event) (pending : Pending)
      (hframes : link.frames = .text (some event) :: rest)
      (hpong : hasType event "pong".toList = true) (hpending : link.pending = some pending)
      (hqueue : link.queue.trySend (.checkpoint pending.through pending.ping) = .ok queue) :
      Reads link { link with frames := rest, queue := queue, pending := none }

theorem enqueueEvent_ok {link after : Link} {event : Event}
    (h : link.enqueueEvent event = .ok after) :
    ∃ queue, link.queue.trySend event = .ok queue ∧ after = { link with queue := queue } := by
  unfold Link.enqueueEvent at h
  split at h
  · rename_i queue hqueue
    exact ⟨queue, hqueue, (Except.ok.inj h).symm⟩
  · contradiction

theorem message_of_not_live {event : Json} (h : ¬ Link.LIVE_TYPES.any (hasType event)) :
    Frame.message (.text (some event)) = none := by
  refine if_neg fun hmessage => h ?_
  exact List.any_eq_true.mpr ⟨"message".toList, List.mem_cons_self, hmessage⟩

theorem message_of_type {event : Json} {type : Str} (h : hasType event type = true)
    (hne : type ≠ "message".toList) : Frame.message (.text (some event)) = none := by
  refine if_neg fun hmessage => hne ?_
  exact hasType_unique h hmessage

theorem reads_of_read {config : Config} {link after : Link} (h : link.read config = some (.ok after)) :
    link.writing = none ∧ Reads link after := by
  unfold Link.read at h
  split at h
  · rename_i frame rest hwriting hframes
    refine ⟨hwriting, ?_⟩
    dsimp only at h
    split at h
    · rename_i event
      have h := Option.some.inj h
      unfold Link.readEvent at h
      split at h
      · contradiction
      · split at h
        · rename_i htype
          split at h
          · rename_i pending hpending
            split at h
            · obtain ⟨queue, hqueue, rfl⟩ := enqueueEvent_ok h
              exact .barrier event rest queue pending hframes htype hpending hqueue
            · rename_i hreply
              cases Except.ok.inj h
              refine .dropped _ rest hframes (message_of_type htype (by decide)) ?_
              intro other found hother _ hfound
              cases hother
              cases Option.some.inj (hpending.symm.trans hfound)
              exact Bool.eq_false_iff.mpr hreply
          · rename_i hpending
            cases Except.ok.inj h
            refine .dropped _ rest hframes (message_of_type htype (by decide)) ?_
            intro _ found _ _ hfound
            rw [show link.pending = none from hpending] at hfound
            contradiction
        · rename_i htype
          have hdropped : Frame.message (.text (some event)) = none →
              Reads link { link with frames := rest } := fun hmessage =>
            .dropped _ rest hframes hmessage fun _ _ heq hpong _ => by
              cases heq
              exact absurd hpong htype
          split at h
          · rename_i hreconnect
            split at h
            · cases Except.ok.inj h
              exact hdropped (message_of_type hreconnect (by decide))
            · contradiction
          · split at h
            · contradiction
            · split at h
              · obtain ⟨queue, hqueue, rfl⟩ := enqueueEvent_ok h
                exact .queued event rest queue hframes (Bool.eq_false_iff.mpr htype) hqueue
              · rename_i hlive
                cases Except.ok.inj h
                exact hdropped (message_of_not_live hlive)
    · cases Option.some.inj h
      exact .dropped _ rest hframes rfl fun _ _ heq => by cases heq
    · cases Option.some.inj h
      exact .dropped _ rest hframes rfl fun _ _ heq => by cases heq
    · cases Option.some.inj h
      exact .dropped _ rest hframes rfl fun _ _ heq => by cases heq
    · cases Option.some.inj h
  · contradiction

theorem greets {link after : Link} {hello : Bool} (h : link.greet = some (.ok (hello, after))) :
    ∃ frame rest, link.frames = frame :: rest ∧ frame.isHello = hello ∧
      after = { link with frames := rest } := by
  unfold Link.greet at h
  split at h
  · contradiction
  · rename_i frame rest hframes
    refine ⟨frame, rest, hframes, ?_⟩
    dsimp only at h
    split at h
    · cases Option.some.inj h
    · cases Option.some.inj h
    · split at h
      · cases Option.some.inj h
      · cases Option.some.inj h
        exact ⟨rfl, rfl⟩
    · cases Option.some.inj h
      exact ⟨rfl, rfl⟩
    · cases Option.some.inj h
      exact ⟨rfl, rfl⟩

theorem append_singleton_cases {α : Type*} {items pre post : List α} {last item : α}
    (h : items ++ [last] = pre ++ item :: post) :
    (∃ shorter, items = pre ++ item :: shorter) ∨ item = last ∧ pre = items := by
  rcases List.eq_nil_or_concat post with rfl | ⟨shorter, other, rfl⟩
  · obtain ⟨hitems, hlast⟩ := List.append_inj' h rfl
    exact .inr ⟨(List.cons.inj hlast).1.symm, hitems.symm⟩
  · rw [List.concat_eq_append, ← List.cons_append, ← List.append_assoc] at h
    exact .inl ⟨shorter, (List.append_inj' h rfl).1⟩

def afterHello : List Frame → List Frame
  | [] => []
  | frame :: rest => if frame.isHello then rest else afterHello rest

theorem afterHello_append (frames : List Frame) (frame : Frame) :
    afterHello (frames ++ [frame]) =
      if frames.any Frame.isHello then afterHello frames ++ [frame] else [] := by
  induction frames with
  | nil => simp [afterHello]
  | cons first rest ih =>
      rw [List.cons_append, afterHello, afterHello, List.any_cons, ih]
      cases first.isHello <;> simp

theorem afterHello_of_none {frames : List Frame} (h : frames.any Frame.isHello = false) :
    afterHello frames = [] := by
  induction frames with
  | nil => rfl
  | cons first rest ih =>
      rw [List.any_cons, Bool.or_eq_false_iff] at h
      rw [afterHello, h.1]
      exact ih h.2

namespace Live

def early (live : Live) : Bool := live.stage = .connecting || live.stage = .greeting

def taken (live : Live) : List Json := live.link.done.map Dealt.event ++ live.consumer.current

def inbound (live : Live) : List Frame :=
  if live.early then afterHello live.link.frames else live.link.frames

theorem inbound_eq {live : Live} (h : live.early = false) : live.inbound = live.link.frames :=
  if_neg (by simp [h])

end Live

def queued (link : Link) : List Json := link.queue.buffer.filterMap Event.message?

def busy (link : Link) : Bool := link.writing.isSome || link.pending.isSome

/-- At most one ping is on its way, and its pong answers the pending one. -/
structure OnePing (link : Link) : Prop where
  writing : ∀ ping, link.writing = some ping → ping = link.sequence ∧ link.pending = none
  pending : ∀ pending, link.pending = some pending → pending.ping = link.sequence
  wire : ∀ ping ∈ link.wire, ping = link.sequence
  unanswered : ∀ ping ∈ link.unanswered, ping = link.sequence
  pongs : ∀ event, .text (some event) ∈ link.frames → hasType event "pong".toList = true →
    Link.repliesTo event link.sequence = true
  single : link.wire.length + link.unanswered.length + link.frames.countP Frame.isPong =
    if busy link then 1 else 0
  receipts : ∀ receipt ∈ link.receipts, receipt.1 ≤ link.sequence ∧
    receipt.2 ≤ link.put.length
  unreceived : link.wire ≠ [] → ∀ receipt ∈ link.receipts, receipt.1 ≠ link.sequence
  received : busy link = true → link.wire = [] → ∃ count, (link.sequence, count) ∈ link.receipts

/-- Where message events are, and which of them are ahead of each barrier. -/
structure Ordered (live : Live) : Prop where
  greeted : live.link.greeted = if live.early then live.link.frames.any Frame.isHello else true
  idle : live.early = true → busy live.link = false
  flow : live.link.put =
    live.taken ++ queued live.link ++ live.inbound.filterMap Frame.message
  pong : ∀ pre frame post, live.link.frames = pre ++ frame :: post → frame.isPong = true →
    ∀ count, (live.link.sequence, count) ∈ live.link.receipts →
      count ≤ live.taken.length + (queued live.link).length + (pre.filterMap Frame.message).length
  checkpoint : ∀ pre through ping post,
    live.link.queue.buffer = pre ++ .checkpoint through ping :: post →
    ping ≤ live.link.sequence ∧ (busy live.link = true → ping ≠ live.link.sequence) ∧
    (∃ count, (ping, count) ∈ live.link.receipts) ∧
    ∀ count, (ping, count) ∈ live.link.receipts →
      count ≤ live.taken.length + (pre.filterMap Event.message?).length

structure Barrier (live : Live) : Prop where
  onePing : OnePing live.link
  ordered : Ordered live

theorem isPong_message {frame : Frame} (h : frame.isPong = true) : frame.message = none := by
  unfold Frame.isPong at h
  split at h
  · rename_i event
    refine if_neg fun hmessage => ?_
    have heq := hasType_unique h (show hasType event "message".toList = true from hmessage)
    exact absurd heq (by decide)
  · contradiction

theorem countP_concat {frames : List Frame} {frame : Frame} :
    (frames ++ [frame]).countP Frame.isPong =
      frames.countP Frame.isPong + if frame.isPong then 1 else 0 := by
  rw [List.countP_append, List.countP_singleton]

section

variable {config : Config} {link after : Link}

theorem OnePing.place (h : OnePing link) {frame : Frame} (hframe : frame.isPong = false) :
    OnePing (link.place frame) where
  writing := h.writing
  pending := h.pending
  wire := h.wire
  unanswered := h.unanswered
  pongs event hmem hpong := by
    rcases List.mem_append.mp hmem with hmem | hmem
    · exact h.pongs event hmem hpong
    · cases List.mem_singleton.mp hmem
      exact absurd (hpong.symm.trans hframe) (by decide)
  single := by
    simp only [Link.place, countP_concat, hframe]
    exact h.single
  receipts receipt hmem := by
    refine ⟨(h.receipts receipt hmem).1, (h.receipts receipt hmem).2.trans ?_⟩
    unfold Link.place
    dsimp only
    split
    · rw [List.length_append]
      exact Nat.le_add_right _ _
    · exact Nat.le_refl _
  unreceived := h.unreceived
  received := h.received

theorem OnePing.receivePing (h : OnePing link) (hafter : link.receivePing = some after) :
    OnePing after ∧ link.wire = [link.sequence] ∧ link.frames.countP Frame.isPong = 0 ∧
      busy link = true ∧ after = { link with
        wire := []
        unanswered := [link.sequence]
        receipts := link.receipts ++ [(link.sequence, link.put.length)] } := by
  unfold Link.receivePing at hafter
  split at hafter
  · contradiction
  · rename_i ping rest hwire
    have hping : ping = link.sequence := h.wire ping (hwire ▸ List.mem_cons_self)
    have hsingle := h.single
    have hbusy : busy link = true := by
      by_contra hidle
      rw [if_neg hidle, hwire, List.length_cons] at hsingle
      omega
    rw [if_pos hbusy, hwire, List.length_cons] at hsingle
    have hrest : rest = [] := List.length_eq_zero_iff.mp (by omega)
    have hunanswered : link.unanswered = [] := List.length_eq_zero_iff.mp (by omega)
    subst hping hrest
    rw [hunanswered, List.nil_append] at hafter
    cases Option.some.inj hafter
    refine ⟨⟨h.writing, h.pending, by simp, by simp, h.pongs, ?_, ?_, by simp, ?_⟩, hwire,
      by omega, hbusy, rfl⟩
    · change 0 + 1 + link.frames.countP Frame.isPong = if busy link then 1 else 0
      rw [if_pos hbusy]
      omega
    · intro receipt hmem
      rcases List.mem_append.mp hmem with hmem | hmem
      · exact h.receipts receipt hmem
      · cases List.mem_singleton.mp hmem
        exact ⟨Nat.le_refl _, Nat.le_refl _⟩
    · exact fun _ _ => ⟨_, List.mem_append_right _ (List.mem_singleton.mpr rfl)⟩

theorem OnePing.answer (h : OnePing link) {ping : Nat} {pong : Json}
    (hafter : link.answer ping pong = some after) :
    OnePing after ∧ busy link = true ∧ hasType pong "pong".toList = true ∧
      after = { link.place (.text (some pong)) with unanswered := [] } := by
  unfold Link.answer at hafter
  split at hafter
  · rename_i hguard
    obtain ⟨hcontains, hpong, hreply⟩ := hguard
    have hmem : ping ∈ link.unanswered := List.contains_iff_mem.mp hcontains
    have hping := h.unanswered ping hmem
    have hsingle := h.single
    have hlength := List.length_pos_of_mem hmem
    have hbusy : busy link = true := by
      by_contra hidle
      rw [if_neg hidle] at hsingle
      omega
    rw [if_pos hbusy] at hsingle
    have hunanswered : link.unanswered.erase ping = [] := by
      refine List.length_eq_zero_iff.mp ?_
      rw [List.length_erase_of_mem hmem]
      omega
    rw [hunanswered] at hafter
    cases Option.some.inj hafter
    have hisPong : Frame.isPong (.text (some pong)) = true := hpong
    refine ⟨⟨h.writing, h.pending, h.wire, by simp, ?_, ?_, ?_, h.unreceived, h.received⟩, hbusy,
      hpong, rfl⟩
    · intro event hevent htype
      rcases List.mem_append.mp hevent with hevent | hevent
      · exact h.pongs event hevent htype
      · cases List.mem_singleton.mp hevent
        exact hping ▸ hreply
    · change link.wire.length + 0 + (link.frames ++ [_]).countP Frame.isPong =
        if busy link then 1 else 0
      rw [countP_concat, if_pos hisPong, if_pos hbusy]
      omega
    · intro receipt hreceipt
      refine ⟨(h.receipts receipt hreceipt).1, (h.receipts receipt hreceipt).2.trans ?_⟩
      change _ ≤ (if link.greeted then _ else link.put : List Json).length
      rw [isPong_message hisPong]
      split <;> simp
  · contradiction

theorem OnePing.tick (h : OnePing link) {clock : Nat} (hafter : link.tick clock = some (.ok after)) :
    OnePing after ∧ (after = link ∨ busy link = false ∧ link.wire = [] ∧
      link.frames.countP Frame.isPong = 0 ∧ after = { link with
        sequence := link.sequence + 1
        writing := some (link.sequence + 1)
        wire := [link.sequence + 1] }) := by
  unfold Link.tick at hafter
  split at hafter
  · contradiction
  · split at hafter
    · cases Option.some.inj hafter
      exact ⟨h, .inl rfl⟩
    · cases Option.some.inj hafter
  · rename_i hwriting hpending
    have hidle : busy link = false := by simp [busy, hwriting, hpending]
    have hsingle := h.single
    rw [if_neg (by simp [hidle])] at hsingle
    have hwire : link.wire = [] := List.length_eq_zero_iff.mp (by omega)
    have hunanswered : link.unanswered = [] := List.length_eq_zero_iff.mp (by omega)
    have hpongs : link.frames.countP Frame.isPong = 0 := by omega
    have hnone : ∀ frame ∈ link.frames, frame.isPong = false := by
      intro frame hmem
      by_contra hpong
      exact absurd hpongs (List.countP_pos_iff.mpr ⟨frame, hmem, by simpa using hpong⟩).ne'
    rw [hwire, List.nil_append] at hafter
    cases Option.some.inj hafter
    refine ⟨⟨?_, ?_, by simp, ?_, ?_, ?_, ?_, ?_, ?_⟩, .inr ⟨hidle, hwire, hpongs, rfl⟩⟩
    · intro ping hping
      exact ⟨(Option.some.inj hping).symm, hpending⟩
    · intro pending hsome
      rw [hpending] at hsome
      contradiction
    · intro ping hmem
      rw [hunanswered] at hmem
      contradiction
    · intro event hmem hpong
      exact absurd (hpong.symm.trans (hnone _ hmem)) (by decide)
    · simp [busy, hunanswered, hpongs]
    · intro receipt hmem
      have := (h.receipts receipt hmem).1
      exact ⟨by simp only; omega, (h.receipts receipt hmem).2⟩
    · intro _ receipt hmem
      have := (h.receipts receipt hmem).1
      simp only
      omega
    · intro _ hnil
      contradiction

theorem OnePing.recordPing (h : OnePing link) {clock : Nat} {now : Int}
    (hafter : link.recordPing clock now = some after) :
    OnePing after ∧ busy link = true ∧ link.pending = none ∧ after = { link with
      writing := none
      pending := some ⟨link.sequence, clock, now⟩ } := by
  unfold Link.recordPing at hafter
  split at hafter
  · contradiction
  · rename_i ping hwriting
    obtain ⟨rfl, hpending⟩ := h.writing ping hwriting
    have hbusy : busy link = true := by simp [busy, hwriting]
    cases Option.some.inj hafter
    refine ⟨⟨by simp, ?_, h.wire, h.unanswered, h.pongs, ?_, h.receipts, h.unreceived,
      fun _ => h.received hbusy⟩, hbusy, hpending, rfl⟩
    · intro pending hsome
      cases Option.some.inj hsome
      rfl
    · have hsingle := h.single
      rw [if_pos hbusy] at hsingle
      simpa [busy] using hsingle

theorem OnePing.pop (h : OnePing link) {frame : Frame} {rest : List Frame} {queue : Mpsc Event}
    (hframes : link.frames = frame :: rest) (hframe : frame.isPong = false) :
    OnePing { link with frames := rest, queue := queue } where
  writing := h.writing
  pending := h.pending
  wire := h.wire
  unanswered := h.unanswered
  pongs event hmem hpong := h.pongs event (hframes ▸ List.mem_cons_of_mem _ hmem) hpong
  single := by
    have hsingle := h.single
    rw [hframes, List.countP_cons_of_neg (by simp [hframe])] at hsingle
    exact hsingle
  receipts := h.receipts
  unreceived := h.unreceived
  received := h.received

theorem OnePing.popPong (h : OnePing link) (queue : Mpsc Event) {frame : Frame}
    {rest : List Frame} (hframes : link.frames = frame :: rest) (hframe : frame.isPong = true)
    (hwriting : link.writing = none) :
    OnePing { link with frames := rest, queue := queue, pending := none } ∧ busy link = true ∧
      link.wire = [] ∧ rest.countP Frame.isPong = 0 := by
  have hsingle := h.single
  rw [hframes, List.countP_cons_of_pos hframe] at hsingle
  have hbusy : busy link = true := by
    by_contra hidle
    rw [if_neg hidle] at hsingle
    omega
  rw [if_pos hbusy] at hsingle
  have hwire : link.wire = [] := List.length_eq_zero_iff.mp (by omega)
  refine ⟨⟨?_, by simp, h.wire, h.unanswered, ?_, ?_, h.receipts, h.unreceived, ?_⟩, hbusy, hwire,
    by omega⟩
  · intro ping hping
    rw [hwriting] at hping
    contradiction
  · exact fun event hmem hpong => h.pongs event (hframes ▸ List.mem_cons_of_mem _ hmem) hpong
  · simp only [busy, hwriting, Option.isSome_none, Bool.or_self, Bool.false_eq_true, ↓reduceIte]
    omega
  · simp [busy, hwriting]

end

theorem Barrier.queuePop {stage : Stage} {link : Link} {consumer : Consumer} {event : Event}
    {queue : Mpsc Event} {done : List Dealt} {after : Consumer}
    (h : Barrier ⟨stage, link, consumer⟩) (hrecv : link.queue.recv = some (event, queue))
    (htaken : Live.taken ⟨stage, { link with queue := queue, done := done }, after⟩ =
      Live.taken ⟨stage, link, consumer⟩ ++ event.message?.toList) :
    Barrier ⟨stage, { link with queue := queue, done := done }, after⟩ := by
  obtain ⟨hone, hgreeted, hidle, hflow, hpong, hcheckpoint⟩ := h
  have hbuffer := (Mpsc.recv_some hrecv).1
  have hqueued : queued link = event.message?.toList ++ queued { link with queue := queue } := by
    unfold queued
    rw [hbuffer, List.filterMap_cons]
    cases event.message? <;> rfl
  refine ⟨⟨hone.writing, hone.pending, hone.wire, hone.unanswered, hone.pongs, hone.single,
    hone.receipts, hone.unreceived, hone.received⟩, hgreeted, hidle, ?_, ?_, ?_⟩
  · rw [htaken, hflow, hqueued]
    simp only [List.append_assoc]
    rfl
  · intro pre frame post hframes hframe count hcount
    have hcount := hpong pre frame post hframes hframe count hcount
    rw [htaken, List.length_append]
    rw [hqueued, List.length_append] at hcount
    simp only [queued] at hcount ⊢
    omega
  · intro pre through ping post hafter
    obtain ⟨hle, hne, hexists, hcount⟩ := hcheckpoint (event :: pre) through ping post (by
      rw [hbuffer, hafter, List.cons_append])
    refine ⟨hle, hne, hexists, fun count hmem => (hcount count hmem).trans ?_⟩
    rw [htaken, List.length_append, List.filterMap_cons]
    cases event.message? with
    | none => simp
    | some message =>
        simp only [Option.toList_some, List.length_cons]
        simp only [List.length_nil]
        omega

theorem Barrier.queuePush {stage : Stage} {link : Link} {consumer : Consumer} {event : Json}
    {rest : List Frame} {queue : Mpsc Event} (h : Barrier ⟨stage, link, consumer⟩)
    (hstage : stage ≠ .connecting ∧ stage ≠ .greeting)
    (hframes : link.frames = .text (some event) :: rest)
    (hpong : hasType event "pong".toList = false)
    (hqueue : queue.buffer = link.queue.buffer ++ [.message event]) :
    Barrier ⟨stage, { link with frames := rest, queue := queue }, consumer⟩ := by
  obtain ⟨hone, hgreeted, hidle, hflow, hpongs, hcheckpoint⟩ := h
  have hearly : ∀ link, Live.early ⟨stage, link, consumer⟩ = false := by
    simp [Live.early, hstage.1, hstage.2]
  have hqueued : queued { link with frames := rest, queue := queue } =
      queued link ++ (Event.message event).message?.toList := by
    simp only [queued, hqueue, List.filterMap_append]
    cases hmessage : (Event.message event).message? <;> simp [hmessage]
  refine ⟨hone.pop hframes hpong, ?_, fun h => by rw [hearly] at h; contradiction, ?_, ?_, ?_⟩
  · rw [hearly] at hgreeted ⊢
    exact hgreeted
  · rw [Live.inbound_eq (hearly _)] at hflow ⊢
    rw [hqueued]
    simp only [hframes, List.filterMap_cons, Live.taken] at hflow ⊢
    rw [hflow]
    change _ = _ ++ (queued link ++ (Frame.message (.text (some event))).toList) ++ _
    cases Frame.message (.text (some event)) <;> simp
  · intro pre frame post hafter hframe count hcount
    have := hpongs (.text (some event) :: pre) frame post (by
      rw [hframes, show rest = _ from hafter, List.cons_append]) hframe count hcount
    rw [hqueued, List.length_append]
    rw [List.filterMap_cons] at this
    change _ ≤ _ + (_ + (Frame.message (.text (some event))).toList.length) + _
    cases hmessage : Frame.message (.text (some event)) with
    | none => simpa [hmessage, Live.taken] using this
    | some message =>
        simp only [hmessage, List.length_cons, Live.taken, Option.toList_some] at this ⊢
        simp only [List.length_nil]
        omega
  · intro pre through ping post hafter
    rw [show queue.buffer = _ from hqueue] at hafter
    rcases append_singleton_cases hafter with ⟨shorter, hshorter⟩ | ⟨heq, -⟩
    · exact hcheckpoint pre through ping shorter hshorter
    · contradiction

theorem Barrier.pong {stage : Stage} {link : Link} {consumer : Consumer} {event : Json}
    {rest : List Frame} {queue : Mpsc Event} {pending : Pending}
    (h : Barrier ⟨stage, link, consumer⟩) (hstage : stage ≠ .connecting ∧ stage ≠ .greeting)
    (hwriting : link.writing = none) (hframes : link.frames = .text (some event) :: rest)
    (htype : hasType event "pong".toList = true) (hpending : link.pending = some pending)
    (hqueue : queue.buffer = link.queue.buffer ++ [.checkpoint pending.through pending.ping]) :
    Barrier ⟨stage, { link with frames := rest, queue := queue, pending := none }, consumer⟩ := by
  obtain ⟨hone, hgreeted, hidle, hflow, hpongs, hcheckpoint⟩ := h
  have hframe : Frame.isPong (.text (some event)) = true := htype
  have hmessage := isPong_message hframe
  have hping := hone.pending pending hpending
  obtain ⟨hafter, hbusy, hwire, hnone⟩ := hone.popPong queue hframes hframe hwriting
  have hearly : ∀ link, Live.early ⟨stage, link, consumer⟩ = false := by
    simp [Live.early, hstage.1, hstage.2]
  have hqueued : queued { link with frames := rest, queue := queue, pending := none } =
      queued link := by
    simp [queued, hqueue, Event.message?]
  refine ⟨hafter, ?_, fun h => by rw [hearly] at h; contradiction, ?_, ?_, ?_⟩
  · rw [hearly] at hgreeted ⊢
    exact hgreeted
  · rw [Live.inbound_eq (hearly _)] at hflow ⊢
    rw [hqueued]
    simp only [hframes, List.filterMap_cons, hmessage, Live.taken] at hflow ⊢
    exact hflow
  · intro pre frame post hrest hisPong
    have hmem : frame ∈ rest := by
      rw [show rest = _ from hrest]
      exact List.mem_append_right _ List.mem_cons_self
    exact absurd hnone (List.countP_pos_iff.mpr ⟨frame, hmem, hisPong⟩).ne'
  · intro pre through ping post hbuffer
    have hfree : busy { link with frames := rest, queue := queue, pending := none } = false := by
      simp [busy, hwriting]
    rw [show queue.buffer = _ from hqueue] at hbuffer
    rcases append_singleton_cases hbuffer with ⟨shorter, hshorter⟩ | ⟨heq, rfl⟩
    · obtain ⟨hle, -, hexists, hcount⟩ := hcheckpoint pre through ping shorter hshorter
      exact ⟨hle, fun h => by rw [hfree] at h; contradiction, hexists, hcount⟩
    · cases heq
      refine ⟨hping.le, fun h => by rw [hfree] at h; contradiction, ?_, fun count hmem => ?_⟩
      · obtain ⟨count, hmem⟩ := hone.received hbusy hwire
        exact ⟨count, hping ▸ hmem⟩
      · have := hpongs [] _ rest hframes hframe count (hping ▸ hmem)
        simpa [queued, Live.taken] using this

theorem Barrier.drop {stage : Stage} {link : Link} {consumer : Consumer} {frame : Frame}
    {rest : List Frame} (h : Barrier ⟨stage, link, consumer⟩)
    (hstage : stage ≠ .connecting ∧ stage ≠ .greeting) (hframes : link.frames = frame :: rest)
    (hframe : frame.isPong = false) (hmessage : frame.message = none) :
    Barrier ⟨stage, { link with frames := rest }, consumer⟩ := by
  obtain ⟨hone, hgreeted, hidle, hflow, hpongs, hcheckpoint⟩ := h
  have hearly : ∀ link, Live.early ⟨stage, link, consumer⟩ = false := by
    simp [Live.early, hstage.1, hstage.2]
  refine ⟨hone.pop hframes hframe, ?_, fun h => by rw [hearly] at h; contradiction, ?_, ?_,
    hcheckpoint⟩
  · rw [hearly] at hgreeted ⊢
    exact hgreeted
  · rw [Live.inbound_eq (hearly _)] at hflow ⊢
    simp only [hframes, List.filterMap_cons, hmessage, Live.taken] at hflow ⊢
    exact hflow
  · intro pre pong post hafter hpong count hcount
    have := hpongs (frame :: pre) pong post (by
      rw [hframes, show rest = _ from hafter, List.cons_append]) hpong count hcount
    rw [List.filterMap_cons, hmessage] at this
    exact this

theorem placed_greeted {stage : Stage} {link : Link} {consumer : Consumer} {frame : Frame}
    (h : link.greeted = if Live.early ⟨stage, link, consumer⟩ then link.frames.any Frame.isHello
      else true) :
    (link.place frame).greeted = if Live.early ⟨stage, link.place frame, consumer⟩ then
      (link.place frame).frames.any Frame.isHello else true := by
  change (link.greeted || frame.isHello) = if Live.early ⟨stage, link, consumer⟩ then
    (link.frames ++ [frame]).any Frame.isHello else true
  rw [h, List.any_append, List.any_cons, List.any_nil]
  cases Live.early ⟨stage, link, consumer⟩ <;> simp

theorem placed_flow {stage : Stage} {link : Link} {consumer : Consumer} {frame : Frame}
    {before : List Json}
    (hgreeted : link.greeted = if Live.early ⟨stage, link, consumer⟩ then
      link.frames.any Frame.isHello else true)
    (h : link.put = before ++ (Live.inbound ⟨stage, link, consumer⟩).filterMap Frame.message) :
    (link.place frame).put =
      before ++ (Live.inbound ⟨stage, link.place frame, consumer⟩).filterMap Frame.message := by
  have hmessage : [frame].filterMap Frame.message = frame.message.toList := by
    cases hmessage : frame.message <;> simp [hmessage]
  change (if link.greeted then link.put ++ frame.message.toList else link.put) =
    before ++ (if Live.early ⟨stage, link, consumer⟩ then afterHello (link.frames ++ [frame])
      else link.frames ++ [frame]).filterMap Frame.message
  rw [Live.inbound] at h
  cases hearly : Live.early ⟨stage, link, consumer⟩ with
  | false =>
      rw [hearly] at hgreeted h
      simp only [Bool.false_eq_true, ↓reduceIte] at hgreeted h ⊢
      rw [hgreeted, if_pos rfl, h, List.filterMap_append, hmessage, List.append_assoc]
  | true =>
      rw [hearly] at hgreeted h
      simp only [↓reduceIte] at hgreeted h ⊢
      rw [afterHello_append, ← hgreeted]
      cases hhello : link.greeted with
      | false =>
          have hnone : afterHello link.frames = [] := by
            rw [hhello] at hgreeted
            exact afterHello_of_none (hgreeted ▸ rfl)
          simpa [hnone] using h
      | true => simp [h, List.filterMap_append, hmessage]

theorem ignored_pong {stage : Stage} {link : Link} {consumer : Consumer} {frame : Frame}
    {rest : List Frame} (h : Barrier ⟨stage, link, consumer⟩) (hwriting : link.writing = none)
    (hframes : link.frames = frame :: rest) (hpong : frame.isPong = true)
    (hignored : ∀ event pending, frame = .text (some event) → hasType event "pong".toList = true →
      link.pending = some pending → Link.repliesTo event pending.ping = false) : False := by
  obtain ⟨-, hbusy, -, -⟩ := h.onePing.popPong link.queue hframes hpong hwriting
  simp only [busy, hwriting, Option.isSome_none, Bool.false_or] at hbusy
  obtain ⟨pending, hpending⟩ := Option.isSome_iff_exists.mp hbusy
  unfold Frame.isPong at hpong
  split at hpong
  · rename_i event
    have hreply := h.onePing.pongs event (hframes ▸ List.mem_cons_self) hpong
    have hfalse := hignored event pending rfl hpong hpending
    rw [h.onePing.pending pending hpending, hreply] at hfalse
    contradiction
  · contradiction

theorem Barrier.place {stage : Stage} {link : Link} {consumer : Consumer} {frame : Frame}
    (h : Barrier ⟨stage, link, consumer⟩) (hframe : frame.isPong = false) :
    Barrier ⟨stage, link.place frame, consumer⟩ := by
  obtain ⟨hone, hgreeted, hidle, hflow, hpongs, hcheckpoint⟩ := h
  refine ⟨hone.place hframe, ?_, hidle, placed_flow hgreeted hflow, ?_, hcheckpoint⟩
  · exact placed_greeted hgreeted
  · intro pre pong post hafter hpong count hcount
    rcases append_singleton_cases (show link.frames ++ [frame] = _ from hafter) with
      ⟨shorter, hshorter⟩ | ⟨rfl, -⟩
    · exact hpongs pre pong shorter hshorter hpong count hcount
    · rw [hpong] at hframe
      contradiction

theorem Barrier.receivePing {stage : Stage} {link after : Link} {consumer : Consumer}
    (h : Barrier ⟨stage, link, consumer⟩) (hafter : link.receivePing = some after) :
    Barrier ⟨stage, after, consumer⟩ := by
  obtain ⟨hone, hgreeted, hidle, hflow, hpongs, hcheckpoint⟩ := h
  obtain ⟨hone, -, hnone, hbusy, rfl⟩ := OnePing.receivePing hone hafter
  refine ⟨hone, hgreeted, hidle, hflow, ?_, ?_⟩
  · intro pre pong post hframes hpong
    have hmem : pong ∈ link.frames := by
      rw [show link.frames = _ from hframes]
      exact List.mem_append_right _ List.mem_cons_self
    exact absurd hnone (List.countP_pos_iff.mpr ⟨pong, hmem, hpong⟩).ne'
  · intro pre through ping post hbuffer
    obtain ⟨hle, hne, ⟨count, hmem⟩, hcount⟩ := hcheckpoint pre through ping post hbuffer
    refine ⟨hle, hne, ⟨count, List.mem_append_left _ hmem⟩, fun count hmem => ?_⟩
    rcases List.mem_append.mp hmem with hmem | hmem
    · exact hcount count hmem
    · cases List.mem_singleton.mp hmem
      exact absurd rfl (hne hbusy)

theorem Barrier.answer {stage : Stage} {link after : Link} {consumer : Consumer} {ping : Nat}
    {pong : Json} (h : Barrier ⟨stage, link, consumer⟩)
    (hafter : link.answer ping pong = some after) : Barrier ⟨stage, after, consumer⟩ := by
  obtain ⟨hone, hgreeted, hidle, hflow, hpongs, hcheckpoint⟩ := h
  have hreceipts := hone.receipts
  obtain ⟨hone, hbusy, htype, rfl⟩ := OnePing.answer hone hafter
  have hframe : Frame.isPong (.text (some pong)) = true := htype
  have hearly : Live.early ⟨stage, link, consumer⟩ = false :=
    Bool.eq_false_iff.mpr fun hearly => by
      rw [hidle hearly] at hbusy
      contradiction
  refine ⟨hone, placed_greeted hgreeted, hidle, placed_flow hgreeted hflow, ?_, hcheckpoint⟩
  intro pre frame post hframes hisPong count hcount
  rcases append_singleton_cases (show link.frames ++ [_] = _ from hframes) with
    ⟨shorter, hshorter⟩ | ⟨rfl, rfl⟩
  · exact hpongs pre frame shorter hshorter hisPong count hcount
  · have hle := (hreceipts _ hcount).2
    rw [hflow, Live.inbound_eq hearly] at hle
    simp only [List.length_append] at hle
    exact hle

theorem Barrier.tick {stage : Stage} {link after : Link} {consumer : Consumer} {clock : Nat}
    (h : Barrier ⟨stage, link, consumer⟩) (hstage : stage ≠ .connecting ∧ stage ≠ .greeting)
    (hafter : link.tick clock = some (.ok after)) : Barrier ⟨stage, after, consumer⟩ := by
  obtain ⟨hone, hgreeted, hidle, hflow, hpongs, hcheckpoint⟩ := h
  obtain ⟨hone, rfl | ⟨-, -, hnone, rfl⟩⟩ := OnePing.tick hone hafter
  · exact ⟨hone, hgreeted, hidle, hflow, hpongs, hcheckpoint⟩
  · refine ⟨hone, hgreeted, fun hearly => ?_, hflow, ?_, ?_⟩
    · simp [Live.early, hstage.1, hstage.2] at hearly
    · intro pre pong post hframes hpong
      have hmem : pong ∈ link.frames := by
        rw [show link.frames = _ from hframes]
        exact List.mem_append_right _ List.mem_cons_self
      exact absurd hnone (List.countP_pos_iff.mpr ⟨pong, hmem, hpong⟩).ne'
    · intro pre through ping post hbuffer
      obtain ⟨hle, -, hrest⟩ := hcheckpoint pre through ping post hbuffer
      refine ⟨Nat.le_succ_of_le hle, fun _ heq => ?_, hrest⟩
      simp only at hle heq
      omega

theorem Barrier.recordPing {stage : Stage} {link after : Link} {consumer : Consumer} {clock : Nat}
    {now : Int} (h : Barrier ⟨stage, link, consumer⟩)
    (hafter : link.recordPing clock now = some after) : Barrier ⟨stage, after, consumer⟩ := by
  obtain ⟨hone, hgreeted, hidle, hflow, hpongs, hcheckpoint⟩ := h
  obtain ⟨hone, hbusy, -, rfl⟩ := OnePing.recordPing hone hafter
  refine ⟨hone, hgreeted, fun hearly => ?_, hflow, hpongs, ?_⟩
  · have hfree := hidle hearly
    rw [hbusy] at hfree
    contradiction
  · intro pre through ping post hbuffer
    obtain ⟨hle, hne, hrest⟩ := hcheckpoint pre through ping post hbuffer
    exact ⟨hle, fun _ => hne hbusy, hrest⟩

theorem Barrier.greet {link after : Link} {consumer : Consumer} {hello : Bool}
    (h : Barrier ⟨.greeting, link, consumer⟩) (hafter : link.greet = some (.ok (hello, after))) :
    Barrier ⟨if hello then .discovering else .greeting, after, consumer⟩ := by
  obtain ⟨hone, hgreeted, hidle, hflow, hpongs, hcheckpoint⟩ := h
  obtain ⟨frame, rest, hframes, hhello, rfl⟩ := greets hafter
  have hfree : busy link = false := hidle rfl
  have hsingle := hone.single
  simp only [hfree, Bool.false_eq_true, ↓reduceIte] at hsingle
  have hnone : link.frames.countP Frame.isPong = 0 := by omega
  have hframe : frame.isPong = false := by
    rw [hframes] at hnone
    by_contra hpong
    rw [List.countP_cons_of_pos (by simpa using hpong)] at hnone
    omega
  refine ⟨hone.pop hframes hframe, ?_, fun _ => hfree, ?_, ?_, hcheckpoint⟩
  · rw [show Live.early ⟨.greeting, link, consumer⟩ = true from rfl, if_pos rfl] at hgreeted
    simp only [hframes, List.any_cons, hhello] at hgreeted
    cases hello with
    | true => simpa [Live.early] using hgreeted
    | false => simpa [Live.early] using hgreeted
  · have hinbound : Live.inbound ⟨.greeting, link, consumer⟩ = afterHello (frame :: rest) := by
      rw [← hframes]
      rfl
    rw [hinbound, afterHello, hhello] at hflow
    cases hello <;> exact hflow
  · intro pre pong post hrest hpong
    have hmem : pong ∈ link.frames := by
      rw [hframes, show rest = _ from hrest]
      exact List.mem_cons_of_mem _ (List.mem_append_right _ List.mem_cons_self)
    exact absurd hnone (List.countP_pos_iff.mpr ⟨pong, hmem, hpong⟩).ne'

/-- The barrier holds across every step of a connection whose server puts no pong
on the socket but the answers to pings. -/
theorem barrier_step {config : Config} {s t : State} {live after : Live} {label : Option (Int × Nat)}
    (h : Barrier live)
    (hstep : LiveStep config (fun frame => frame.isPong = false) s t live label after) :
    Barrier after := by
  cases hstep with
  | same => exact h
  | opened link consumer => exact ⟨h.onePing, h.ordered.greeted, h.ordered.idle, h.ordered.flow,
      h.ordered.pong, h.ordered.checkpoint⟩
  | place stage link consumer frame hframe => exact h.place hframe
  | receivePing stage link after consumer hafter => exact h.receivePing hafter
  | answer stage link after consumer ping pong hafter => exact h.answer hafter
  | greet link after consumer hello hafter => exact h.greet hafter
  | tick stage link after consumer hstage hafter => exact h.tick hstage hafter
  | recordPing stage link after consumer hafter => exact h.recordPing hafter
  | read stage link after consumer hstage hafter =>
      obtain ⟨hwriting, hreads⟩ := reads_of_read hafter
      cases hreads with
      | dropped frame rest hframes hmessage hpong =>
          refine h.drop hstage hframes (Bool.eq_false_iff.mpr fun hisPong => ?_) hmessage
          exact ignored_pong h hwriting hframes hisPong hpong
      | queued event rest queue hframes hpong hqueue =>
          exact h.queuePush hstage hframes hpong (Mpsc.trySend_ok hqueue).2.1
      | barrier event rest queue pending hframes hpong hpending hqueue =>
          exact h.pong hstage hwriting hframes hpong hpending (Mpsc.trySend_ok hqueue).2.1
  | advance stage after link consumer hstage hafter =>
      have hbefore : Live.early ⟨stage, link, consumer⟩ = false := by
        simp [Live.early, hstage.1, hstage.2]
      have hearly : Live.early ⟨after, link, consumer⟩ = false := by
        simp [Live.early, hafter.1, hafter.2]
      obtain ⟨hone, hgreeted, hidle, hflow, hpongs, hcheckpoint⟩ := h
      rw [hbefore] at hgreeted
      rw [Live.inbound_eq hbefore] at hflow
      refine ⟨hone, by rw [hearly]; exact hgreeted, fun h => by rw [hearly] at h; contradiction, ?_,
        hpongs, hcheckpoint⟩
      rw [Live.inbound_eq hearly]
      exact hflow
  | checkpoint stage link queue through ping hrecv =>
      exact h.queuePop hrecv (by simp [Live.taken, Event.message?])
  | message stage link consumer queue event hrecv hcurrent =>
      exact h.queuePop hrecv (by simp [Live.taken, hcurrent])
  | foreign stage link queue event hrecv hmessage hforeign =>
      exact h.queuePop hrecv (by
        simp [Live.taken, Event.message?, hmessage, Dealt.event])
  | consumer stage link before after hcurrent =>
      obtain ⟨hone, hgreeted, hidle, hflow, hpongs, hcheckpoint⟩ := h
      have htaken : Live.taken ⟨stage, link, after⟩ = Live.taken ⟨stage, link, before⟩ := by
        simp [Live.taken, hcurrent]
      exact ⟨hone, hgreeted, hidle, by rw [htaken]; exact hflow, by rw [htaken]; exact hpongs,
        by rw [htaken]; exact hcheckpoint⟩
  | done stage link consumer dealt hcurrent hdealt =>
      obtain ⟨hone, hgreeted, hidle, hflow, hpongs, hcheckpoint⟩ := h
      have htaken : Live.taken ⟨stage, { link with done := link.done ++ [dealt] }, .receiving⟩ =
          Live.taken ⟨stage, link, consumer⟩ := by
        simp [Live.taken, hcurrent]
      exact ⟨⟨hone.writing, hone.pending, hone.wire, hone.unanswered, hone.pongs, hone.single,
        hone.receipts, hone.unreceived, hone.received⟩, hgreeted, hidle, by rw [htaken]; exact hflow,
        by rw [htaken]; exact hpongs, by rw [htaken]; exact hcheckpoint⟩

end SjmbSlack.UserSession.Session
