import Mathlib.Data.List.Infix
import SjmbSlack.UserSession.Memory
import SjmbSlack.UserSession.Tracking

/-! `recover_channel` as one call, over whatever the API answers, whatever the worker
makes of the messages and whatever other tasks do to the store meanwhile. -/
namespace SjmbSlack.UserSession
open Api Slackbot Persist
open Session (Served Request Followed pageMessages)

def secondAt (clock : Nat) : Int := (clock / SECOND : Nat)

/-- What a call of `process` meets: when it has the lock, and, where the message goes to
the worker, whether and when it is harvested. Other tasks use the store before that and
in between. -/
structure Attempt where
  before : List Aside
  locked : Nat
  meanwhile : List Aside
  harvested : Bool
  settled : Nat

/-- What a pass meets at the pages of its requests and at the messages of each page. -/
structure World where
  waiting : Option Str → Nat → List Aside
  answer : Option Str → Nat → Except ApiError Json
  attempt : Option Str → Nat → Nat → Attempt

/-- The call of the store once the worker is done with a message, or fails. -/
def Attempt.settle (attempt : Attempt) (event : Json) (id ts : Str) (thread : Option Str) : Call :=
  let now := secondAt attempt.settled
  if attempt.harvested then
    { now := now, operation := .processed id ts thread now, concurrent := rfl, event := some event }
  else { now := now, operation := .failed id, concurrent := rfl, event := some event }

def Attempt.remember (attempt : Attempt) (event : Json) (id : Str) (thread : Option Str) : List Call :=
  thread.toList.map fun parent =>
    { now := secondAt attempt.locked
      operation := .rememberThread id parent
      concurrent := rfl
      event := some event }

/-- `process`: its calls of the store, and whether it returns `Ok`. -/
def processEvent (config : Config) (attempt : Attempt) (data : Snapshot) (event : Json) :
    List Call × Bool :=
  match normalise config.decode event with
  | none => ([], true)
  | some (message, ts, thread) =>
      match message.channel with
      | none => ([], false)
      | some id =>
          let remembered := attempt.remember event id thread
          if (replay config.window remembered data).isSeen id ts then (remembered, true)
          else match prepareMessage config.workspace message attempt.locked with
            | .error _ => (remembered, true)
            | .ok _ => (remembered ++ attempt.meanwhile.map Aside.call ++
                [attempt.settle event id ts thread], attempt.harvested)

structure Asked where
  channel : Str
  thread : Option Str
  oldest : Int
  through : Int

section

variable (config : Config) (world : World) (asked : Asked)

def scanMessages (page : Nat) : Nat → List Json → Snapshot → List Call × Except ApiError Unit
  | _, [], _ => ([], .ok ())
  | position, message :: rest, data =>
      match completeEvent asked.channel asked.thread message with
      | none => ([], .error .other)
      | some event =>
          if inRange asked.oldest asked.through event then
            let attempt := world.attempt asked.thread page position
            let before := attempt.before.map Aside.call
            let processed := processEvent config attempt (replay config.window before data) event
            let calls := before ++ processed.1
            if processed.2 then
              let scanned := scanMessages page (position + 1) rest (replay config.window calls data)
              (calls ++ scanned.1, scanned.2)
            else (calls, .error .other)
          else scanMessages page (position + 1) rest data

/-- The calls of the store that a request makes, the pages it reads and its result. -/
structure Paged where
  calls : List Call
  served : List Served
  result : Except ApiError Unit

def recoverPages : Nat → Nat → Str → List Str → Snapshot → Paged
  | 0, _, _, _, _ => ⟨[], [], .error .other⟩
  | pages + 1, page, cursor, cursors, data =>
      let waited := (world.waiting asked.thread page).map Aside.call
      match world.answer asked.thread page with
      | .error error => ⟨waited, [], .error error⟩
      | .ok response =>
          match (response.get "messages".toList).asArray with
          | none => ⟨waited, [], .error .other⟩
          | some messages =>
              if ¬ messages.length ≤ 1000 then ⟨waited, [], .error .other⟩
              else
                let scanned := scanMessages config world asked page 0 messages
                  (replay config.window waited data)
                let calls := waited ++ scanned.1
                match scanned.2, nextCursor response with
                | .error error, _ | .ok (), .error error => ⟨calls, [⟨cursor, response⟩], .error error⟩
                | .ok (), .ok next =>
                    if next = [] then ⟨calls, [⟨cursor, response⟩], .ok ()⟩
                    else if cursors.contains next then ⟨calls, [⟨cursor, response⟩], .error .other⟩
                    else
                      let rest := recoverPages pages (page + 1) next (next :: cursors)
                        (replay config.window calls data)
                      ⟨calls ++ rest.calls, ⟨cursor, response⟩ :: rest.served, rest.result⟩

/-- The requests for threads that came to their end, what they left in the store, and
their result. -/
structure Replied where
  done : List Request
  store : Snapshot
  result : Except ApiError Unit

def recoverThreads : List Str → Snapshot → Replied
  | [], data => ⟨[], data, .ok ()⟩
  | thread :: rest, data =>
      let paged := recoverPages config world { asked with thread := some thread } config.maxPages 0
        [] [] data
      let data := replay config.window paged.calls data
      match paged.result with
      | .ok () =>
          let later := recoverThreads rest data
          { later with done := ⟨some thread, paged.served, none⟩ :: later.done }
      | .error (.request method code) =>
          if code = "thread_not_found".toList then
            let later := recoverThreads rest (data.forgetThread asked.channel thread)
            { later with done := ⟨some thread, paged.served, some (.request method code)⟩ :: later.done }
          else ⟨[], data, .error (.request method code)⟩
      | .error error => ⟨[], data, .error error⟩

/-- `learning` are the calls of the store up to the end of the history, `history` its pages
and `done` the requests for threads that came to their end. -/
structure Recovered where
  learning : List Call
  history : List Served
  done : List Request
  store : Snapshot
  result : Except ApiError Unit

def recoverChannel (id : Str) (oldest through : Int) (data : Snapshot) : Recovered :=
  let asked : Asked := ⟨id, none, oldest, through⟩
  let paged := recoverPages config world asked config.maxPages 0 [] [] data
  let data := replay config.window paged.calls data
  match paged.result with
  | .error error => ⟨paged.calls, paged.served, [], data, .error error⟩
  | .ok () =>
      let replied := recoverThreads config world asked (data.threads id) data
      ⟨paged.calls, paged.served, replied.done, replied.store, replied.result⟩

end

def shownThread (message : Json) (ts : Str) : Option Str :=
  (((message.get "thread_ts".toList).asStr).filter validTs).or
    (((message.get "reply_count".toList).asUnsigned.filter fun count => count > 0).map fun _ => ts)

/-- A message of the range that belongs to a thread or starts one, whatever else it says. -/
def Shows (oldest through : Int) (message : Json) (thread : Str) : Prop :=
  inRange oldest through message = true ∧ ∃ ts, (message.get "ts".toList).asStr = some ts ∧
    validTs ts = true ∧ shownThread message ts = some thread

/-- The replies of a thread were read to the last page, or the thread no longer exists. -/
structure Closed (world : World) (thread : Str) (request : Request) : Prop where
  asked : request.thread = some thread
  served : ∀ (page : Nat) (served : Served), request.pages[page]? = some served →
    world.answer (some thread) page = .ok served.response
  closed : request.error = none ∧ request.pages ≠ [] ∧ Followed [] request.pages [] ∨
    ∃ method, request.error = some (.request method "thread_not_found".toList) ∧
      world.answer (some thread) request.pages.length =
        .error (.request method "thread_not_found".toList)

def Call.Uses (id thread : Str) (call : Call) : Prop :=
  call.event ≠ none ∧ call.operation.noted = some (id, thread)

def Accepted (config : Config) (asked : Asked) (id thread : Str) (message : Json) : Prop :=
  ∃ event, completeEvent asked.channel asked.thread message = some event ∧
    inRange asked.oldest asked.through event = true ∧
    ∃ found ts, normalise config.decode event = some (found, ts, some thread) ∧
      found.channel = some id

theorem remember_store (config : Config) {core : Core} {attempt : Attempt}
    (hclock : core.clock = attempt.locked) (event : Json) (id : Str) (thread : Option Str) :
    (Process.remember config core id thread).store =
      replay config.window (attempt.remember event id thread) core.store := by
  cases thread with
  | none => rfl
  | some parent =>
      have hnow : core.now = secondAt attempt.locked := by rw [← hclock]; rfl
      unfold Process.remember
      dsimp only
      rw [hnow]
      rfl

/-- The session's call of `process` goes as `processEvent` says, up to where it awaits the worker. -/
theorem start_processEvent (config : Config) {core : Core} {attempt : Attempt}
    (hclock : core.clock = attempt.locked) (event : Json) :
    ∃ calls, (Process.start config core event).1.store = replay config.window calls core.store ∧
      match (Process.start config core event).2 with
      | .returned ok => processEvent config attempt core.store event = (calls, ok)
      | .suspended call => ∃ job, call = .sending event job core.clock ∧
          processEvent config attempt core.store event =
            (calls ++ attempt.meanwhile.map Aside.call ++
              [attempt.settle event job.channel job.ts job.thread], attempt.harvested) := by
  unfold Process.start processEvent
  cases normalise config.decode event with
  | none => exact ⟨[], rfl, rfl⟩
  | some result =>
      obtain ⟨message, ts, thread⟩ := result
      dsimp only
      cases message.channel with
      | none => exact ⟨[], rfl, rfl⟩
      | some id =>
          have hstore := remember_store config hclock event id thread
          have hcore : (Process.remember config core id thread).clock = core.clock := by
            cases thread <;> rfl
          refine ⟨attempt.remember event id thread, ?_⟩
          dsimp only
          rw [hstore, hcore, hclock]
          cases (replay config.window (attempt.remember event id thread) core.store).isSeen id ts with
          | true => exact ⟨hstore, rfl⟩
          | false =>
              cases prepareMessage config.workspace message attempt.locked with
              | error discard => exact ⟨hstore, rfl⟩
              | ok queued => exact ⟨rfl, _, rfl, rfl⟩

theorem settle_store (config : Config) {core : Core} {attempt : Attempt}
    (hclock : core.clock = attempt.settled) (event : Json) (job : Job) :
    replay config.window [attempt.settle event job.channel job.ts job.thread] core.store =
      if attempt.harvested then (Process.record config core job).store
      else (Process.fail core job.channel).1.store := by
  have hnow : core.now = secondAt attempt.settled := by rw [← hclock]; rfl
  unfold Attempt.settle
  cases attempt.harvested with
  | true =>
      simp only [if_true]
      unfold Process.record
      dsimp only
      rw [hnow]
      rfl
  | false => rfl

theorem not_uses_aside {id thread : Str} {asides : List Aside} :
    ¬ ∃ call ∈ asides.map Aside.call, call.Uses id thread := by
  rintro ⟨call, hmem, hevent, -⟩
  obtain ⟨aside, -, rfl⟩ := List.mem_map.mp hmem
  exact hevent rfl

theorem uses_append {id thread : Str} {calls more : List Call} :
    (∃ call ∈ calls ++ more, call.Uses id thread) ↔
      (∃ call ∈ calls, call.Uses id thread) ∨ ∃ call ∈ more, call.Uses id thread := by
  simp only [List.mem_append, or_and_right, exists_or]

section

variable {config : Config} {world : World} {asked : Asked} {data : Snapshot} {id thread : Str}

theorem accepted_iff {message event : Json}
    (h : completeEvent asked.channel asked.thread message = some event) :
    Accepted config asked id thread message ↔ inRange asked.oldest asked.through event = true ∧
      ∃ found ts, normalise config.decode event = some (found, ts, some thread) ∧
        found.channel = some id := by
  unfold Accepted
  rw [h]
  simp only [Option.some.injEq, exists_eq_left']

theorem accepted_of_shows {oldest through : Int} {message event : Json} {found : SlackMessageEvent}
    {ts : Str} {parent : Option Str} (h : Shows oldest through message thread)
    (hvalid : (message.get "thread_ts".toList).asStr.all validTs = true)
    (hevent : completeEvent id none message = some event)
    (hnormalise : normalise config.decode event = some (found, ts, parent))
    (hchannel : found.channel = some id) :
    Accepted config ⟨id, none, oldest, through⟩ id thread message := by
  have hfield : ∀ field, field ≠ "channel".toList → field ≠ "type".toList →
      event.get field = message.get field := fun _ => get_completeEvent hevent
  obtain ⟨hrange, shown, hts, -, hthread⟩ := h
  obtain ⟨-, hfound, -, -, -, hparent⟩ := normalise_some hnormalise
  have htsField := hfield "ts".toList (by decide) (by decide)
  rw [htsField, hts] at hfound
  cases Option.some.inj hfound
  refine ⟨event, hevent, ?_, found, ts, ?_, hchannel⟩
  · unfold inRange eventSecond at hrange ⊢
    rwa [htsField]
  · rw [hnormalise, hparent, ← hthread]
    unfold threadOf shownThread
    rw [hfield "thread_ts".toList (by decide) (by decide),
      hfield "reply_count".toList (by decide) (by decide)]
    generalize (message.get "thread_ts".toList).asStr = named at hvalid ⊢
    cases named with
    | none => rfl
    | some named => rw [Option.filter_some, if_pos (by simpa using hvalid)]

theorem processEvent_uses (attempt : Attempt) (event : Json) :
    (∃ call ∈ (processEvent config attempt data event).1, call.Uses id thread) ↔
      validTs thread = true ∧ ∃ found ts, normalise config.decode event = some (found, ts, some thread) ∧
        found.channel = some id := by
  unfold processEvent
  cases hnormalise : normalise config.decode event with
  | none => simp
  | some result =>
      obtain ⟨message, ts, parent⟩ := result
      dsimp only
      cases hchannel : message.channel with
      | none => simp [hchannel]
      | some channel =>
          have haccepted : (validTs thread = true ∧ ∃ found found_ts,
              some (message, ts, parent) = some (found, found_ts, some thread) ∧
                found.channel = some id) ↔ parent.bind (validThread channel) = some (id, thread) := by
            rw [Option.bind_eq_some_iff]
            simp only [validThread_eq_some, Option.some.injEq, Prod.mk.injEq]
            constructor
            · rintro ⟨hvalid, _, _, ⟨rfl, rfl, rfl⟩, hfound⟩
              cases Option.some.inj (hchannel.symm.trans hfound)
              exact ⟨thread, rfl, hvalid, rfl, rfl⟩
            · rintro ⟨_, rfl, hvalid, rfl, rfl⟩
              exact ⟨hvalid, message, ts, ⟨rfl, rfl, rfl⟩, hchannel⟩
          rw [haccepted]
          dsimp only
          have hfirst : (∃ call ∈ attempt.remember event channel parent, call.Uses id thread) ↔
              parent.bind (validThread channel) = some (id, thread) := by
            cases parent <;> simp [Attempt.remember, Call.Uses, Operation.noted]
          split
          · exact hfirst
          · split
            · exact hfirst
            · rw [uses_append, uses_append, hfirst]
              refine ⟨?_, fun h => .inl (.inl h)⟩
              rintro ((h | h) | ⟨call, hmem, -, hnoted⟩)
              · exact h
              · exact absurd h not_uses_aside
              · rw [List.mem_singleton.mp hmem, Attempt.settle] at hnoted
                split at hnoted
                · exact hnoted
                · contradiction

theorem scanMessages_uses {page position : Nat} {messages : List Json}
    (h : (scanMessages config world asked page position messages data).2 = .ok ()) :
    (∃ call ∈ (scanMessages config world asked page position messages data).1, call.Uses id thread) ↔
      validTs thread = true ∧ ∃ message ∈ messages, Accepted config asked id thread message := by
  fun_induction scanMessages config world asked page position messages data with
  | case1 => simp
  | case2 => contradiction
  | case3 position message rest data event hevent hrange attempt before processed calls hprocessed
      scanned ih =>
      have hprocess : (∃ call ∈ processed.1, call.Uses id thread) ↔ _ := processEvent_uses attempt event
      have hbefore : ¬ ∃ call ∈ before, call.Uses id thread := not_uses_aside
      rw [uses_append, ih h, uses_append, or_iff_right hbefore, hprocess, List.exists_mem_cons_iff,
        accepted_iff hevent, and_iff_right hrange, and_or_left]
  | case4 => contradiction
  | case5 position message rest data event hevent hrange ih =>
      rw [ih h, List.exists_mem_cons_iff, accepted_iff hevent,
        or_iff_right fun haccepted => hrange haccepted.1]

theorem scanMessages_error {page position : Nat} {messages : List Json} {error : ApiError}
    (h : (scanMessages config world asked page position messages data).2 = .error error) :
    error = .other := by
  fun_induction scanMessages config world asked page position messages data with
  | case1 => contradiction
  | case2 => exact (Except.error.inj h).symm
  | case3 position message rest data event hevent hrange attempt before processed calls hprocessed
      scanned ih => exact ih h
  | case4 => exact (Except.error.inj h).symm
  | case5 position message rest data event hevent hrange ih => exact ih h

theorem nextCursor_error {response : Json} {error : ApiError} (h : nextCursor response = .error error) :
    error = .other := by
  unfold nextCursor at h
  dsimp only at h
  split at h
  · exact (Except.error.inj h).symm
  · split at h
    · exact (Except.error.inj h).symm
    · contradiction

variable {pages page : Nat} {cursor : Str} {cursors : List Str}

theorem recoverPages_served (position : Nat) (served : Served)
    (h : (recoverPages config world asked pages page cursor cursors data).served[position]? = some served) :
    world.answer asked.thread (page + position) = .ok served.response := by
  fun_induction recoverPages config world asked pages page cursor cursors data generalizing position with
  | case1 | case2 | case3 | case4 => simp at h
  | case5 pages page cursor cursors data waited response hanswer
  | case6 pages page cursor cursors data waited response hanswer
  | case7 pages page cursor cursors data waited response hanswer
  | case8 pages page cursor cursors data waited response hanswer =>
      cases position with
      | zero => exact Option.some.inj h ▸ hanswer
      | succ position => simp at h
  | case9 pages page cursor cursors data waited response hanswer messages hmessages hfew scanned calls
      next hnext hscanned hmore hnew rest ih =>
      cases position with
      | zero => exact Option.some.inj h ▸ hanswer
      | succ position =>
          have hlater := ih position h
          rwa [Nat.add_assoc, Nat.add_comm 1 position] at hlater

theorem recoverPages_error {method code : Str}
    (h : (recoverPages config world asked pages page cursor cursors data).result =
      .error (.request method code)) :
    world.answer asked.thread
      (page + (recoverPages config world asked pages page cursor cursors data).served.length) =
        .error (.request method code) := by
  fun_induction recoverPages config world asked pages page cursor cursors data with
  | case2 pages page cursor cursors data waited error hanswer => exact Except.error.inj h ▸ hanswer
  | case5 pages page cursor cursors data waited response hanswer messages hmessages hfew scanned calls
      error hscanned =>
      cases scanMessages_error hscanned
      cases h
  | case6 pages page cursor cursors data waited response hanswer messages hmessages hfew scanned calls
      error hnext =>
      cases nextCursor_error hnext
      cases h
  | case9 pages page cursor cursors data waited response hanswer messages hmessages hfew scanned calls
      next hnext hscanned hmore hnew rest ih =>
      have hlater := ih h
      rwa [Nat.add_assoc, Nat.add_comm 1] at hlater
  | case1 | case3 | case4 | case7 | case8 => cases h

theorem recoverPages_ok
    (h : (recoverPages config world asked pages page cursor cursors data).result = .ok ()) :
    (recoverPages config world asked pages page cursor cursors data).served ≠ [] ∧
      Followed cursor (recoverPages config world asked pages page cursor cursors data).served [] := by
  fun_induction recoverPages config world asked pages page cursor cursors data with
  | case7 pages page cursor cursors data waited response hanswer messages hmessages hfew scanned calls
      hscanned hnext =>
      exact ⟨List.cons_ne_nil _ _, rfl, [], hnext, fun hne => absurd rfl hne, rfl⟩
  | case9 pages page cursor cursors data waited response hanswer messages hmessages hfew scanned calls
      next hnext hscanned hmore hnew rest ih =>
      exact ⟨List.cons_ne_nil _ _, rfl, next, hnext, fun _ => hmore, (ih h).2⟩
  | _ => contradiction

theorem recoverPages_uses
    (h : (recoverPages config world asked pages page cursor cursors data).result = .ok ()) :
    (∃ call ∈ (recoverPages config world asked pages page cursor cursors data).calls,
        call.Uses id thread) ↔ validTs thread = true ∧
      ∃ served ∈ (recoverPages config world asked pages page cursor cursors data).served,
        ∃ message ∈ pageMessages served.response, Accepted config asked id thread message := by
  fun_induction recoverPages config world asked pages page cursor cursors data with
  | case7 pages page cursor cursors data waited response hanswer messages hmessages hfew scanned calls
      hscanned hnext =>
      have hwaited : ¬ ∃ call ∈ waited, call.Uses id thread := not_uses_aside
      have hpage : pageMessages response = messages := by rw [pageMessages, hmessages, Option.getD_some]
      rw [uses_append, or_iff_right hwaited, scanMessages_uses hscanned]
      simp [hpage]
  | case9 pages page cursor cursors data waited response hanswer messages hmessages hfew scanned calls
      next hnext hscanned hmore hnew rest ih =>
      have hwaited : ¬ ∃ call ∈ waited, call.Uses id thread := not_uses_aside
      rw [uses_append, uses_append, or_iff_right hwaited, scanMessages_uses hscanned, ih h,
        List.exists_mem_cons_iff, and_or_left, pageMessages, hmessages, Option.getD_some]
  | _ => contradiction

variable {threads : List Str}

theorem closed_cons {first : Str} {rest : List Str} {request : Request} {done : List Request}
    (hclosed : Closed world first request)
    (hrest : thread ∈ rest ↔ ∃ request ∈ done, Closed world thread request) :
    thread ∈ first :: rest ↔ ∃ other ∈ request :: done, Closed world thread other := by
  rw [List.mem_cons, hrest, List.exists_mem_cons_iff]
  refine or_congr_left ⟨fun heq => heq ▸ hclosed, fun hother => ?_⟩
  exact Option.some.inj (hother.asked.symm.trans hclosed.asked)

theorem recoverPages_answers {position : Nat} {served : Served}
    (h : (recoverPages config world asked pages 0 cursor cursors data).served[position]? = some served) :
    world.answer asked.thread position = .ok served.response := by
  have hanswer := recoverPages_served position served h
  rwa [Nat.zero_add] at hanswer

theorem recoverThreads_ok (h : (recoverThreads config world asked threads data).result = .ok ()) :
    thread ∈ threads ↔
      ∃ request ∈ (recoverThreads config world asked threads data).done, Closed world thread request := by
  fun_induction recoverThreads config world asked threads data with
  | case1 => simp
  | case2 first rest data paged after hresult later ih =>
      obtain ⟨hsome, hfollowed⟩ := recoverPages_ok hresult
      exact closed_cons ⟨rfl, fun _ _ => recoverPages_answers, .inl ⟨rfl, hsome, hfollowed⟩⟩ (ih h)
  | case3 first rest data paged after method later hresult ih =>
      have hanswer := recoverPages_error hresult
      rw [Nat.zero_add] at hanswer
      exact closed_cons ⟨rfl, fun _ _ => recoverPages_answers, .inr ⟨method, rfl, hanswer⟩⟩ (ih h)
  | case4 => cases h
  | case5 => cases h

theorem follows_iff_tracked {oldest through : Int}
    (h : (recoverChannel config world id oldest through data).result = .ok ()) :
    (∃ request ∈ (recoverChannel config world id oldest through data).done, Closed world thread request) ↔
      thread ∈ (replay config.window (recoverChannel config world id oldest through data).learning
        data).threads id := by
  unfold recoverChannel at h ⊢
  dsimp only at h ⊢
  split at h
  · cases h
  · exact (recoverThreads_ok h).symm

theorem recoverChannel_uses {oldest through : Int}
    (h : (recoverChannel config world id oldest through data).result = .ok ()) :
    (∃ call ∈ (recoverChannel config world id oldest through data).learning, call.Uses id thread) ↔
      validTs thread = true ∧ ∃ page ∈ (recoverChannel config world id oldest through data).history,
        ∃ message ∈ pageMessages page.response,
          Accepted config ⟨id, none, oldest, through⟩ id thread message := by
  unfold recoverChannel at h ⊢
  dsimp only at h ⊢
  split at h
  · cases h
  · rename_i hresult
    exact recoverPages_uses hresult

end

/-- A pass of the recovery follows the threads that its history shows exactly if the last use of
each is not followed by a prune for a time more than the window after it. The pass itself uses
those that accepted messages name. -/
theorem recoverChannel_follows_iff (config : Config) (world : World) (id : Str) (oldest through : Int)
    (data : Snapshot) (hok : (recoverChannel config world id oldest through data).result = .ok ())
    (hroom : ∀ made, made <+: (recoverChannel config world id oldest through data).learning →
      Snapshot.threadCount (replay config.window made data).channels < MAX_THREADS) :
    let pass := recoverChannel config world id oldest through data
    ((∀ page ∈ pass.history, ∀ message ∈ pageMessages page.response, ∀ thread,
        Shows oldest through message thread → ∃ request ∈ pass.done, Closed world thread request) ↔
      ∀ page ∈ pass.history, ∀ message ∈ pageMessages page.response, ∀ thread,
        Shows oldest through message thread →
          ∃ used, Tracked config.window data id thread used pass.learning) ∧
    ∀ thread, (∃ call ∈ pass.learning, call.Uses id thread) ↔ validTs thread = true ∧
      ∃ page ∈ pass.history, ∃ message ∈ pageMessages page.response,
        Accepted config ⟨id, none, oldest, through⟩ id thread message := by
  intro pass
  have hfollows : ∀ thread, (∃ request ∈ pass.done, Closed world thread request) ↔
      ∃ used, Tracked config.window data id thread used pass.learning := fun thread => by
    rw [follows_iff_tracked hok, Snapshot.mem_threads]
    exact exists_congr fun used => used_replay hroom
  refine ⟨?_, fun thread => recoverChannel_uses hok⟩
  simp only [hfollows]

def sampleParent (fields : List (Str × Json)) : Json :=
  .obj ([("type".toList, .str "message".toList), ("ts".toList, .str "1000000000.000001".toList),
    ("text".toList, .str "text".toList), ("user".toList, .str "U2".toList),
    ("reply_count".toList, .unsigned 1)] ++ fields)

/-- What is left of a parent that was deleted. -/
def sampleTombstone : Json :=
  sampleParent [("subtype".toList, .str "tombstone".toList), ("hidden".toList, .bool true)]

def sampleWorld (parent : Json) : World where
  waiting _ _ := []
  answer
    | none, 0 | some _, 0 => .ok (Session.sampleHistory [parent])
    | _, _ => .error .other
  attempt _ _ _ := ⟨[], 1000000060 * SECOND, [], true, 1000000060 * SECOND⟩

def sampleTracking : Snapshot :=
  { Snapshot.fresh "T1".toList "U1".toList with
    channels := SortedMap.empty.insert "C1".toList ⟨1000000000, .empty, true, false⟩ }

def sampleRecovered (parent : Json) : Recovered :=
  recoverChannel Session.sampleConfig (sampleWorld parent) "C1".toList 999999880 1000000060
    sampleTracking

theorem sampleTombstone_shows :
    Shows 999999880 1000000060 sampleTombstone "1000000000.000001".toList :=
  ⟨by decide, _, rfl, by decide, by decide⟩

theorem tombstone_not_followed :
    (sampleRecovered sampleTombstone).result = .ok () ∧
      (∀ made, made <+: (sampleRecovered sampleTombstone).learning →
        Snapshot.threadCount (replay Session.sampleConfig.window made sampleTracking).channels <
          MAX_THREADS) ∧
      ¬ ∀ page ∈ (sampleRecovered sampleTombstone).history,
        ∀ message ∈ pageMessages page.response, ∀ thread,
          Shows 999999880 1000000060 message thread →
            ∃ request ∈ (sampleRecovered sampleTombstone).done,
              Closed (sampleWorld sampleTombstone) thread request := by
  have hlearning : (sampleRecovered sampleTombstone).learning = [] := rfl
  have hdone : (sampleRecovered sampleTombstone).done = [] := rfl
  have hhistory : (sampleRecovered sampleTombstone).history =
      [⟨[], Session.sampleHistory [sampleTombstone]⟩] := rfl
  refine ⟨rfl, fun made hmade => ?_, fun hfollows => ?_⟩
  · rw [hlearning] at hmade
    rw [List.prefix_nil.mp hmade]
    decide
  · rw [hhistory, hdone] at hfollows
    obtain ⟨request, hmem, -⟩ := hfollows _ (List.mem_singleton.mpr rfl) sampleTombstone
      (List.mem_singleton.mpr rfl) _ sampleTombstone_shows
    exact absurd hmem List.not_mem_nil

theorem recoverChannel_follows_iff_sample :
    ∃ request ∈ (sampleRecovered (sampleParent [])).done,
      Closed (sampleWorld (sampleParent [])) "1000000000.000001".toList request := by
  have hhistory : (sampleRecovered (sampleParent [])).history =
      [⟨[], Session.sampleHistory [sampleParent []]⟩] := rfl
  have hinits : ∀ made ∈ (sampleRecovered (sampleParent [])).learning.inits,
      Snapshot.threadCount (replay Session.sampleConfig.window made sampleTracking).channels <
        MAX_THREADS := by decide
  have hroom := fun made hmade => hinits made ((List.mem_inits _ _).mpr hmade)
  obtain ⟨hiff, -⟩ := recoverChannel_follows_iff Session.sampleConfig (sampleWorld (sampleParent []))
    "C1".toList 999999880 1000000060 sampleTracking rfl hroom
  have hfollows := hiff.mpr fun page hpage message hmessage thread hshows => by
    rw [show page = _ from List.mem_singleton.mp (hhistory ▸ hpage)] at hmessage
    cases List.mem_singleton.mp hmessage
    obtain ⟨-, ts, hts, -, hthread⟩ := hshows
    cases Option.some.inj hts
    cases Option.some.inj hthread
    exact ⟨1000000060, (used_replay hroom).mp (by decide)⟩
  exact hfollows _ (hhistory ▸ List.mem_singleton.mpr rfl) (sampleParent [])
    (List.mem_singleton.mpr rfl) _ ⟨by decide, _, rfl, by decide, by decide⟩

end SjmbSlack.UserSession
