import SjmbSlack.UserSession.Steps

/-! What a pass of `recover_channel` has seen: pages followed cursor by cursor,
and the messages of each handed to `process`. -/
namespace SjmbSlack.UserSession.Session
open Machine Api Slackbot

def pageMessages (response : Json) : List Json :=
  ((response.get "messages".toList).asArray).getD []

/-- The pages of a request from a cursor on, with the cursor after them. -/
def Followed (cursor : Str) : List Served → Str → Prop
  | [], next => next = cursor
  | page :: rest, next => page.cursor = cursor ∧ ∃ later, nextCursor page.response = .ok later ∧
      (rest ≠ [] → later ≠ []) ∧ Followed later rest next

theorem Followed.append {cursor last next : Str} {pages : List Served} {page : Served}
    (h : Followed cursor pages last) (hpage : page.cursor = last)
    (hnext : nextCursor page.response = .ok next) (hlast : pages ≠ [] → last ≠ []) :
    Followed cursor (pages ++ [page]) next := by
  induction pages generalizing cursor with
  | nil =>
      rw [show last = cursor from h] at hpage
      exact ⟨hpage, next, hnext, fun hne => absurd rfl hne, rfl⟩
  | cons first rest ih =>
      obtain ⟨hfirst, later, hlater, hne, hrest⟩ := h
      refine ⟨hfirst, later, hlater, fun _ => ?_, ih hrest fun _ => hlast (List.cons_ne_nil _ _)⟩
      cases rest with
      | nil =>
          rw [← show last = later from hrest]
          exact hlast (List.cons_ne_nil _ _)
      | cons second rest => exact hne (List.cons_ne_nil _ _)

/-- What decides whether a pass is done with a message: its channel and range, and
the events that `process` has returned `Ok` for. -/
structure Scope where
  channel : Str
  oldest : Int
  through : Int
  handled : List Json

def Paging.scope (through : Int) (paging : Paging) : Scope :=
  ⟨paging.channel, paging.oldest, through, paging.handled⟩

def Scanned (scope : Scope) (thread : Option Str) (messages : List Json) : Prop :=
  ∀ message ∈ messages, ∃ event, completeEvent scope.channel thread message = some event ∧
    (inRange scope.oldest scope.through event = true → event ∈ scope.handled)

/-- A request followed to a page with an empty cursor and no `has_more`. -/
structure Completed (scope : Scope) (request : Request) : Prop where
  nonempty : request.pages ≠ []
  followed : Followed [] request.pages []
  scanned : ∀ page ∈ request.pages, Scanned scope request.thread (pageMessages page.response)

/-- A request of a pass was completed, or it was answered that its thread no longer exists. -/
def Ended (scope : Scope) (request : Request) : Prop :=
  request.error = none ∧ Completed scope request ∨
    request.thread ≠ none ∧ ∃ method, request.error = some (.request method "thread_not_found".toList)

/-- A complete pass: the history, then each thread tracked after it. -/
structure Passed (began : Int) (paging : Paging) : Prop where
  requests : paging.done.map Request.thread = none :: paging.tracked.map some
  ended : ∀ request ∈ paging.done, Ended (paging.scope began) request

structure Underway (began : Int) (paging : Paging) : Prop where
  ended : ∀ request ∈ paging.done, Ended (paging.scope began) request
  first : paging.thread = none → paging.done = []
  later : ∀ thread, paging.thread = some thread →
    paging.done.map Request.thread ++ some thread :: paging.threads.map some =
      none :: paging.tracked.map some

structure Fetching (began : Int) (paging : Paging) (pages : List Served) : Prop where
  followed : Followed [] pages paging.cursor
  cursor : pages ≠ [] → paging.cursor ≠ []
  scanned : ∀ page ∈ pages, Scanned (paging.scope began) paging.thread (pageMessages page.response)

structure Scanning (began : Int) (paging : Paging) (response : Json) (rest : List Json) : Prop where
  split : ∃ pages messages, paging.served = pages ++ [⟨paging.cursor, response⟩] ∧
    Fetching began paging pages ∧ pageMessages response = messages ++ rest ∧
    Scanned (paging.scope began) paging.thread messages

def RecoveryInv (began : Int) : Recovery → Prop
  | .requesting paging => Underway began paging ∧ Fetching began paging paging.served
  | .scanning paging events response =>
      Underway began paging ∧ Scanning began paging response events
  | .processing paging events response call =>
      Underway began paging ∧ inRange paging.oldest began call.event = true ∧
        ∃ message, Scanning began paging response (message :: events) ∧
          completeEvent paging.channel paging.thread message = some call.event
  | _ => True

structure PassInv (conn : Connection) : Prop where
  finished : ∀ paging ∈ conn.finished, Passed conn.began paging
  recovery : RecoveryInv conn.began conn.recovery

def Passing (s : State) : Prop := ∀ conn, s.connection = some conn → PassInv conn

theorem Scanned.mono {scope : Scope} {thread : Option Str} {messages handled : List Json}
    (h : Scanned scope thread messages) (hhandled : scope.handled ⊆ handled) :
    Scanned { scope with handled := handled } thread messages := by
  intro message hmem
  obtain ⟨event, hevent, hin⟩ := h message hmem
  exact ⟨event, hevent, fun hrange => hhandled (hin hrange)⟩

theorem Ended.mono {scope : Scope} {request : Request} {handled : List Json}
    (h : Ended scope request) (hhandled : scope.handled ⊆ handled) :
    Ended { scope with handled := handled } request :=
  h.imp_left fun ⟨herror, hcompleted⟩ => ⟨herror, hcompleted.nonempty, hcompleted.followed,
    fun page hmem => (hcompleted.scanned page hmem).mono hhandled⟩

section

variable {config : Config} {s : State} {conn : Connection} {paging : Paging}

theorem passing_disconnect (s : State) : Passing s.disconnect := fun _ h => by cases h

theorem passing_withRecovery (hfinished : ∀ paging ∈ conn.finished, Passed conn.began paging)
    {recovery : Recovery} (h : RecoveryInv conn.began recovery) :
    Passing (s.withRecovery conn recovery) := by
  intro after hafter
  cases Option.some.inj hafter
  exact ⟨hfinished, h⟩

theorem passing_passFailed (hfinished : ∀ paging ∈ conn.finished, Passed conn.began paging)
    (rest : List (Str × Channel)) (error : ApiError) : Passing (passFailed s conn rest error) := by
  unfold passFailed
  split
  · exact passing_disconnect s
  · split <;> exact passing_withRecovery hfinished trivial

theorem passing_request (hfinished : ∀ paging ∈ conn.finished, Passed conn.began paging)
    (hunderway : Underway conn.began paging) (hfetching : Fetching conn.began paging paging.served) :
    Passing (request s conn paging) := by
  unfold request
  split
  · exact passing_passFailed hfinished _ _
  · refine passing_withRecovery hfinished ⟨⟨hunderway.ended, hunderway.first, hunderway.later⟩, ?_⟩
    exact ⟨hfetching.followed, hfetching.cursor, hfetching.scanned⟩

theorem passing_nextThread (hfinished : ∀ paging ∈ conn.finished, Passed conn.began paging)
    (hended : ∀ request ∈ paging.done, Ended (paging.scope conn.began) request)
    (hrequests : paging.done.map Request.thread ++ paging.threads.map some =
      none :: paging.tracked.map some) : Passing (nextThread config s conn paging) := by
  unfold nextThread
  split
  · rename_i hthreads
    rw [hthreads, List.map_nil, List.append_nil] at hrequests
    intro after hafter
    cases Option.some.inj hafter
    refine ⟨fun other hmem => ?_, trivial⟩
    rcases List.mem_cons.mp hmem with rfl | hmem
    · exact ⟨hrequests, hended⟩
    · exact hfinished other hmem
  · rename_i thread threads hthreads
    rw [hthreads, List.map_cons] at hrequests
    refine passing_request hfinished ⟨hended, fun hnone => (nomatch hnone), fun found hfound => ?_⟩
      ⟨rfl, fun hne => absurd rfl hne, fun _ hmem => absurd hmem List.not_mem_nil⟩
    cases Option.some.inj hfound
    exact hrequests

theorem passing_requestDone (hfinished : ∀ paging ∈ conn.finished, Passed conn.began paging)
    (hunderway : Underway conn.began paging)
    (hcompleted : Completed (paging.scope conn.began) ⟨paging.thread, paging.served, none⟩) :
    Passing (requestDone config s conn paging) := by
  have hended : ∀ request ∈ paging.done ++ [⟨paging.thread, paging.served, none⟩],
      Ended (paging.scope conn.began) request := by
    intro request hmem
    rcases List.mem_append.mp hmem with hmem | hmem
    · exact hunderway.ended request hmem
    · cases List.mem_singleton.mp hmem
      exact .inl ⟨rfl, hcompleted⟩
  unfold requestDone
  dsimp only
  split
  · rename_i hthread
    refine passing_nextThread hfinished hended ?_
    rw [hunderway.first hthread, hthread]
    rfl
  · rename_i thread hthread
    refine passing_nextThread hfinished hended ?_
    have hlater := hunderway.later thread hthread
    simpa [hthread] using hlater

theorem passing_requestFailed (hfinished : ∀ paging ∈ conn.finished, Passed conn.began paging)
    (hunderway : Underway conn.began paging) (error : ApiError) :
    Passing (requestFailed config s conn paging error) := by
  unfold requestFailed
  split
  · rename_i thread method code hthread
    split
    · rename_i hcode
      refine passing_nextThread hfinished (fun request hmem => ?_) ?_
      · rcases List.mem_append.mp hmem with hmem | hmem
        · exact hunderway.ended request hmem
        · cases List.mem_singleton.mp hmem
          exact .inr ⟨by simp, method, by rw [hcode]⟩
      · simpa using hunderway.later thread hthread
    · exact passing_passFailed hfinished _ _
  · exact passing_passFailed hfinished _ _

theorem passing_page (hfinished : ∀ paging ∈ conn.finished, Passed conn.began paging)
    (hunderway : Underway conn.began paging) (hfetching : Fetching conn.began paging paging.served)
    (response : Except ApiError Json) : Passing (page config s conn paging response) := by
  unfold page
  split
  · exact passing_requestFailed hfinished hunderway _
  · rename_i response
    split
    · exact passing_requestFailed hfinished hunderway _
    · rename_i events hevents
      split
      · exact passing_requestFailed hfinished hunderway _
      · refine passing_withRecovery hfinished ⟨⟨hunderway.ended, hunderway.first, hunderway.later⟩,
          ⟨paging.served, [], rfl, ⟨hfetching.followed, hfetching.cursor, hfetching.scanned⟩, ?_,
            fun _ hmem => absurd hmem List.not_mem_nil⟩⟩
        rw [pageMessages, hevents]
        rfl

theorem passing_scan (hfinished : ∀ paging ∈ conn.finished, Passed conn.began paging)
    (hunderway : Underway conn.began paging) {response : Json} {events : List Json}
    (hscanning : Scanning conn.began paging response events) :
    Passing (scan config s conn paging response events) := by
  obtain ⟨pages, messages, hserved, hfetching, hsplit, hscanned⟩ := hscanning.split
  unfold scan
  split
  · rename_i message rest
    split
    · exact passing_requestFailed hfinished hunderway _
    · rename_i event hevent
      split
      · rename_i hrange
        exact passing_withRecovery hfinished ⟨hunderway, hrange, message, hscanning, hevent⟩
      · rename_i hrange
        refine passing_withRecovery hfinished ⟨hunderway, ⟨pages, messages ++ [message], hserved,
          hfetching, by simp [hsplit], fun other hmem => ?_⟩⟩
        rcases List.mem_append.mp hmem with hmem | hmem
        · exact hscanned other hmem
        · cases List.mem_singleton.mp hmem
          exact ⟨event, hevent, fun hin => absurd hin hrange⟩
  · rw [List.append_nil] at hsplit
    have hall : ∀ page ∈ paging.served,
        Scanned (paging.scope conn.began) paging.thread (pageMessages page.response) := by
      intro page hmem
      rw [hserved] at hmem
      rcases List.mem_append.mp hmem with hmem | hmem
      · exact hfetching.scanned page hmem
      · cases List.mem_singleton.mp hmem
        exact hsplit ▸ hscanned
    have hne : paging.served ≠ [] := by simp [hserved]
    split
    · exact passing_requestFailed hfinished hunderway _
    · rename_i cursor hcursor
      have hfollowed : Followed [] paging.served cursor :=
        hserved ▸ hfetching.followed.append rfl hcursor hfetching.cursor
      split
      · rename_i hempty
        exact passing_requestDone hfinished hunderway ⟨hne, hempty ▸ hfollowed, hall⟩
      · rename_i hempty
        split
        · exact passing_requestFailed hfinished hunderway _
        · exact passing_request hfinished ⟨hunderway.ended, hunderway.first, hunderway.later⟩
            ⟨hfollowed, fun _ => hempty, hall⟩

theorem passing_choose (hfinished : ∀ paging ∈ conn.finished, Passed conn.began paging)
    (channels : List (Str × Channel)) : Passing (choose config s conn channels) := by
  unfold choose
  split
  · exact passing_withRecovery hfinished trivial
  · split
    · exact passing_withRecovery hfinished trivial
    · exact passing_request hfinished
        ⟨fun _ hmem => absurd hmem List.not_mem_nil, fun _ => rfl, fun _ h => by cases h⟩
        ⟨rfl, fun hne => absurd rfl hne, fun _ hmem => absurd hmem List.not_mem_nil⟩

theorem passing_handled (hfinished : ∀ paging ∈ conn.finished, Passed conn.began paging)
    (hunderway : Underway conn.began paging) {response message event : Json} {events : List Json}
    (hscanning : Scanning conn.began paging response (message :: events))
    (hevent : completeEvent paging.channel paging.thread message = some event) :
    Passing (s.withRecovery conn
      (.scanning { paging with handled := paging.handled ++ [event] } events response)) := by
  obtain ⟨pages, messages, hserved, hfetching, hsplit, hscanned⟩ := hscanning.split
  have hmore : paging.handled ⊆ paging.handled ++ [event] := List.subset_append_left _ _
  refine passing_withRecovery hfinished ⟨⟨fun request hmem => ?_, hunderway.first, hunderway.later⟩,
    ⟨pages, messages ++ [message], hserved, ⟨hfetching.followed, hfetching.cursor, fun page hmem => ?_⟩,
      by simp [hsplit], fun other hmem => ?_⟩⟩
  · exact (hunderway.ended request hmem).mono hmore
  · exact (hfetching.scanned page hmem).mono hmore
  · rcases List.mem_append.mp hmem with hmem | hmem
    · exact hscanned.mono hmore other hmem
    · cases List.mem_singleton.mp hmem
      exact ⟨event, hevent, fun _ => List.mem_append_right _ (List.mem_singleton.mpr rfl)⟩

theorem passing_recovery {t : State} {step : Turn} (h : PassInv conn)
    (hs : turn config s conn .recovery step = some t) : Passing t := by
  unfold turn at hs
  dsimp only at hs
  split at hs
  · rename_i paging events response call hrecovery
    obtain ⟨⟨core, outcome⟩, hstep, rfl⟩ := Option.map_eq_some_iff.mp hs
    have hinv := h.recovery
    rw [hrecovery] at hinv
    obtain ⟨hunderway, hrange, message, hscanning, hevent⟩ := hinv
    dsimp only
    split
    · rename_i next
      have hsame := (turned hstep).event rfl
      exact passing_withRecovery h.finished
        ⟨hunderway, hsame ▸ hrange, message, hscanning, hsame ▸ hevent⟩
    · exact passing_handled h.finished hunderway hscanning hevent
    · exact passing_requestFailed h.finished hunderway _
  · contradiction

theorem passing_connected {t : State} {a : Action} (h : PassInv conn)
    (hs : stepConnected config s conn a = some t) : Passing t := by
  cases ha : a.recovers with
  | false =>
      by_cases hstart : a.discovers = true ∧ conn.stage = .discovering
      · obtain ⟨hdiscovers, hstage⟩ := hstart
        unfold Action.discovers at hdiscovers
        split at hdiscovers
        · rcases started hstage hs with rfl | ⟨_, -, -, rfl⟩
          · exact passing_disconnect s
          · unfold start
            dsimp only
            split
            · intro after hafter
              cases Option.some.inj hafter
              exact ⟨h.finished, h.recovery⟩
            · exact passing_disconnect _
        · contradiction
      · intro after hafter
        have hkeeps := kept_connected hs ha (fun hdiscovers hstage => hstart ⟨hdiscovers, hstage⟩)
          after hafter
        exact ⟨by rw [hkeeps.finished, hkeeps.began]; exact h.finished,
          by rw [hkeeps.recovery, hkeeps.began]; exact h.recovery⟩
  | true =>
      unfold Action.recovers at ha
      split at ha
      · exact passing_recovery h hs
      · simp only [stepConnected] at hs
        split at hs
        · split at hs
          · cases Option.some.inj hs
            intro after hafter
            cases Option.some.inj hafter
            exact ⟨h.finished, trivial⟩
          · contradiction
        · contradiction
      · simp only [stepConnected] at hs
        split at hs
        · cases Option.some.inj hs
          exact passing_choose h.finished _
        · contradiction
      · simp only [stepConnected] at hs
        split at hs
        · rename_i paging hrecovery
          have hinv := h.recovery
          rw [hrecovery] at hinv
          cases Option.some.inj hs
          exact passing_page h.finished hinv.1 hinv.2 _
        · contradiction
      · simp only [stepConnected] at hs
        split at hs
        · rename_i paging events response hrecovery
          have hinv := h.recovery
          rw [hrecovery] at hinv
          cases Option.some.inj hs
          exact passing_scan h.finished hinv.1 hinv.2
        · contradiction
      · obtain ⟨-, rfl | ⟨snapshot, rfl⟩⟩ := save_cases hs
        · exact passing_disconnect s
        · intro after hafter
          cases Option.some.inj hafter
          exact ⟨h.finished, trivial⟩
      · contradiction

end

theorem passing_step {config : Config} {s t : State} {a : Action} (h : Passing s)
    (hs : step config s a = some t) : Passing t := by
  rcases step_cases hs with haround | ⟨conn, hconn, hstep⟩
  · cases haround with
    | advance | worker | saveAfter => exact h
    | post event channel ts =>
        intro after hafter
        obtain ⟨conn, hconn, rfl⟩ := Option.map_eq_some_iff.mp hafter
        unfold posting
        split
        · exact ⟨(h conn hconn).finished, (h conn hconn).recovery⟩
        · exact h conn hconn
    | connect =>
        intro after hafter
        cases Option.some.inj hafter
        exact ⟨fun _ hmem => absurd hmem List.not_mem_nil, trivial⟩
    | stop | restart | crash => exact fun _ hafter => by cases hafter
  · exact passing_connected (h conn hconn) hstep

theorem passing_reachable {config : Config} {meets : State → Action → Prop} {s : State}
    (h : ReachableBy (machine config) meets s) : Passing s := by
  refine h.invariant (P := Passing) ?_ fun _ _ _ _ hinv _ hs => passing_step hinv hs
  rintro s ⟨team, user, clock, rfl⟩
  exact fun _ hconn => by cases hconn

end SjmbSlack.UserSession.Session
