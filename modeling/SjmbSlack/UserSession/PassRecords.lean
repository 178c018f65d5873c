import SjmbSlack.UserSession.Recovering

/-! What a step of a connection does to the record of its passes: the messages that
`process` returned `Ok` for and the requests that came to their end. -/
namespace SjmbSlack.UserSession.Session
open Machine Api Slackbot

structure Record where
  channel : Str
  oldest : Int
  known : Nat
  handled : List Json
  done : List Request

def Paging.record (paging : Paging) : Record :=
  ⟨paging.channel, paging.oldest, paging.known, paging.handled, paging.done⟩

def Connection.passes (conn : Connection) : List Paging :=
  conn.recovery.paging?.toList ++ conn.finished

inductive PassStep (s : State) (conn : Connection) (a : Action) (t : State) : Record → Prop where
  | kept (paging : Paging) (hmem : paging ∈ conn.passes) : PassStep s conn a t paging.record
  | handled (paging : Paging) (hmem : paging ∈ conn.passes) (event : Json)
      (hreturned : event ∈ t.core.returned) :
      PassStep s conn a t { paging.record with handled := paging.handled ++ [event] }
  | thread (paging : Paging) (hmem : paging ∈ conn.passes) (request : Request)
      (hthread : request.thread ≠ none) :
      PassStep s conn a t { paging.record with done := paging.done ++ [request] }
  | history (paging : Paging) (hmem : paging ∈ conn.passes) (response : Json) (ha : a = .scan)
      (hrecovery : conn.recovery = .scanning paging [] response) (hthread : paging.thread = none)
      (hlast : nextCursor response = .ok []) :
      PassStep s conn a t { paging.record with done := paging.done ++ [⟨none, paging.served, none⟩] }
  | chosen (channels : List (Str × Channel)) (hrecovery : conn.recovery = .choosing channels)
      (channel : Str) (oldest : Int) : PassStep s conn a t ⟨channel, oldest, s.posted.length, [], []⟩

def Records (meets : Record → Prop) (s : State) : Prop :=
  ∀ conn, s.connection = some conn → ∀ paging ∈ conn.passes, meets paging.record

section

variable {config : Config} {s t : State} {conn : Connection} {paging : Paging}
  {meets : Record → Prop}

theorem records_disconnect (s : State) : Records meets s.disconnect := fun _ h => by cases h

theorem records_withRecovery (hfinished : ∀ paging ∈ conn.finished, meets paging.record)
    {recovery : Recovery} (h : ∀ paging, recovery.paging? = some paging → meets paging.record) :
    Records meets (s.withRecovery conn recovery) := by
  intro after hafter paging hmem
  cases Option.some.inj hafter
  rcases List.mem_append.mp hmem with hmem | hmem
  · exact h paging (Option.mem_toList.mp hmem)
  · exact hfinished paging hmem

theorem records_idle (hfinished : ∀ paging ∈ conn.finished, meets paging.record)
    {recovery : Recovery} (h : recovery.paging? = none) :
    Records meets (s.withRecovery conn recovery) :=
  records_withRecovery hfinished fun _ hpaging => by rw [h] at hpaging; contradiction

theorem records_paging (hfinished : ∀ paging ∈ conn.finished, meets paging.record)
    {recovery : Recovery} {after : Paging} (h : recovery.paging? = some after)
    (hafter : meets after.record) : Records meets (s.withRecovery conn recovery) :=
  records_withRecovery hfinished fun _ hpaging => by
    cases Option.some.inj (h.symm.trans hpaging)
    exact hafter

theorem records_passFailed (hfinished : ∀ paging ∈ conn.finished, meets paging.record)
    (rest : List (Str × Channel)) (error : ApiError) :
    Records meets (passFailed s conn rest error) := by
  unfold passFailed
  split
  · exact records_disconnect s
  · split <;> exact records_idle hfinished rfl

theorem records_request (hfinished : ∀ paging ∈ conn.finished, meets paging.record)
    (hpaging : meets paging.record) : Records meets (request s conn paging) := by
  unfold request
  split
  · exact records_passFailed hfinished _ _
  · exact records_paging hfinished rfl hpaging

theorem records_nextThread (hfinished : ∀ paging ∈ conn.finished, meets paging.record)
    (hpaging : meets paging.record) : Records meets (nextThread config s conn paging) := by
  unfold nextThread
  split
  · refine records_idle (fun other hmem => ?_) rfl
    rcases List.mem_cons.mp hmem with rfl | hmem
    · exact hpaging
    · exact hfinished other hmem
  · exact records_request hfinished hpaging

theorem records_requestDone (hfinished : ∀ paging ∈ conn.finished, meets paging.record)
    (hdone : meets { paging.record with
      done := paging.done ++ [⟨paging.thread, paging.served, none⟩] }) :
    Records meets (requestDone config s conn paging) := by
  unfold requestDone
  dsimp only
  split <;> exact records_nextThread hfinished hdone

theorem records_requestFailed (hfinished : ∀ paging ∈ conn.finished, meets paging.record)
    (hgone : ∀ request : Request, request.thread ≠ none →
      meets { paging.record with done := paging.done ++ [request] }) (error : ApiError) :
    Records meets (requestFailed config s conn paging error) := by
  unfold requestFailed
  split
  · split
    · exact records_nextThread hfinished (hgone _ (by simp))
    · exact records_passFailed hfinished _ _
  · exact records_passFailed hfinished _ _

theorem records_page (hfinished : ∀ paging ∈ conn.finished, meets paging.record)
    (hpaging : meets paging.record)
    (hgone : ∀ request : Request, request.thread ≠ none →
      meets { paging.record with done := paging.done ++ [request] })
    (response : Except ApiError Json) : Records meets (page config s conn paging response) := by
  unfold page
  split
  · exact records_requestFailed hfinished hgone _
  · split
    · exact records_requestFailed hfinished hgone _
    · split
      · exact records_requestFailed hfinished hgone _
      · exact records_paging hfinished rfl hpaging

theorem records_scan (hfinished : ∀ paging ∈ conn.finished, meets paging.record)
    (hpaging : meets paging.record)
    (hgone : ∀ request : Request, request.thread ≠ none →
      meets { paging.record with done := paging.done ++ [request] })
    {response : Json} {events : List Json}
    (hdone : events = [] → nextCursor response = .ok [] → meets { paging.record with
      done := paging.done ++ [⟨paging.thread, paging.served, none⟩] }) :
    Records meets (scan config s conn paging response events) := by
  unfold scan
  split
  · split
    · exact records_requestFailed hfinished hgone _
    · split <;> exact records_paging hfinished rfl hpaging
  · split
    · exact records_requestFailed hfinished hgone _
    · rename_i cursor hcursor
      split
      · rename_i hempty
        exact records_requestDone hfinished (hdone rfl (hempty ▸ hcursor))
      · split
        · exact records_requestFailed hfinished hgone _
        · exact records_request hfinished hpaging

theorem records_choose (hfinished : ∀ paging ∈ conn.finished, meets paging.record)
    (hchosen : ∀ channel oldest, meets ⟨channel, oldest, s.posted.length, [], []⟩)
    (channels : List (Str × Channel)) : Records meets (choose config s conn channels) := by
  unfold choose
  split
  · exact records_idle hfinished rfl
  · split
    · exact records_idle hfinished rfl
    · exact records_request hfinished (hchosen _ _)

theorem mem_finished (h : paging ∈ conn.finished) : paging ∈ conn.passes :=
  List.mem_append_right _ h

theorem mem_current (h : conn.recovery.paging? = some paging) : paging ∈ conn.passes :=
  List.mem_append_left _ (Option.mem_toList.mpr h)

theorem passes_recovery {step : Turn} (hs : turn config s conn .recovery step = some t) :
    Records (PassStep s conn (.turn .recovery step) t) t := by
  obtain ⟨paging, events, response, call, core, outcome, hrecovery, hstep, -⟩ := proceeds_turn hs
  have hmem : paging ∈ conn.passes := mem_current (by rw [hrecovery]; rfl)
  unfold turn at hs
  simp only [hrecovery, hstep, Option.map_some, Option.some.injEq] at hs
  subst hs
  have hfinished : ∀ {t} (paging : Paging), paging ∈ conn.finished →
      PassStep s conn (.turn .recovery step) t paging.record := fun paging hmem =>
    .kept paging (mem_finished hmem)
  split
  · exact records_paging hfinished rfl (.kept paging hmem)
  · exact records_paging hfinished rfl (.handled paging hmem _ (turned hstep).returned)
  · exact records_requestFailed hfinished (fun request hthread => .thread paging hmem request hthread) _

/-- The record of each pass is that of a pass before, with what the step adds to it,
or that of a channel just chosen. -/
theorem passes_connected {a : Action} (hs : stepConnected config s conn a = some t) :
    Records (PassStep s conn a t) t := by
  have hfinished : ∀ paging ∈ conn.finished, PassStep s conn a t paging.record := fun paging hmem =>
    .kept paging (mem_finished hmem)
  have hsame : ∀ {after : Connection}, after.recovery = conn.recovery →
      after.finished = conn.finished → ∀ paging ∈ after.passes, PassStep s conn a t paging.record := by
    intro after hrecovery hlist paging hmem
    unfold Connection.passes at hmem
    rw [hrecovery, hlist] at hmem
    exact .kept paging hmem
  cases ha : a.recovers with
  | false =>
      by_cases hstart : a.discovers = true ∧ conn.stage = .discovering
      · obtain ⟨hdiscovers, hstage⟩ := hstart
        unfold Action.discovers at hdiscovers
        split at hdiscovers
        · rcases started hstage hs with rfl | ⟨ids, -, -, rfl⟩
          · exact records_disconnect s
          · intro after hafter
            rw [start_connection hafter]
            exact hsame rfl rfl
        · contradiction
      · intro after hafter
        have hkeeps := kept_connected hs ha (fun hdiscovers hstage => hstart ⟨hdiscovers, hstage⟩)
          after hafter
        exact hsame hkeeps.recovery hkeeps.finished
  | true =>
      unfold Action.recovers at ha
      split at ha
      · exact passes_recovery hs
      · simp only [stepConnected] at hs
        split at hs
        · split at hs
          · cases Option.some.inj hs
            refine records_idle ?_ rfl
            exact hfinished
          · contradiction
        · contradiction
      · simp only [stepConnected] at hs
        split at hs
        · rename_i hrecovery
          cases Option.some.inj hs
          exact records_choose hfinished (.chosen _ hrecovery) _
        · contradiction
      · simp only [stepConnected] at hs
        split at hs
        · rename_i paging hrecovery
          have hmem : paging ∈ conn.passes := mem_current (by rw [hrecovery]; rfl)
          cases Option.some.inj hs
          exact records_page hfinished (.kept paging hmem)
            (fun request hthread => .thread paging hmem request hthread) _
        · contradiction
      · simp only [stepConnected] at hs
        split at hs
        · rename_i paging events response hrecovery
          have hmem : paging ∈ conn.passes := mem_current (by rw [hrecovery]; rfl)
          cases Option.some.inj hs
          refine records_scan hfinished (.kept paging hmem)
            (fun request hthread => .thread paging hmem request hthread) fun hevents hlast => ?_
          subst hevents
          cases hthread : paging.thread with
          | none => exact .history paging hmem response rfl hrecovery hthread hlast
          | some thread => exact .thread paging hmem _ (by simp)
        · contradiction
      · obtain ⟨-, rfl | ⟨snapshot, rfl⟩⟩ := save_cases hs
        · exact records_disconnect s
        · refine records_idle ?_ rfl
          exact hfinished
      · contradiction

end

end SjmbSlack.UserSession.Session
