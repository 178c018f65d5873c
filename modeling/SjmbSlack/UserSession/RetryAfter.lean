import SjmbSlack.UserSession.Api

/-! When concurrent calls honour the longest `Retry-After` together. Each 429
replaces the shared deadline by its own, so the answer depends on the order in
which overlapping calls write theirs. -/
namespace SjmbSlack.UserSession.Api
open Machine

def Refused (events : List Event) (received delay : Nat) : Prop :=
  ∀ other clock result, .checked other clock result ∈ events →
    received ≤ clock → clock < received + delay →
    ∃ remaining, 0 < remaining ∧ result = .error (.rateLimited remaining)

/-- No pause check that runs after a recorded 429 of time `t` and delay `d` and
before `t + d` lets its call send a request: each returns `RateLimited`. -/
def Honoured (log : List Event) : Prop :=
  ∀ newer older call received delay, log = newer ++ .limited call received delay :: older →
    .recorded call received delay ∈ newer → Refused newer received delay

def Phase.deadline : Phase → Nat
  | .recording received delay => received + delay
  | _ => 0

/-- No deadline is written over a later one, and no pause check that finds the
stored deadline passed runs while a call has yet to write one in the future. -/
def Ordered (s : State) : Action → Prop
  | .check _ => s.pause ≤ s.clock → ∀ phase ∈ s.calls, phase.deadline ≤ s.clock
  | .record call =>
      match s.calls[call]? with
      | some (.recording received delay) => s.pause ≤ received + delay
      | _ => True
  | _ => True

instance (s : State) (a : Action) : Decidable (Ordered s a) := by
  unfold Ordered
  split
  · infer_instance
  · split <;> infer_instance
  · infer_instance

theorem pauseCheck_before {pause clock deadline : Nat} (hpause : deadline ≤ pause)
    (hclock : clock < deadline) :
    ∃ remaining, 0 < remaining ∧ pauseCheck pause clock = .error (.rateLimited remaining) := by
  have hpos : 0 < pause - clock := by omega
  exact ⟨pause - clock, hpos, by simp [pauseCheck, Nat.ne_of_gt hpos]⟩

def Advances (before after : List Phase) : Prop :=
  ∀ call : Nat, (∀ received delay, before[call]? = some (.recording received delay) →
      after[call]? = some (.recording received delay) ∨
        ∃ result, after[call]? = some (.done result)) ∧
    ∀ result, before[call]? = some (.done result) → after[call]? = some (.done result)

theorem Advances.refl (calls : List Phase) : Advances calls calls :=
  fun _ => ⟨fun _ _ h => .inl h, fun _ h => h⟩

theorem Advances.push (calls : List Phase) (phase : Phase) :
    Advances calls (calls ++ [phase]) := by
  have hkeep : ∀ (call : Nat) (old : Phase), calls[call]? = some old →
      (calls ++ [phase])[call]? = some old := by
    intro call old h
    rw [List.getElem?_append_left (List.getElem?_eq_some_iff.mp h).1, h]
  exact fun call => ⟨fun _ _ h => .inl (hkeep _ _ h), fun _ h => hkeep _ _ h⟩

theorem Advances.set {calls : List Phase} {call : Nat} {old new : Phase}
    (hold : calls[call]? = some old) (hdone : ∀ result, old ≠ .done result)
    (hnew : old.isRecording = true → ∃ result, new = Phase.done result) :
    Advances calls (calls.set call new) := by
  have hlt := (List.getElem?_eq_some_iff.mp hold).1
  intro other
  by_cases hother : call = other
  · subst hother
    rw [List.getElem?_set_self hlt, hold]
    refine ⟨fun received delay h => .inr ?_, fun result h => absurd (Option.some.inj h) (hdone _)⟩
    cases Option.some.inj h
    obtain ⟨result, rfl⟩ := hnew rfl
    exact ⟨result, rfl⟩
  · rw [List.getElem?_set_ne hother]
    exact ⟨fun _ _ h => .inl h, fun _ h => h⟩

inductive Settled (calls : List Phase) (newer : List Event) (call received delay : Nat) : Prop where
  | recorded (h : .recorded call received delay ∈ newer)
  | waiting (h : calls[call]? = some (.recording received delay))
      (hchecks : Refused newer received delay)
  | finished (result : Except ApiError Json) (h : calls[call]? = some (.done result))

theorem Settled.later {before after : List Phase} {newer : List Event}
    {call received delay : Nat} (h : Settled before newer call received delay)
    (new : List Event) (hcalls : Advances before after)
    (hnew : .recording received delay ∈ before → Refused new received delay) :
    Settled after (new ++ newer) call received delay := by
  cases h with
  | recorded h => exact .recorded (List.mem_append_right _ h)
  | waiting h hchecks =>
      rcases (hcalls call).1 received delay h with hafter | ⟨result, hafter⟩
      · refine .waiting hafter fun other clock result hmem => ?_
        rcases List.mem_append.mp hmem with hmem | hmem
        · exact hnew (List.mem_of_getElem? h) other clock result hmem
        · exact hchecks other clock result hmem
      · exact .finished result hafter
  | finished result h => exact .finished result ((hcalls call).2 result h)

structure Inv (s : State) : Prop where
  honoured : Honoured s.log
  deadlines : ∀ call received delay, .recorded call received delay ∈ s.log →
    received + delay ≤ s.pause
  settled : ∀ newer older call received delay,
    s.log = newer ++ .limited call received delay :: older →
      Settled s.calls newer call received delay

theorem inv_initial (clock : Nat) : Inv (initial clock) where
  honoured := by intro newer older _ _ _ h; simp [initial] at h
  deadlines := by intro _ _ _ h; simp [initial] at h
  settled := by intro newer older _ _ _ h; simp [initial] at h

theorem Inv.quiet {s t : State} (h : Inv s) (hlog : t.log = s.log) (hpause : t.pause = s.pause)
    (hcalls : Advances s.calls t.calls) : Inv t where
  honoured := by rw [hlog]; exact h.honoured
  deadlines := by rw [hlog, hpause]; exact h.deadlines
  settled := by
    intro newer older call received delay heq
    rw [hlog] at heq
    exact (h.settled _ _ _ _ _ heq).later [] hcalls (by simp [Refused])

theorem Inv.logged {s t : State} {event : Event} (h : Inv s) (hlog : t.log = event :: s.log)
    (hevent : ∀ call received delay, event ≠ .limited call received delay)
    (hcalls : Advances s.calls t.calls)
    (hdeadlines : ∀ call received delay, .recorded call received delay ∈ t.log →
      received + delay ≤ t.pause)
    (hcheck : ∀ received delay, .recording received delay ∈ s.calls →
      Refused [event] received delay)
    (hhonoured : Honoured (event :: s.log)) : Inv t where
  honoured := by rw [hlog]; exact hhonoured
  deadlines := hdeadlines
  settled := by
    intro newer older call received delay heq
    rw [hlog] at heq
    cases newer with
    | nil => exact absurd (List.cons.inj heq).1 (hevent _ _ _)
    | cons head tail =>
        obtain ⟨rfl, htail⟩ := List.cons.inj heq
        exact (h.settled _ _ _ _ _ htail).later [event] hcalls (hcheck received delay)

theorem inv_check {s : State} {call : Nat} {method : Str} (h : Inv s)
    (hcall : s.calls[call]? = some (.checking method)) (phase : Phase)
    (hordered : s.pause ≤ s.clock → ∀ phase ∈ s.calls, phase.deadline ≤ s.clock) :
    Inv { s with
      calls := s.calls.set call phase
      log := .checked call s.clock (pauseCheck s.pause s.clock) :: s.log } := by
  have hcalls : Advances s.calls (s.calls.set call phase) :=
    .set hcall (by simp) (by simp [Phase.isRecording])
  refine h.logged rfl (by simp) hcalls ?_ ?_ ?_
  · intro other received delay hmem
    exact h.deadlines other received delay (by simpa using hmem)
  · intro received delay hmem other clock result hchecked hle hlt
    cases List.mem_singleton.mp hchecked
    have hlater : s.clock < s.pause := by
      by_contra hpassed
      have := hordered (Nat.le_of_not_lt hpassed) _ hmem
      simp only [Phase.deadline] at this
      omega
    exact pauseCheck_before (Nat.le_refl _) hlater
  · intro newer older other received delay heq hrecorded checker clock result hchecked hle hlt
    cases newer with
    | nil => simp at hrecorded
    | cons head tail =>
        obtain ⟨rfl, htail⟩ := List.cons.inj heq
        have hmem : Event.recorded other received delay ∈ tail := by simpa using hrecorded
        rcases List.mem_cons.mp hchecked with hnew | hold
        · cases hnew
          refine pauseCheck_before (h.deadlines other received delay ?_) hlt
          rw [htail]
          exact List.mem_append_left _ hmem
        · exact h.honoured _ _ _ _ _ htail hmem _ _ _ hold hle hlt

theorem inv_limited {s : State} {call : Nat} {method : Str} {delay : Nat} (h : Inv s)
    (hcall : s.calls[call]? = some (.requesting method)) :
    Inv { s with
      calls := s.calls.set call (.recording s.clock delay)
      log := .limited call s.clock delay :: s.log } := by
  have hcalls : Advances s.calls (s.calls.set call (.recording s.clock delay)) :=
    .set hcall (by simp) (by simp [Phase.isRecording])
  refine ⟨?_, fun other received wait hmem => ?_, ?_⟩
  · intro newer older other received wait heq hrecorded checker clock result hchecked hle hlt
    cases newer with
    | nil => simp at hrecorded
    | cons head tail =>
        obtain ⟨rfl, htail⟩ := List.cons.inj heq
        exact h.honoured _ _ _ _ _ htail (by simpa using hrecorded) _ _ _
          (by simpa using hchecked) hle hlt
  · exact h.deadlines other received wait (by simpa using hmem)
  · intro newer older other received wait heq
    cases newer with
    | nil =>
        cases (List.cons.inj heq).1
        have hlt := (List.getElem?_eq_some_iff.mp hcall).1
        exact .waiting (List.getElem?_set_self hlt) (by simp [Refused])
    | cons head tail =>
        obtain ⟨rfl, htail⟩ := List.cons.inj heq
        exact (h.settled _ _ _ _ _ htail).later [.limited call s.clock delay] hcalls
          (by simp [Refused])

theorem inv_record {s : State} {call received delay : Nat} (h : Inv s)
    (hcall : s.calls[call]? = some (.recording received delay))
    (hordered : s.pause ≤ received + delay) :
    Inv { s with
      pause := received + delay
      calls := s.calls.set call (.done (.error (.rateLimited delay)))
      log := .recorded call received delay :: s.log } := by
  refine h.logged rfl (by simp) (.set hcall (by simp) fun _ => ⟨_, rfl⟩) ?_ (by simp [Refused]) ?_
  · intro other at' wait hmem
    rcases List.mem_cons.mp hmem with heq | hold
    · cases heq; exact Nat.le_refl _
    · exact (h.deadlines _ _ _ hold).trans hordered
  · intro newer older other at' wait heq hrecorded checker clock result hchecked hle hlt
    cases newer with
    | nil => simp at hrecorded
    | cons head tail =>
        obtain ⟨rfl, htail⟩ := List.cons.inj heq
        have hold : Event.checked checker clock result ∈ tail := by simpa using hchecked
        rcases List.mem_cons.mp hrecorded with hnew | hmem
        · -- The call has been waiting for the lock since its 429.
          cases hnew
          cases h.settled _ _ _ _ _ htail with
          | recorded hmem => exact h.honoured _ _ _ _ _ htail hmem _ _ _ hold hle hlt
          | waiting _ hchecks => exact hchecks _ _ _ hold hle hlt
          | finished _ hdone => simp [hcall] at hdone
        · exact h.honoured _ _ _ _ _ htail hmem _ _ _ hold hle hlt

theorem inv_step {s t : State} {a : Action} (h : Inv s) (hordered : Ordered s a)
    (hstep : step s a = some t) : Inv t := by
  cases a with
  | advance elapsed =>
      cases Option.some.inj hstep
      exact h.quiet rfl rfl (.refl _)
  | call method =>
      simp only [step] at hstep
      split at hstep <;> cases Option.some.inj hstep <;> exact h.quiet rfl rfl (.push _ _)
  | check call =>
      simp only [step] at hstep
      split at hstep
      · rename_i method hcall
        cases Option.some.inj hstep
        exact inv_check h hcall _ hordered
      · contradiction
  | respond call response =>
      simp only [step] at hstep
      split at hstep
      · rename_i method hcall
        split at hstep
        · cases Option.some.inj hstep
          exact inv_limited h hcall
        · cases Option.some.inj hstep
          exact h.quiet rfl rfl (.set hcall (by simp) fun _ => ⟨_, rfl⟩)
      · contradiction
  | record call =>
      simp only [step] at hstep
      split at hstep
      · rename_i received delay hcall
        cases Option.some.inj hstep
        exact inv_record h hcall (by simpa [Ordered, hcall] using hordered)
      · contradiction
  | drop call =>
      simp only [step] at hstep
      split at hstep
      · contradiction
      · rename_i phase hdone hcall
        cases Option.some.inj hstep
        exact h.quiet rfl rfl (.set hcall (fun result heq => hdone result heq)
          fun _ => ⟨_, rfl⟩)
      · contradiction

theorem inv_reachableBy {s : State} (h : ReachableBy machine Ordered s) : Inv s := by
  refine h.invariant ?_ fun _ _ _ _ hinv hordered hstep => inv_step hinv hordered hstep
  rintro s ⟨clock, rfl⟩
  exact inv_initial clock

theorem pause_mono {s t : State} {a : Action} (hordered : Ordered s a)
    (hstep : step s a = some t) : s.pause ≤ t.pause := by
  cases a with
  | record call =>
      simp only [step] at hstep
      split at hstep
      · rename_i received delay hcall
        cases Option.some.inj hstep
        simpa [Ordered, hcall] using hordered
      · contradiction
  | advance elapsed => cases Option.some.inj hstep; exact Nat.le_refl _
  | call method =>
      simp only [step] at hstep
      split at hstep <;> cases Option.some.inj hstep <;> exact Nat.le_refl _
  | check call =>
      simp only [step] at hstep
      split at hstep
      · cases Option.some.inj hstep; exact Nat.le_refl _
      · contradiction
  | respond call response =>
      simp only [step] at hstep
      split at hstep
      · split at hstep <;> cases Option.some.inj hstep <;> exact Nat.le_refl _
      · contradiction
  | drop call =>
      simp only [step] at hstep
      split at hstep
      · contradiction
      · cases Option.some.inj hstep; exact Nat.le_refl _
      · contradiction

/-- In runs that meet the condition every 429 is honoured by all later calls,
and the shared deadline never moves to an earlier time. -/
theorem retry_after_honoured {s : State} (h : ReachableBy machine Ordered s) :
    Honoured s.log ∧
      ∀ a t, Ordered s a → step s a = some t → s.pause ≤ t.pause :=
  ⟨(inv_reachableBy h).honoured, fun _ _ => pause_mono⟩

def tooManyRequests (retryAfter : String) : Response :=
  ⟨429, some retryAfter.toList, none, [], none⟩

/-- Two calls overlap: the second 429 asks for one second where the first asked
for sixty, and a third call goes through after two seconds. -/
def overlappingLimits : List Action :=
  [.call "users.info".toList, .call "conversations.info".toList, .check 0, .check 1,
    .respond 0 (some (tooManyRequests "60")), .record 0,
    .respond 1 (some (tooManyRequests "1")), .record 1,
    .advance (fromSecs 2), .call "users.info".toList, .check 2]

theorem shorter_retry_after_ends_longer :
    ∃ s, Reachable machine s ∧ ¬ Honoured s.log := by
  obtain ⟨s, hs, hlog⟩ := exists_reachable (M := machine) (s := initial 0)
    overlappingLimits
    (P := fun s => s.log =
      [.checked 2 (fromSecs 2) (.ok ()), .recorded 1 0 (fromSecs 1), .limited 1 0 (fromSecs 1),
        .recorded 0 0 (fromSecs 60)] ++ .limited 0 0 (fromSecs 60) ::
        [.checked 1 0 (.ok ()), .checked 0 0 (.ok ())])
    ⟨0, rfl⟩ (by decide)
  refine ⟨s, hs, fun honoured => ?_⟩
  obtain ⟨remaining, -, hresult⟩ := honoured _ _ 0 0 (fromSecs 60) hlog (by simp) 2 (fromSecs 2)
    (.ok ()) (by simp) (Nat.zero_le _) (by decide)
  cases hresult

/-- The same overlap with the longer delay last: the third call is refused. -/
def increasingLimits : List Action :=
  [.call "users.info".toList, .call "conversations.info".toList, .check 0, .check 1,
    .respond 1 (some (tooManyRequests "1")), .record 1,
    .respond 0 (some (tooManyRequests "60")), .record 0,
    .advance (fromSecs 2), .call "users.info".toList, .check 2]

theorem retry_after_honoured_increasing :
    ∃ s, (Event.checked 2 (fromSecs 2) (.error (.rateLimited (fromSecs 58))) ∈ s.log) ∧
      Honoured s.log ∧ ∀ a t, Ordered s a → step s a = some t → s.pause ≤ t.pause := by
  have hrun : ∃ s, ReachableBy machine Ordered s ∧
      .checked 2 (fromSecs 2) (.error (.rateLimited (fromSecs 58))) ∈ s.log :=
    exists_reachableBy (s := initial 0) increasingLimits ⟨0, rfl⟩ (by decide)
  obtain ⟨s, hs, hlog⟩ := hrun
  exact ⟨s, hlog, retry_after_honoured hs⟩

end SjmbSlack.UserSession.Api
