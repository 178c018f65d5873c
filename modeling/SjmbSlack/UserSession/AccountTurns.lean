import SjmbSlack.UserSession.AccountRuns

/-! The accounts are authenticated one after the other in the order of the configuration,
each request waits as long as the ones before it ask, and until the last of them no
session connects. -/
namespace SjmbSlack.UserSession.Accounts
open Machine Backoff

section

variable {setup : Setup} {s t : State}

structure Unstarted (loop : Loop) : Prop where
  phase : loop.run.phase = .starting
  dials : loop.run.dials = []
  connection : loop.session.connection = none

def Paced (s : State) : Prop :=
  match s.phase with
  | .opening => s.waits = [] ∧ s.delay = 2
  | .calling => Ready 2 30 SECOND s.waits s.delay s.startedAt ∧ s.startedAt ≤ s.clock
  | .pausing since delay => Waiting 2 30 SECOND s.waits s.delay since delay
  | _ => Spaced 2 30 SECOND s.waits

structure Turns (setup : Setup) (s : State) : Prop where
  distinct : (s.loops.map Loop.identity).Nodup
  unstarted : s.loops.length < setup.count → ∀ loop ∈ s.loops, Unstarted loop
  spaced : ∀ waits ∈ s.loops.map Loop.waits, Spaced 2 30 SECOND waits
  single : ∀ waits ∈ s.waits :: s.loops.map Loop.waits, ∀ wait ∈ waits, wait.reset = false
  paced : Paced s

theorem paced_spaced (h : Paced s) : Spaced 2 30 SECOND s.waits := by
  unfold Paced at h
  cases hphase : s.phase with
  | opening =>
      rw [hphase] at h
      rw [h.1]
      trivial
  | calling =>
      rw [hphase] at h
      exact h.1.spaced
  | pausing =>
      rw [hphase] at h
      exact h.spaced
  | _ =>
      rw [hphase] at h
      exact h

theorem unstarted_seen {loops : List Loop} (h : ∀ loop ∈ loops, Unstarted loop) (worker : Slackbot.Worker.State) :
    ∀ loop ∈ seen setup worker loops, Unstarted loop := by
  intro loop hmem
  obtain ⟨index, hindex⟩ := List.getElem?_of_mem hmem
  rw [seen, List.getElem?_mapIdx] at hindex
  obtain ⟨before, hbefore, rfl⟩ := Option.map_eq_some_iff.mp hindex
  obtain ⟨hphase, hdials, hconn⟩ := h before (List.mem_of_getElem? hbefore)
  exact ⟨hphase, hdials, hconn⟩

theorem Turns.see (h : Turns setup s) (worker : Slackbot.Worker.State)
    (hpaced : Paced (s.withWorker setup.count worker)) : Turns setup (s.withWorker setup.count worker) := by
  have hidentity : (seen setup worker s.loops).map Loop.identity = s.loops.map Loop.identity :=
    map_seen (fun _ _ => rfl) s.loops
  have hwaits : (seen setup worker s.loops).map Loop.waits = s.loops.map Loop.waits :=
    map_seen (fun _ _ => rfl) s.loops
  refine ⟨?_, fun hmore => ?_, ?_, ?_, hpaced⟩
  · change ((seen setup worker s.loops).map Loop.identity).Nodup
    rw [hidentity]
    exact h.distinct
  · rw [State.withWorker, List.length_mapIdx] at hmore
    exact unstarted_seen (h.unstarted hmore) worker
  · change ∀ waits ∈ (seen setup worker s.loops).map Loop.waits, _
    rw [hwaits]
    exact h.spaced
  · change ∀ waits ∈ s.waits :: (seen setup worker s.loops).map Loop.waits, _
    rw [hwaits]
    exact h.single

theorem Turns.pace (h : Turns setup s) (hloops : t.loops = s.loops) (hpaced : Paced t)
    (hsingle : ∀ wait ∈ t.waits, wait.reset = false) : Turns setup t := by
  refine ⟨hloops ▸ h.distinct, hloops ▸ h.unstarted, hloops ▸ h.spaced, ?_, hpaced⟩
  intro waits hmem
  rcases List.mem_cons.mp hmem with rfl | hold
  · exact hsingle
  · exact h.single waits (List.mem_cons_of_mem _ (hloops ▸ hold))

theorem Turns.same (h : Turns setup s) (hwaits : t.waits = s.waits) (hpaced : Paced t)
    (hidentity : t.loops.map Loop.identity = s.loops.map Loop.identity)
    (hlogs : t.loops.map Loop.waits = s.loops.map Loop.waits)
    (hunstarted : t.loops.length < setup.count → ∀ loop ∈ t.loops, Unstarted loop) : Turns setup t :=
  ⟨hidentity ▸ h.distinct, hunstarted, hlogs ▸ h.spaced, by rw [hwaits, hlogs]; exact h.single, hpaced⟩

theorem turns_authenticated {account : Account} {team user : Str} {found : Option Snapshot} (h : Turns setup s) (hinv : Inv setup s)
    (hphase : s.phase = .calling)
    (hnew : ∀ loop ∈ s.loops, ¬ (loop.team = team ∧ loop.user = user))
    (hstep : authenticated setup s account team user found = some t) : Turns setup t := by
  have hfits := hinv.fits
  have hpaced := h.paced
  unfold Fits at hfits
  unfold Paced at hpaced
  rw [hphase] at hfits hpaced
  -- with the new session, before anyone sees the worker
  let joined := s.loops ++ [newLoop account team user found s.clock s.waits]
  have hdistinct : (joined.map Loop.identity).Nodup := by
    rw [List.map_append, List.nodup_append]
    refine ⟨h.distinct, List.nodup_singleton _, fun first hfirst second hsecond hsame => ?_⟩
    obtain ⟨loop, hmem, rfl⟩ := List.mem_map.mp hfirst
    rw [List.mem_singleton.mp hsecond] at hsame
    exact hnew loop hmem ⟨congrArg Prod.fst hsame, congrArg Prod.snd hsame⟩
  have hunstarted : ∀ loop ∈ joined, Unstarted loop := by
    intro loop hmem
    rcases List.mem_append.mp hmem with hold | hlast
    · exact h.unstarted hfits.2 loop hold
    · rw [List.mem_singleton.mp hlast]
      exact ⟨rfl, rfl, rfl⟩
  have hlogs : joined.map Loop.waits = s.loops.map Loop.waits ++ [s.waits] := by
    rw [List.map_append]
    rfl
  have hspaced : ∀ waits ∈ joined.map Loop.waits, Spaced 2 30 SECOND waits := by
    rw [hlogs]
    intro waits hmem
    rcases List.mem_append.mp hmem with hold | hlast
    · exact h.spaced waits hold
    · rw [List.mem_singleton.mp hlast]
      exact hpaced.1.spaced
  have hsingle : ∀ waits ∈ joined.map Loop.waits, ∀ wait ∈ waits, wait.reset = false := by
    rw [hlogs]
    intro waits hmem
    refine h.single waits ?_
    rcases List.mem_append.mp hmem with hold | hlast
    · exact List.mem_cons_of_mem _ hold
    · rw [List.mem_singleton.mp hlast]
      exact List.mem_cons_self
  have hafter (worker : Slackbot.Worker.State) (after : State) (hpaced : Paced after)
      (hloops : after.loops = seen setup worker joined) (hwaits : after.waits = []) : Turns setup after := by
    refine ⟨?_, fun _ => ?_, ?_, ?_, hpaced⟩
    · rw [hloops, map_seen fun _ _ => rfl]
      exact hdistinct
    · rw [hloops]
      exact unstarted_seen hunstarted worker
    · rw [hloops, map_seen fun _ _ => rfl]
      exact hspaced
    · rw [hloops, hwaits, map_seen fun _ _ => rfl]
      intro waits hmem
      rcases List.mem_cons.mp hmem with rfl | hold
      · exact fun _ hnone => (nomatch hnone)
      · exact hsingle waits hold
  obtain ⟨cloned, hclone, hstep⟩ := Option.bind_eq_some_iff.mp hstep
  dsimp only at hstep
  split at hstep
  · obtain ⟨worker, -, hstep⟩ := Option.bind_eq_some_iff.mp hstep
    cases Option.some.inj hstep
    exact hafter worker _ trivial rfl rfl
  · cases Option.some.inj hstep
    refine hafter cloned _ ⟨.initial _, ?_⟩ rfl rfl
    change s.worker.clock ≤ cloned.clock
    simp only [Slackbot.Worker.step] at hclone
    split at hclone <;> cases hclone
    exact Nat.le_refl _

theorem turns_step {a : Action} (h : Turns setup s) (hinv : Inv setup s) (hstep : step setup s a = some t) :
    Turns setup t := by
  have hpaced := h.paced
  have hspaced := paced_spaced h.paced
  have hlog : ∀ wait ∈ s.waits, wait.reset = false := h.single s.waits List.mem_cons_self
  unfold Paced at hpaced
  cases stepped_of_step hstep with
  | advance elapsed =>
      refine h.see _ ?_
      unfold Paced
      simp only [State.withWorker]
      cases hphase : s.phase with
      | calling =>
          rw [hphase] at hpaced
          exact ⟨hpaced.1, hpaced.2.trans (Nat.le_add_right _ _)⟩
      | _ =>
          rw [hphase] at hpaced
          exact hpaced
  | began hphase =>
      rw [hphase] at hpaced
      refine h.pace rfl ?_ hlog
      change Ready 2 30 SECOND s.waits s.delay s.clock ∧ s.clock ≤ s.clock
      rw [hpaced.1, hpaced.2]
      exact ⟨.initial _, Nat.le_refl _⟩
  | unopened hphase => exact h.pace rfl hspaced hlog
  | authenticated account team user readable found t hphase haccount hnew hnext =>
      exact turns_authenticated h hinv hphase hnew hnext
  | paused error millis hphase herror hmillis =>
      rw [hphase] at hpaced
      refine h.pace rfl ?_ ?_
      · exact hpaced.1.wait ⟨s.startedAt, s.clock, Reconnect.retryDelay s.delay millis error, false, asked error⟩
          (Reconnect.jitter_lt hmillis) hpaced.2 (Reconnect.retryDelay_eq s.delay millis error)
      · intro wait hmem
        rcases List.mem_cons.mp hmem with rfl | hold
        · rfl
        · exact hlog wait hold
  | woke since delay hphase hdue =>
      rw [hphase] at hpaced
      exact h.pace rfl ⟨hpaced.attempt hdue, Nat.le_refl _⟩ hlog
  | acted index action t hphase hown hact =>
      have hloops := hinv.loops
      have hfits := hinv.fits
      unfold Fits at hfits
      rw [hphase] at hloops hfits hpaced
      obtain ⟨loop, run, hloop, -, hshape, -⟩ := hloops.act hfits.1.senders hown hact
      have hset {β : Type} (f : Loop → β) (hsee : ∀ loop worker, f (loop.see worker) = f loop)
          (hrun : f { loop with run := run } = f loop) : t.loops.map f = s.loops.map f := by
        rw [hshape, map_seen hsee]
        exact map_set_same hloop hrun
      refine h.same (by rw [hshape]) ?_ (hset _ (fun _ _ => rfl) rfl) (hset _ (fun _ _ => rfl) rfl)
        fun hmore => ?_
      · rw [hshape]
        unfold Paced
        simp only [hphase]
        exact hpaced
      · have hlength := congrArg List.length (hset Loop.identity (fun _ _ => rfl) rfl)
        rw [List.length_map, List.length_map, hfits.2] at hlength
        exact absurd hmore (by rw [hlength]; exact Nat.lt_irrefl _)
  | posted index event channel ts loop session hloop hpost =>
      refine h.same rfl h.paced (map_set_same hloop rfl) (map_set_same hloop rfl) fun hmore other hmem => ?_
      rw [State.withLoop, List.length_set] at hmore
      rcases List.mem_or_eq_of_mem_set hmem with hold | rfl
      · exact h.unstarted hmore other hold
      · obtain ⟨hphase, hdials, hconn⟩ := h.unstarted hmore loop (List.mem_of_getElem? hloop)
        have hsome := (Reconnect.around_session rfl hpost).2.2.2.2
        rw [hconn] at hsome
        refine ⟨hphase, hdials, ?_⟩
        change session.connection = none
        simpa using hsome
  | worked world worker hphase hwork =>
      obtain ⟨-, hclock, -⟩ := Slackbot.Worker.work_keeps hwork
      refine h.see _ ?_
      unfold Paced
      simp only [State.withWorker]
      cases hnow : s.phase with
      | calling =>
          rw [hnow] at hpaced
          exact ⟨hpaced.1, hpaced.2.trans hclock.ge⟩
      | _ =>
          rw [hnow] at hpaced
          exact hpaced
  | halted a ending hactive hending =>
      refine h.same rfl hspaced ?_ ?_ fun hmore loop hmem => ?_
      · rw [State.halt, List.map_map]
        rfl
      · rw [State.halt, List.map_map]
        rfl
      · rw [State.halt, List.length_map] at hmore
        obtain ⟨before, hbefore, rfl⟩ := List.mem_map.mp hmem
        obtain ⟨hphase, hdials, -⟩ := h.unstarted hmore before hbefore
        exact ⟨hphase, hdials, rfl⟩
  | workerEnded hactive htask => exact absurd htask (hinv.open hactive).task
  | drained | cutOff | unsaved | finished => exact h.pace rfl hspaced hlog
  | saved ending since drained loop hphase =>
      refine h.pace rfl ?_ hlog
      unfold Paced
      simp only [hphase]
      exact hspaced

theorem turns_reachable (h : Reachable (machine setup) s) : Turns setup s := by
  refine h.invariant (P := Turns setup) ?_ fun _ _ _ hreached hturns _ hstep =>
    turns_step hturns (inv_reachable hreached) hstep
  rintro s ⟨clock, -, rfl⟩
  exact ⟨List.nodup_nil, fun _ _ hmem => (nomatch hmem), fun _ hmem => (nomatch hmem),
    fun waits hmem => by simp [initial] at hmem; simp [hmem], rfl, rfl⟩

/-- The accounts are authenticated in the order of the configuration, each as an identity
of its own, and none connects before all are; the requests for one account keep the
backoff and the rate limits. -/
theorem accounts_authenticated_in_turn (h : Reachable (machine setup) s) :
    s.loops.map Loop.account <+: setup.accounts ∧ (s.loops.map Loop.identity).Nodup ∧
    (s.loops.length < setup.count → ∀ loop ∈ s.loops, loop.run.dials = [] ∧ loop.session.connection = none) ∧
    (∀ waits ∈ s.waits :: s.loops.map Loop.waits, ∀ i wait, waits[i]? = some wait →
      let backoff := min (2 * 2 ^ (waits.length - i - 1)) 30
      backoff * SECOND ≤ wait.delay ∧ wait.asked ≤ wait.delay ∧
      (wait.delay < (backoff + 1) * SECOND ∨ wait.delay = wait.asked) ∧
      wait.startedAt ≤ wait.since ∧
      ∀ earlier, waits[i + 1]? = some earlier → earlier.ends ≤ wait.startedAt) ∧
    (s.phase = .calling → ∀ last ∈ s.waits.head?, last.ends ≤ s.startedAt) := by
  have hinv := inv_reachable h
  have hturns := turns_reachable h
  refine ⟨?_, hturns.distinct, fun hmore loop hmem => ?_, fun waits hmem i wait hwait => ?_, fun hphase => ?_⟩
  · refine List.prefix_iff_getElem?.mpr fun index hindex => ?_
    rw [List.length_map] at hindex
    have hkeeps := hinv.loops index _ (List.getElem?_eq_getElem hindex)
    rw [List.getElem_map]
    exact hkeeps.account
  · obtain ⟨-, hdials, hconn⟩ := hturns.unstarted hmore loop hmem
    exact ⟨hdials, hconn⟩
  · have hspaced : Spaced 2 30 SECOND waits := by
      rcases List.mem_cons.mp hmem with rfl | hold
      · exact paced_spaced hturns.paced
      · exact hturns.spaced waits hold
    have hlaw := hspaced.law (by decide) hwait
    have hflags : ∀ flag ∈ (waits.drop i).map Pause.reset, flag = false := by
      intro flag hflag
      obtain ⟨other, hother, rfl⟩ := List.mem_map.mp hflag
      exact hturns.single waits hmem other (List.mem_of_mem_drop hother)
    rw [series_of_false hflags, List.length_map, List.length_drop] at hlaw
    exact hlaw
  · have hpaced := hturns.paced
    unfold Paced at hpaced
    rw [hphase] at hpaced
    exact hpaced.1.started

def turnsRun : List Action :=
  [.database true, .refused (.rateLimited (5 * SECOND)) 0, .advance (5 * SECOND), .wake,
    .authenticated "T1".toList "U1".toList true none, .refused .other 7, .advance (3 * SECOND), .wake,
    .refused .other 7]

theorem accounts_authenticated_in_turn_waiting : ∃ (s : State) (loop : Loop) (first second last : Pause),
    s.loops = [loop] ∧ loop.waits = [first] ∧ s.waits = [last, second] ∧ first.asked ≤ first.delay ∧
      4 * SECOND ≤ last.delay ∧ second.ends ≤ last.startedAt ∧
      loop.run.dials = [] ∧ loop.session.connection = none := by
  have hrun : ∃ s : State, Reachable (machine sampleSetup) s ∧
      (s.loops.length = 1 ∧ s.waits.length = 2 ∧ s.loops.map (fun loop => loop.waits.length) = [1]) :=
    exists_reachable (s := initial (1000000000 * SECOND)) turnsRun ⟨_, sample_past _, rfl⟩ (by decide +kernel)
  obtain ⟨s, hs, hloops, hwaits, hlogs⟩ := hrun
  obtain ⟨loop, hloop⟩ := List.length_eq_one_iff.mp hloops
  obtain ⟨last, second, hpair⟩ := List.length_eq_two.mp hwaits
  rw [hloop] at hlogs
  obtain ⟨first, hfirst⟩ := List.length_eq_one_iff.mp (List.cons.inj hlogs).1
  obtain ⟨-, -, hunstarted, hlaw, -⟩ := accounts_authenticated_in_turn hs
  obtain ⟨hdials, hconn⟩ := hunstarted (by rw [hloops]; decide) loop (by simp [hloop])
  have hasked := hlaw loop.waits (by simp [hloop]) 0 first (by rw [hfirst]; rfl)
  have hlast := hlaw s.waits (by simp) 0 last (by rw [hpair]; rfl)
  rw [hpair] at hlast
  exact ⟨s, loop, first, second, last, hloop, hfirst, hpair, hasked.2.1, hlast.1,
    hlast.2.2.2.2 second rfl, hdials, hconn⟩

end

end SjmbSlack.UserSession.Accounts
