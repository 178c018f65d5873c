import SjmbSlack.Library.Indexed
import SjmbSlack.UserSession.AccountSteps

/-! Runs of all accounts: each session runs as it does alone with the worker as it sees
it, the end is clean, and the accounts are authenticated in turn. -/
namespace SjmbSlack.UserSession

namespace Reconnect
open Machine

section

variable {settings : Settings} {run : State}

theorem sound_around {session : Session.State} {action : Session.Action} (h : Sound settings run)
    (haround : around action = true) (hstep : Session.step settings.config run.session action = some session) :
    Sound settings { run with session := session } := by
  refine sound_step h (a := .act action .other) ?_
  have hfits := h.fits
  have hsame := (around_session haround hstep).2.2.2.2
  simp only [step, act, hstep, Option.bind_eq_bind, Option.bind_some]
  unfold Fits at hfits
  cases hphase : run.phase with
  | connected since =>
      rw [hphase] at hfits
      have hapart : apart action = false := by
        cases action with
        | advance | post | worker => rfl
        | _ => cases haround
      have htaken : taken run.session action = none := by
        cases action with
        | read => cases haround
        | _ => rfl
      simp [hapart, htaken, hsame, hfits.1]
  | _ => simp [haround]

end

end Reconnect

namespace Accounts
open Machine Api Slackbot Gateway

section

variable {setup : Setup} {s t : State} {worker after : Worker.State} {index : Nat} {loop : Loop}

structure Keeps (setup : Setup) (active : Bool) (worker : Worker.State) (index : Nat) (loop : Loop) : Prop where
  account : setup.accounts[index]? = some loop.account
  session : Reachable (Session.machine loop.settings.config) loop.session
  worker : loop.session.core.worker = worker.view (decode setup.count index)
  dialed : Reconnect.Dialed loop.settings loop.run
  sound : active = true → Reconnect.Sound loop.settings loop.run
  stopped : active = false → loop.session.stopped = true ∧ loop.session.connection = none

theorem Keeps.index_lt {active : Bool} (h : Keeps setup active worker index loop) : index < setup.count :=
  (List.getElem?_eq_some_iff.mp h.account).1

theorem Keeps.around {active : Bool} {session : Session.State} {action : Session.Action}
    (h : Keeps setup active worker index loop) (haround : Reconnect.around action = true)
    (hstep : Session.step loop.settings.config loop.session action = some session)
    (hworker : session.core.worker = after.view (decode setup.count index)) :
    Keeps setup active after index (loop.withSession session) := by
  obtain ⟨hstopped, -, -, -, hconn⟩ := Reconnect.around_session haround hstep
  refine ⟨h.account, .next h.session trivial hstep, hworker,
    ⟨h.dialed.valid, h.dialed.gateway, h.dialed.tickets⟩,
    fun hactive => Reconnect.sound_around (h.sound hactive) haround hstep, fun hactive => ?_⟩
  obtain ⟨hended, hnone⟩ := h.stopped hactive
  refine ⟨hstopped.trans hended, ?_⟩
  change session.connection = none
  simpa [hnone] using hconn

theorem Keeps.work {active : Bool} {a : Worker.Action} (h : Keeps setup active worker index loop)
    (hallowed : Session.allowed (worker.view (decode setup.count index))
      (a.view (decode setup.count index)) = true)
    (hstep : Worker.step worker a = some after) :
    Keeps setup active after index (loop.see (after.view (decode setup.count index))) := by
  have haround : Reconnect.around (.worker (a.view (decode setup.count index))) = true := rfl
  refine h.around haround ?_ rfl
  simp only [Session.step, h.worker, if_pos hallowed, Worker.step_view hstep, Option.map_some]

theorem Keeps.advance {active : Bool} (h : Keeps setup active worker index loop) (elapsed : Nat) :
    Keeps setup active { worker with clock := worker.clock + elapsed } index
      (loop.see (Worker.State.view (decode setup.count index)
        { worker with clock := worker.clock + elapsed })) := by
  have haround : Reconnect.around (.advance elapsed) = true := rfl
  refine h.around haround ?_ rfl
  simp only [Session.step, h.worker]
  rfl

theorem Keeps.halt (h : Keeps setup true worker index loop) :
    Keeps setup false { worker with drainSignal := true } index (loop.withSession { loop.session with
      core := { loop.session.core with worker := { loop.session.core.worker with drainSignal := true } }
      connection := none
      stopped := true }) := by
  have hrunning : loop.session.stopped = false := (h.sound rfl).stopped
  refine ⟨h.account, .next (a := .stop) h.session trivial ?_, ?_,
    ⟨h.dialed.valid, h.dialed.gateway, h.dialed.tickets⟩, fun hactive => (nomatch hactive),
    fun _ => ⟨rfl, rfl⟩⟩
  · change Session.step loop.settings.config loop.session .stop = _
    simp only [Session.step, hrunning]
    rfl
  · change { loop.session.core.worker with drainSignal := true } = _
    rw [h.worker]
    rfl

def Kept (setup : Setup) (active : Bool) (worker : Worker.State) (loops : List Loop) : Prop :=
  EachAt (Keeps setup active worker) loops

def seen (setup : Setup) (worker : Worker.State) (loops : List Loop) : List Loop :=
  loops.mapIdx fun index loop => loop.see (worker.view (decode setup.count index))

theorem seen_seen (before after : Worker.State) (loops : List Loop) :
    seen setup after (seen setup before loops) = seen setup after loops := by
  apply List.ext_getElem?
  intro index
  simp only [seen, List.getElem?_mapIdx, Option.map_map]
  rfl

theorem see_self {receipts : Nat → Option Nat} (h : loop.session.core.worker = worker.view receipts) :
    loop.see (worker.view receipts) = loop := by
  rw [← h]
  rfl

theorem Kept.work {active : Bool} {loops : List Loop} {a : Worker.Action} (h : Kept setup active worker loops)
    (hallowed : ∀ index, Session.allowed (worker.view (decode setup.count index))
      (a.view (decode setup.count index)) = true)
    (hstep : Worker.step worker a = some after) : Kept setup active after (seen setup after loops) :=
  h.mapIdx fun index _ hloop => hloop.work (hallowed index) hstep

theorem Kept.advance {active : Bool} {loops : List Loop} (h : Kept setup active worker loops) (elapsed : Nat) :
    Kept setup active { worker with clock := worker.clock + elapsed }
      (seen setup { worker with clock := worker.clock + elapsed } loops) :=
  h.mapIdx fun _ _ hloop => hloop.advance elapsed

theorem give_offers {run : Reconnect.State} {message : Option QueuedMessage} (hindex : index < setup.count)
    (hsenders : worker.senders ≠ 0) (hsees : loop.session.core.worker = worker.view (decode setup.count index))
    (hoffers : Session.Offers loop.session.core.worker run.session.core.worker message)
    (hgive : give setup.count index worker (handed loop.run run) = some after) :
    run.session.core.worker = after.view (decode setup.count index) ∧
      (after = worker ∨ ∃ message, Worker.step worker (.send (sent setup.count index message)) = some after) := by
  rw [hsees] at hoffers
  generalize hafter : run.session.core.worker = seen at hoffers ⊢
  cases message with
  | none =>
      cases hoffers
      rw [handed_nothing (hafter.trans hsees.symm)] at hgive
      cases Option.some.inj hgive
      exact ⟨rfl, .inl rfl⟩
  | some message =>
      obtain ⟨sending, hsending, hview⟩ := send_view hindex hsenders hoffers
      have hhanded : handed loop.run run = some message := by
        refine handed_message ?_
        change run.session.core.worker.accepted = loop.session.core.worker.accepted ++ [message]
        rw [hafter, hsees]
        cases hoffers
        rfl
      rw [hhanded] at hgive
      cases hsending.symm.trans hgive
      exact ⟨hview.symm, .inr ⟨message, hsending⟩⟩

/-- A step of one account: its own session takes it, and every other one sees at most
a message that is not its own. -/
theorem Kept.act {action : Reconnect.Action} (h : Kept setup true s.worker s.loops)
    (hsenders : s.worker.senders ≠ 0) (hown : shared action = false)
    (hstep : act setup s index action = some t) : ∃ loop run,
      s.loops[index]? = some loop ∧ Reconnect.step loop.settings loop.run action = some run ∧
      t = { s with worker := t.worker, loops := seen setup t.worker (s.loops.set index { loop with run := run }) } ∧
      (t.worker = s.worker ∨
        ∃ message, Worker.step s.worker (.send (sent setup.count index message)) = some t.worker) ∧
      Kept setup true t.worker t.loops := by
  obtain ⟨loop, hloop, hstep⟩ := Option.bind_eq_some_iff.mp hstep
  obtain ⟨run, hrun, hstep⟩ := Option.bind_eq_some_iff.mp hstep
  obtain ⟨worker, hworker, hstep⟩ := Option.bind_eq_some_iff.mp hstep
  cases Option.some.inj hstep
  have hkeeps := h index loop hloop
  have hsound := Reconnect.sound_step (hkeeps.sound rfl) hrun
  obtain ⟨message, hoffers⟩ := hands_run hown hrun
  obtain ⟨hsees, hsent⟩ := give_offers hkeeps.index_lt hsenders hkeeps.worker hoffers hworker
  have hnext : Keeps setup true worker index { loop with run := run } :=
    ⟨hkeeps.account, hsound.session, hsees, Reconnect.dialed_step hkeeps.dialed hrun, fun _ => hsound,
      fun hactive => (nomatch hactive)⟩
  have hothers (other : Nat) (before : Loop) (hne : other ≠ index)
      (hbefore : Keeps setup true s.worker other before) :
      Keeps setup true worker other (before.see (worker.view (decode setup.count other))) := by
    rcases hsent with rfl | ⟨message, hsending⟩
    · rw [see_self hbefore.worker]
      exact hbefore
    · refine hbefore.work (a := .send (sent setup.count index message)) ?_ hsending
      exact decide_eq_true (own_other hkeeps.index_lt hne message)
  refine ⟨loop, run, hloop, hrun, rfl, hsent, ?_⟩
  intro other after hafter
  rw [State.withWorker, List.getElem?_mapIdx] at hafter
  obtain ⟨before, hbefore, rfl⟩ := Option.map_eq_some_iff.mp hafter
  by_cases hsame : other = index
  · subst hsame
    rw [State.withLoop, List.getElem?_set_self (List.getElem?_eq_some_iff.mp hloop).1] at hbefore
    cases Option.some.inj hbefore
    change Keeps setup true worker other (Loop.see _ (worker.view (decode setup.count other)))
    rw [see_self hnext.worker]
    exact hnext
  · rw [State.withLoop, List.getElem?_set_ne (Ne.symm hsame)] at hbefore
    exact hothers other before hsame (h other before hbefore)

theorem cloned_reachable {config : UserSession.Config} {session : Session.State}
    (h : Reachable (Session.machine config) session) (hsenders : session.core.worker.senders ≠ 0) (n : Nat) :
    Reachable (Session.machine config) { session with core := { session.core with
      worker := { session.core.worker with senders := session.core.worker.senders + n } } } := by
  induction n with
  | zero => exact h
  | succ n ih =>
      refine .next (a := .worker .cloneSender) ih trivial ?_
      have hsome : ¬ session.core.worker.senders + n = 0 := by omega
      change Session.step config _ (.worker .cloneSender) = _
      simp only [Session.step, Session.allowed, Worker.step, if_neg hsome]
      rfl

theorem opened_reachable {config : UserSession.Config} {past : Session.State} {clock : Nat}
    (found : Option Snapshot) (h : Reachable (Session.machine config) past) (hclock : past.clock ≤ clock) :
    Reachable (Session.machine config) (opened past found clock) := by
  have hadvanced : Reachable (Session.machine config) (advanced past clock) := by
    refine .next (a := .advance (clock - past.clock)) h trivial ?_
    change some _ = some _
    refine congrArg some ?_
    have hsum : past.core.worker.clock + (clock - past.clock) = clock := Nat.add_sub_of_le hclock
    rw [hsum]
    rfl
  exact .next (a := .crash found) hadvanced trivial rfl

theorem keeps_new {account : Account} {team user : Str} {clock senders : Nat} (found : Option Snapshot)
    (waits : List Backoff.Pause) (haccount : setup.accounts[index]? = some account) (hclock : (account.past team user).clock ≤ clock) :
    Keeps setup true (Worker.initial clock MESSAGE_QUEUE_BOUND (senders + 1)) index
      ((newLoop account team user found clock waits).see
        (Worker.initial clock MESSAGE_QUEUE_BOUND (senders + 1))) := by
  have hopened := opened_reachable found
    (setup.past account (List.mem_of_getElem? haccount) team user).1 hclock
  have hcloned := cloned_reachable hopened Nat.one_ne_zero senders
  have hsession : Reachable (Session.machine (account.settings team user).config)
      { opened (account.past team user) found clock with core := {
        (opened (account.past team user) found clock).core with
        worker := Worker.initial clock MESSAGE_QUEUE_BOUND (senders + 1) } } := by
    rw [Nat.add_comm senders 1]
    exact hcloned
  refine ⟨haccount, hsession, rfl, ⟨by simp [newLoop, Loop.see, Loop.withSession],
    by simp [newLoop, Loop.see, Loop.withSession], List.nil_sublist _⟩,
    fun _ => ⟨hsession, rfl, ⟨rfl, rfl, fun hwaits => absurd rfl hwaits⟩, .initial _, ?_⟩,
    fun hactive => (nomatch hactive)⟩
  intro wait hwait
  cases hwait

structure Open (worker : Worker.State) : Prop where
  senders : worker.senders ≠ 0
  signal : worker.drainSignal = false
  draining : worker.draining = false
  closed : worker.queue.closed = false
  task : worker.task ≠ .returned

theorem open_initial (clock capacity senders : Nat) : Open (Worker.initial clock capacity (senders + 1)) :=
  ⟨Nat.succ_ne_zero _, rfl, rfl, rfl, nofun⟩

theorem Open.send {message : QueuedMessage} (h : Open worker)
    (hstep : Worker.step worker (.send message) = some after) : Open after := by
  obtain ⟨hsenders, hsignal, hdraining, hclosed, htask⟩ := Worker.send_fields hstep
  exact ⟨hsenders ▸ h.senders, hsignal.trans h.signal, hdraining.trans h.draining,
    hclosed.trans h.closed, htask ▸ h.task⟩

theorem Open.work {world : Worker.World} (h : Open worker)
    (hstep : Worker.step worker (.work world) = some after) : Open after := by
  obtain ⟨hsenders, hsignal, hdraining, hclosed, htask⟩ :=
    Worker.work_running h.senders h.signal h.closed hstep
  exact ⟨hsenders ▸ h.senders, hsignal, hdraining.trans h.draining, hclosed, htask⟩

theorem initial_idle {clock capacity senders : Nat} {world : Worker.World}
    (h : Worker.step (Worker.initial clock capacity (senders + 1)) (.work world) = some after) : False := by
  cases h

/-- How the phase fits the worker and the accounts. -/
def Fits (setup : Setup) (s : State) : Prop :=
  match s.phase with
  | .opening => s.worker = Worker.initial s.clock MESSAGE_QUEUE_BOUND 1 ∧ s.loops = []
  | .calling | .pausing _ _ =>
      s.worker = Worker.initial s.clock MESSAGE_QUEUE_BOUND (s.loops.length + 1) ∧
        s.loops.length < setup.count
  | .running => Open s.worker ∧ s.loops.length = setup.count
  | .draining _ since => s.worker.drainSignal = true ∧ since ≤ s.clock
  | .saving _ since drained =>
      if drained then s.worker.task = .returned else since + DRAIN_TIMEOUT ≤ s.clock
  | .returned _ => True

structure Inv (setup : Setup) (s : State) : Prop where
  worker : Reachable Worker.machine s.worker
  loops : Kept setup s.phase.active s.worker s.loops
  fits : Fits setup s
  past : ∀ account ∈ setup.accounts, ∀ team user, (account.past team user).clock ≤ s.clock

theorem Inv.open (h : Inv setup s) (hactive : s.phase.active = true) : Open s.worker := by
  have hfits := h.fits
  unfold Fits at hfits
  cases hphase : s.phase with
  | calling | pausing =>
      rw [hphase] at hfits
      rw [hfits.1]
      exact open_initial ..
  | running =>
      rw [hphase] at hfits
      exact hfits.1
  | opening | draining | saving | returned =>
      rw [hphase] at hactive
      cases hactive

theorem inv_initial (clock : Nat)
    (hpast : ∀ account ∈ setup.accounts, ∀ team user, (account.past team user).clock ≤ clock) :
    Inv setup (initial clock) :=
  ⟨.start ⟨_, _, _, rfl⟩, .nil, ⟨rfl, rfl⟩, hpast⟩

theorem inv_advance (h : Inv setup s) (elapsed : Nat) :
    Inv setup (s.withWorker setup.count { s.worker with clock := s.worker.clock + elapsed }) := by
  have hclock : s.clock ≤ s.clock + elapsed := Nat.le_add_right _ _
  refine ⟨.next (a := .advance elapsed) h.worker trivial rfl, h.loops.advance elapsed, ?_,
    fun account hmem team user => (h.past account hmem team user).trans hclock⟩
  have hfits := h.fits
  unfold Fits at hfits ⊢
  simp only [State.withWorker, List.length_mapIdx]
  cases hphase : s.phase with
  | opening =>
      rw [hphase] at hfits
      obtain ⟨hworker, hloops⟩ := hfits
      rw [hworker, hloops]
      exact ⟨rfl, rfl⟩
  | calling | pausing =>
      rw [hphase] at hfits
      obtain ⟨hworker, hcount⟩ := hfits
      refine ⟨?_, hcount⟩
      rw [hworker]
      rfl
  | running =>
      rw [hphase] at hfits
      obtain ⟨⟨hsenders, hsignal, hdraining, hclosed, htask⟩, hcount⟩ := hfits
      exact ⟨⟨hsenders, hsignal, hdraining, hclosed, htask⟩, hcount⟩
  | draining =>
      rw [hphase] at hfits
      exact ⟨hfits.1, hfits.2.trans hclock⟩
  | saving ending since drained =>
      rw [hphase] at hfits
      cases drained with
      | true => exact hfits
      | false => exact Nat.le_trans hfits hclock
  | returned => trivial

theorem inv_authenticated {account : Account} {team user : Str} {found : Option Snapshot} (h : Inv setup s) (hphase : s.phase = .calling)
    (haccount : setup.accounts[s.loops.length]? = some account)
    (hstep : authenticated setup s account team user found = some t) : Inv setup t := by
  obtain ⟨hworker, hloops, hfits, hpast⟩ := h
  rw [hphase] at hloops
  unfold Fits at hfits
  rw [hphase] at hfits
  obtain ⟨hinitial, hcount⟩ := hfits
  let cloned := Worker.initial s.clock MESSAGE_QUEUE_BOUND (s.loops.length + 1 + 1)
  have hclone : Worker.step s.worker .cloneSender = some cloned := by
    rw [hinitial]
    rfl
  obtain ⟨_, hcloned, hstep⟩ := Option.bind_eq_some_iff.mp hstep
  cases hclone.symm.trans hcloned
  have hcloned : Reachable Worker.machine cloned := .start ⟨_, _, _, rfl⟩
  have hkept : Kept setup true cloned
      (seen setup cloned (s.loops ++ [newLoop account team user found s.clock s.waits])) := by
    rw [seen, List.mapIdx_append]
    refine EachAt.push (hloops.work (fun _ => rfl) hclone) ?_
    rw [List.length_mapIdx]
    exact keeps_new found s.waits haccount (hpast account (List.mem_of_getElem? haccount) team user)
  dsimp only at hstep
  split at hstep
  · rename_i hall
    obtain ⟨dropped, hdrop, hstep⟩ := Option.bind_eq_some_iff.mp hstep
    cases Option.some.inj hdrop
    cases Option.some.inj hstep
    have hdropped : Worker.step cloned .dropSender =
        some (Worker.initial s.clock MESSAGE_QUEUE_BOUND (s.loops.length + 1)) := rfl
    refine ⟨.start ⟨_, _, _, rfl⟩, ?_, ⟨open_initial .., ?_⟩, hpast⟩
    · have hallowed (index : Nat) : Session.allowed (cloned.view (decode setup.count index))
          (Worker.Action.dropSender.view (decode setup.count index)) = true :=
        decide_eq_true (Nat.succ_lt_succ (Nat.succ_pos s.loops.length))
      have hlast := hkept.work hallowed hdropped
      rw [seen_seen] at hlast
      exact hlast
    · simpa [State.withWorker] using hall
  · rename_i hmore
    cases Option.some.inj hstep
    refine ⟨hcloned, hkept, ⟨?_, ?_⟩, hpast⟩
    · simp only [State.withWorker, List.length_mapIdx, List.length_append, List.length_singleton]
      rfl
    · simp only [List.length_append, List.length_singleton] at hmore
      simp only [State.withWorker, List.length_mapIdx, List.length_append, List.length_singleton]
      omega

theorem inv_worked {world : Worker.World} (h : Inv setup s)
    (hphase : (∀ ending since drained, s.phase ≠ .saving ending since drained) ∧
      ∀ ending, s.phase ≠ .returned ending)
    (hstep : Worker.step s.worker (.work world) = some after) : Inv setup (s.withWorker setup.count after) := by
  obtain ⟨-, hclock, hsignal⟩ := Worker.work_keeps hstep
  change after.clock = s.clock at hclock
  refine ⟨.next (a := .work world) h.worker trivial hstep, h.loops.work (fun _ => rfl) hstep, ?_,
    fun account hmem team user => (h.past account hmem team user).trans hclock.ge⟩
  have hfits := h.fits
  unfold Fits at hfits ⊢
  simp only [State.withWorker, List.length_mapIdx]
  cases hnow : s.phase with
  | opening | calling | pausing =>
      rw [hnow] at hfits
      rw [hfits.1] at hstep
      exact (initial_idle hstep).elim
  | running =>
      rw [hnow] at hfits
      exact ⟨hfits.1.work hstep, hfits.2⟩
  | draining =>
      rw [hnow] at hfits
      exact ⟨hsignal.trans hfits.1, hfits.2.trans hclock.ge⟩
  | saving ending since drained => exact absurd hnow (hphase.1 ending since drained)
  | returned ending => exact absurd hnow (hphase.2 ending)

theorem inv_halt (h : Inv setup s) (hactive : s.phase.active = true) {phase : Phase}
    (hfits : Fits setup (s.halt phase)) (hover : phase.active = false) : Inv setup (s.halt phase) := by
  have hloops := h.loops
  rw [hactive] at hloops
  refine ⟨.next (a := .signalDrain) h.worker trivial rfl, ?_, hfits, h.past⟩
  change Kept setup phase.active _ _
  rw [hover]
  exact hloops.map fun _ _ hloop => hloop.halt

theorem inv_step {a : Action} (h : Inv setup s) (hstep : step setup s a = some t) : Inv setup t := by
  have hloops := h.loops
  have hfits := h.fits
  unfold Fits at hfits
  cases stepped_of_step hstep with
  | advance elapsed => exact inv_advance h elapsed
  | began hphase =>
      rw [hphase] at hfits
      refine ⟨h.worker, ?_, ⟨?_, ?_⟩, h.past⟩
      · rw [hfits.2]
        exact .nil
      · rw [hfits.2]
        exact hfits.1
      · rw [hfits.2]
        exact List.length_pos_iff.mpr setup.nonempty
  | unopened hphase =>
      rw [hphase] at hfits
      refine ⟨h.worker, ?_, trivial, h.past⟩
      rw [hfits.2]
      exact .nil
  | authenticated account team user readable found t hphase haccount hnew hnext =>
      exact inv_authenticated h hphase haccount hnext
  | paused error millis hphase | woke since delay hphase =>
      rw [hphase] at hloops hfits
      exact ⟨h.worker, hloops, hfits, h.past⟩
  | acted index action t hphase hown hact =>
      rw [hphase] at hloops hfits
      obtain ⟨loop, run, -, -, hshape, hworker, hkept⟩ := hloops.act hfits.1.senders hown hact
      have hphase' : t.phase = .running := by
        rw [hshape]
        exact hphase
      have hlength : t.loops.length = setup.count := by
        rw [hshape, seen, List.length_mapIdx, List.length_set]
        exact hfits.2
      have hreached : Reachable Worker.machine t.worker ∧ Open t.worker ∧ t.clock = s.clock := by
        rcases hworker with hsame | ⟨message, hsend⟩
        · rw [State.clock, hsame]
          exact ⟨h.worker, hfits.1, rfl⟩
        · exact ⟨.next (a := .send _) h.worker trivial hsend, hfits.1.send hsend, Worker.send_clock hsend⟩
      refine ⟨hreached.1, ?_, ?_, fun account hmem team user =>
        (h.past account hmem team user).trans hreached.2.2.ge⟩
      · rw [hphase']
        exact hkept
      · unfold Fits
        rw [hphase']
        exact ⟨hreached.2.1, hlength⟩
  | posted index event channel ts loop session hloop hpost =>
      have hkeeps := h.loops index loop hloop
      have hworker : session.core.worker = loop.session.core.worker := by
        rcases Session.step_cases hpost with haround | ⟨conn, -, hconnected⟩
        · cases haround with
          | post => rfl
        · cases hconnected
      refine ⟨h.worker, h.loops.set (fun _ _ _ hother => hother) ?_, ?_, h.past⟩
      · exact hkeeps.around rfl hpost (hworker.trans hkeeps.worker)
      · unfold Fits
        simp only [State.withLoop, List.length_set]
        cases hphase : s.phase with
        | opening =>
            rw [hphase] at hfits
            rw [hfits.2] at hloop
            cases hloop
        | _ =>
            rw [hphase] at hfits
            exact hfits
  | worked world worker hphase hwork => exact inv_worked h hphase hwork
  | halted a ending hactive hending => exact inv_halt h hactive ⟨rfl, Nat.le_refl _⟩ rfl
  | workerEnded hactive htask => exact absurd htask (h.open hactive).task
  | drained ending since hphase htask =>
      rw [hphase] at hloops
      exact ⟨h.worker, hloops, htask, h.past⟩
  | cutOff ending since hphase hdue =>
      rw [hphase] at hloops
      exact ⟨h.worker, hloops, hdue, h.past⟩
  | saved ending since drained loop hphase =>
      rw [hphase] at hloops hfits
      refine ⟨h.worker, ?_, ?_, h.past⟩
      · rw [hphase]
        exact hloops
      · unfold Fits
        rw [hphase]
        exact hfits
  | unsaved ending since drained hphase | finished ending since drained hphase =>
      rw [hphase] at hloops
      exact ⟨h.worker, hloops, trivial, h.past⟩

theorem inv_reachable (h : Reachable (machine setup) s) : Inv setup s := by
  refine h.invariant (P := Inv setup) ?_ fun _ _ _ _ hinv _ hstep => inv_step hinv hstep
  rintro s ⟨clock, hpast, rfl⟩
  exact inv_initial clock hpast

theorem map_seen {β : Type*} {f : Loop → β} (hf : ∀ loop worker, f (loop.see worker) = f loop)
    (loops : List Loop) : (seen setup worker loops).map f = loops.map f := by
  apply List.ext_getElem?
  intro index
  simp [seen, List.getElem?_mapIdx, Function.comp_def, hf]

/-- What the final saves have taken so far. -/
def Taken (s : State) : Prop :=
  match s.phase with
  | .draining ending _ => ending ≠ .worker ∧ s.taken = []
  | .saving ending _ _ => ending ≠ .worker ∧ s.taken <+: s.stores
  | .returned none => s.taken <+: s.stores
  | .returned (some ending) => ending ≠ .worker ∧ s.taken = s.stores
  | _ => s.taken = []

theorem Taken.none_yet (h : Taken s) (hactive : s.phase.active = true) : s.taken = [] := by
  unfold Taken at h
  cases hphase : s.phase with
  | calling | pausing | running =>
      rw [hphase] at h
      exact h
  | opening | draining | saving | returned =>
      rw [hphase] at hactive
      cases hactive

theorem Taken.of_stores (h : Taken s) (hphase : t.phase = s.phase) (htaken : t.taken = s.taken)
    (hstores : t.stores = s.stores) : Taken t := by
  unfold Taken at h ⊢
  rw [hphase, htaken, hstores]
  exact h

theorem taken_step {a : Action} (h : Taken s) (hinv : Inv setup s) (hstep : step setup s a = some t) :
    Taken t := by
  have hbefore := h
  unfold Taken at hbefore
  cases stepped_of_step hstep with
  | advance | worked => exact h.of_stores rfl rfl (map_seen (fun _ _ => rfl) s.loops)
  | began hphase =>
      rw [hphase] at hbefore
      exact hbefore
  | unopened hphase =>
      rw [hphase] at hbefore
      change s.taken <+: _
      rw [hbefore]
      exact List.nil_prefix
  | authenticated account team user readable found t hphase haccount hnew hnext =>
      rw [hphase] at hbefore
      obtain ⟨cloned, -, hnext⟩ := Option.bind_eq_some_iff.mp hnext
      dsimp only at hnext
      split at hnext
      · obtain ⟨worker, -, hnext⟩ := Option.bind_eq_some_iff.mp hnext
        cases Option.some.inj hnext
        exact hbefore
      · cases Option.some.inj hnext
        exact hbefore
  | paused error millis hphase | woke since delay hphase =>
      rw [hphase] at hbefore
      exact hbefore
  | acted index action t hphase hown hact =>
      have hloops := hinv.loops
      have hfits := hinv.fits
      unfold Fits at hfits
      rw [hphase] at hloops hfits hbefore
      obtain ⟨loop, run, -, -, hshape, -⟩ := hloops.act hfits.1.senders hown hact
      rw [hshape]
      unfold Taken
      simp only [hphase]
      exact hbefore
  | posted index event channel ts loop session hloop hpost =>
      refine h.of_stores rfl rfl (map_set_same hloop ?_)
      exact (Reconnect.around_session rfl hpost).2.2.2.1
  | halted a ending hactive hending => exact ⟨hending, h.none_yet hactive⟩
  | workerEnded hactive htask => exact absurd htask (hinv.open hactive).task
  | drained ending since hphase | cutOff ending since hphase =>
      rw [hphase] at hbefore
      refine ⟨hbefore.1, ?_⟩
      change s.taken <+: _
      rw [hbefore.2]
      exact List.nil_prefix
  | saved ending since drained loop hphase hloop =>
      rw [hphase] at hbefore
      obtain ⟨hending, rest, hrest⟩ := hbefore
      unfold Taken
      simp only [hphase]
      refine ⟨hending, ?_⟩
      have hnext : s.stores[s.taken.length]? = some loop.session.core.store := by
        rw [State.stores, List.getElem?_map, hloop]
        rfl
      rw [← hrest, List.getElem?_append_right (Nat.le_refl _), Nat.sub_self] at hnext
      cases rest with
      | nil => cases hnext
      | cons store rest =>
          cases Option.some.inj hnext
          refine ⟨rest, ?_⟩
          rw [List.append_assoc]
          exact hrest
  | unsaved ending since drained hphase =>
      rw [hphase] at hbefore
      exact hbefore.2
  | finished ending since drained hphase htaken =>
      rw [hphase] at hbefore
      refine ⟨hbefore.1, hbefore.2.eq_of_length ?_⟩
      rw [htaken, State.stores, List.length_map]

theorem taken_reachable (h : Reachable (machine setup) s) : Taken s := by
  refine h.invariant (P := Taken) ?_ fun _ _ _ hreached hkept _ hstep =>
    taken_step hkept (inv_reachable hreached) hstep
  rintro s ⟨clock, -, rfl⟩
  rfl

theorem answer_view (hindex : index < setup.count) (worker : Worker.State) (receipt : Nat) (result : Bool) :
    (receipt, result) ∈ (worker.view (decode setup.count index)).answers ↔
      (encode setup.count index receipt, result) ∈ worker.answers := by
  constructor
  · intro hmem
    obtain ⟨⟨code, answer⟩, hanswer, hview⟩ := List.mem_filterMap.mp hmem
    obtain ⟨found, hdecode, hpair⟩ := Option.map_eq_some_iff.mp hview
    cases hpair
    rw [← (decode_iff hindex).mp hdecode]
    exact hanswer
  · intro hmem
    refine List.mem_filterMap.mpr ⟨_, hmem, ?_⟩
    rw [Worker.State.viewAnswer, decode_encode hindex]
    rfl

/-- Whatever the other accounts do, each session takes only steps of a single session,
over the one worker with the receipts that are its own. -/
theorem accounts_refine (h : Reachable (machine setup) s) :
    Reachable Worker.machine s.worker ∧ ∀ index loop, s.loops[index]? = some loop →
      setup.accounts[index]? = some loop.account ∧
      Reachable (Session.machine loop.settings.config) loop.session ∧
      loop.session.core.worker = s.worker.view (decode setup.count index) ∧
      (∀ receipt result, (receipt, result) ∈ loop.session.core.worker.answers ↔
        (encode setup.count index receipt, result) ∈ s.worker.answers) ∧
      Reconnect.Dialed loop.settings loop.run ∧
      (s.phase.active = true → Reconnect.Sound loop.settings loop.run) := by
  have hinv := inv_reachable h
  refine ⟨hinv.worker, fun index loop hloop => ?_⟩
  have hkeeps := hinv.loops index loop hloop
  refine ⟨hkeeps.account, hkeeps.session, hkeeps.worker, ?_, hkeeps.dialed, hkeeps.sound⟩
  rw [hkeeps.worker]
  exact answer_view hkeeps.index_lt s.worker

def sampleAccount : Account where
  base := Session.sampleConfig
  crate := sampleCrate
  forms := sampleForms
  token := "xoxc-a".toList
  past team user := Session.initial team user 0

def sampleSetup : Setup where
  accounts := [sampleAccount, sampleAccount]
  nonempty := by simp
  past account hmem team user := by
    have hsample : account = sampleAccount := by simpa using hmem
    subst hsample
    exact ⟨.start ⟨team, user, 0, rfl⟩, rfl, rfl⟩

theorem sample_past (clock : Nat) :
    ∀ account ∈ sampleSetup.accounts, ∀ team user, (account.past team user).clock ≤ clock := by
  intro account hmem team user
  have hsample : account = sampleAccount := by simpa [sampleSetup] using hmem
  subst hsample
  exact Nat.zero_le clock

/-- Two accounts of one workspace, the first after a rate limit; the second gets a
message harvested. -/
def accountsRun : List Action :=
  [.database true, .refused (.rateLimited (5 * SECOND)) 0, .advance (5 * SECOND), .wake,
    .authenticated "T1".toList "U1".toList true none, .authenticated "T1".toList "U2".toList true none,
    .act 0 .dial, .act 1 .dial] ++
    ([.opened, .place (.text (some (Session.sampleEvent "hello".toList))), .greet,
      .discover Session.sampleChannels ["C1".toList], .copy none, .save none true,
      .place (.text (some (Session.sampleMessage "C1".toList "1000000005.000001".toList))), .read,
      .consume, .turn .live .lock, .turn .live .send] : List Session.Action).map
        (fun action => .act 1 (.act action .other)) ++
    [.work Worker.quiet, .work Worker.quiet]

theorem accountsRun_reached : ∃ s : State, Reachable (machine sampleSetup) s ∧
    s.phase = .running ∧ s.worker.answers = [(1, true)] ∧ s.loops.map Loop.identity =
      [("T1".toList, "U1".toList), ("T1".toList, "U2".toList)] :=
  exists_reachable (s := initial (1000000000 * SECOND)) accountsRun
    ⟨_, sample_past _, rfl⟩ (by decide +kernel)

theorem accounts_refine_harvesting : ∃ (s : State) (first second : Loop), s.loops = [first, second] ∧
    first.session.core.worker.answers = [] ∧ second.session.core.worker.answers = [(0, true)] ∧
    Reachable (Session.machine first.settings.config) first.session ∧
    Reachable (Session.machine second.settings.config) second.session := by
  obtain ⟨s, hs, -, hanswers, hloops⟩ := accountsRun_reached
  obtain ⟨first, second, hpair⟩ := List.length_eq_two.mp (by simpa using congrArg List.length hloops)
  have hfirst := (accounts_refine hs).2 0 first (by rw [hpair]; rfl)
  have hsecond := (accounts_refine hs).2 1 second (by rw [hpair]; rfl)
  refine ⟨s, first, second, hpair, ?_, ?_, hfirst.2.1, hsecond.2.1⟩
  · rw [hfirst.2.2.1, Worker.State.view, hanswers]
    rfl
  · rw [hsecond.2.2.1, Worker.State.view, hanswers]
    rfl

theorem exec_next {a : Action} {as : List Action} (h : step setup s a = some t) :
    exec (machine setup) s (a :: as) = exec (machine setup) t as := by
  rw [exec_cons]
  change (step setup s a).bind _ = _
  rw [h, Option.bind_some]

theorem saves_return (n : Nat) {ending : Ending} {since : Nat} {drained : Bool}
    (hphase : s.phase = .saving ending since drained) (hn : s.taken.length + n = s.loops.length) :
    ∃ t, exec (machine setup) s (List.replicate n (.save true) ++ [.finish]) = some t ∧
      t.phase = .returned (some ending) := by
  induction n generalizing s with
  | zero =>
      have hfinish : step setup s .finish = some { s with phase := .returned (some ending) } := by
        simp only [step, hphase]
        exact if_pos hn
      refine ⟨{ s with phase := .returned (some ending) }, ?_, rfl⟩
      rw [List.replicate_zero, List.nil_append, exec_next hfinish, exec_nil]
  | succ n ih =>
      have hlt : s.taken.length < s.loops.length := by omega
      let saved : State := { s with taken := s.taken ++ [s.loops[s.taken.length].session.core.store] }
      obtain ⟨t, hexec, hreturned⟩ := ih (s := saved) hphase (by
        simp only [saved, List.length_append, List.length_singleton]
        omega)
      refine ⟨t, ?_, hreturned⟩
      have hsave : step setup s (.save true) = some saved := by
        simp only [step, hphase, List.getElem?_eq_getElem hlt, if_true, saved]
      rw [List.replicate_succ, List.cons_append, exec_next hsave]
      exact hexec

theorem cut_off {ending : Ending} {since : Nat} (hphase : s.phase = .draining ending since)
    (hdue : since + DRAIN_TIMEOUT ≤ s.clock) :
    step setup s .cutOff = some { s with phase := .saving ending since false } := by
  simp only [step, hphase]
  exact if_pos hdue

theorem shutdown_returns (hactive : s.phase.active = true) (htaken : s.taken = []) (ok : Bool) {elapsed : Nat}
    (helapsed : DRAIN_TIMEOUT ≤ elapsed) :
    ∃ t, exec (machine setup) s (.shutdown ok :: .advance elapsed :: .cutOff ::
        (List.replicate s.loops.length (.save true) ++ [.finish])) = some t ∧
      t.phase = .returned (some (.shutdown ok)) := by
  let halted := s.halt (.draining (.shutdown ok) s.clock)
  let late := halted.withWorker setup.count { halted.worker with clock := halted.worker.clock + elapsed }
  have hshutdown : step setup s (.shutdown ok) = some halted := if_pos hactive
  have hlate : step setup halted (.advance elapsed) = some late := rfl
  have hclock : late.clock = s.clock + elapsed := rfl
  have hdue : s.clock + DRAIN_TIMEOUT ≤ late.clock := by
    rw [hclock]
    exact Nat.add_le_add_left helapsed s.clock
  have hcut : step setup late .cutOff =
      some { late with phase := .saving (.shutdown ok) s.clock false } := cut_off rfl hdue
  have hlength : late.loops.length = s.loops.length := by
    simp only [late, halted, State.withWorker, State.halt, List.length_mapIdx, List.length_map]
  rw [exec_next hshutdown, exec_next hlate, exec_next hcut]
  refine saves_return s.loops.length rfl ?_
  change s.taken.length + _ = late.loops.length
  rw [htaken, hlength, List.length_nil, Nat.zero_add]

/-- The worker never ends first; what ends the program stops every session, drains the
worker or cuts it off, waits for a save that takes each store as it is, one after the
other, and can always get that far. -/
theorem accounts_end_clean (h : Reachable (machine setup) s) :
    (s.phase.active = true → s.worker.queue.closed = false ∧ s.worker.task ≠ .returned ∧
      ∀ ok, ∃ t, exec (machine setup) s (.shutdown ok :: .advance DRAIN_TIMEOUT :: .cutOff ::
        (List.replicate s.loops.length (.save true) ++ [.finish])) = some t ∧
          t.phase = .returned (some (.shutdown ok))) ∧
    (s.phase.active = false → ∀ loop ∈ s.loops,
      loop.session.stopped = true ∧ loop.session.connection = none) ∧
    (∀ ending since drained, s.phase = .saving ending since drained →
      ending ≠ .worker ∧ s.taken <+: s.stores ∧
      (drained = true → s.worker.accepted = s.worker.handled.map Worker.Handling.message) ∧
      (drained = false → since + DRAIN_TIMEOUT ≤ s.clock)) ∧
    ∀ ending, s.phase = .returned (some ending) → ending ≠ .worker ∧ s.taken = s.stores := by
  have hinv := inv_reachable h
  have hkept := taken_reachable h
  refine ⟨fun hactive => ?_, fun hactive => ?_, fun ending since drained hphase => ?_, fun ending hphase => ?_⟩
  · have hopen := hinv.open hactive
    exact ⟨hopen.closed, hopen.task, fun ok =>
      shutdown_returns hactive (hkept.none_yet hactive) ok (Nat.le_refl DRAIN_TIMEOUT)⟩
  · exact (hinv.loops.mono fun _ _ hloop => hloop.stopped hactive).mem
  · have hfits := hinv.fits
    unfold Fits at hfits
    unfold Taken at hkept
    rw [hphase] at hfits hkept
    refine ⟨hkept.1, hkept.2, fun hdrained => ?_, fun hcut => ?_⟩
    · subst hdrained
      have hworker := Worker.inv_reachable hinv.worker
      have horder := hworker.order
      rw [(hworker.returned hfits).2, show s.worker.task = .returned from hfits] at horder
      simpa [Worker.Task.messages] using horder
    · subst hcut
      exact hfits
  · unfold Taken at hkept
    rw [hphase] at hkept
    exact hkept

/-- The same accounts with a shutdown while they run. -/
def endedRun : List Action :=
  accountsRun ++ [.shutdown true, .work Worker.quiet, .work Worker.quiet, .drained, .save true, .save true, .finish]

theorem accounts_end_clean_shutdown : ∃ s : State, s.phase = .returned (some (.shutdown true)) ∧
    s.taken.length = 2 ∧ s.taken = s.stores ∧
    ∀ loop ∈ s.loops, loop.session.stopped = true ∧ loop.session.connection = none := by
  have hrun : ∃ s : State, Reachable (machine sampleSetup) s ∧
      (s.phase = .returned (some (.shutdown true)) ∧ s.taken.length = 2) :=
    exists_reachable (s := initial (1000000000 * SECOND)) endedRun ⟨_, sample_past _, rfl⟩ (by decide +kernel)
  obtain ⟨s, hs, hphase, htaken⟩ := hrun
  exact ⟨s, hphase, htaken, ((accounts_end_clean hs).2.2.2 _ hphase).2,
    (accounts_end_clean hs).2.1 (by rw [hphase]; rfl)⟩

end

end Accounts

end SjmbSlack.UserSession
