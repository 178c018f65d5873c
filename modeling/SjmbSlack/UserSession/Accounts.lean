import SjmbSlack.Slackbot.WorkerViews
import SjmbSlack.UserSession.Reconnect

/-! `run_user_sessions`: the accounts are authenticated one after the other, then their
loops run side by side over one worker, until a shutdown, an error of a loop or the end
of the worker ends them all. -/
namespace SjmbSlack.UserSession.Accounts
open Machine Api Slackbot Gateway

def DRAIN_TIMEOUT : Nat := 10 * SECOND

/-- A configured account. `past` is what earlier runs of the program left of the account
with an identity. -/
structure Account where
  base : UserSession.Config
  crate : UrlCrate
  forms : FormCrate
  token : Str
  past : Str → Str → Session.State

/-- The account as `Session::new` completes it with the identity from `auth.test`. -/
def Account.settings (account : Account) (team user : Str) : Reconnect.Settings where
  session := { account.base with
    workspace := ⟨account.base.workspace.name, team, "user-session-".toList ++ user⟩ }
  crate := account.crate
  forms := account.forms
  token := account.token
  team := team

structure Setup where
  accounts : List Account
  nonempty : accounts ≠ []
  past : ∀ account ∈ accounts, ∀ team user,
    Reachable (Session.machine (account.settings team user).config) (account.past team user) ∧
      (account.past team user).core.store.team = team ∧ (account.past team user).core.store.user = user

structure Loop where
  account : Account
  team : Str
  user : Str
  run : Reconnect.State
  waits : List Backoff.Pause

namespace Loop

def settings (loop : Loop) : Reconnect.Settings := loop.account.settings loop.team loop.user

def session (loop : Loop) : Session.State := loop.run.session

def withSession (loop : Loop) (session : Session.State) : Loop :=
  { loop with run := { loop.run with session := session } }

def identity (loop : Loop) : Str × Str := (loop.team, loop.user)

def see (loop : Loop) (worker : Worker.State) : Loop :=
  loop.withSession { loop.session with core := { loop.session.core with worker := worker } }

end Loop

/-- The number that the worker knows a receipt of an account by. -/
def encode (count index receipt : Nat) : Nat := receipt * count + index

def decode (count index code : Nat) : Option Nat :=
  if code % count = index then some (code / count) else none

inductive Ending where
  | shutdown (ok : Bool)
  | failed
  | worker
  deriving DecidableEq

/-- `calling` and `pausing` are those of `Session::new` for the next account, and `saving`
is the final saves, with when the drain began and whether the worker got to its end. -/
inductive Phase where
  | opening
  | calling
  | pausing (since delay : Nat)
  | running
  | draining (ending : Ending) (since : Nat)
  | saving (ending : Ending) (since : Nat) (drained : Bool)
  | returned (ending : Option Ending)
  deriving DecidableEq

/-- `startedAt` is when `auth.test` was called last, `waits` the waits for the account
that is being authenticated, and `taken` what the final saves that returned `Ok` had
taken. -/
structure State where
  worker : Worker.State
  phase : Phase
  loops : List Loop
  delay : Nat
  startedAt : Nat
  waits : List Backoff.Pause
  taken : List Snapshot

inductive Action where
  | advance (elapsed : Nat)
  | database (ok : Bool)
  /-- `auth.test` answers; `readable` says whether the state file can be locked and read,
  and `found` is what it holds. -/
  | authenticated (team user : Str) (readable : Bool) (found : Option Snapshot)
  | refused (error : ApiError) (millis : Nat)
  | wake
  | act (index : Nat) (action : Reconnect.Action)
  | posted (index : Nat) (event : Json) (channel ts : Str)
  | work (world : Worker.World)
  | shutdown (ok : Bool)
  | failed (index : Nat)
  | workerEnded
  | drained
  | cutOff
  | save (ok : Bool)
  | finish

namespace State

def clock (s : State) : Nat := s.worker.clock

def stores (s : State) : List Snapshot := s.loops.map fun loop => loop.session.core.store

def withWorker (s : State) (count : Nat) (worker : Worker.State) : State := { s with
  worker := worker
  loops := s.loops.mapIdx fun index loop => loop.see (worker.view (decode count index)) }

def withLoop (s : State) (index : Nat) (loop : Loop) : State := { s with loops := s.loops.set index loop }

def halt (s : State) (phase : Phase) : State := { s with
  phase := phase
  worker := { s.worker with drainSignal := true }
  loops := s.loops.map fun loop => loop.withSession { loop.session with
    core := { loop.session.core with worker := { loop.session.core.worker with drainSignal := true } }
    connection := none
    stopped := true } }

end State

/-- The clock of the account's last run, brought to the present. -/
def advanced (past : Session.State) (clock : Nat) : Session.State :=
  { past with core := { past.core with worker := { past.core.worker with clock := clock } } }

/-- `Store::open` on the state file that the account has. -/
def opened (past : Session.State) (found : Option Snapshot) (clock : Nat) : Session.State :=
  Session.boot (advanced past clock) (Session.openFound past found) past.saved

def newLoop (account : Account) (team user : Str) (found : Option Snapshot) (clock : Nat)
    (waits : List Backoff.Pause) : Loop where
  account := account
  team := team
  user := user
  run := {
    session := opened (account.past team user) found clock
    backoff := 2
    phase := .starting
    reconnectUrl := none
    startedAt := clock
    waits := []
    dials := []
    tickets := [] }
  waits := waits

def handed (before after : Reconnect.State) : Option QueuedMessage :=
  (after.session.core.worker.accepted.drop before.session.core.worker.accepted.length).head?

def give (count index : Nat) (worker : Worker.State) : Option QueuedMessage → Option Worker.State
  | none => some worker
  | some message =>
      Worker.step worker (.send (Worker.own (fun receipt => some (encode count index receipt)) message))

/-- What is no step of a single session. -/
def shared : Reconnect.Action → Bool
  | .act (.advance _) _ | .act (.worker _) _ | .act (.post _ _ _) _ => true
  | _ => false

def asked : ApiError → Nat
  | .rateLimited pause => pause
  | _ => 0

def Phase.active : Phase → Bool
  | .calling | .pausing _ _ | .running => true
  | _ => false

section

variable (setup : Setup)

def Setup.count : Nat := setup.accounts.length

/-- `Session::new` succeeds: the sender is cloned, and after the last account dropped. -/
def authenticated (s : State) (account : Account) (team user : Str) (found : Option Snapshot) :
    Option State := do
  let cloned ← Worker.step s.worker .cloneSender
  let s := { s with loops := s.loops ++ [newLoop account team user found s.clock s.waits], waits := [] }
  if s.loops.length = setup.count then
    let worker ← Worker.step cloned .dropSender
    return { s.withWorker setup.count worker with phase := .running }
  else return { s.withWorker setup.count cloned with phase := .calling, delay := 2, startedAt := s.clock }

def act (s : State) (index : Nat) (action : Reconnect.Action) : Option State := do
  let loop ← s.loops[index]?
  let run ← Reconnect.step loop.settings loop.run action
  let worker ← give setup.count index s.worker (handed loop.run run)
  return (s.withLoop index { loop with run := run }).withWorker setup.count worker

def step (s : State) : Action → Option State
  | .advance elapsed => (Worker.step s.worker (.advance elapsed)).map (s.withWorker setup.count)
  | .database ok =>
      match s.phase with
      | .opening =>
          if ok then some { s with phase := .calling, startedAt := s.clock }
          else some { s with phase := .returned none }
      | _ => none
  | .authenticated team user readable found =>
      match s.phase, setup.accounts[s.loops.length]? with
      | .calling, some account =>
          if validId team ∧ validId user ∧ readable ∧
              ¬ s.loops.any (fun loop => loop.team = team ∧ loop.user = user) then
            authenticated setup s account team user found
          else some (s.halt (.draining .failed s.clock))
      | _, _ => none
  | .refused error millis =>
      match s.phase with
      | .calling =>
          if authenticationError error then some (s.halt (.draining .failed s.clock))
          else if millis < 1000 then
            let delay := Reconnect.retryDelay s.delay millis error
            some { s with
              phase := .pausing s.clock delay
              waits := ⟨s.startedAt, s.clock, delay, false, asked error⟩ :: s.waits }
          else none
      | _ => none
  | .wake =>
      match s.phase with
      | .pausing since delay =>
          if since + delay ≤ s.clock then
            some { s with phase := .calling, delay := Backoff.next 30 s.delay, startedAt := s.clock }
          else none
      | _ => none
  | .act index action => if s.phase = .running ∧ ¬ shared action then act setup s index action else none
  | .posted index event channel ts => do
      let loop ← s.loops[index]?
      let session ← Session.step loop.settings.config loop.session (.post event channel ts)
      return s.withLoop index (loop.withSession session)
  | .work world =>
      match s.phase with
      | .saving _ _ _ | .returned _ => none
      | _ => (Worker.step s.worker (.work world)).map (s.withWorker setup.count)
  | .shutdown ok => if s.phase.active then some (s.halt (.draining (.shutdown ok) s.clock)) else none
  | .failed index =>
      match s.phase, s.loops[index]? with
      | .running, some loop =>
          match loop.run.phase with
          | .returned _ => some (s.halt (.draining .failed s.clock))
          | _ => none
      | _, _ => none
  | .workerEnded =>
      if s.phase.active ∧ s.worker.task = .returned then some (s.halt (.saving .worker s.clock true))
      else none
  | .drained =>
      match s.phase with
      | .draining ending since =>
          if s.worker.task = .returned then some { s with phase := .saving ending since true } else none
      | _ => none
  | .cutOff =>
      match s.phase with
      | .draining ending since =>
          if since + DRAIN_TIMEOUT ≤ s.clock then some { s with phase := .saving ending since false }
          else none
      | _ => none
  | .save ok =>
      match s.phase, s.loops[s.taken.length]? with
      | .saving _ _ _, some loop =>
          if ok then some { s with taken := s.taken ++ [loop.session.core.store] }
          else some { s with phase := .returned none }
      | _, _ => none
  | .finish =>
      match s.phase with
      | .saving ending _ _ =>
          if s.taken.length = s.loops.length then some { s with phase := .returned (some ending) } else none
      | _ => none

def initial (clock : Nat) : State where
  worker := Worker.initial clock MESSAGE_QUEUE_BOUND 1
  phase := .opening
  loops := []
  delay := 2
  startedAt := clock
  waits := []
  taken := []

/-- Runs of the program, at a time after those that left the state files. -/
def machine : System State Action where
  start := fun s => ∃ clock, (∀ account ∈ setup.accounts, ∀ team user,
    (account.past team user).clock ≤ clock) ∧ s = initial clock
  step := step setup

end

end SjmbSlack.UserSession.Accounts
