import SjmbSlack.Library.Files
import SjmbSlack.UserSession.Capacity

/-! `Store::save` with its lock, the blocking pool that works on its file
operations, and the files. A save is suspended wherever the code awaits, and what
it has handed to the pool stays there when it is dropped. -/
namespace SjmbSlack.UserSession.Saves
open Machine Persist

inductive FileName where
  | state
  | temporary
  deriving DecidableEq

/-- The most that a file of `tokio` writes in one operation. -/
def BUFFER : Nat := 2 * 1024 * 1024

inductive Work where
  | openTemporary
  | write (inode offset : Nat) (bytes : List UInt8)
  | sync
  | rename

structure Task where
  call : Nat
  work : Work

/-- Where a save is once the operation it handed over is done. A write that failed is
reported by the next write. -/
inductive Stage where
  | opening
  | writing (inode offset : Nat) (left : List UInt8)
  | failing
  | synced
  | renamed

/-- The save that has the lock; `handed` says that it waits for the pool. -/
structure Save where
  call : Nat
  bytes : List UInt8
  stage : Stage
  handed : Bool

/-- After a failed write; the failure of the last one is not reported. -/
def Save.afterFault (save : Save) : Stage :=
  match save.stage with
  | .writing _ _ (_ :: _) => .failing
  | stage => stage

def Save.lastWrite (save : Save) : Bool :=
  match save.stage with
  | .writing _ _ [] => true
  | _ => false

/-- `waiting` holds the calls that wait for the lock, in order. The fields from
`before` on record what happened: what the state file held when the store was
opened, the state that each call captured, the call whose open of the temporary
file ran last, the one whose rename did, the calls that the file system failed, and
what calls returned. -/
structure State where
  opened : Opened
  files : Files FileName
  calls : Nat
  waiting : List Nat
  holder : Option Save
  pool : List Task
  crashed : Bool
  before : Option (List UInt8)
  captured : List (Nat × Snapshot)
  opener : Option Nat
  shown : Option Nat
  faulted : List Nat
  returned : List (Nat × Bool)

inductive Action where
  | store (action : Persist.Action)
  | call
  | acquire
  | resume
  /-- The pool works on the operation of a call; a write can stop in between. -/
  | run (call count : Nat)
  | drop (call : Nat)
  | fault (call : Nat)
  | crash

namespace State

def acquire (s : State) : Option State :=
  match s.holder, s.waiting with
  | none, call :: rest =>
      let s := { s with
        waiting := rest
        captured := s.captured ++ [(call, s.opened.data)] }
      match saveBytes s.opened.data with
      | none => some { s with returned := (call, false) :: s.returned }
      | some bytes => some { s with
          holder := some ⟨call, bytes, .opening, true⟩
          pool := s.pool ++ [⟨call, .openTemporary⟩] }
  | _, _ => none

def hand (s : State) (save : Save) (work : Work) (stage : Stage) : State :=
  { s with
    holder := some { save with stage := stage, handed := true }
    pool := s.pool ++ [⟨save.call, work⟩] }

def resume (s : State) : Option State :=
  match s.holder with
  | none => none
  | some save =>
      if save.handed then none
      else match save.stage with
        | .opening => none
        | .writing inode offset left =>
            if left = [] then some (s.hand save .sync .synced)
            else
              let chunk := left.take BUFFER
              some (s.hand save (.write inode offset chunk)
                (.writing inode (offset + chunk.length) (left.drop BUFFER)))
        | .failing => some { s with
            holder := none
            returned := (save.call, false) :: s.returned }
        | .synced => some (s.hand save .rename .renamed)
        | .renamed => some { s with
            holder := none
            returned := (save.call, true) :: s.returned }

def complete (s : State) (call : Nat) (stage : Save → Stage) : State :=
  { s with
    pool := s.pool.filter fun task => task.call ≠ call
    holder := s.holder.map fun save =>
      if save.call = call then { save with stage := stage save, handed := false } else save }

def fail (s : State) (call : Nat) : State :=
  { s with
    pool := s.pool.filter fun task => task.call ≠ call
    holder := s.holder.filter fun save => save.call ≠ call
    returned := if s.holder.any fun save => save.call = call then (call, false) :: s.returned
      else s.returned }

def run (s : State) (call count : Nat) : Option State :=
  match (s.pool.find? fun task => task.call = call).map Task.work with
  | none => none
  | some .openTemporary =>
      let opened := s.files.openTruncate .temporary
      some { s.complete call (fun save => .writing opened.2 0 save.bytes) with
        files := opened.1
        opener := some call }
  | some (.write inode offset bytes) =>
      if count < bytes.length then some { s with
        files := s.files.writeAt inode offset (bytes.take count)
        pool := (s.pool.filter fun task => task.call ≠ call) ++
          [⟨call, .write inode (offset + count) (bytes.drop count)⟩] }
      else some { s.complete call Save.stage with files := s.files.writeAt inode offset bytes }
  | some .sync => some (s.complete call Save.stage)
  | some .rename =>
      match s.files.rename .temporary .state with
      | some files => some { s.complete call Save.stage with files := files, shown := some call }
      | none => some (s.fail call)

def fault (s : State) (call : Nat) : Option State :=
  match (s.pool.find? fun task => task.call = call).map Task.work with
  | none => none
  | some (.write _ _ _) => some { s.complete call Save.afterFault with faulted := call :: s.faulted }
  | some _ => some { s.fail call with faulted := call :: s.faulted }

def step (window : Int) (s : State) (action : Action) : Option State :=
  if s.crashed then none
  else match action with
    | .store action => (Persist.step window s.opened action).map fun opened =>
        { s with opened := opened }
    | .call => some { s with calls := s.calls + 1, waiting := s.waiting ++ [s.calls] }
    | .acquire => s.acquire
    | .resume => s.resume
    | .run call count => s.run call count
    | .drop call => some { s with
        waiting := s.waiting.filter fun other => other ≠ call
        holder := s.holder.filter fun save => save.call ≠ call }
    | .fault call => s.fault call
    | .crash => some { s with crashed := true, waiting := [], holder := none, pool := [] }

/-- A store that was just opened; a temporary file may be left from before. -/
def initial (files : Files FileName) (opened : Opened) : State where
  opened := opened
  files := files
  calls := 0
  waiting := []
  holder := none
  pool := []
  crashed := false
  before := files.read .state
  captured := []
  opener := none
  shown := none
  faulted := []
  returned := []

end State

def stateFile (content : Option (List UInt8)) : StateFile :=
  content.elim .missing .bytes

def machine (fromSlice : List UInt8 → Option Snapshot) (window : Int) (team user : Str) :
    System State Action where
  start := fun s => ∃ files opened, s = .initial files opened ∧
    (MAX_WINDOW < opened.now ∧ opened.now ≤ Harvest.maxSeconds) ∧
    openStore fromSlice ⟨true, true, false, stateFile (files.read .state)⟩ team user opened.now =
      .ok opened.data
  step := State.step window

def Work.inOrder (call : Nat) (opener : Option Nat) : Work → Bool
  | .openTemporary => opener.all fun last => last ≤ call
  | .sync => true
  | .write _ _ _ | .rename => opener = some call

def State.inOrder (s : State) : Action → Bool
  | .run call _ => s.pool.all fun task => task.call ≠ call || task.work.inOrder call s.opener
  | .fault call => s.holder.all fun save => save.call ≠ call || !save.lastWrite
  | _ => true

/-- No operation that a dropped save left in the pool runs after a later save has
opened the temporary file, and no failure goes unreported. -/
def InOrder (s : State) (a : Action) : Prop := s.inOrder a = true

instance (s : State) (a : Action) : Decidable (InOrder s a) :=
  inferInstanceAs (Decidable (_ = true))

end SjmbSlack.UserSession.Saves
