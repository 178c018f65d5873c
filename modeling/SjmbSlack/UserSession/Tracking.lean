import Mathlib.Data.List.Induction
import SjmbSlack.Json
import SjmbSlack.UserSession.Capacity

/-! Which threads the store tracks after the calls of several tasks: the last use of
a thread against the prunes that follow it. -/
namespace SjmbSlack.UserSession
open Persist

def Snapshot.used (data : Snapshot) (id thread : Str) : Option Int :=
  (data.channels.get id).bind fun channel => channel.threads.get thread

/-- The operations of the tasks that run beside a pass of the recovery. -/
def Persist.Operation.concurrent : Operation → Bool
  | .beginConnection _ _ | .forgetThread _ _ => false
  | _ => true

/-- A thread with an invalid timestamp is ignored. -/
def validThread (id parent : Str) : Option (Str × Str) :=
  if validTs parent then some (id, parent) else none

def Persist.Operation.noted : Operation → Option (Str × Str)
  | .rememberThread id parent => validThread id parent
  | .processed channel _ thread _ => thread.bind (validThread channel)
  | _ => none

def Persist.Operation.pruned (now : Int) : Operation → Option Int
  | .rememberThread _ _ | .checkpoint _ => some now
  | .processed _ _ _ time => some time
  | _ => none

structure Aside where
  now : Int
  operation : Operation
  concurrent : operation.concurrent = true

/-- A call of the store; `event` is what `process` makes it for. -/
structure Call extends Aside where
  event : Option Json

def Aside.call (aside : Aside) : Call := { aside with event := none }

def Call.pruned (call : Call) : Option Int := call.operation.pruned call.now

def replay (window : Int) (calls : List Call) (data : Snapshot) : Snapshot :=
  calls.foldl (fun data call => call.operation.apply window call.now data) data

def Lasts (window used : Int) (calls : List Call) : Prop :=
  ∀ call ∈ calls, ∀ time, call.pruned = some time → time - window ≤ used

inductive Tracked (window : Int) (data : Snapshot) (id thread : Str) (used : Int) :
    List Call → Prop where
  /-- No call uses it: the store tracked it before. -/
  | before (calls : List Call)
      (hused : data.used id thread = some used)
      (hlast : ∀ call ∈ calls, call.operation.noted ≠ some (id, thread))
      (hlasts : Lasts window used calls) : Tracked window data id thread used calls
  | noted (earlier : List Call) (call : Call) (later : List Call)
      (hnoted : call.operation.noted = some (id, thread)) (hused : call.pruned = some used)
      (hknown : (replay window earlier data).channels.contains id = true)
      (hlast : ∀ other ∈ later, other.operation.noted ≠ some (id, thread))
      (hlasts : Lasts window used (call :: later)) :
      Tracked window data id thread used (earlier ++ call :: later)

namespace Snapshot

theorem mem_threads {data : Snapshot} {id thread : Str} :
    thread ∈ data.threads id ↔ ∃ used, data.used id thread = some used := by
  unfold threads used
  cases data.channels.get id with
  | none => simp
  | some channel => exact SortedMap.mem_keys

section

variable {window time : Int} {data : Snapshot} {id thread : Str}

theorem used_eq_some {used : Int} : data.used id thread = some used ↔
    toLex (used, toLex (id, thread)) ∈ tracked data.channels := by
  rw [tracked, List.mem_toFinset, mem_threadsOf, Snapshot.used, Option.bind_eq_some_iff]

theorem used_prune (h : threadCount data.channels ≤ MAX_THREADS) :
    (prune window time data).used id thread =
      (data.used id thread).filter fun used => used ≥ time - window := by
  apply Option.ext
  intro used
  rw [used_eq_some, Option.filter_eq_some_iff, used_eq_some, decide_eq_true_eq, prune,
    tracked_pruneThreads_of_few window time h, Finset.mem_filter]
  rfl

theorem used_onChannel {change : Channel → Channel} {other : Str}
    (h : ∀ channel, (change channel).threads = channel.threads) :
    (data.onChannel other change).used id thread = data.used id thread := by
  unfold used onChannel
  rw [SortedMap.get_modify]
  split
  · cases data.channels.get id with
    | none => rfl
    | some channel => exact congrArg (SortedMap.get · thread) (h channel)
  · rfl

theorem used_noteThread {other parent : Str} :
    (data.noteThread other parent time).used id thread =
      if validTs parent = true ∧ (other, parent) = (id, thread) ∧ data.channels.contains id = true then
        some time
      else data.used id thread := by
  unfold noteThread
  by_cases hvalid : validTs parent = true
  · rw [if_pos hvalid]
    unfold used onChannel SortedMap.contains
    dsimp only
    rw [SortedMap.get_modify]
    by_cases hid : id = other
    · subst hid
      cases data.channels.get id with
      | none => simp
      | some channel =>
          by_cases hthread : thread = parent
          · simp [hvalid, hthread]
          · simp [hthread, Ne.symm hthread]
    · rw [if_neg hid, if_neg fun h => hid (Prod.mk.inj h.2.1).1.symm]
  · rw [if_neg hvalid, if_neg fun h => hvalid h.1]

theorem used_addChannel {after : Snapshot} {other : Str}
    (h : data.addChannel other time = .ok after) : after.used id thread = data.used id thread := by
  unfold addChannel at h
  split at h
  · cases Except.ok.inj h
    unfold used
    dsimp only
    rw [SortedMap.get_insert]
    split
    · rename_i heq
      subst heq
      cases data.channels.get id <;> rfl
    · rfl
  · contradiction

theorem used_checkpoint {through now : Int} (h : threadCount data.channels ≤ MAX_THREADS) :
    (data.checkpoint window through now).used id thread =
      (data.used id thread).filter fun used => used ≥ now - window := by
  have hadvanced : threadCount (data.channels.map fun _ channel =>
      if ¬ channel.recovering ∧ ¬ channel.failed then
        { channel with coveredUntil := max channel.coveredUntil through }
      else channel) ≤ threadCount data.channels := by
    refine SortedMap.total_map_le (fun _ channel => ?_) _
    split <;> exact Nat.le_refl _
  unfold checkpoint
  rw [used_prune (hadvanced.trans h)]
  congr 1
  unfold used
  dsimp only
  rw [SortedMap.get_map]
  cases data.channels.get id with
  | none => rfl
  | some channel =>
      dsimp only [Option.map_some, Option.bind_some]
      split <;> rfl

theorem threadCount_noteThread_le (data : Snapshot) (id parent : Str) (time : Int) :
    threadCount (data.noteThread id parent time).channels ≤ threadCount data.channels + 1 := by
  unfold noteThread
  split
  · cases hget : data.channels.get id with
    | none =>
        have hsame : data.channels.modify id (fun channel =>
            { channel with threads := channel.threads.insert parent time }) = data.channels := by
          refine SortedMap.ext_get fun key => ?_
          rw [SortedMap.get_modify]
          split
          · rename_i heq
            rw [heq, hget]
            rfl
          · rfl
        exact (congrArg threadCount hsame).le.trans (Nat.le_succ _)
    | some channel =>
        have hinsert : data.channels.modify id (fun channel =>
            { channel with threads := channel.threads.insert parent time }) =
              data.channels.insert id { channel with threads := channel.threads.insert parent time } := by
          refine SortedMap.ext_get fun key => ?_
          rw [SortedMap.get_modify, SortedMap.get_insert]
          split
          · rename_i heq
            rw [heq, hget]
            rfl
          · rfl
        have hlength : (channel.threads.insert parent time).length ≤ channel.threads.length + 1 := by
          rw [SortedMap.length_insert]
          split <;> omega
        have htotal := SortedMap.total_insert (fun channel => channel.threads.length) data.channels id
          { channel with threads := channel.threads.insert parent time }
        rw [hget, Option.map_some, Option.getD_some] at htotal
        unfold onChannel threadCount
        dsimp only at htotal ⊢
        rw [hinsert]
        omega
  · exact Nat.le_succ _

end

end Snapshot

section

variable {window : Int} {data : Snapshot} {id thread : Str} {used : Int}

theorem used_remember (h : Snapshot.threadCount data.channels < MAX_THREADS) (other parent : Str)
    (now : Int) : (Snapshot.prune window now (data.noteThread other parent now)).used id thread =
      (if validTs parent = true ∧ (other, parent) = (id, thread) ∧ data.channels.contains id = true
        then some now else data.used id thread).filter fun used => used ≥ now - window := by
  have hcount := data.threadCount_noteThread_le other parent now
  rw [Snapshot.used_prune (by omega), Snapshot.used_noteThread]

theorem validThread_eq_some {other parent : Str} : validThread other parent = some (id, thread) ↔
    validTs parent = true ∧ (other, parent) = (id, thread) := by
  unfold validThread
  split
  · rename_i hvalid
    simp [hvalid]
  · rename_i hinvalid
    simp [hinvalid]

theorem used_apply {operation : Operation} (hconcurrent : operation.concurrent = true)
    (h : Snapshot.threadCount data.channels < MAX_THREADS) (now : Int) :
    (operation.apply window now data).used id thread =
      (if operation.noted = some (id, thread) ∧ data.channels.contains id = true
        then operation.pruned now else data.used id thread).filter fun used =>
          (operation.pruned now).all fun time => used ≥ time - window := by
  have hkept : ∀ after : Snapshot, after.used id thread = data.used id thread →
      after.used id thread = (data.used id thread).filter fun _ => true := fun after hused => by
    rw [hused]
    cases data.used id thread <;> rfl
  cases operation with
  | beginConnection | forgetThread => contradiction
  | failed other =>
      exact hkept _ (Snapshot.used_onChannel fun _ => rfl)
  | retryChannel other =>
      exact hkept _ (Snapshot.used_onChannel fun _ => rfl)
  | finishRecovery other through =>
      refine hkept _ (Snapshot.used_onChannel fun channel => ?_)
      split <;> rfl
  | addChannel other time =>
      refine hkept _ ?_
      unfold Operation.apply
      dsimp only
      split
      · exact Snapshot.used_addChannel ‹_›
      · rfl
  | rememberThread other parent =>
      unfold Operation.apply Snapshot.rememberThread
      dsimp only
      rw [used_remember h]
      refine congrArg _ (if_congr ?_ rfl rfl)
      rw [Operation.noted, validThread_eq_some, and_assoc]
  | processed other ts parent time =>
      unfold Operation.apply Snapshot.processed
      dsimp only
      generalize hpushed : ({ data with seen := data.seen ++ [⟨other, ts, time⟩] } : Snapshot) = pushed
      have hchannels : pushed.channels = data.channels := hpushed ▸ rfl
      have hused : pushed.used id thread = data.used id thread := by
        unfold Snapshot.used
        rw [hchannels]
      rw [← hchannels] at h ⊢
      rw [← hused]
      cases parent with
      | none =>
          dsimp only
          rw [Snapshot.used_prune h.le]
          exact congrArg _ (if_neg fun hnoted => (nomatch hnoted.1)).symm
      | some parent =>
          dsimp only
          rw [used_remember h]
          refine congrArg _ (if_congr ?_ rfl rfl)
          rw [Operation.noted, Option.bind_some, validThread_eq_some, and_assoc]
  | checkpoint through =>
      unfold Operation.apply
      dsimp only
      rw [Snapshot.used_checkpoint h.le]
      simp only [Operation.noted, Operation.pruned, Option.all_some, reduceCtorEq, false_and, if_false]

theorem replay_append (calls more : List Call) (data : Snapshot) :
    replay window (calls ++ more) data = replay window more (replay window calls data) :=
  List.foldl_append

theorem contains_of_used (h : data.used id thread = some used) : data.channels.contains id = true := by
  obtain ⟨channel, hchannel, -⟩ := Option.bind_eq_some_iff.mp h
  unfold SortedMap.contains
  rw [hchannel]
  rfl

theorem all_pruned {call : Call} :
    ((call.operation.pruned call.now).all fun time => used ≥ time - window) = true ↔
      ∀ time, call.pruned = some time → time - window ≤ used := by
  unfold Call.pruned
  cases call.operation.pruned call.now <;> simp

theorem lasts_append {calls : List Call} {call : Call} :
    Lasts window used (calls ++ [call]) ↔
      Lasts window used calls ∧ ∀ time, call.pruned = some time → time - window ≤ used := by
  unfold Lasts
  simp only [List.forall_mem_append, List.forall_mem_singleton]

theorem Tracked.snoc {calls : List Call} {call : Call} (h : Tracked window data id thread used calls)
    (hother : call.operation.noted ≠ some (id, thread))
    (hlasts : ∀ time, call.pruned = some time → time - window ≤ used) :
    Tracked window data id thread used (calls ++ [call]) := by
  cases h with
  | before calls hused hlast hearlier =>
      refine .before _ hused (fun found hmem => ?_) (lasts_append.mpr ⟨hearlier, hlasts⟩)
      rcases List.mem_append.mp hmem with hmem | hmem
      · exact hlast found hmem
      · exact List.mem_singleton.mp hmem ▸ hother
  | noted earlier use later hnoted hused hknown hlast hearlier =>
      rw [List.append_assoc, List.cons_append]
      refine .noted earlier use (later ++ [call]) hnoted hused hknown (fun found hmem => ?_) ?_
      · rcases List.mem_append.mp hmem with hmem | hmem
        · exact hlast found hmem
        · exact List.mem_singleton.mp hmem ▸ hother
      · rw [← List.cons_append]
        exact lasts_append.mpr ⟨hearlier, hlasts⟩

theorem Tracked.last {calls : List Call} {call : Call}
    (h : Tracked window data id thread used (calls ++ [call])) :
    (∀ time, call.pruned = some time → time - window ≤ used) ∧
      (call.operation.noted = some (id, thread) ∧ call.pruned = some used ∧
          (replay window calls data).channels.contains id = true ∨
        call.operation.noted ≠ some (id, thread) ∧ Tracked window data id thread used calls) := by
  generalize hcalls : calls ++ [call] = all at h
  cases h with
  | before _ hused hlast hlasts =>
      subst hcalls
      obtain ⟨hearlier, hlasts⟩ := lasts_append.mp hlasts
      exact ⟨hlasts, .inr ⟨hlast call List.mem_concat_self,
        .before calls hused (fun found hmem => hlast found (List.mem_append_left _ hmem)) hearlier⟩⟩
  | noted earlier use later hnoted hused hknown hlast hlasts =>
      rcases List.eq_nil_or_concat later with rfl | ⟨later, last, rfl⟩
      · obtain ⟨rfl, heq⟩ := List.append_inj' hcalls rfl
        cases List.singleton_inj.mp heq
        exact ⟨hlasts call (List.mem_singleton.mpr rfl), .inl ⟨hnoted, hused, hknown⟩⟩
      · rw [List.concat_eq_append] at hcalls hlast hlasts
        rw [← List.cons_append, ← List.append_assoc] at hcalls
        obtain ⟨rfl, heq⟩ := List.append_inj' hcalls rfl
        cases List.singleton_inj.mp heq
        rw [← List.cons_append] at hlasts
        obtain ⟨hearlier, hlasts⟩ := lasts_append.mp hlasts
        exact ⟨hlasts, .inr ⟨hlast call List.mem_concat_self, .noted earlier use later hnoted hused hknown
          (fun found hmem => hlast found (List.mem_append_left _ hmem)) hearlier⟩⟩

/-- With room for all threads, one is tracked exactly while its last use lasts. -/
theorem used_replay {calls : List Call} (h : ∀ made, made <+: calls →
      Snapshot.threadCount (replay window made data).channels < MAX_THREADS) :
    (replay window calls data).used id thread = some used ↔
      Tracked window data id thread used calls := by
  induction calls using List.reverseRecOn with
  | nil =>
      refine ⟨fun hused => .before [] hused (fun _ hmem => absurd hmem List.not_mem_nil)
        fun _ hmem => absurd hmem List.not_mem_nil, fun htracked => ?_⟩
      generalize hcalls : ([] : List Call) = calls at htracked
      cases htracked with
      | before _ hused => exact hcalls ▸ hused
      | noted earlier call later => simp at hcalls
  | append_singleton calls call ih =>
      have hroom := h calls (List.prefix_append calls [call])
      have hearlier := ih fun made hmade => h made (hmade.trans (List.prefix_append calls [call]))
      rw [replay_append, show replay window [call] (replay window calls data) =
        call.operation.apply window call.now (replay window calls data) from rfl,
        used_apply call.concurrent hroom, Option.filter_eq_some_iff, all_pruned]
      constructor
      · rintro ⟨hused, hlasts⟩
        split at hused
        · rename_i hnoted
          exact .noted calls call [] hnoted.1 hused hnoted.2 (fun _ hmem => absurd hmem List.not_mem_nil)
            fun other hmem => List.mem_singleton.mp hmem ▸ hlasts
        · rename_i hother
          exact (hearlier.mp hused).snoc (fun hnoted => hother ⟨hnoted, contains_of_used hused⟩) hlasts
      · intro htracked
        obtain ⟨hlasts, ⟨hnoted, hused, hknown⟩ | ⟨hother, htracked⟩⟩ := htracked.last
        · exact ⟨(if_pos ⟨hnoted, hknown⟩).trans hused, hlasts⟩
        · exact ⟨(if_neg fun hnoted => hother hnoted.1).trans (hearlier.mpr htracked), hlasts⟩

end

end SjmbSlack.UserSession
