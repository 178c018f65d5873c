import SjmbSlack.UserSession.SaveOrder

/-! Runs of the saves of one store: what the state file shows, and that a save
that is left alone returns. -/
namespace SjmbSlack.UserSession.Saves
open Machine Persist

section

variable {fromSlice : List UInt8 → Option Snapshot} {team user : Str} {window : Int}
  {s t : State} {a : Action}

theorem saveInv_start (hwide : ∀ bytes data, fromSlice bytes = some data → Wide data)
    (hs : (machine fromSlice window team user).start s) : SaveInv team user s := by
  obtain ⟨files, opened, rfl, hclock, hopen⟩ := hs
  exact {
    opened := openedInv_start hwide hclock hopen
    waiting := .nil
    calls := nofun
    captured := .nil
    limits := nofun
    earlier := nofun
    opener := nofun
    unique := .nil
    pool := nofun
    holder := nofun
    files := ⟨fun _ => rfl, nofun, nofun, nofun⟩
    returned := nofun
    done := nofun }

theorem saveInv_reachable (hwide : ∀ bytes data, fromSlice bytes = some data → Wide data)
    (hwindow : 0 ≤ window ∧ window ≤ MAX_WINDOW)
    (h : ReachableBy (machine fromSlice window team user) InOrder s) : SaveInv team user s :=
  h.invariant (fun _ => saveInv_start hwide)
    fun _ _ _ _ hinv horder hs => saveInv_step hwindow hinv horder hs

def Succeeds (s t : State) : Prop :=
  t.files.read .state = s.files.read .state ∧ t.shown = s.shown ∨
    ∃ call, t.shown = some call ∧ ∀ earlier, s.shown = some earlier → earlier < call

theorem SaveInv.succeeds_run (h : SaveInv team user s) {call count : Nat}
    (horder : InOrder s (.run call count)) (hs : s.run call count = some t) : Succeeds s t := by
  unfold State.run at hs
  split at hs
  · contradiction
  · cases Option.some.inj hs
    exact .inl ⟨Files.read_openTruncate_ne nofun, rfl⟩
  · rename_i inode offset bytes hwork
    have hopener : s.opener = some call := of_decide_eq_true (horder.work (task_of_work hwork))
    obtain ⟨data, -, hpromised⟩ := h.pool _ (task_of_work hwork)
    have hentry := (hpromised hopener).1
    have hstate : s.files.entry .state ≠ some inode := fun hstate =>
      absurd (s.files.single _ _ _ hstate hentry) nofun
    split at hs <;> cases Option.some.inj hs
    · exact .inl ⟨Files.read_writeAt_ne hstate .., rfl⟩
    · exact .inl ⟨Files.read_writeAt_ne hstate .., rfl⟩
  · cases Option.some.inj hs
    exact .inl ⟨rfl, rfl⟩
  · rename_i hwork
    have hopener : s.opener = some call := of_decide_eq_true (horder.work (task_of_work hwork))
    obtain ⟨data, -, hpromised⟩ := h.pool _ (task_of_work hwork)
    have hread := hpromised hopener
    obtain ⟨files, hrename, -⟩ := h.ranRename (task_of_work hwork) hopener
    rw [hrename] at hs
    cases Option.some.inj hs
    refine .inr ⟨call, rfl, fun earlier hshown => ?_⟩
    obtain ⟨last, hlast, hle⟩ := h.files.last earlier hshown
    cases Option.some.inj (hlast.symm.trans hopener)
    refine lt_of_le_of_ne hle fun heq => ?_
    have hmoved := h.files.moved earlier hshown (heq ▸ hopener)
    rw [hread] at hmoved
    contradiction

theorem SaveInv.succeeds (h : SaveInv team user s) (horder : InOrder s a)
    (hs : s.step window a = some t) : Succeeds s t := by
  unfold State.step at hs
  split at hs
  · contradiction
  · cases a with
    | run call count => exact h.succeeds_run horder hs
    | store action =>
        obtain ⟨opened, -, rfl⟩ := Option.map_eq_some_iff.mp hs
        exact .inl ⟨rfl, rfl⟩
    | acquire =>
        simp only [State.acquire] at hs
        split at hs
        · split at hs <;> cases Option.some.inj hs <;> exact .inl ⟨rfl, rfl⟩
        · contradiction
    | resume =>
        simp only [State.resume] at hs
        split at hs
        · contradiction
        · split at hs
          · contradiction
          · split at hs
            · contradiction
            · split at hs <;> cases Option.some.inj hs <;> exact .inl ⟨rfl, rfl⟩
            all_goals
              cases Option.some.inj hs
              exact .inl ⟨rfl, rfl⟩
    | fault call =>
        simp only [State.fault] at hs
        split at hs
        · contradiction
        all_goals
          cases Option.some.inj hs
          exact .inl ⟨rfl, rfl⟩
    | call | drop call | crash =>
        cases Option.some.inj hs
        exact .inl ⟨rfl, rfl⟩

def Action.working : Action → Bool
  | .acquire | .resume | .run _ _ => true
  | _ => false

inductive Continues (window : Int) : State → State → Prop where
  | done (s : State) : Continues window s s
  | next {s t u : State} {a : Action} : a.working = true → InOrder s a →
      s.step window a = some t → Continues window t u → Continues window s u

theorem Continues.trans {u : State} (h : Continues window s t) (hrest : Continues window t u) :
    Continues window s u := by
  induction h with
  | done => exact hrest
  | next hworking horder hs _ ih => exact .next hworking horder hs (ih hrest)

def Save.remaining (save : Save) : Nat :=
  (match save.stage with
    | .opening => 2 * save.bytes.length + 6
    | .writing _ _ left => 2 * left.length + 4
    | .synced => 2
    | .failing | .renamed => 0) + if save.handed then 1 else 0

def Nearer (save : Save) (s t : State) : Prop :=
  t.holder = none ∧ (save.call ∉ s.faulted → (save.call, true) ∈ t.returned) ∨
    ∃ next, t.holder = some next ∧ next.call = save.call ∧ next.remaining < save.remaining

theorem SaveInv.resumes (h : SaveInv team user s) {save : Save} (hholder : s.holder = some save)
    (hfree : save.handed = false) : ∃ t, s.resume = some t ∧ t.crashed = s.crashed ∧
      t.waiting = s.waiting ∧ t.faulted = s.faulted ∧ Nearer save s t := by
  have hprogress := (h.holder save hholder).progressing
  unfold Progressing at hprogress
  rw [hfree] at hprogress
  unfold State.resume
  rw [hholder]
  dsimp only
  rw [hfree, if_neg Bool.false_ne_true]
  obtain ⟨call, bytes, stage, handed⟩ := save
  cases hfree
  cases stage with
  | opening => exact absurd hprogress.1 Bool.false_ne_true
  | writing inode offset left =>
      dsimp only
      split
      · rename_i hdone
        refine ⟨_, rfl, rfl, rfl, rfl, .inr ⟨_, rfl, rfl, ?_⟩⟩
        simp [Save.remaining, hdone]
      · rename_i hleft
        refine ⟨_, rfl, rfl, rfl, rfl, .inr ⟨_, rfl, rfl, ?_⟩⟩
        have hpositive := List.length_pos_of_ne_nil hleft
        have hbuffer : 0 < BUFFER := by decide
        simp only [Save.remaining, List.length_drop, if_true, Bool.false_eq_true, if_false]
        omega
  | failing =>
      exact ⟨_, rfl, rfl, rfl, rfl, .inl ⟨rfl, fun hsound => absurd hprogress.2 hsound⟩⟩
  | synced => exact ⟨_, rfl, rfl, rfl, rfl, .inr ⟨_, rfl, rfl, by simp [Save.remaining]⟩⟩
  | renamed => exact ⟨_, rfl, rfl, rfl, rfl, .inl ⟨rfl, fun _ => List.mem_cons_self⟩⟩

theorem SaveInv.task (h : SaveInv team user s) {save : Save} (hholder : s.holder = some save)
    (hhanded : save.handed = true) : ∃ work, ⟨save.call, work⟩ ∈ s.pool ∧
      work.inOrder save.call s.opener = true ∧ (work = .openTemporary → save.stage = .opening) := by
  have hinv := h.holder save hholder
  have hprogress := hinv.progressing
  unfold Progressing at hprogress
  rw [hhanded] at hprogress
  split at hprogress
  · rename_i hstage
    refine ⟨_, hprogress.2, ?_, fun _ => hstage⟩
    cases hopener : s.opener with
    | none => rfl
    | some last =>
        obtain ⟨entry, hentry, rfl⟩ := List.mem_map.mp (h.opener last hopener)
        exact decide_eq_true (hinv.last entry hentry)
  · contradiction
  · obtain ⟨hopener, -, written, chunk, hmem, -⟩ := hprogress
    exact ⟨_, hmem, decide_eq_true hopener, nofun⟩
  · exact absurd hprogress.1 (by decide)
  · exact ⟨_, hprogress.2.2 rfl, rfl, nofun⟩
  · exact ⟨_, hprogress.2, decide_eq_true hprogress.1, nofun⟩
  · contradiction

theorem remaining_completed {save : Save} (hhanded : save.handed = true) :
    ({ save with handed := false } : Save).remaining < save.remaining := by
  simp [Save.remaining, hhanded]

theorem SaveInv.runs (h : SaveInv team user s) {save : Save} (hholder : s.holder = some save)
    (hhanded : save.handed = true) : ∃ count t, InOrder s (.run save.call count) ∧
      s.run save.call count = some t ∧ t.crashed = s.crashed ∧ t.waiting = s.waiting ∧
      t.faulted = s.faulted ∧ Nearer save s t := by
  obtain ⟨work, hmem, hwork, hstage⟩ := h.task hholder hhanded
  have horder : ∀ count, InOrder s (.run save.call count) := by
    refine fun count => List.all_eq_true.mpr fun task htask => ?_
    by_cases hcall : task.call = save.call
    · have hsame := unique_task h.unique hmem (hcall ▸ htask : ⟨save.call, task.work⟩ ∈ s.pool)
      rw [← hsame, hwork, Bool.or_true]
    · rw [decide_eq_true hcall, Bool.true_or]
  have hfind : (s.pool.find? fun task => task.call = save.call).map Task.work = some work := by
    have := find_of_mem h.unique hmem
    rw [this]
    rfl
  have hcompleted : ∀ stage : Save → Stage, (s.complete save.call stage).holder =
      some { save with stage := stage save, handed := false } := by
    intro stage
    unfold State.complete
    dsimp only
    rw [hholder, Option.map_some, if_pos rfl]
  suffices hrun : ∃ count t, s.run save.call count = some t ∧ t.crashed = s.crashed ∧
      t.waiting = s.waiting ∧ t.faulted = s.faulted ∧ Nearer save s t from
    have ⟨count, t, hrun, hkept⟩ := hrun
    ⟨count, t, horder count, hrun, hkept⟩
  simp only [State.run, hfind]
  cases work with
  | openTemporary =>
      refine ⟨0, _, rfl, rfl, rfl, rfl, .inr ⟨_, hcompleted _, rfl, ?_⟩⟩
      simp [Save.remaining, hstage rfl, hhanded]
  | write inode offset bytes =>
      exact ⟨bytes.length, _, if_neg (Nat.lt_irrefl _), rfl, rfl, rfl,
        .inr ⟨_, hcompleted Save.stage, rfl, remaining_completed hhanded⟩⟩
  | sync =>
      exact ⟨0, _, rfl, rfl, rfl, rfl,
        .inr ⟨_, hcompleted Save.stage, rfl, remaining_completed hhanded⟩⟩
  | rename =>
      obtain ⟨files, hrename, -⟩ := h.ranRename hmem (of_decide_eq_true hwork)
      simp only [hrename]
      exact ⟨0, _, rfl, rfl, rfl, rfl,
        .inr ⟨_, hcompleted Save.stage, rfl, remaining_completed hhanded⟩⟩

theorem SaveInv.finishes (hwindow : 0 ≤ window ∧ window ≤ MAX_WINDOW) (h : SaveInv team user s)
    (hcrashed : s.crashed = false) {save : Save} (hholder : s.holder = some save) :
    ∃ t, Continues window s t ∧ t.crashed = false ∧ t.waiting = s.waiting ∧ t.holder = none ∧
      t.faulted = s.faulted ∧ (save.call ∉ s.faulted → (save.call, true) ∈ t.returned) := by
  induction hremaining : save.remaining using Nat.strongRecOn generalizing s save with
  | _ remaining ih =>
      have hnext : ∃ a t, a.working = true ∧ InOrder s a ∧ s.step window a = some t ∧
          t.crashed = s.crashed ∧ t.waiting = s.waiting ∧ t.faulted = s.faulted ∧
          Nearer save s t := by
        cases hhanded : save.handed with
        | true =>
            obtain ⟨count, t, horder, hrun, hkept⟩ := h.runs hholder hhanded
            refine ⟨.run save.call count, t, rfl, horder, ?_, hkept⟩
            rw [State.step, if_neg (by rw [hcrashed]; exact Bool.false_ne_true)]
            exact hrun
        | false =>
            obtain ⟨t, hresume, hkept⟩ := h.resumes hholder hhanded
            refine ⟨.resume, t, rfl, rfl, ?_, hkept⟩
            rw [State.step, if_neg (by rw [hcrashed]; exact Bool.false_ne_true)]
            exact hresume
      obtain ⟨a, t, hworking, horder, hs, hsame, hwaiting, hfaulted, hnearer⟩ := hnext
      rcases hnearer with ⟨hnone, hreturned⟩ | ⟨next, hholder', hcall, hless⟩
      · exact ⟨t, .next hworking horder hs (.done t), hsame.trans hcrashed, hwaiting, hnone,
          hfaulted, hreturned⟩
      · obtain ⟨u, hrest, hucrashed, huwaiting, hufree, hufaulted, hureturned⟩ :=
          ih next.remaining (hremaining ▸ hless) (saveInv_step hwindow h horder hs)
            (hsame.trans hcrashed) hholder' rfl
        rw [hcall, hfaulted] at hureturned
        exact ⟨u, .next hworking horder hs hrest, hucrashed, huwaiting.trans hwaiting, hufree,
          hufaulted.trans hfaulted, hureturned⟩

theorem saveInv_continues (hwindow : 0 ≤ window ∧ window ≤ MAX_WINDOW) (h : SaveInv team user s)
    (hcontinues : Continues window s t) : SaveInv team user t := by
  induction hcontinues with
  | done => exact h
  | next _ horder hs _ ih => exact ih (saveInv_step hwindow h horder hs)

theorem SaveInv.waits (hwindow : 0 ≤ window ∧ window ≤ MAX_WINDOW) (h : SaveInv team user s)
    (hcrashed : s.crashed = false) (hfree : s.holder = none) {call : Nat}
    (hcall : call ∈ s.waiting) (hsound : call ∉ s.faulted) :
    ∃ t, Continues window s t ∧ (call, true) ∈ t.returned := by
  induction hwaiting : s.waiting generalizing s with
  | nil => exact absurd (hwaiting ▸ hcall) List.not_mem_nil
  | cons first rest ih =>
      have hsize := toVec_lt h.opened.clock.2 h.opened.validTeam h.opened.validUser h.opened.limits
      have hsaved : saveBytes s.opened.data = some (toVec s.opened.data) := if_pos hsize.le
      obtain ⟨t, hacquire, hholder, htwaiting, htcrashed, htfaulted⟩ : ∃ t, s.acquire = some t ∧
          t.holder = some ⟨first, toVec s.opened.data, .opening, true⟩ ∧ t.waiting = rest ∧
          t.crashed = s.crashed ∧ t.faulted = s.faulted := by
        unfold State.acquire
        rw [hfree, hwaiting]
        dsimp only
        rw [hsaved]
        exact ⟨_, rfl, rfl, rfl, rfl, rfl⟩
      have hstep : s.step window .acquire = some t := by
        rw [State.step, if_neg (by rw [hcrashed]; exact Bool.false_ne_true)]
        exact hacquire
      obtain ⟨u, hcontinues, hucrashed, huwaiting, hufree, hufaulted, hreturned⟩ :=
        (h.acquire hacquire).finishes hwindow (htcrashed.trans hcrashed) hholder
      have hreach : Continues window s u :=
        .next (a := .acquire) rfl rfl hstep hcontinues
      rcases List.mem_cons.mp (hwaiting ▸ hcall) with rfl | hmem
      · exact ⟨u, hreach, hreturned (htfaulted ▸ hsound)⟩
      · obtain ⟨v, hlast, hdone⟩ := ih (saveInv_continues hwindow h hreach) hucrashed hufree
          (by rw [huwaiting, htwaiting]; exact hmem)
          (by rw [hufaulted, htfaulted]; exact hsound) (huwaiting.trans htwaiting)
        exact ⟨v, hreach.trans hlast, hdone⟩

/-- In runs in which no operation of a dropped save runs after a later save opened the
temporary file and no failure of a save's last write goes unreported, the state file
holds what it held at first or the whole of one captured state, each later than the one
before, and a save returns an error only where the file system failed it. -/
theorem save_atomic (hwide : ∀ bytes data, fromSlice bytes = some data → Wide data)
    (hwindow : 1 ≤ window ∧ window ≤ MAX_WINDOW)
    (h : ReachableBy (machine fromSlice window team user) InOrder s) :
    (s.shown = none ∧ s.files.read .state = s.before ∨ ∃ call data, s.shown = some call ∧
      (call, data) ∈ s.captured ∧ s.files.read .state = some (toVec data)) ∧
    (s.captured.map Prod.fst).Pairwise (· < ·) ∧
    (∀ a t, InOrder s a → s.step window a = some t → Succeeds s t) ∧
    (∀ call, (call, false) ∈ s.returned → call ∈ s.faulted) ∧
    ∀ call, s.crashed = false → (call ∈ s.waiting ∨ s.holder.map Save.call = some call) →
      call ∉ s.faulted → ∃ t, Continues window s t ∧ (call, true) ∈ t.returned := by
  have hbounds : 0 ≤ window ∧ window ≤ MAX_WINDOW := by omega
  have hinv := saveInv_reachable hwide hbounds h
  refine ⟨?_, hinv.captured, fun a t horder hs => hinv.succeeds horder hs, hinv.returned,
    fun call hcrashed hcall hsound => ?_⟩
  · cases hshown : s.shown with
    | none => exact .inl ⟨rfl, hinv.files.before hshown⟩
    | some call =>
        obtain ⟨data, hdata, hread⟩ := hinv.files.shown call hshown
        exact .inr ⟨call, data, rfl, hdata, hread⟩
  · cases hholder : s.holder with
    | none =>
        refine hinv.waits hbounds hcrashed hholder (hcall.resolve_right fun heq => ?_) hsound
        rw [hholder] at heq
        contradiction
    | some save =>
        obtain ⟨t, hcontinues, htcrashed, htwaiting, htfree, htfaulted, hreturned⟩ :=
          hinv.finishes hbounds hcrashed hholder
        rcases hcall with hwaiting | heq
        · obtain ⟨u, hrest, hdone⟩ := (saveInv_continues hbounds hinv hcontinues).waits hbounds
            htcrashed htfree (htwaiting ▸ hwaiting) (htfaulted ▸ hsound)
          exact ⟨u, hcontinues.trans hrest, hdone⟩
        · rw [hholder] at heq
          cases Option.some.inj heq
          exact ⟨t, hcontinues, hreturned hsound⟩

/-- What a save that returned Ok had taken is in the state file, if no later save's state
is, and is read back from there, also after a crash. -/
theorem save_durable (hwide : ∀ bytes data, fromSlice bytes = some data → Wide data)
    (hwindow : 1 ≤ window ∧ window ≤ MAX_WINDOW)
    (h : ReachableBy (machine fromSlice window team user) InOrder s) (call : Nat)
    (hreturned : (call, true) ∈ s.returned) :
    ∃ last data, call ≤ last ∧ (last, data) ∈ s.captured ∧
      s.files.read .state = some (toVec data) ∧
      (fromSlice (toVec data) = some data.restored → ∀ later, s.opened.now ≤ later →
        openStore fromSlice ⟨true, true, false, stateFile (s.files.read .state)⟩ team user later =
          .ok data.restored) := by
  have hinv := saveInv_reachable hwide (by omega) h
  obtain ⟨last, hshown, hle⟩ := hinv.done call hreturned
  obtain ⟨data, hdata, hread⟩ := hinv.files.shown last hshown
  refine ⟨last, data, hle, hdata, hread, fun hround later hlater => ?_⟩
  obtain ⟨hclock, hteam, huser, -⟩ := hinv.opened
  have hlimits := hinv.limits _ hdata
  rw [hread]
  exact openStore_saved hteam huser hlimits hlater (toVec_lt hclock.2 hteam huser hlimits).le hround

end

theorem toVec_ne_nil (data : Snapshot) : toVec data ≠ [] := by
  refine List.ne_nil_of_length_pos ?_
  have hopen : Char.utf8Size '\x7b' = 1 := by decide
  rw [length_toVec, snapshotText, object, List.cons_append, Str.byteLength_cons, hopen]
  exact Nat.lt_of_lt_of_le Nat.one_pos (Nat.le_add_right ..)

def noFiles : Files FileName := ⟨[], fun _ => none, nofun, nofun⟩

def sampleStart : State :=
  .initial noFiles ⟨.fresh "T1".toList "U1".toList, 1000000000⟩

def saveToRename (call : Nat) : List Action :=
  [.call, .acquire, .run call 0, .resume, .run call 1000, .resume, .run call 0, .resume]

/-- The connection is lost while its save waits for the rename; the next save opens the
temporary file before the rename runs. -/
def abandonedRun : List Action :=
  saveToRename 0 ++ [.drop 0, .call, .acquire, .run 1 0, .run 0 0]

/-- The disk is full in the midst of the only write of a save, which is not told. -/
def unreportedRun : List Action :=
  [.call, .acquire, .run 0 0, .resume, .run 0 10, .fault 0, .resume, .run 0 0, .resume, .run 0 0,
    .resume]

theorem start_sampleStart :
    (machine readSample 86400 "T1".toList "U1".toList).start sampleStart :=
  ⟨_, _, rfl, ⟨by decide, by decide⟩, rfl⟩

theorem state_file_emptied :
    ∃ s t u : State, Reachable (machine readSample 86400 "T1".toList "U1".toList) s ∧
      s.before = none ∧ s.files.read .state = some [] ∧
      (∀ entry ∈ s.captured, s.files.read .state ≠ some (toVec entry.2)) ∧
      Reachable (machine readSample 86400 "T1".toList "U1".toList) t ∧
      (1, false) ∈ t.returned ∧ t.faulted = [] ∧
      Reachable (machine readSample 86400 "T1".toList "U1".toList) u ∧
      (0, true) ∈ u.returned ∧ u.before = none ∧
      (∀ entry ∈ u.captured, u.files.read .state ≠ some (toVec entry.2)) := by
  have hemptied : ∃ s : State, Reachable (machine readSample 86400 "T1".toList "U1".toList) s ∧
      (s.before = none ∧ s.files.read .state = some []) :=
    exists_reachable abandonedRun start_sampleStart (by decide +kernel)
  have hfailed : ∃ t : State, Reachable (machine readSample 86400 "T1".toList "U1".toList) t ∧
      ((1, false) ∈ t.returned ∧ t.faulted = []) :=
    exists_reachable (abandonedRun ++ [.resume, .run 1 1000, .resume, .run 1 0, .resume, .run 1 0])
      start_sampleStart (by decide +kernel)
  have hcut : ∃ u : State, Reachable (machine readSample 86400 "T1".toList "U1".toList) u ∧
      ((0, true) ∈ u.returned ∧ u.before = none ∧
        u.captured = [(0, .fresh "T1".toList "U1".toList)] ∧
        u.files.read .state = some ((toVec (.fresh "T1".toList "U1".toList)).take 10)) :=
    exists_reachable unreportedRun start_sampleStart (by decide +kernel)
  obtain ⟨s, hs, hbefore, hread⟩ := hemptied
  obtain ⟨t, ht, hreturned, hfaulted⟩ := hfailed
  obtain ⟨u, hu, hdone, hnone, hcaptured, hpart⟩ := hcut
  refine ⟨s, t, u, hs, hbefore, hread, fun entry _ => ?_, ht, hreturned, hfaulted, hu, hdone,
    hnone, fun entry hmem => ?_⟩
  · rw [hread]
    exact fun heq => toVec_ne_nil entry.2 (Option.some.inj heq).symm
  · rw [hcaptured] at hmem
    cases List.mem_singleton.mp hmem
    rw [hpart]
    decide +kernel

def joinedStore : Snapshot :=
  Operation.apply 86400 1000000000 (.fresh "T1".toList "U1".toList)
    (.addChannel "C1".toList 1000000000)

/-- The rename of a dropped save runs before the next save, of a changed store, opens the
temporary file. -/
def overtakenRun : List Action :=
  saveToRename 0 ++ [.drop 0, .store (.call (.addChannel "C1".toList 1000000000)), .call,
    .run 0 0]

def nextSave : List Action :=
  [.acquire, .run 1 0, .resume, .run 1 40, .run 1 1000, .resume, .run 1 0, .resume, .run 1 0,
    .resume]

theorem save_atomic_undisturbed :
    ∃ s t : State, s.returned = [] ∧
      s.files.read .state = some (toVec (.fresh "T1".toList "U1".toList)) ∧
      t.returned = [(1, true)] ∧ t.files.read .state = some (toVec joinedStore) := by
  have hovertaken : ∃ s : State,
      ReachableBy (machine readSample 86400 "T1".toList "U1".toList) InOrder s ∧
      (s.shown = some 0 ∧ s.captured = [(0, .fresh "T1".toList "U1".toList)] ∧
        s.returned = []) :=
    exists_reachableBy overtakenRun start_sampleStart (by decide +kernel)
  have hnext : ∃ t : State,
      ReachableBy (machine readSample 86400 "T1".toList "U1".toList) InOrder t ∧
      (t.shown = some 1 ∧ t.captured = [(0, .fresh "T1".toList "U1".toList), (1, joinedStore)] ∧
        t.returned = [(1, true)]) :=
    exists_reachableBy (overtakenRun ++ nextSave) start_sampleStart (by decide +kernel)
  obtain ⟨s, hs, hshown, hcaptured, hwaits⟩ := hovertaken
  obtain ⟨t, ht, htshown, htcaptured, hreturned⟩ := hnext
  refine ⟨s, t, hwaits, ?_, hreturned, ?_⟩
  · obtain ⟨hfile, -⟩ := save_atomic (fun _ _ => wide_of_readSample) (by decide) hs
    rcases hfile with ⟨hnone, -⟩ | ⟨call, data, -, hdata, hread⟩
    · rw [hshown] at hnone
      contradiction
    · rw [hcaptured] at hdata
      cases List.mem_singleton.mp hdata
      exact hread
  · obtain ⟨hfile, -⟩ := save_atomic (fun _ _ => wide_of_readSample) (by decide) ht
    rcases hfile with ⟨hnone, -⟩ | ⟨call, data, hcall, hdata, hread⟩
    · rw [htshown] at hnone
      contradiction
    · cases Option.some.inj (htshown.symm.trans hcall)
      rw [htcaptured] at hdata
      have hlast : data = joinedStore := by simpa using hdata
      exact hlast ▸ hread

def readJoined (bytes : List UInt8) : Option Snapshot :=
  if bytes = toVec joinedStore then some joinedStore.restored else none

theorem wide_of_readJoined {bytes : List UInt8} {data : Snapshot}
    (h : readJoined bytes = some data) : Wide data := by
  unfold readJoined at h
  split at h
  · cases Option.some.inj h
    refine ⟨fun entry hmem thread hthread => ?_, nofun⟩
    cases List.mem_singleton.mp hmem
    exact absurd hthread List.not_mem_nil
  · contradiction

theorem save_durable_crashed :
    ∃ s : State, s.crashed = true ∧
      openStore readJoined ⟨true, true, false, stateFile (s.files.read .state)⟩ "T1".toList
        "U1".toList 1000000060 = .ok joinedStore := by
  have hrun : ∃ s : State,
      ReachableBy (machine readJoined 86400 "T1".toList "U1".toList) InOrder s ∧
      (s.crashed = true ∧ s.opened.now = 1000000000 ∧ s.returned = [(1, true)] ∧
        s.captured = [(0, .fresh "T1".toList "U1".toList), (1, joinedStore)]) :=
    exists_reachableBy (s := sampleStart) (overtakenRun ++ nextSave ++ [.call, .crash])
      ⟨_, _, rfl, ⟨by decide, by decide⟩, rfl⟩ (by decide +kernel)
  obtain ⟨s, hs, hcrashed, hnow, hreturned, hcaptured⟩ := hrun
  obtain ⟨last, data, hle, hdata, -, hopen⟩ := save_durable
    (fun _ _ => wide_of_readJoined) (by decide) hs 1 (by rw [hreturned]; decide)
  have hlast : data = joinedStore := by
    rw [hcaptured] at hdata
    rcases List.mem_cons.mp hdata with heq | hdata
    · cases heq
      exact absurd hle (by decide)
    · cases List.mem_singleton.mp hdata
      rfl
  subst hlast
  exact ⟨s, hcrashed, hopen (if_pos rfl) 1000000060 (by rw [hnow]; decide)⟩

end SjmbSlack.UserSession.Saves
