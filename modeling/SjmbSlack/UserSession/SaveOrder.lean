import SjmbSlack.UserSession.Save

/-! What the state file holds in runs in which no dropped save interferes with a
later one. -/
namespace SjmbSlack.UserSession.Saves
open Machine Persist

/-- What an operation in the pool finds when it runs in order. -/
def Promised (s : State) (call : Nat) (bytes : List UInt8) : Work → Prop
  | .openTemporary => s.opener ≠ some call
  | .write inode offset chunk => s.opener = some call →
      s.files.entry .temporary = some inode ∧ ∃ written left, bytes = written ++ chunk ++ left ∧
        written.length = offset ∧ s.files.read .temporary = some written
  | .sync => True
  | .rename => s.opener = some call → s.files.read .temporary = some bytes

def Progressing (s : State) (save : Save) : Prop :=
  match save.stage, save.handed with
  | .opening, handed => handed = true ∧ ⟨save.call, .openTemporary⟩ ∈ s.pool
  | .writing inode offset left, false => s.opener = some save.call ∧
      s.files.entry .temporary = some inode ∧ ∃ written, save.bytes = written ++ left ∧
        written.length = offset ∧ s.files.read .temporary = some written
  | .writing inode offset left, true => s.opener = some save.call ∧
      s.files.entry .temporary = some inode ∧ ∃ written chunk,
        ⟨save.call, .write inode written.length chunk⟩ ∈ s.pool ∧
        save.bytes = written ++ chunk ++ left ∧ offset = written.length + chunk.length ∧
        s.files.read .temporary = some written
  | .failing, handed => handed = false ∧ save.call ∈ s.faulted
  | .synced, handed => s.opener = some save.call ∧
      s.files.read .temporary = some save.bytes ∧
      (handed = true → ⟨save.call, .sync⟩ ∈ s.pool)
  | .renamed, true => s.opener = some save.call ∧ ⟨save.call, .rename⟩ ∈ s.pool
  | .renamed, false => s.opener = some save.call ∧ s.shown = some save.call

structure HolderInv (s : State) (save : Save) : Prop where
  captured : ∃ data, (save.call, data) ∈ s.captured ∧ save.bytes = toVec data
  last : ∀ entry ∈ s.captured, entry.1 ≤ save.call
  handed : ∀ task ∈ s.pool, task.call = save.call → save.handed = true
  progressing : Progressing s save

structure ShownInv (s : State) : Prop where
  before : s.shown = none → s.files.read .state = s.before
  shown : ∀ call, s.shown = some call → ∃ data, (call, data) ∈ s.captured ∧
    s.files.read .state = some (toVec data)
  last : ∀ call, s.shown = some call → ∃ opener, s.opener = some opener ∧ call ≤ opener
  moved : ∀ call, s.shown = some call → s.opener = some call → s.files.read .temporary = none

structure SaveInv (team user : Str) (s : State) : Prop where
  opened : OpenedInv team user s.opened
  waiting : s.waiting.Pairwise (· < ·)
  calls : ∀ call ∈ s.waiting, call < s.calls
  captured : (s.captured.map Prod.fst).Pairwise (· < ·)
  limits : ∀ entry ∈ s.captured, Limits team user s.opened.now entry.2
  earlier : ∀ entry ∈ s.captured, entry.1 < s.calls ∧ ∀ call ∈ s.waiting, entry.1 < call
  opener : ∀ call, s.opener = some call → call ∈ s.captured.map Prod.fst
  unique : (s.pool.map Task.call).Nodup
  pool : ∀ task ∈ s.pool, ∃ data, (task.call, data) ∈ s.captured ∧
    Promised s task.call (toVec data) task.work
  holder : ∀ save, s.holder = some save → HolderInv s save
  files : ShownInv s
  returned : ∀ call, (call, false) ∈ s.returned → call ∈ s.faulted
  done : ∀ call, (call, true) ∈ s.returned → ∃ last, s.shown = some last ∧ call ≤ last

section

variable {team user : Str} {window : Int} {s t : State} {a : Action} {call count : Nat}

theorem find_of_mem (hunique : (s.pool.map Task.call).Nodup) {task : Task} (hmem : task ∈ s.pool) :
    s.pool.find? (fun other => other.call = task.call) = some task := by
  cases hfind : s.pool.find? fun other => other.call = task.call with
  | none => simpa using List.find?_eq_none.mp hfind task hmem
  | some found =>
      have hcall : found.call = task.call := by simpa using List.find?_some hfind
      rw [List.inj_on_of_nodup_map hunique (List.mem_of_find?_eq_some hfind) hmem hcall]

theorem task_of_work {work : Work}
    (h : (s.pool.find? fun task => task.call = call).map Task.work = some work) :
    ⟨call, work⟩ ∈ s.pool := by
  obtain ⟨⟨found, _⟩, hfind, rfl⟩ := Option.map_eq_some_iff.mp h
  have hcall : found = call := by simpa using List.find?_some hfind
  exact hcall ▸ List.mem_of_find?_eq_some hfind

theorem unique_task (hunique : (s.pool.map Task.call).Nodup) {work other : Work}
    (h : ⟨call, work⟩ ∈ s.pool) (hother : ⟨call, other⟩ ∈ s.pool) : work = other := by
  cases List.inj_on_of_nodup_map hunique h hother rfl
  rfl

theorem Promised.kept {bytes : List UInt8} {work : Work} (h : Promised s call bytes work)
    (hkept : t.opener = some call → t.opener = s.opener ∧ t.files = s.files) :
    Promised t call bytes work := by
  cases work with
  | openTemporary => exact fun heq => h ((hkept heq).1.symm.trans heq)
  | write inode offset chunk =>
      intro heq
      obtain ⟨hopener, hfiles⟩ := hkept heq
      rw [hfiles]
      exact h (hopener.symm.trans heq)
  | sync => trivial
  | rename =>
      intro heq
      obtain ⟨hopener, hfiles⟩ := hkept heq
      rw [hfiles]
      exact h (hopener.symm.trans heq)

theorem HolderInv.kept {save : Save} (h : HolderInv s save) (hcaptured : t.captured = s.captured)
    (hfaulted : s.faulted ⊆ t.faulted)
    (hpool : ∀ task : Task, task.call = save.call → (task ∈ t.pool ↔ task ∈ s.pool))
    (hkept : s.opener = some save.call →
      t.opener = s.opener ∧ t.files = s.files ∧ t.shown = s.shown) : HolderInv t save := by
  refine ⟨hcaptured ▸ h.captured, hcaptured ▸ h.last,
    fun task hmem hcall => h.handed task ((hpool task hcall).mp hmem) hcall, ?_⟩
  have hprogress := h.progressing
  unfold Progressing at hprogress ⊢
  split at hprogress
  · exact ⟨hprogress.1, (hpool _ rfl).mpr hprogress.2⟩
  · obtain ⟨hopener, hrest⟩ := hprogress
    obtain ⟨hsame, hfiles, -⟩ := hkept hopener
    rw [hfiles]
    exact ⟨hsame.trans hopener, hrest⟩
  · obtain ⟨hopener, hentry, written, chunk, hmem, hrest⟩ := hprogress
    obtain ⟨hsame, hfiles, -⟩ := hkept hopener
    rw [hfiles]
    exact ⟨hsame.trans hopener, hentry, written, chunk, (hpool _ rfl).mpr hmem, hrest⟩
  · exact ⟨hprogress.1, hfaulted hprogress.2⟩
  · obtain ⟨hopener, hread, hsync⟩ := hprogress
    obtain ⟨hsame, hfiles, -⟩ := hkept hopener
    rw [hfiles]
    exact ⟨hsame.trans hopener, hread, fun hhanded => (hpool _ rfl).mpr (hsync hhanded)⟩
  · obtain ⟨hopener, hmem⟩ := hprogress
    exact ⟨(hkept hopener).1.trans hopener, (hpool _ rfl).mpr hmem⟩
  · obtain ⟨hopener, hshown⟩ := hprogress
    obtain ⟨hsame, -, hkept⟩ := hkept hopener
    exact ⟨hsame.trans hopener, hkept.trans hshown⟩

/-- An operation of a call is done. It can change the files only if no later call has
opened the temporary file. -/
theorem SaveInv.complete (h : SaveInv team user s) {stage : Save → Stage}
    {files : Files FileName} {opener shown : Option Nat}
    (hopener : ∀ c, opener = some c → c ∈ s.captured.map Prod.fst)
    (hothers : ∀ c, c ≠ call → opener = some c → opener = s.opener ∧ files = s.files)
    (hlocked : ∀ save, s.holder = some save → save.call ≠ call → s.opener = some save.call →
      opener = s.opener ∧ files = s.files ∧ shown = s.shown)
    (hnewer : ∀ last, s.shown = some last → ∃ later, shown = some later ∧ last ≤ later)
    (hholder : ∀ save, s.holder = some save → save.call = call → Progressing
      { s.complete call stage with files := files, opener := opener, shown := shown }
      { save with stage := stage save, handed := false })
    (hfiles : ShownInv
      { s.complete call stage with files := files, opener := opener, shown := shown }) :
    SaveInv team user
      { s.complete call stage with files := files, opener := opener, shown := shown } :=
  { h with
    opener := hopener
    unique := h.unique.sublist (List.filter_sublist.map _)
    pool := by
      intro task hmem
      obtain ⟨hmem, hne⟩ := List.mem_filter.mp hmem
      obtain ⟨data, hdata, hpromised⟩ := h.pool task hmem
      exact ⟨data, hdata, hpromised.kept (hothers _ (of_decide_eq_true hne))⟩
    holder := by
      intro save heq
      obtain ⟨found, hfound, rfl⟩ := Option.map_eq_some_iff.mp heq
      have hinv := h.holder found hfound
      by_cases hcall : found.call = call
      · rw [if_pos hcall]
        refine ⟨hinv.captured, hinv.last, fun task hmem hsame => ?_, hholder found hfound hcall⟩
        exact absurd (hsame.trans hcall) (of_decide_eq_true (List.mem_filter.mp hmem).2)
      · rw [if_neg hcall]
        refine hinv.kept rfl (List.Subset.refl _) (fun task hsame => ?_) (hlocked found hfound hcall)
        refine List.mem_filter.trans (and_iff_left (decide_eq_true ?_))
        exact fun heq => hcall (hsame.symm.trans heq)
    files := hfiles
    done := fun c hmem =>
      have ⟨last, hshown, hle⟩ := h.done c hmem
      have ⟨later, hlater, hnewer⟩ := hnewer last hshown
      ⟨later, hlater, hle.trans hnewer⟩ }

theorem HolderInv.awaits {save : Save} (h : HolderInv s save)
    (hunique : (s.pool.map Task.call).Nodup) {work : Work} (hmem : ⟨save.call, work⟩ ∈ s.pool) :
    match work with
    | .openTemporary => True
    | .write inode offset chunk => s.files.entry .temporary = some inode ∧ ∃ left written,
        save.stage = .writing inode (offset + chunk.length) left ∧
        written.length = offset ∧ save.bytes = written ++ chunk ++ left ∧
        s.files.read .temporary = some written
    | .sync => save.stage = .synced
    | .rename => save.stage = .renamed := by
  have hhanded := h.handed _ hmem rfl
  have hprogress := h.progressing
  unfold Progressing at hprogress
  rw [hhanded] at hprogress
  split at hprogress
  · cases unique_task hunique hmem hprogress.2
    trivial
  · contradiction
  · rename_i inode offset left hstage _
    obtain ⟨-, hentry, written, chunk, htask, hbytes, hoffset, hread⟩ := hprogress
    cases unique_task hunique hmem htask
    exact ⟨hentry, left, written, by rw [hstage, hoffset], rfl, hbytes, hread⟩
  · exact absurd hprogress.1 (by decide)
  · rename_i hstage
    cases unique_task hunique hmem (hprogress.2.2 rfl)
    exact hstage
  · rename_i hstage _
    cases unique_task hunique hmem hprogress.2
    exact hstage
  · contradiction

theorem ShownInv.of_write {inode offset : Nat} {chunk : List UInt8} (h : ShownInv s)
    (hentry : s.files.entry .temporary = some inode) {written : List UInt8}
    (hread : s.files.read .temporary = some written)
    (hfiles : t.files = s.files.writeAt inode offset chunk) (hbefore : t.before = s.before)
    (hcaptured : t.captured = s.captured) (hopener : t.opener = s.opener)
    (hshown : t.shown = s.shown) : ShownInv t := by
  have hstate : t.files.read .state = s.files.read .state := by
    rw [hfiles]
    refine Files.read_writeAt_ne (fun hstate => ?_) offset chunk
    exact absurd (s.files.single _ _ _ hstate hentry) nofun
  refine ⟨fun hnone => ?_, fun call hcall => ?_, fun call hcall => ?_, fun call hcall hlast => ?_⟩
  · rw [hstate, hbefore]
    exact h.before (hshown ▸ hnone)
  · rw [hstate, hcaptured]
    exact h.shown call (hshown ▸ hcall)
  · rw [hopener]
    exact h.last call (hshown ▸ hcall)
  · have hmoved := h.moved call (hshown ▸ hcall) (hopener ▸ hlast)
    rw [hread] at hmoved
    contradiction

theorem SaveInv.ranOpen (h : SaveInv team user s) (hmem : ⟨call, .openTemporary⟩ ∈ s.pool)
    (horder : ∀ last, s.opener = some last → last ≤ call) :
    SaveInv team user
      { s.complete call (fun save =>
          .writing (s.files.openTruncate .temporary).2 0 save.bytes) with
        files := (s.files.openTruncate .temporary).1
        opener := some call } := by
  obtain ⟨data, hdata, hpromised⟩ := h.pool _ hmem
  have hstate : (s.files.openTruncate .temporary).1.read .state = s.files.read .state :=
    Files.read_openTruncate_ne nofun
  refine h.complete ?_ ?_ ?_ (fun last hlast => ⟨last, hlast, Nat.le_refl _⟩) ?_ ?_
  · rintro c heq
    cases Option.some.inj heq
    exact List.mem_map_of_mem hdata
  · intro c hne heq
    exact absurd (Option.some.inj heq).symm hne
  · intro save hsave hne hopener
    have hle := (h.holder save hsave).last _ hdata
    exact absurd (le_antisymm (horder _ hopener) hle) hne
  · intro save _ hcall
    exact ⟨congrArg some hcall.symm, s.files.entry_openTruncate _, [], rfl, rfl,
      s.files.read_openTruncate _⟩
  · refine ⟨fun hnone => hstate.trans (h.files.before hnone), fun c hshown => ?_,
      fun c hshown => ?_, fun c hshown hopener => ?_⟩
    · obtain ⟨captured, hcaptured, hread⟩ := h.files.shown c hshown
      exact ⟨captured, hcaptured, hstate.trans hread⟩
    · obtain ⟨last, hlast, hle⟩ := h.files.last c hshown
      exact ⟨call, rfl, hle.trans (horder last hlast)⟩
    · cases Option.some.inj hopener
      obtain ⟨last, hlast, hle⟩ := h.files.last _ hshown
      cases le_antisymm hle (horder last hlast)
      exact absurd hlast hpromised

theorem SaveInv.ranWrite (h : SaveInv team user s) {inode offset : Nat} {chunk : List UInt8}
    (hmem : ⟨call, .write inode offset chunk⟩ ∈ s.pool) (horder : s.opener = some call) :
    SaveInv team user
      { s.complete call Save.stage with files := s.files.writeAt inode offset chunk } := by
  obtain ⟨data, hdata, hpromised⟩ := h.pool _ hmem
  obtain ⟨hentry, written, _, -, hlength, hread⟩ := hpromised horder
  refine h.complete h.opener ?_ ?_ (fun last hlast => ⟨last, hlast, Nat.le_refl _⟩) ?_ ?_
  · intro c hne heq
    exact absurd (Option.some.inj (heq.symm.trans horder)) hne
  · intro save _ hne hopener
    exact absurd (Option.some.inj (hopener.symm.trans horder)) hne
  · rintro save hsave rfl
    obtain ⟨-, left, before, hstage, hbefore, hbytes, hfound⟩ :=
      (h.holder save hsave).awaits h.unique hmem
    unfold Progressing
    rw [hstage]
    refine ⟨horder, hentry, before ++ chunk, hbytes, ?_, ?_⟩
    · rw [List.length_append, hbefore]
    · change (s.files.writeAt inode offset chunk).read .temporary = _
      rw [Files.read_writeAt hentry, hfound, Option.map_some, ← hbefore, Files.splice_end]
  · exact h.files.of_write hentry hread rfl rfl rfl rfl rfl

theorem SaveInv.ranPart (h : SaveInv team user s) {inode offset : Nat} {chunk : List UInt8}
    (hmem : ⟨call, .write inode offset chunk⟩ ∈ s.pool) (horder : s.opener = some call)
    (hcount : count < chunk.length) :
    SaveInv team user { s with
      files := s.files.writeAt inode offset (chunk.take count)
      pool := (s.pool.filter fun task => task.call ≠ call) ++
        [⟨call, .write inode (offset + count) (chunk.drop count)⟩] } := by
  obtain ⟨data, hdata, hpromised⟩ := h.pool _ hmem
  obtain ⟨hentry, written, rest, hbytes, hlength, hread⟩ := hpromised horder
  have htake : (chunk.take count).length = count := List.length_take_of_le hcount.le
  have hjoined : ∀ left : List UInt8,
      written ++ chunk ++ left = written ++ chunk.take count ++ chunk.drop count ++ left := by
    intro left
    rw [List.append_assoc written (chunk.take count), List.take_append_drop]
  have hread' : (s.files.writeAt inode offset (chunk.take count)).read .temporary =
      some (written ++ chunk.take count) := by
    rw [Files.read_writeAt hentry, hread, Option.map_some, ← hlength, Files.splice_end]
  have hlength' : (written ++ chunk.take count).length = offset + count := by
    rw [List.length_append, hlength, htake]
  have hothers : ∀ c, c ≠ call → s.opener ≠ some c :=
    fun c hne heq => hne (Option.some.inj (heq.symm.trans horder))
  refine { h with unique := ?_, pool := ?_, holder := ?_, files := ?_ }
  · rw [List.map_append]
    refine List.nodup_append.mpr ⟨h.unique.sublist (List.filter_sublist.map _),
      List.nodup_singleton _, ?_⟩
    rintro c hc other hother rfl
    cases List.mem_singleton.mp hother
    obtain ⟨task, htask, hcall⟩ := List.mem_map.mp hc
    exact of_decide_eq_true (List.mem_filter.mp htask).2 hcall
  · intro task htask
    rcases List.mem_append.mp htask with htask | htask
    · obtain ⟨htask, hne⟩ := List.mem_filter.mp htask
      obtain ⟨captured, hcaptured, hfor⟩ := h.pool task htask
      exact ⟨captured, hcaptured, hfor.kept fun heq =>
        absurd heq (hothers _ (of_decide_eq_true hne))⟩
    · cases List.mem_singleton.mp htask
      exact ⟨data, hdata, fun _ => ⟨hentry, _, rest, by rw [hbytes, hjoined], hlength', hread'⟩⟩
  · intro save hsave
    have hinv := h.holder save hsave
    by_cases hcall : save.call = call
    · subst hcall
      obtain ⟨-, left, before, hstage, hbefore, hwhole, hfound⟩ := hinv.awaits h.unique hmem
      cases Option.some.inj (hread.symm.trans hfound)
      refine ⟨hinv.captured, hinv.last, fun _ _ _ => hinv.handed _ hmem rfl, ?_⟩
      unfold Progressing
      rw [hstage, hinv.handed _ hmem rfl]
      refine ⟨horder, hentry, written ++ chunk.take count, chunk.drop count, ?_, ?_, ?_, hread'⟩
      · rw [hlength']
        exact List.mem_append_right _ (List.mem_singleton.mpr rfl)
      · rw [hwhole, hjoined]
      · rw [hlength', List.length_drop]
        omega
    · refine hinv.kept rfl (List.Subset.refl _) (fun task hsame => ?_) fun heq =>
        absurd heq (hothers _ hcall)
      refine List.mem_append.trans ⟨fun htask => ?_, fun htask => .inl ?_⟩
      · rcases htask with htask | htask
        · exact (List.mem_filter.mp htask).1
        · cases List.mem_singleton.mp htask
          exact absurd hsame.symm hcall
      · exact List.mem_filter.mpr ⟨htask, decide_eq_true fun heq => hcall (hsame.symm.trans heq)⟩
  · exact h.files.of_write hentry hread rfl rfl rfl rfl rfl

theorem SaveInv.ranSync (h : SaveInv team user s) (hmem : ⟨call, .sync⟩ ∈ s.pool) :
    SaveInv team user (s.complete call Save.stage) := by
  refine h.complete h.opener (fun _ _ _ => ⟨rfl, rfl⟩) (fun _ _ _ _ => ⟨rfl, rfl, rfl⟩)
    (fun last hlast => ⟨last, hlast, Nat.le_refl _⟩) ?_
    ⟨h.files.before, h.files.shown, h.files.last, h.files.moved⟩
  rintro save hsave rfl
  have hinv := h.holder save hsave
  have hstage : save.stage = .synced := hinv.awaits h.unique hmem
  have hprogress := hinv.progressing
  unfold Progressing at hprogress ⊢
  rw [hstage] at hprogress ⊢
  exact ⟨hprogress.1, hprogress.2.1, nofun⟩

theorem SaveInv.ranRename (h : SaveInv team user s) (hmem : ⟨call, .rename⟩ ∈ s.pool)
    (horder : s.opener = some call) :
    ∃ files, s.files.rename .temporary .state = some files ∧ SaveInv team user
      { s.complete call Save.stage with files := files, shown := some call } := by
  obtain ⟨data, hdata, hpromised⟩ := h.pool _ hmem
  have hread := hpromised horder
  obtain ⟨inode, hentry⟩ : ∃ inode, s.files.entry .temporary = some inode := by
    cases hentry : s.files.entry .temporary with
    | none =>
        unfold Files.read at hread
        rw [hentry] at hread
        contradiction
    | some inode => exact ⟨inode, rfl⟩
  have hne : FileName.temporary ≠ FileName.state := nofun
  obtain ⟨files, hrename, hgone, hmoved⟩ := Files.rename_eq_some hne hentry
  refine ⟨files, hrename, h.complete h.opener ?_ ?_ ?_ ?_ ?_⟩
  · intro c hne heq
    exact absurd (Option.some.inj (heq.symm.trans horder)) hne
  · intro save _ hne hopener
    exact absurd (Option.some.inj (hopener.symm.trans horder)) hne
  · intro last hlast
    obtain ⟨opener, hopener, hle⟩ := h.files.last last hlast
    cases Option.some.inj (hopener.symm.trans horder)
    exact ⟨call, rfl, hle⟩
  · rintro save hsave rfl
    have hstage : save.stage = .renamed := (h.holder save hsave).awaits h.unique hmem
    unfold Progressing
    rw [hstage]
    exact ⟨horder, rfl⟩
  · refine ⟨nofun, fun c hshown => ?_, fun c hshown => ?_, fun c _ _ => ?_⟩
    · cases Option.some.inj hshown
      exact ⟨data, hdata, hmoved.trans hread⟩
    · cases Option.some.inj hshown
      exact ⟨call, horder, Nat.le_refl _⟩
    · change files.read .temporary = none
      unfold Files.read
      rw [hgone]
      rfl

theorem InOrder.work {work : Work} (h : InOrder s (.run call count)) (hmem : ⟨call, work⟩ ∈ s.pool) :
    work.inOrder call s.opener = true := by
  simpa using List.all_eq_true.mp h _ hmem

theorem SaveInv.run (h : SaveInv team user s) (horder : InOrder s (.run call count))
    (hs : s.run call count = some t) : SaveInv team user t := by
  unfold State.run at hs
  split at hs
  · contradiction
  · rename_i hwork
    cases Option.some.inj hs
    refine h.ranOpen (task_of_work hwork) fun last hlast => ?_
    have := horder.work (task_of_work hwork)
    rw [Work.inOrder, hlast] at this
    exact of_decide_eq_true this
  · rename_i inode offset bytes hwork
    have hopener : s.opener = some call := of_decide_eq_true (horder.work (task_of_work hwork))
    split at hs
    · rename_i hcount
      cases Option.some.inj hs
      exact h.ranPart (task_of_work hwork) hopener hcount
    · cases Option.some.inj hs
      exact h.ranWrite (task_of_work hwork) hopener
  · rename_i hwork
    cases Option.some.inj hs
    exact h.ranSync (task_of_work hwork)
  · rename_i hwork
    have hopener : s.opener = some call := of_decide_eq_true (horder.work (task_of_work hwork))
    obtain ⟨files, hrename, hinv⟩ := h.ranRename (task_of_work hwork) hopener
    rw [hrename] at hs
    cases Option.some.inj hs
    exact hinv

theorem ShownInv.kept (h : ShownInv s) (hfiles : t.files = s.files) (hbefore : t.before = s.before)
    (hcaptured : s.captured ⊆ t.captured) (hopener : t.opener = s.opener)
    (hshown : t.shown = s.shown) : ShownInv t := by
  refine ⟨fun hnone => ?_, fun call hcall => ?_, fun call hcall => ?_, fun call hcall hlast => ?_⟩
  · rw [hfiles, hbefore]
    exact h.before (hshown ▸ hnone)
  · rw [hfiles]
    obtain ⟨data, hdata, hread⟩ := h.shown call (hshown ▸ hcall)
    exact ⟨data, hcaptured hdata, hread⟩
  · rw [hopener]
    exact h.last call (hshown ▸ hcall)
  · rw [hfiles]
    exact h.moved call (hshown ▸ hcall) (hopener ▸ hlast)

theorem SaveInv.hand (h : SaveInv team user s) {save : Save} {work : Work} {stage : Stage}
    (hholder : s.holder = some save) (hfree : save.handed = false)
    (hpromised : Promised s save.call save.bytes work)
    (hprogress : Progressing (s.hand save work stage) { save with stage := stage, handed := true }) :
    SaveInv team user (s.hand save work stage) := by
  have hinv := h.holder save hholder
  obtain ⟨data, hdata, hbytes⟩ := hinv.captured
  refine { h with unique := ?_, pool := ?_, holder := ?_, files := ?_ }
  · unfold State.hand
    rw [List.map_append]
    refine List.nodup_append.mpr ⟨h.unique, List.nodup_singleton _, ?_⟩
    rintro c hc other hother rfl
    cases List.mem_singleton.mp hother
    obtain ⟨task, htask, hcall⟩ := List.mem_map.mp hc
    exact absurd (hinv.handed task htask hcall) (by rw [hfree]; exact nofun)
  · intro task hmem
    rcases List.mem_append.mp hmem with hmem | hmem
    · obtain ⟨captured, hcaptured, hfor⟩ := h.pool task hmem
      exact ⟨captured, hcaptured, hfor.kept fun _ => ⟨rfl, rfl⟩⟩
    · cases List.mem_singleton.mp hmem
      exact ⟨data, hdata, hbytes ▸ hpromised.kept fun _ => ⟨rfl, rfl⟩⟩
  · rintro _ heq
    cases Option.some.inj heq
    exact ⟨hinv.captured, hinv.last, fun _ _ _ => rfl, hprogress⟩
  · exact h.files.kept rfl rfl (List.Subset.refl _) rfl rfl

theorem SaveInv.resume (h : SaveInv team user s) (hs : s.resume = some t) : SaveInv team user t := by
  unfold State.resume at hs
  split at hs
  · contradiction
  · rename_i save hholder
    have hprogress := (h.holder save hholder).progressing
    split at hs
    · contradiction
    · rename_i hfree
      rw [Bool.not_eq_true] at hfree
      unfold Progressing at hprogress
      rw [hfree] at hprogress
      split at hs
      · contradiction
      · rename_i inode offset left hstage
        rw [hstage] at hprogress
        obtain ⟨hopener, hentry, written, hbytes, hlength, hread⟩ := hprogress
        split at hs
        · rename_i hdone
          cases Option.some.inj hs
          rw [hdone, List.append_nil] at hbytes
          refine h.hand hholder hfree trivial ⟨hopener, hbytes ▸ hread, fun _ => ?_⟩
          exact List.mem_append_right _ (List.mem_singleton.mpr rfl)
        · cases Option.some.inj hs
          have hsplit : save.bytes = written ++ left.take BUFFER ++ left.drop BUFFER := by
            rw [hbytes, List.append_assoc, List.take_append_drop]
          refine h.hand hholder hfree (fun _ => ⟨hentry, written, _, hsplit, hlength, hread⟩) ?_
          refine ⟨hopener, hentry, written, left.take BUFFER, ?_, hsplit, by rw [hlength], hread⟩
          rw [hlength]
          exact List.mem_append_right _ (List.mem_singleton.mpr rfl)
      · rename_i hstage
        rw [hstage] at hprogress
        cases Option.some.inj hs
        exact { h with
          holder := nofun
          files := h.files.kept rfl rfl (List.Subset.refl _) rfl rfl
          returned := fun call hmem => (List.mem_cons.mp hmem).elim
            (fun heq => by cases heq; exact hprogress.2) (h.returned call)
          done := fun call hmem => h.done call ((List.mem_cons.mp hmem).resolve_left nofun) }
      · rename_i hstage
        rw [hstage] at hprogress
        cases Option.some.inj hs
        refine h.hand hholder hfree (fun _ => hprogress.2.1) ⟨hprogress.1, ?_⟩
        exact List.mem_append_right _ (List.mem_singleton.mpr rfl)
      · rename_i hstage
        rw [hstage] at hprogress
        cases Option.some.inj hs
        exact { h with
          holder := nofun
          files := h.files.kept rfl rfl (List.Subset.refl _) rfl rfl
          returned := fun call hmem => h.returned call
            ((List.mem_cons.mp hmem).resolve_left nofun)
          done := fun call hmem => (List.mem_cons.mp hmem).elim
            (fun heq => by cases heq; exact ⟨_, hprogress.2, Nat.le_refl _⟩) (h.done call) }

theorem SaveInv.acquire (h : SaveInv team user s) (hs : s.acquire = some t) :
    SaveInv team user t := by
  unfold State.acquire at hs
  split at hs
  · rename_i call rest hholder hwaiting
    have hsize := toVec_lt h.opened.clock.2 h.opened.validTeam h.opened.validUser h.opened.limits
    have hsaved : saveBytes s.opened.data = some (toVec s.opened.data) := if_pos hsize.le
    dsimp only at hs
    rw [hsaved] at hs
    cases Option.some.inj hs
    have hfirst := List.pairwise_cons.mp (hwaiting ▸ h.waiting)
    have hcall : call ∈ s.waiting := hwaiting ▸ List.mem_cons_self
    have hbelow : ∀ entry ∈ s.captured, entry.1 < call := fun entry hmem =>
      (h.earlier entry hmem).2 call hcall
    have hnew : ∀ entry ∈ s.captured ++ [(call, s.opened.data)], entry.1 ≤ call := by
      intro entry hmem
      rcases List.mem_append.mp hmem with hmem | hmem
      · exact (hbelow entry hmem).le
      · cases List.mem_singleton.mp hmem
        exact Nat.le_refl _
    refine { h with
      waiting := hfirst.2
      calls := fun other hmem => h.calls other (hwaiting ▸ List.mem_cons_of_mem _ hmem)
      captured := ?_, limits := ?_, earlier := ?_, opener := ?_, unique := ?_, pool := ?_
      holder := ?_, files := ?_ }
    · rw [List.map_append]
      refine List.pairwise_append.mpr ⟨h.captured, List.pairwise_singleton .., ?_⟩
      intro earlier hmem other hother
      cases List.mem_singleton.mp hother
      obtain ⟨entry, hentry, rfl⟩ := List.mem_map.mp hmem
      exact hbelow entry hentry
    · intro entry hmem
      rcases List.mem_append.mp hmem with hmem | hmem
      · exact h.limits entry hmem
      · cases List.mem_singleton.mp hmem
        exact h.opened.limits
    · intro entry hmem
      have hle := hnew entry hmem
      exact ⟨hle.trans_lt (h.calls call hcall), fun other hother => hle.trans_lt (hfirst.1 _ hother)⟩
    · intro last hlast
      rw [List.map_append]
      exact List.mem_append_left _ (h.opener last hlast)
    · rw [List.map_append]
      refine List.nodup_append.mpr ⟨h.unique, List.nodup_singleton _, ?_⟩
      rintro c hc other hother rfl
      cases List.mem_singleton.mp hother
      obtain ⟨task, htask, htaskCall⟩ := List.mem_map.mp hc
      obtain ⟨data, hdata, -⟩ := h.pool task htask
      exact absurd (hbelow _ hdata) (by rw [htaskCall]; exact Nat.lt_irrefl _)
    · intro task hmem
      rcases List.mem_append.mp hmem with hmem | hmem
      · obtain ⟨data, hdata, hpromised⟩ := h.pool task hmem
        exact ⟨data, List.mem_append_left _ hdata, hpromised.kept fun _ => ⟨rfl, rfl⟩⟩
      · cases List.mem_singleton.mp hmem
        refine ⟨_, List.mem_append_right _ (List.mem_singleton.mpr rfl), fun hopener => ?_⟩
        obtain ⟨entry, hentry, hsame⟩ := List.mem_map.mp (h.opener call hopener)
        exact absurd (hbelow entry hentry) (by rw [hsame]; exact Nat.lt_irrefl _)
    · rintro _ heq
      cases Option.some.inj heq
      refine ⟨⟨_, List.mem_append_right _ (List.mem_singleton.mpr rfl), rfl⟩, hnew,
        fun _ _ _ => rfl, rfl, ?_⟩
      exact List.mem_append_right _ (List.mem_singleton.mpr rfl)
    · exact h.files.kept rfl rfl (List.subset_append_left ..) rfl rfl
  · contradiction

theorem SaveInv.released (h : SaveInv team user s) {pool : List Task} {holder : Option Save}
    {crashed : Bool} {returned : List (Nat × Bool)} {faulted waiting : List Nat}
    (hwaiting : waiting.Sublist s.waiting) (hpool : pool.Sublist s.pool)
    (hfaulted : s.faulted ⊆ faulted)
    (hholder : ∀ save, holder = some save → s.holder = some save ∧
      ∀ task ∈ s.pool, task.call = save.call → task ∈ pool)
    (hreturned : ∀ call, (call, false) ∈ returned → call ∈ faulted)
    (hdone : ∀ call, (call, true) ∈ returned → (call, true) ∈ s.returned) :
    SaveInv team user { s with
      waiting := waiting
      holder := holder
      pool := pool
      crashed := crashed
      faulted := faulted
      returned := returned } :=
  { h with
    waiting := h.waiting.sublist hwaiting
    calls := fun call hmem => h.calls call (hwaiting.subset hmem)
    earlier := fun entry hmem => ⟨(h.earlier entry hmem).1,
      fun call hcall => (h.earlier entry hmem).2 call (hwaiting.subset hcall)⟩
    unique := h.unique.sublist (hpool.map _)
    pool := fun task hmem =>
      have ⟨data, hdata, hpromised⟩ := h.pool task (hpool.subset hmem)
      ⟨data, hdata, hpromised.kept fun _ => ⟨rfl, rfl⟩⟩
    holder := fun save heq => (h.holder save (hholder save heq).1).kept rfl hfaulted
      (fun task hsame => ⟨fun hmem => hpool.subset hmem,
        fun hmem => (hholder save heq).2 task hmem hsame⟩) fun _ => ⟨rfl, rfl, rfl⟩
    files := h.files.kept rfl rfl (List.Subset.refl _) rfl rfl
    returned := hreturned
    done := fun call hmem => h.done call (hdone call hmem) }

theorem SaveInv.failed (h : SaveInv team user s) (call : Nat) :
    SaveInv team user { s.fail call with faulted := call :: s.faulted } := by
  refine h.released (List.Sublist.refl _)
    (@List.filter_sublist Task (fun task => task.call ≠ call) s.pool) (List.subset_cons_self _ _)
    (fun save heq => ?_) (fun other hmem => ?_) fun other hmem => ?_
  · obtain ⟨hsave, hne⟩ := Option.filter_eq_some_iff.mp heq
    refine ⟨hsave, fun task hmem hsame => List.mem_filter.mpr ⟨hmem, ?_⟩⟩
    rw [hsame]
    exact hne
  · unfold State.fail at hmem
    dsimp only at hmem
    split at hmem
    · rcases List.mem_cons.mp hmem with heq | hmem
      · cases heq
        exact List.mem_cons_self
      · exact List.mem_cons_of_mem _ (h.returned other hmem)
    · exact List.mem_cons_of_mem _ (h.returned other hmem)
  · unfold State.fail at hmem
    dsimp only at hmem
    split at hmem
    · exact (List.mem_cons.mp hmem).resolve_left nofun
    · exact hmem

theorem SaveInv.failedWrite (h : SaveInv team user s) (horder : InOrder s (.fault call))
    {inode offset : Nat} {bytes : List UInt8} (hmem : ⟨call, .write inode offset bytes⟩ ∈ s.pool) :
    SaveInv team user { s.complete call Save.afterFault with faulted := call :: s.faulted } := by
  have hmore : SaveInv team user { s with faulted := call :: s.faulted } :=
    h.released (List.Sublist.refl _) (List.Sublist.refl _) (List.subset_cons_self _ _)
      (fun save heq => ⟨heq, fun _ hmem _ => hmem⟩)
      (fun other hmem => List.mem_cons_of_mem _ (h.returned other hmem)) fun _ hmem => hmem
  refine hmore.complete hmore.opener (fun _ _ _ => ⟨rfl, rfl⟩) (fun _ _ _ _ => ⟨rfl, rfl, rfl⟩)
    (fun last hlast => ⟨last, hlast, Nat.le_refl _⟩) ?_
    ⟨h.files.before, h.files.shown, h.files.last, h.files.moved⟩
  rintro save hsave rfl
  obtain ⟨-, left, written, hstage, -⟩ := (h.holder save hsave).awaits h.unique hmem
  have hnotlast : save.lastWrite = false := by
    have hall := (Option.all_eq_true _ _).mp horder save hsave
    simpa using hall
  unfold Save.lastWrite at hnotlast
  unfold Progressing Save.afterFault
  rw [hstage] at hnotlast ⊢
  cases left with
  | nil => cases hnotlast
  | cons first rest => exact ⟨rfl, List.mem_cons_self⟩

theorem SaveInv.fault (h : SaveInv team user s) (horder : InOrder s (.fault call))
    (hs : s.fault call = some t) : SaveInv team user t := by
  unfold State.fault at hs
  split at hs
  · contradiction
  · rename_i hwork
    cases Option.some.inj hs
    exact h.failedWrite horder (task_of_work hwork)
  · cases Option.some.inj hs
    exact h.failed call

theorem saveInv_step (hwindow : 0 ≤ window ∧ window ≤ MAX_WINDOW) (h : SaveInv team user s)
    (horder : InOrder s a) (hs : s.step window a = some t) : SaveInv team user t := by
  unfold State.step at hs
  split at hs
  · contradiction
  · cases a with
    | store action =>
        obtain ⟨opened, hopened, rfl⟩ := Option.map_eq_some_iff.mp hs
        exact { h with
          opened := h.opened.step hwindow hopened
          limits := fun entry hmem => (h.limits entry hmem).later (now_le_step hopened)
          holder := fun save hsave => (h.holder save hsave).kept rfl (List.Subset.refl _)
            (fun _ _ => Iff.rfl) fun _ => ⟨rfl, rfl, rfl⟩
          pool := fun task hmem =>
            have ⟨data, hdata, hpromised⟩ := h.pool task hmem
            ⟨data, hdata, hpromised.kept fun _ => ⟨rfl, rfl⟩⟩
          files := h.files.kept rfl rfl (List.Subset.refl _) rfl rfl }
    | call =>
        cases Option.some.inj hs
        refine { h with
          waiting := ?_, calls := ?_, earlier := ?_
          holder := fun save hsave => (h.holder save hsave).kept rfl (List.Subset.refl _)
            (fun _ _ => Iff.rfl) fun _ => ⟨rfl, rfl, rfl⟩
          pool := fun task hmem =>
            have ⟨data, hdata, hpromised⟩ := h.pool task hmem
            ⟨data, hdata, hpromised.kept fun _ => ⟨rfl, rfl⟩⟩
          files := h.files.kept rfl rfl (List.Subset.refl _) rfl rfl }
        · refine List.pairwise_append.mpr ⟨h.waiting, List.pairwise_singleton .., ?_⟩
          intro other hmem new hnew
          cases List.mem_singleton.mp hnew
          exact h.calls other hmem
        · intro other hmem
          rcases List.mem_append.mp hmem with hmem | hmem
          · exact Nat.lt_succ_of_lt (h.calls other hmem)
          · cases List.mem_singleton.mp hmem
            exact Nat.lt_succ_self _
        · intro entry hmem
          obtain ⟨hcalls, hwaiting⟩ := h.earlier entry hmem
          refine ⟨Nat.lt_succ_of_lt hcalls, fun other hother => ?_⟩
          rcases List.mem_append.mp hother with hother | hother
          · exact hwaiting other hother
          · cases List.mem_singleton.mp hother
            exact hcalls
    | acquire => exact h.acquire hs
    | resume => exact h.resume hs
    | run call count => exact h.run horder hs
    | drop call =>
        cases Option.some.inj hs
        exact h.released List.filter_sublist (List.Sublist.refl _) (List.Subset.refl _)
          (fun save heq => ⟨(Option.filter_eq_some_iff.mp heq).1, fun _ hmem _ => hmem⟩) h.returned
          fun _ hmem => hmem
    | fault call => exact h.fault horder hs
    | crash =>
        cases Option.some.inj hs
        exact h.released (List.nil_sublist _) (List.nil_sublist _) (List.Subset.refl _) nofun h.returned
          fun _ hmem => hmem

end

end SjmbSlack.UserSession.Saves
