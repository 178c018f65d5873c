import SjmbSlack.SocketMode.Ingress

/-! Duplicate detection over whole runs: what the cache still knows of every
admission, and what each call of `enqueue` does. -/
namespace SjmbSlack.SocketMode.Ingress
open Machine Limits Slackbot

/-- Since an admission, that many other keys were admitted. -/
def Displaced (capacity : Nat) (log : List Admission) (admission : Admission) : Prop :=
  ∃ others : List EventKey, others.Nodup ∧ capacity ≤ others.length ∧ admission.key ∉ others ∧
    ∀ key ∈ others, ∃ other ∈ log, other.key = key ∧ admission.admittedAt ≤ other.admittedAt

theorem Displaced.append {capacity : Nat} {log : List Admission} {admission : Admission}
    (h : Displaced capacity log admission) (later : List Admission) :
    Displaced capacity (log ++ later) admission := by
  obtain ⟨others, hnodup, hlength, hkey, hadmitted⟩ := h
  refine ⟨others, hnodup, hlength, hkey, fun key hmem => ?_⟩
  obtain ⟨other, hother, hsame⟩ := hadmitted key hmem
  exact ⟨other, List.mem_append_left _ hother, hsame⟩

def Forgotten (capacity now : Nat) (log : List Admission) (admission : Admission) : Prop :=
  admission.admittedAt + DEDUP_TTL ≤ now ∨ Displaced capacity log admission

def Spaced (capacity : Nat) (log : List Admission) : Prop :=
  ∀ index later, log[index]? = some later → ∀ earlier ∈ log.take index, earlier.key = later.key →
    earlier.admittedAt ≤ later.admittedAt ∧
      Forgotten capacity later.admittedAt (log.take index) earlier

theorem Spaced.append {capacity : Nat} {log : List Admission} {later : Admission}
    (h : Spaced capacity log) (hlater : ∀ earlier ∈ log, earlier.key = later.key →
      earlier.admittedAt ≤ later.admittedAt ∧ Forgotten capacity later.admittedAt log earlier) :
    Spaced capacity (log ++ [later]) := by
  intro index found hfound earlier hearlier hkey
  rcases Nat.lt_trichotomy index log.length with hlt | heq | hgt
  · rw [List.getElem?_append_left hlt] at hfound
    rw [List.take_append_of_le_length (Nat.le_of_lt hlt)] at hearlier ⊢
    exact h index found hfound earlier hearlier hkey
  · subst heq
    rw [List.getElem?_concat_length, Option.some.injEq] at hfound
    subst hfound
    rw [List.take_left] at hearlier ⊢
    exact hlater earlier hearlier hkey
  · have hnone : (log ++ [later])[index]? = none := by simp; omega
    rw [hnone] at hfound
    contradiction

def Held (seen : ExpiringCache EventKey Unit) (admission : Admission) : Prop :=
  ∃ entry ∈ seen.entries, entry.key = admission.key ∧
    admission.admittedAt + DEDUP_TTL ≤ entry.expires

structure Inv (capacity now : Nat) (seen : ExpiringCache EventKey Unit) (log : List Admission) :
    Prop where
  sized : seen.capacity = capacity
  past : ∀ admission ∈ log, admission.admittedAt ≤ now
  backed : ∀ entry ∈ seen.entries, ∃ admission ∈ log, admission.key = entry.key ∧
    entry.expires = admission.admittedAt + DEDUP_TTL
  known : ∀ admission ∈ log, Held seen admission ∨ Forgotten capacity now log admission
  spaced : Spaced capacity log

section

variable {capacity now : Nat} {seen : ExpiringCache EventKey Unit} {log : List Admission}

theorem Inv.later (h : Inv capacity now seen log) {later : Nat} (hlater : now ≤ later) :
    Inv capacity later seen log where
  sized := h.sized
  past admission hmem := (h.past admission hmem).trans hlater
  backed := h.backed
  known admission hmem := (h.known admission hmem).imp_right fun hforgotten =>
    hforgotten.imp_left fun hold => hold.trans hlater
  spaced := h.spaced

theorem Inv.miss (h : Inv capacity now seen log) {key : EventKey}
    {after : ExpiringCache EventKey Unit} (hget : seen.get key now = (none, after)) :
    Inv capacity now after log := by
  obtain ⟨rfl, hdead⟩ := ExpiringCache.get_none hget
  refine ⟨h.sized, h.past, ?_, ?_, h.spaced⟩
  · intro entry hmem
    exact h.backed entry (ExpiringCache.mem_remove.mp hmem).1
  · intro admission hmem
    rcases h.known admission hmem with ⟨entry, hentry, hkey, hexpires⟩ | hforgotten
    · by_cases hsame : entry.key = key
      · exact .inr (.inl (hexpires.trans (hdead entry hentry hsame)))
      · exact .inl ⟨entry, ExpiringCache.mem_remove.mpr ⟨hentry, hsame⟩, hkey, hexpires⟩
    · exact .inr hforgotten

/-- The keys of a full cache that expires an entry make up, with the new key, the
other admissions that displace it. -/
theorem Inv.displaced (h : Inv capacity now seen log) {key : EventKey} {entry : Entry EventKey Unit}
    {admission : Admission} (hfresh : ∀ entry ∈ seen.entries, entry.key ≠ key)
    (hentry : entry ∈ seen.entries) (hkey : entry.key = admission.key)
    (hexpires : admission.admittedAt + DEDUP_TTL ≤ entry.expires)
    (hpast : admission.admittedAt ≤ now) (hfull : seen.entries.length = seen.capacity)
    (holdest : ∀ other ∈ seen.entries, entry.expires ≤ other.expires) :
    Displaced capacity (log ++ [⟨key, now⟩]) admission := by
  have hkeys : ∀ other, other ∈ (seen.entries.map Entry.key).erase admission.key ↔
      other ≠ admission.key ∧ other ∈ seen.entries.map Entry.key :=
    fun other => seen.distinct.mem_erase_iff
  refine ⟨key :: (seen.entries.map Entry.key).erase admission.key, ?_, ?_, ?_, ?_⟩
  · refine List.nodup_cons.mpr ⟨fun hmem => ?_, seen.distinct.erase _⟩
    obtain ⟨other, hother, hsame⟩ := List.mem_map.mp ((hkeys key).mp hmem).2
    exact hfresh other hother hsame
  · have hmem : admission.key ∈ seen.entries.map Entry.key :=
      List.mem_map.mpr ⟨entry, hentry, hkey⟩
    have := List.length_pos_of_mem hmem
    have := h.sized
    rw [List.length_cons, List.length_erase_of_mem hmem]
    rw [List.length_map] at *
    omega
  · rw [List.mem_cons, not_or]
    exact ⟨fun hsame => hfresh entry hentry (hkey.trans hsame), fun hmem =>
      ((hkeys _).mp hmem).1 rfl⟩
  · intro other hother
    rcases List.mem_cons.mp hother with rfl | hother
    · exact ⟨_, List.mem_append_right _ (List.mem_singleton.mpr rfl), rfl, hpast⟩
    · obtain ⟨found, hfound, rfl⟩ := List.mem_map.mp ((hkeys _).mp hother).2
      obtain ⟨source, hsource, hsame, hsource_expires⟩ := h.backed found hfound
      have := holdest found hfound
      exact ⟨source, List.mem_append_left _ hsource, hsame, by omega⟩

theorem Inv.insert (h : Inv capacity now seen log) (iteration : Iteration (Entry EventKey Unit))
    {key : EventKey} (hfresh : ∀ entry ∈ seen.entries, entry.key ≠ key) :
    Inv capacity now (seen.insert iteration key () now DEDUP_TTL) (log ++ [⟨key, now⟩]) := by
  have hnew : (⟨key, now + DEDUP_TTL, ()⟩ : Entry EventKey Unit) ∈
      (seen.insert iteration key () now DEDUP_TTL).entries := ExpiringCache.mem_insert.mpr (.inl rfl)
  refine ⟨h.sized, ?_, ?_, ?_, h.spaced.append ?_⟩
  · intro admission hmem
    rcases List.mem_append.mp hmem with hmem | hmem
    · exact h.past admission hmem
    · cases List.mem_singleton.mp hmem
      exact Nat.le_refl now
  · intro entry hmem
    rcases ExpiringCache.mem_insert.mp hmem with rfl | ⟨hroom, -⟩
    · exact ⟨⟨key, now⟩, by simp, rfl, rfl⟩
    · obtain ⟨admission, hadmission, hbacked⟩ :=
        h.backed entry ((ExpiringCache.room_sublist ..).subset hroom)
      exact ⟨admission, List.mem_append_left _ hadmission, hbacked⟩
  · intro admission hmem
    rcases List.mem_append.mp hmem with hmem | hmem
    · have hpast := h.past admission hmem
      rcases h.known admission hmem with ⟨entry, hentry, hkey, hexpires⟩ | hforgotten
      · by_cases hroom : entry ∈ ExpiringCache.room iteration seen key
        · exact .inl ⟨entry, ExpiringCache.mem_insert.mpr (.inr ⟨hroom, hfresh entry hentry⟩),
            hkey, hexpires⟩
        · obtain ⟨-, hfull, holdest⟩ := ExpiringCache.lost_to_room hentry hroom
          exact .inr (.inr (h.displaced hfresh hentry hkey hexpires hpast hfull holdest))
      · exact .inr (hforgotten.imp_right fun hdisplaced => hdisplaced.append _)
    · cases List.mem_singleton.mp hmem
      exact .inl ⟨_, hnew, rfl, Nat.le_refl _⟩
  · intro earlier hmem hsame
    rcases h.known earlier hmem with ⟨entry, hentry, hkey, -⟩ | hforgotten
    · exact absurd (hkey.trans hsame) (hfresh entry hentry)
    · exact ⟨h.past earlier hmem, hforgotten⟩

end

inductive Outcome where
  | queued
  | duplicate
  | full
  deriving DecidableEq

def Outcome.Did (s t : State) (call : Call) : Outcome → Prop
  | .queued =>
      (∃ session queue, s.sessions[call.session]? = some session ∧
        session.queue.trySend call.message = .ok queue ∧
        t.sessions = s.sessions.set call.session { session with queue := queue }) ∧
      (∀ time, (t.seen.get call.key time).1.isSome ↔ time < s.clock + DEDUP_TTL) ∧
      t.counters = s.counters ∧ t.admitted = s.admitted ++ [⟨call.key, s.clock⟩]
  | .duplicate =>
      (∃ earlier ∈ s.admitted, earlier.key = call.key ∧
        s.clock < earlier.admittedAt + DEDUP_TTL) ∧
      t.counters = { s.counters with duplicates := s.counters.duplicates + 1 } ∧
      t.seen = s.seen ∧ t.sessions = s.sessions ∧ t.admitted = s.admitted
  | .full =>
      (∃ session, s.sessions[call.session]? = some session ∧
        session.queue.trySend call.message = .error .full) ∧
      (∀ time, (t.seen.get call.key time).1.isSome = false) ∧
      t.counters = { s.counters with full := s.counters.full + 1 } ∧
      t.sessions = s.sessions ∧ t.admitted = s.admitted

/-- What a call that returns `Err` leaves alone: every later lookup gives what it
gave before. -/
def Refused (s t : State) : Prop :=
  t.sessions = s.sessions ∧ t.counters = s.counters ∧ t.admitted = s.admitted ∧
    ∀ key time, s.clock ≤ time → (t.seen.get key time).1.isSome = (s.seen.get key time).1.isSome

theorem Outcome.Did.unique {s t : State} {call : Call} {left right : Outcome}
    (hleft : left.Did s t call) (hright : right.Did s t call) : left = right := by
  have hqueued : Outcome.queued.Did s t call → t.admitted.length = s.admitted.length + 1 :=
    fun h => by simp [h.2.2.2]
  have hduplicate : Outcome.duplicate.Did s t call → t.admitted.length = s.admitted.length ∧
      t.counters.duplicates = s.counters.duplicates + 1 := fun h => by simp [h.2.1, h.2.2.2.2]
  have hfull : Outcome.full.Did s t call → t.admitted.length = s.admitted.length ∧
      t.counters.duplicates = s.counters.duplicates := fun h => by simp [h.2.2.1, h.2.2.2.2]
  cases left <;> cases right <;> grind

theorem get_insert {cache : ExpiringCache EventKey Unit}
    {iteration : Iteration (Entry EventKey Unit)} {key : EventKey} {now time : Nat} :
    ((cache.insert iteration key () now DEDUP_TTL).get key time).1.isSome ↔
      time < now + DEDUP_TTL := by
  rw [ExpiringCache.get_isSome_iff]
  constructor
  · rintro ⟨entry, hmem, hkey, hlive⟩
    rcases ExpiringCache.mem_insert.mp hmem with rfl | ⟨-, hother⟩
    · exact hlive
    · exact absurd hkey hother
  · exact fun hlive => ⟨_, ExpiringCache.mem_insert.mpr (.inl rfl), rfl, hlive⟩

theorem get_removed {cache after : ExpiringCache EventKey Unit} {key : EventKey} {now : Nat}
    (h : cache.get key now = (none, after)) (time : Nat) : (after.get key time).1.isSome = false := by
  obtain ⟨rfl, -⟩ := ExpiringCache.get_none h
  rw [Bool.eq_false_iff, Ne, ExpiringCache.get_isSome_iff]
  rintro ⟨entry, hmem, hkey, -⟩
  exact (ExpiringCache.mem_remove.mp hmem).2 hkey

/-- Under the lock, a call keeps the invariant and either does one of the three
things and returns `Ok`, or does none of them and returns `Err`. -/
theorem enqueue_spec {capacity : Nat} {s : State} {call : Call} {session : Session}
    (h : Inv capacity s.clock s.seen s.admitted) (hsession : s.sessions[call.session]? = some session)
    (iteration : Iteration (Entry EventKey Unit)) :
    let t := enqueue iteration s call session
    Inv capacity t.clock t.seen t.admitted ∧
      (t.results = s.results ++ [.ok ()] ∧ (∃ outcome : Outcome, outcome.Did s t call) ∨
        t.results = s.results ++ [.error {}] ∧ Refused s t) := by
  intro t
  simp only [t, enqueue]
  cases hget : s.seen.get call.key s.clock with
  | mk found after =>
      cases found with
      | some value =>
          obtain ⟨rfl, entry, hmem, hkey, hlive⟩ := ExpiringCache.get_some hget
          obtain ⟨earlier, hearlier, hsame, hexpires⟩ := h.backed entry hmem
          exact ⟨h, .inl ⟨rfl, .duplicate,
            ⟨earlier, hearlier, hsame.trans hkey, by omega⟩, rfl, rfl, rfl, rfl⟩⟩
      | none =>
          have hmiss := h.miss hget
          have hfresh : ∀ entry ∈ after.entries, entry.key ≠ call.key := by
            obtain ⟨rfl, -⟩ := ExpiringCache.get_none hget
            exact fun entry hmem => (ExpiringCache.mem_remove.mp hmem).2
          cases hsend : session.queue.trySend call.message with
          | ok queue =>
              exact ⟨hmiss.insert iteration hfresh, .inl ⟨rfl, .queued,
                ⟨session, queue, hsession, hsend, rfl⟩, fun _ => get_insert, rfl, rfl⟩⟩
          | error reason =>
              cases reason with
              | full => exact ⟨hmiss, .inl ⟨rfl, .full, ⟨session, hsession, hsend⟩,
                  get_removed hget, rfl, rfl, rfl⟩⟩
              | closed => exact ⟨hmiss, .inr ⟨rfl, rfl, rfl, rfl,
                  fun key _ hlater => ExpiringCache.get_after_miss hget key hlater⟩⟩

theorem onSession_spec {s t : State} {index : Nat} {change : Session → Option Session}
    (h : onSession s index change = some t) :
    t.clock = s.clock ∧ t.seen = s.seen ∧ t.admitted = s.admitted := by
  simp only [onSession, Option.bind_eq_bind, Option.bind_eq_some_iff, Option.pure_def,
    Option.some.injEq] at h
  obtain ⟨_, _, _, _, rfl⟩ := h
  exact ⟨rfl, rfl, rfl⟩

theorem lock_cases {s t : State} {position : Nat} {iteration : Iteration (Entry EventKey Unit)}
    (h : step s (.lock position iteration) = some t) :
    ∃ call session, s.waiting[position]? = some call ∧
      s.sessions[call.session]? = some session ∧
      t = enqueue iteration { s with waiting := s.waiting.eraseIdx position } call session := by
  simp only [step, Option.bind_eq_bind, Option.bind_eq_some_iff, Option.pure_def,
    Option.some.injEq] at h
  obtain ⟨call, hcall, session, hsession, rfl⟩ := h
  exact ⟨call, session, hcall, hsession, rfl⟩

theorem call_cases {s t : State} {call : Call} (h : step s (.call call) = some t) :
    (t = { s with waiting := s.waiting ++ [call] }) ∨
      t = { s with results := s.results ++ [.error {}] } := by
  obtain ⟨session, -, rfl⟩ := Option.map_eq_some_iff.mp h
  unfold check
  split
  · exact .inl rfl
  · exact .inr rfl

theorem inv_step {capacity : Nat} {s t : State} {a : Action}
    (h : Inv capacity s.clock s.seen s.admitted) (hs : step s a = some t) :
    Inv capacity t.clock t.seen t.admitted := by
  cases a with
  | advance elapsed =>
      cases Option.some.inj hs
      exact h.later (Nat.le_add_right _ _)
  | newSession =>
      cases Option.some.inj hs
      exact h
  | call call => rcases call_cases hs with rfl | rfl <;> exact h
  | lock position iteration =>
      obtain ⟨call, session, -, hsession, rfl⟩ := lock_cases hs
      exact (enqueue_spec (s := { s with waiting := s.waiting.eraseIdx position }) h hsession
        iteration).1
  | report =>
      cases Option.some.inj hs
      exact h
  | stopAccepting session | receive session | drain session | dropWorker session =>
      obtain ⟨hclock, hseen, hadmitted⟩ := onSession_spec hs
      rw [hclock, hseen, hadmitted]
      exact h

theorem inv_reachable {capacity : Nat} {hcapacity : 0 < capacity} {s : State}
    (h : Reachable (machine capacity hcapacity) s) :
    Inv capacity s.clock s.seen s.admitted := by
  refine h.invariant (P := fun s => Inv capacity s.clock s.seen s.admitted) ?_
    fun _ _ _ _ hinv _ hs => inv_step hinv hs
  rintro s ⟨clock, rfl⟩
  exact ⟨rfl, by simp [initial], by simp [initial, ExpiringCache.new], by simp [initial],
    by simp [initial, Spaced]⟩

def Runs (s t : State) (call : Call) : Prop :=
  step s (.call call) = some t ∨ ∃ position iteration, s.waiting[position]? = some call ∧
    step s (.lock position iteration) = some t

/-- A key is admitted again only after its time in the cache, or after as many
other keys as the cache holds were admitted since; a call that returns `Ok`
queued and remembered its message, counted a duplicate of a remembered admission
or counted a full queue, and did only one of these; a call that returns `Err`
changed nothing a redelivery can see. -/
theorem enqueue_admits_once {capacity : Nat} (hcapacity : 0 < capacity) {s : State}
    (h : Reachable (machine capacity hcapacity) s) :
    (∀ first second earlier later, s.admitted[first]? = some earlier →
      s.admitted[second]? = some later → first < second → earlier.key = later.key →
      earlier.admittedAt ≤ later.admittedAt ∧
      (earlier.admittedAt + DEDUP_TTL ≤ later.admittedAt ∨
        Displaced capacity (s.admitted.take second) earlier)) ∧
    ∀ call t, Runs s t call →
      (t.results = s.results ++ [.ok ()] → ∃! outcome : Outcome, outcome.Did s t call) ∧
      (t.results = s.results ++ [.error {}] → Refused s t) := by
  have hinv := inv_reachable h
  refine ⟨fun first second earlier later hfirst hsecond hlt hkey => ?_, fun call t hruns => ?_⟩
  · have hmem : earlier ∈ s.admitted.take second := by
      refine List.mem_of_getElem? (i := first) ?_
      rw [List.getElem?_take_of_lt hlt]
      exact hfirst
    exact hinv.spaced second later hsecond earlier hmem hkey
  · rcases hruns with hcall | ⟨position, iteration, hwaiting, hlock⟩
    · rcases call_cases hcall with rfl | rfl
      · exact ⟨fun hok => by simp at hok, fun herror => by simp at herror⟩
      · exact ⟨fun hok => by simp at hok, fun _ => ⟨rfl, rfl, rfl, fun _ _ _ => rfl⟩⟩
    · obtain ⟨found, session, hfound, hsession, rfl⟩ := lock_cases hlock
      cases Option.some.inj (hwaiting.symm.trans hfound)
      obtain ⟨-, ⟨hok, outcome, hdid⟩ | ⟨herror, hrefused⟩⟩ :=
        enqueue_spec (s := { s with waiting := s.waiting.eraseIdx position }) hinv hsession iteration
      · refine ⟨fun _ => ⟨outcome, hdid, fun other hother => Outcome.Did.unique hother hdid⟩,
          fun hreturned => ?_⟩
        simp [hok] at hreturned
      · refine ⟨fun hreturned => ?_, fun _ => hrefused⟩
        simp [herror] at hreturned

def sample (event : Nat) : Call where
  session := 0
  eventId := List.replicate event 'e'
  message := {
    workspace := ⟨"name".toList, "T1".toList, "A1".toList⟩
    expiresAt := QUEUE_AGE
    ts := 0
    channel := "C1".toList
    text := []
    sender := ⟨none, none, none⟩
    completion := none
    dryRun := false }

/-- With room for one key, another event between two deliveries of the first one
lets it in again. -/
theorem enqueue_admits_once_displaced :
    ∃ s, Reachable (machine 1 Nat.one_pos) s ∧
      s.admitted = [⟨(sample 1).key, 0⟩, ⟨(sample 2).key, 0⟩, ⟨(sample 1).key, 0⟩] ∧
      Displaced 1 (s.admitted.take 2) ⟨(sample 1).key, 0⟩ := by
  obtain ⟨s, hs, hadmitted⟩ := exists_reachable (M := machine 1 Nat.one_pos)
    (s := initial 0 1 Nat.one_pos)
    (P := fun s => s.admitted = [⟨(sample 1).key, 0⟩, ⟨(sample 2).key, 0⟩, ⟨(sample 1).key, 0⟩])
    ([.newSession, .call (sample 1), .lock 0 (.stored _), .call (sample 2),
      .lock 0 (.stored _), .call (sample 1), .lock 0 (.stored _)]) ⟨0, rfl⟩ (by decide)
  refine ⟨s, hs, hadmitted, ?_⟩
  have hspaced := (enqueue_admits_once Nat.one_pos hs).1 0 2 ⟨(sample 1).key, 0⟩
    ⟨(sample 1).key, 0⟩ (by simp [hadmitted]) (by simp [hadmitted]) (by omega) rfl
  exact hspaced.2.resolve_left (by decide)

end SjmbSlack.SocketMode.Ingress
