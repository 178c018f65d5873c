import SjmbSlack.Slackbot.Lookups

/-! What holds of the lookups in every run: how long the names that they return may
have been stored, and how far apart the requests are. -/
namespace SjmbSlack.Slackbot.Lookups
open Machine Limits ExpiringCache

/-- One of the two lookups: its cache, until when requests are held back, and the
request in progress with its time. -/
structure Service where
  cache : ExpiringCache Str Str
  retryAt : Option Nat
  request : Option (Str × Nat)
  log : Log

def Task.user? : Task → Option (Str × Nat)
  | .user id since => some (id, since)
  | _ => none

def Task.channel? : Task → Option (Str × Nat)
  | .channel id since => some (id, since)
  | _ => none

def State.userService (s : State) : Service :=
  ⟨s.names.users, s.names.userRetryAt, s.task.user?, s.users⟩

def State.channelService (s : State) : Service :=
  ⟨s.names.channels, s.names.channelRetryAt, s.task.channel?, s.channels⟩

def EvictedSince (id : Str) (clock : Nat) (operations : List (Operation Str Str)) : Prop :=
  ∃ insertion : Insertion Str Str, insertion.key = id ∧ clock ≤ insertion.now ∧
    Evicted CACHE_CAPACITY (Nat.zero_lt_succ 4095) operations insertion

/-- How a request keeps its distance to an earlier answer: a rate limit that the client
reported has passed, and what was stored for the same ID has expired or had to make room. -/
def Spaced : Event → Event → Prop
  | .requested id clock operations, .answered other answered ttl limited =>
      (∀ delay ∈ limited, answered + delay < INSTANT_LIMIT → answered + delay ≤ clock) ∧
      (other = id → answered + ttl ≤ clock ∨ EvictedSince id answered operations)
  | _, _ => True

/-- What one step does to a lookup: `ttl` is how long a name is kept that Slack or a
sender gave, and `fallback` the name that stands for one that nobody gave. -/
inductive Moves (ttl : Nat) (fallback : Str → Str) (now : Nat) (s : Service) : Service → Prop where
  | stays : Moves ttl fallback now s s
  | abandoned : Moves ttl fallback now s { s with request := none }
  | stored (visit : Iteration (Entry Str Str)) (id name : Str) : Moves ttl fallback now s { s with
      cache := s.cache.insert visit id name now ttl
      log := (s.log.give id name now).write ⟨id, name, now, ttl, visit⟩ }
  | hinted (visit : Iteration (Entry Str Str)) (id name : Str) : Moves ttl fallback now s { s with
      cache := s.cache.insert visit id name now ttl
      log := ((s.log.give id name now).write ⟨id, name, now, ttl, visit⟩).name id name now }
  | found (id name : Str) : (s.cache.get id now).1 = some name → Moves ttl fallback now s { s with
      cache := (s.cache.get id now).2
      log := (s.log.read id now).name id name now }
  | requested (id : Str) : (s.cache.get id now).1 = none → lookupAllowed s.retryAt now = true →
      Moves ttl fallback now s { s with
        cache := (s.cache.get id now).2
        request := some (id, now)
        log := (s.log.read id now).note (.requested id now (s.log.read id now).operations) }
  | refused (visit : Iteration (Entry Str Str)) (id : Str) : (s.cache.get id now).1 = none →
      Moves ttl fallback now s { s with
        cache := (s.cache.get id now).2.insert visit id (fallback id) now NEGATIVE_TTL
        log := (s.log.read id now).refuse visit id (fallback id) now }
  | answered (visit : Iteration (Entry Str Str)) (id : Str) (since : Nat) (found : Option Str)
      (limited retryAt : Option Nat) : s.request = some (id, since) →
      retryAt = limited.elim s.retryAt (checkedAdd now) → Moves ttl fallback now s {
        cache := s.cache.insert visit id (found.getD (fallback id)) now
          (if found.isSome then ttl else NEGATIVE_TTL)
        retryAt := retryAt
        request := none
        log := s.log.answer visit id found (fallback id) ttl now limited }

section

variable {s t : State} {a : Action}

theorem fetched_retryAt {α : Type} (fetched : Fetched α) (retryAt : Option Nat) (now : Nat) :
    fetched.error?.elim retryAt (lookupError retryAt now) = (limit fetched).elim retryAt (checkedAdd now) := by
  rcases fetched with _ | ((_ | _) | _) | _ <;> rfl

theorem senderNick_moves (visit : Iteration (Entry Str Str)) (sender : SenderInfo) (hidle : s.task = .idle) :
    Moves USER_TTL slackUserFallback s.clock s.userService (senderNick s visit sender).userService ∧
      (senderNick s visit sender).channelService = s.channelService := by
  obtain ⟨user, bot, hint⟩ := sender
  unfold senderNick Names.senderNick
  cases user with
  | none => exact ⟨.stays, rfl⟩
  | some id =>
      cases hint with
      | some hint => exact ⟨.hinted visit id hint, rfl⟩
      | none =>
          dsimp only
          cases hget : (s.names.users.get id s.clock).1 with
          | some nick => exact ⟨.found id nick hget, rfl⟩
          | none =>
              dsimp only [Option.elim]
              split
              · rename_i hallowed
                refine ⟨.requested id hget hallowed, ?_⟩
                simp only [State.channelService, hidle, Task.channel?]
              · exact ⟨.refused visit id hget, rfl⟩

theorem channelName_moves (visit : Iteration (Entry Str Str)) (id : Str) (hidle : s.task = .idle) :
    Moves CHANNEL_TTL (fun id => id) s.clock s.channelService (channelName s visit id).channelService ∧
      (channelName s visit id).userService = s.userService := by
  unfold channelName Names.channelName
  dsimp only
  cases hget : (s.names.channels.get id s.clock).1 with
  | some name => exact ⟨.found id name hget, rfl⟩
  | none =>
      dsimp only
      split
      · rename_i hallowed
        refine ⟨.requested id hget hallowed, ?_⟩
        simp only [State.userService, hidle, Task.user?]
      · exact ⟨.refused visit id hget, rfl⟩

theorem step_moves (h : step s a = some t) :
    Moves USER_TTL slackUserFallback s.clock s.userService t.userService ∧
      Moves CHANNEL_TTL (fun id => id) s.clock s.channelService t.channelService ∧ s.clock ≤ t.clock := by
  cases a with
  | advance elapsed =>
      cases Option.some.inj h
      exact ⟨.stays, .stays, Nat.le_add_right _ _⟩
  | senderNick visit sender =>
      simp only [step] at h
      split at h
      · rename_i hidle
        cases Option.some.inj h
        obtain ⟨husers, hchannels⟩ := senderNick_moves visit sender hidle
        refine ⟨husers, hchannels ▸ .stays, ?_⟩
        unfold senderNick
        dsimp only
        repeat' split
        all_goals exact Nat.le_refl _
      · contradiction
  | channelName visit id =>
      simp only [step] at h
      split at h
      · rename_i hidle
        cases Option.some.inj h
        obtain ⟨hchannels, husers⟩ := channelName_moves visit id hidle
        refine ⟨husers ▸ .stays, hchannels, ?_⟩
        unfold channelName
        dsimp only
        repeat' split
        all_goals exact Nat.le_refl _
      · contradiction
  | userAnswered visit fetched =>
      simp only [step] at h
      split at h
      · rename_i id since htask
        split at h
        · cases Option.some.inj h
          have hrequest : s.userService.request = some (id, since) := by
            simp only [State.userService, htask, Task.user?]
          have hother : (userAnswered s visit id fetched).channelService = s.channelService := by
            simp only [State.channelService, userAnswered, htask, Task.channel?, Names.fetchedNick]
          exact ⟨.answered visit id since (nick fetched) (limit fetched) _ hrequest
            (fetched_retryAt fetched s.names.userRetryAt s.clock), hother ▸ .stays, Nat.le_refl _⟩
        · contradiction
      · contradiction
  | channelAnswered visit fetched =>
      simp only [step] at h
      split at h
      · rename_i id since htask
        split at h
        · cases Option.some.inj h
          have hrequest : s.channelService.request = some (id, since) := by
            simp only [State.channelService, htask, Task.channel?]
          have hother : (channelAnswered s visit id fetched).userService = s.userService := by
            simp only [State.userService, channelAnswered, htask, Task.user?, Names.fetchedChannel]
          exact ⟨hother ▸ .stays, .answered visit id since (channelNick fetched) (limit fetched) _ hrequest
            (fetched_retryAt fetched s.names.channelRetryAt s.clock), Nat.le_refl _⟩
        · contradiction
      · contradiction
  | cacheChannel visit id name =>
      cases Option.some.inj h
      exact ⟨.stays, .stored visit id _, Nat.le_refl _⟩
  | abandon =>
      cases Option.some.inj h
      exact ⟨.abandoned, .abandoned, Nat.le_refl _⟩

end

def Origin (ttl : Nat) (fallback : Str → Str) (given : List Given) (insertion : Insertion Str Str) : Prop :=
  (insertion.ttl = ttl ∧ ⟨insertion.key, insertion.value, insertion.now⟩ ∈ given) ∨
    (insertion.ttl = NEGATIVE_TTL ∧ insertion.value = fallback insertion.key)

def Fresh (ttl : Nat) (fallback : Str → Str) (given : List Given) (id name : Str) (clock : Nat)
    (operations : List (Operation Str Str)) : Prop :=
  ∃ insertion, lastInsertion id operations = some insertion ∧ insertion.value = name ∧
    insertion.now ≤ clock ∧ clock < insertion.expires ∧ Origin ttl fallback given insertion

def Forgotten (id : Str) (answered ttl now : Nat) (operations : List (Operation Str Str)) : Prop :=
  answered + ttl ≤ now ∨ EvictedSince id answered operations

def Remembered (id : Str) (answered ttl : Nat) (operations : List (Operation Str Str)) : Prop :=
  ∃ last, lastInsertion id operations = some last ∧ answered ≤ last.now ∧ answered + ttl ≤ last.expires

structure Inv (ttl : Nat) (fallback : Str → Str) (now : Nat) (s : Service) : Prop where
  cache : s.cache = after CACHE_CAPACITY (Nat.zero_lt_succ 4095) s.log.operations
  timed : Timed s.log.operations
  past : ∀ operation ∈ s.log.operations, operation.now ≤ now
  since : ∀ id since, s.request = some (id, since) → since ≤ now
  answered : ∀ id clock life limited, .answered id clock life limited ∈ s.log.events →
    clock ≤ now ∧ life ≤ ttl ∧
      (Forgotten id clock life now s.log.operations ∨ Remembered id clock life s.log.operations) ∧
      ∀ delay ∈ limited, clock + delay < INSTANT_LIMIT →
        clock + delay ≤ now ∨ ∃ instant ∈ s.retryAt, clock + delay ≤ instant
  requested : ∀ id since, s.request = some (id, since) → ∀ other clock life limited,
    .answered other clock life limited ∈ s.log.events →
      (∀ delay ∈ limited, clock + delay < INSTANT_LIMIT → clock + delay ≤ since) ∧
      (other = id → Forgotten id clock life since s.log.operations)
  spaced : s.log.events.Pairwise Spaced
  origin : ∀ insertion, .insert insertion ∈ s.log.operations → Origin ttl fallback s.log.given insertion
  fresh : ∀ id name clock operations, .named id name clock operations ∈ s.log.events →
    Fresh ttl fallback s.log.given id name clock operations

section

variable {ttl : Nat} {fallback : Str → Str} {now : Nat} {s : Service} {id name : Str}
  {operations : List (Operation Str Str)} {given : List Given} {insertion : Insertion Str Str}

theorem Origin.more (h : Origin ttl fallback given insertion) (more : Given) :
    Origin ttl fallback (more :: given) insertion :=
  h.imp_left fun h => ⟨h.1, List.mem_cons_of_mem _ h.2⟩

theorem Fresh.more {clock : Nat} (h : Fresh ttl fallback given id name clock operations) (more : Given) :
    Fresh ttl fallback (more :: given) id name clock operations := by
  obtain ⟨insertion, hlast, hvalue, hnow, hlive, horigin⟩ := h
  exact ⟨insertion, hlast, hvalue, hnow, hlive, horigin.more more⟩

theorem EvictedSince.cons {clock : Nat} (h : EvictedSince id clock operations)
    (operation : Operation Str Str) : EvictedSince id clock (operation :: operations) := by
  obtain ⟨insertion, hkey, hnow, hevicted⟩ := h
  exact ⟨insertion, hkey, hnow, hevicted.cons operation⟩

theorem Forgotten.cons {clock life : Nat} (h : Forgotten id clock life now operations)
    (operation : Operation Str Str) : Forgotten id clock life now (operation :: operations) :=
  h.imp_right fun h => h.cons operation

theorem Forgotten.later {clock life later : Nat} (h : Forgotten id clock life now operations)
    (hlater : now ≤ later) : Forgotten id clock life later operations :=
  h.imp_left fun h => h.trans hlater

theorem lastInsertion_mem (h : lastInsertion id operations = some insertion) :
    .insert insertion ∈ operations := by
  induction operations with
  | nil => contradiction
  | cons operation operations ih =>
      cases operation with
      | get other clock => exact List.mem_cons_of_mem _ (ih h)
      | insert other =>
          unfold lastInsertion at h
          split at h
          · cases Option.some.inj h
            exact List.mem_cons_self
          · exact List.mem_cons_of_mem _ (ih h)

theorem Inv.later {later : Nat} (h : Inv ttl fallback now s) (hlater : now ≤ later) :
    Inv ttl fallback later s where
  cache := h.cache
  timed := h.timed
  past operation hmem := (h.past operation hmem).trans hlater
  since id since hrequest := (h.since id since hrequest).trans hlater
  answered id clock life limited hmem := by
    obtain ⟨hclock, hlife, hkept, hlimited⟩ := h.answered id clock life limited hmem
    refine ⟨hclock.trans hlater, hlife, hkept.imp_left fun h => h.later hlater, ?_⟩
    exact fun delay hdelay hfits => (hlimited delay hdelay hfits).imp_left fun h => h.trans hlater
  requested := h.requested
  spaced := h.spaced
  origin := h.origin
  fresh := h.fresh

theorem Inv.give (h : Inv ttl fallback now s) (id name : Str) (clock : Nat) :
    Inv ttl fallback now { s with log := s.log.give id name clock } :=
  { h with
    origin := fun insertion hmem => (h.origin insertion hmem).more _
    fresh := fun id name clock operations hmem => (h.fresh id name clock operations hmem).more _ }

theorem Inv.read (h : Inv ttl fallback now s) (id : Str) :
    Inv ttl fallback now { s with cache := (s.cache.get id now).2, log := s.log.read id now } where
  cache := by
    rw [h.cache]
    rfl
  timed := List.pairwise_cons.mpr ⟨fun operation hmem => h.past operation hmem, h.timed⟩
  past operation hmem := by
    rcases List.mem_cons.mp hmem with rfl | hmem
    · exact Nat.le_refl _
    · exact h.past operation hmem
  since := h.since
  answered id clock life limited hmem := by
    obtain ⟨hclock, hlife, hkept, hlimited⟩ := h.answered id clock life limited hmem
    exact ⟨hclock, hlife, hkept.imp_left fun h => h.cons _, hlimited⟩
  requested id since hrequest other clock life limited hmem := by
    obtain ⟨hlimited, hforgotten⟩ := h.requested id since hrequest other clock life limited hmem
    exact ⟨hlimited, fun hsame => (hforgotten hsame).cons _⟩
  spaced := h.spaced
  origin insertion hmem := by
    rcases List.mem_cons.mp hmem with hnew | hmem
    · cases hnew
    · exact h.origin insertion hmem
  fresh := h.fresh

theorem Inv.write (h : Inv ttl fallback now s) (insertion : Insertion Str Str) (hnow : insertion.now = now)
    (horigin : Origin ttl fallback s.log.given insertion)
    (hkeeps : ∀ clock life limited, .answered insertion.key clock life limited ∈ s.log.events →
      Forgotten insertion.key clock life now s.log.operations ∨ clock + life ≤ insertion.expires) :
    Inv ttl fallback now { s with cache := insertion.apply s.cache, log := s.log.write insertion } where
  cache := by
    rw [h.cache]
    rfl
  timed := List.pairwise_cons.mpr ⟨fun operation hmem => (h.past operation hmem).trans hnow.ge, h.timed⟩
  past operation hmem := by
    rcases List.mem_cons.mp hmem with rfl | hmem
    · exact hnow.le
    · exact h.past operation hmem
  since := h.since
  answered id clock life limited hmem := by
    obtain ⟨hclock, hlife, hkept, hlimited⟩ := h.answered id clock life limited hmem
    refine ⟨hclock, hlife, ?_, hlimited⟩
    by_cases hkey : insertion.key = id
    · subst hkey
      rcases hkeeps clock life limited hmem with hforgotten | hlasts
      · exact .inl (hforgotten.cons _)
      · exact .inr ⟨insertion, if_pos rfl, hnow ▸ hclock, hlasts⟩
    · rcases hkept with hforgotten | ⟨last, hlast, hsince, hlasts⟩
      · exact .inl (hforgotten.cons _)
      · exact .inr ⟨last, (if_neg hkey).trans hlast, hsince, hlasts⟩
  requested id since hrequest other clock life limited hmem := by
    obtain ⟨hlimited, hforgotten⟩ := h.requested id since hrequest other clock life limited hmem
    exact ⟨hlimited, fun hsame => (hforgotten hsame).cons _⟩
  spaced := h.spaced
  origin other hmem := by
    rcases List.mem_cons.mp hmem with hnew | hmem
    · cases hnew
      exact horigin
    · exact h.origin other hmem
  fresh := h.fresh

theorem Inv.named (h : Inv ttl fallback now s) (hfresh : Fresh ttl fallback s.log.given id name now s.log.operations) :
    Inv ttl fallback now { s with log := s.log.name id name now } where
  cache := h.cache
  timed := h.timed
  past := h.past
  since := h.since
  answered id clock life limited hmem := by
    rcases List.mem_cons.mp hmem with hnew | hmem
    · cases hnew
    · exact h.answered id clock life limited hmem
  requested id since hrequest other clock life limited hmem := by
    rcases List.mem_cons.mp hmem with hnew | hmem
    · cases hnew
    · exact h.requested id since hrequest other clock life limited hmem
  spaced := List.pairwise_cons.mpr ⟨fun event hmem => trivial, h.spaced⟩
  origin := h.origin
  fresh id name clock operations hmem := by
    rcases List.mem_cons.mp hmem with hnew | hmem
    · cases hnew
      exact hfresh
    · exact h.fresh id name clock operations hmem

theorem Inv.missed (h : Inv ttl fallback now s) (hmiss : (s.cache.get id now).1 = none) {clock life : Nat}
    {limited : Option Nat} (hmem : .answered id clock life limited ∈ s.log.events) :
    Forgotten id clock life now s.log.operations := by
  obtain ⟨-, -, hforgotten | ⟨last, hlast, hsince, hlasts⟩, -⟩ := h.answered id clock life limited hmem
  · exact hforgotten
  · rcases Nat.lt_or_ge now last.expires with hlive | hdead
    · rcases stored_or_evicted (h := Nat.zero_lt_succ 4095) h.timed h.past hlast hlive with hstored | hevicted
      · have hfound : (s.cache.get id now).1.isSome := by
          rw [h.cache]
          exact get_isSome_iff.mpr ⟨_, hstored, lastInsertion_key hlast, hlive⟩
        rw [hmiss] at hfound
        contradiction
      · exact .inr ⟨last, lastInsertion_key hlast, hsince, hevicted⟩
    · exact .inl (hlasts.trans hdead)

theorem Inv.found (h : Inv ttl fallback now s) (hget : (s.cache.get id now).1 = some name) :
    Fresh ttl fallback s.log.given id name now s.log.operations := by
  unfold ExpiringCache.get at hget
  split at hget
  · rename_i entry hfind
    split at hget
    · rename_i hlive
      cases Option.some.inj hget
      obtain ⟨hmem, rfl⟩ := find_eq_some hfind
      rw [h.cache] at hmem
      obtain ⟨insertion, hlast, rfl⟩ := stored_last hmem
      have hstored := lastInsertion_mem hlast
      exact ⟨insertion, hlast, rfl, h.past _ hstored, hlive, h.origin insertion hstored⟩
    · contradiction
  · contradiction

theorem Inv.request (h : Inv ttl fallback now s) (hallowed : lookupAllowed s.retryAt now = true)
    (hforgotten : ∀ clock life limited, .answered id clock life limited ∈ s.log.events →
      Forgotten id clock life now s.log.operations) :
    Inv ttl fallback now { s with
      request := some (id, now)
      log := s.log.note (.requested id now s.log.operations) } := by
  have hspaced : ∀ other clock life limited, .answered other clock life limited ∈ s.log.events →
      (∀ delay ∈ limited, clock + delay < INSTANT_LIMIT → clock + delay ≤ now) ∧
      (other = id → Forgotten id clock life now s.log.operations) := by
    intro other clock life limited hmem
    refine ⟨fun delay hdelay hfits => ?_, fun hsame => hforgotten clock life limited (hsame ▸ hmem)⟩
    rcases (h.answered other clock life limited hmem).2.2.2 delay hdelay hfits with hpassed | ⟨instant, hinstant, hle⟩
    · exact hpassed
    · unfold lookupAllowed at hallowed
      rw [Option.mem_def.mp hinstant] at hallowed
      exact hle.trans (of_decide_eq_true hallowed)
  refine ⟨h.cache, h.timed, h.past, ?_, ?_, ?_, ?_, h.origin, ?_⟩
  · intro other since hrequest
    cases hrequest
    exact Nat.le_refl _
  · intro other clock life limited hmem
    rcases List.mem_cons.mp hmem with hnew | hmem
    · cases hnew
    · exact h.answered other clock life limited hmem
  · intro asked since hrequest other clock life limited hmem
    cases hrequest
    rcases List.mem_cons.mp hmem with hnew | hmem
    · cases hnew
    · exact hspaced other clock life limited hmem
  · refine List.pairwise_cons.mpr ⟨fun event hmem => ?_, h.spaced⟩
    cases event with
    | answered other clock life limited =>
        obtain ⟨hlimited, hsame⟩ := hspaced other clock life limited hmem
        refine ⟨hlimited, fun heq => ?_⟩
        subst heq
        exact hsame rfl
    | requested | named => trivial
  · intro other name clock operations hmem
    rcases List.mem_cons.mp hmem with hnew | hmem
    · cases hnew
    · exact h.fresh other name clock operations hmem

theorem Inv.answer (h : Inv ttl fallback now s) {since life : Nat} (hrequest : s.request = some (id, since))
    (limited : Option Nat) (hlife : life ≤ ttl) (hlast : Remembered id now life s.log.operations) :
    Inv ttl fallback now { s with
      retryAt := limited.elim s.retryAt (checkedAdd now)
      request := none
      log := s.log.note (.answered id now life limited) } := by
  refine ⟨h.cache, h.timed, h.past, fun other since hnone => (by cases hnone), ?_,
    fun other since hnone => (by cases hnone), ?_, h.origin, ?_⟩
  · intro other clock life limited' hmem
    rcases List.mem_cons.mp hmem with hnew | hmem
    · cases hnew
      refine ⟨Nat.le_refl _, hlife, .inr hlast, fun delay hdelay hfits => .inr ⟨now + delay, ?_, Nat.le_refl _⟩⟩
      rw [Option.mem_def.mp hdelay]
      exact if_pos hfits
    · obtain ⟨hclock, hlife, hkept, -⟩ := h.answered other clock life limited' hmem
      refine ⟨hclock, hlife, hkept, fun delay hdelay hfits => .inl ?_⟩
      exact ((h.requested id since hrequest other clock life limited' hmem).1 delay hdelay hfits).trans
        (h.since id since hrequest)
  · exact List.pairwise_cons.mpr ⟨fun event hmem => trivial, h.spaced⟩
  · intro other name clock operations hmem
    rcases List.mem_cons.mp hmem with hnew | hmem
    · cases hnew
    · exact h.fresh other name clock operations hmem

theorem remembered_insertion (insertion : Insertion Str Str) :
    Remembered insertion.key insertion.now insertion.ttl (.insert insertion :: operations) :=
  ⟨insertion, if_pos rfl, Nat.le_refl _, Nat.le_refl _⟩

theorem fresh_insertion (insertion : Insertion Str Str) (hlong : 0 < insertion.ttl)
    (horigin : Origin ttl fallback given insertion) :
    Fresh ttl fallback given insertion.key insertion.value insertion.now (.insert insertion :: operations) :=
  ⟨insertion, if_pos rfl, rfl, Nat.le_refl _, Nat.lt_add_of_pos_right hlong, horigin⟩

theorem Inv.writeGiven (h : Inv ttl fallback now s) (visit : Iteration (Entry Str Str)) (id name : Str) :
    Inv ttl fallback now { s with
      cache := s.cache.insert visit id name now ttl
      log := (s.log.give id name now).write ⟨id, name, now, ttl, visit⟩ } := by
  refine (h.give id name now).write ⟨id, name, now, ttl, visit⟩ rfl (.inl ⟨rfl, List.mem_cons_self⟩) ?_
  intro clock life limited hmem
  obtain ⟨hclock, hlife, -⟩ := h.answered id clock life limited hmem
  exact .inr (Nat.add_le_add hclock hlife)

theorem Inv.writeFallback (h : Inv ttl fallback now s) (visit : Iteration (Entry Str Str)) (id : Str)
    (hforgotten : ∀ clock life limited, .answered id clock life limited ∈ s.log.events →
      Forgotten id clock life now s.log.operations) :
    Inv ttl fallback now { s with
      cache := s.cache.insert visit id (fallback id) now NEGATIVE_TTL
      log := s.log.write ⟨id, fallback id, now, NEGATIVE_TTL, visit⟩ } :=
  h.write ⟨id, fallback id, now, NEGATIVE_TTL, visit⟩ rfl (.inr ⟨rfl, rfl⟩)
    fun clock life limited hmem => .inl (hforgotten clock life limited hmem)

theorem answer_none (log : Log) (visit : Iteration (Entry Str Str)) (id fallback : Str) (ttl now : Nat)
    (limited : Option Nat) : log.answer visit id none fallback ttl now limited =
      ((log.write ⟨id, fallback, now, NEGATIVE_TTL, visit⟩).note
        (.answered id now NEGATIVE_TTL limited)).name id fallback now := by
  simp only [Log.answer, Option.isSome_none, Bool.false_eq_true, if_false, Option.getD_none, Option.elim]

theorem Inv.moves {t : Service} (h : Inv ttl fallback now s) (hshort : 0 < NEGATIVE_TTL)
    (httl : NEGATIVE_TTL ≤ ttl) (hmoves : Moves ttl fallback now s t) : Inv ttl fallback now t := by
  have hlong : 0 < ttl := hshort.trans_le httl
  cases hmoves with
  | stays => exact h
  | abandoned => exact { h with
      since := fun id since hnone => by cases hnone
      requested := fun id since hnone => by cases hnone }
  | stored visit id name => exact h.writeGiven visit id name
  | hinted visit id name =>
      exact (h.writeGiven visit id name).named
        (fresh_insertion ⟨id, name, now, ttl, visit⟩ hlong (.inl ⟨rfl, List.mem_cons_self⟩))
  | found id name hget => exact (h.read id).named (h.found hget)
  | requested id hmiss hallowed =>
      exact (h.read id).request hallowed fun clock life limited hmem => (h.missed hmiss hmem).cons _
  | refused visit id hmiss =>
      have hwritten := (h.read id).writeFallback visit id fun clock life limited hmem =>
        (h.missed hmiss hmem).cons _
      exact hwritten.named
        (fresh_insertion ⟨id, fallback id, now, NEGATIVE_TTL, visit⟩ hshort (.inr ⟨rfl, rfl⟩))
  | answered visit id since found limited retryAt hrequest hretry =>
      subst hretry
      cases found with
      | none =>
          have hwritten := h.writeFallback visit id fun clock life limited hmem =>
            ((h.requested id since hrequest id clock life limited hmem).2 rfl).later (h.since id since hrequest)
          have hanswered := hwritten.answer hrequest limited httl
            (remembered_insertion ⟨id, fallback id, now, NEGATIVE_TTL, visit⟩)
          simp only [answer_none, Option.getD_none, Option.isSome_none, Bool.false_eq_true, if_false]
          exact hanswered.named
            (fresh_insertion ⟨id, fallback id, now, NEGATIVE_TTL, visit⟩ hshort (.inr ⟨rfl, rfl⟩))
      | some name =>
          have hanswered := (h.writeGiven visit id name).answer hrequest limited (Nat.le_refl ttl)
            (remembered_insertion ⟨id, name, now, ttl, visit⟩)
          exact hanswered.named
            (fresh_insertion ⟨id, name, now, ttl, visit⟩ hlong (.inl ⟨rfl, List.mem_cons_self⟩))

theorem inv_initial (hcache : s.cache = .new CACHE_CAPACITY (Nat.zero_lt_succ 4095)) (hlog : s.log = .empty)
    (hrequest : s.request = none) : Inv ttl fallback now s := by
  obtain ⟨cache, retryAt, request, log⟩ := s
  cases hcache
  cases hlog
  cases hrequest
  exact ⟨rfl, .nil, fun _ hmem => (by cases hmem), fun _ _ hnone => (by cases hnone),
    fun _ _ _ _ hmem => (by cases hmem), fun _ _ hnone => (by cases hnone), .nil,
    fun _ hmem => (by cases hmem), fun _ _ _ _ hmem => (by cases hmem)⟩

end

section

variable {s : State}

theorem inv_reachable (h : Reachable machine s) :
    Inv USER_TTL slackUserFallback s.clock s.userService ∧
      Inv CHANNEL_TTL (fun id => id) s.clock s.channelService := by
  refine h.invariant (P := fun s : State => Inv USER_TTL slackUserFallback s.clock s.userService ∧
    Inv CHANNEL_TTL (fun id => id) s.clock s.channelService) ?_ ?_
  · rintro s ⟨workspace, clock, rfl⟩
    exact ⟨inv_initial rfl rfl rfl, inv_initial rfl rfl rfl⟩
  · intro s a t _ hinv _ hs
    obtain ⟨husers, hchannels, hclock⟩ := step_moves hs
    exact ⟨(hinv.1.moves (by decide) (by decide) husers).later hclock, (hinv.2.moves (by decide) (by decide) hchannels).later hclock⟩

/-- In every run, no request for a name of one kind is made before the rate limit is over
that the Slack client last reported for it, and none for an ID whose last answer has neither
expired nor made room. -/
theorem lookups_spaced (h : Reachable machine s) :
    s.users.events.Pairwise Spaced ∧ s.channels.events.Pairwise Spaced :=
  ⟨(inv_reachable h).1.spaced, (inv_reachable h).2.spaced⟩

/-- A rate limit of the session's API does not hold the next channel back. Then a user is
asked for, the client reports a rate limit, and once it is over and the fallback has expired
the user is asked for again. -/
def limitedRun : List Action :=
  [.channelName (.stored _) "C1".toList,
    .channelAnswered (.stored _) (.failed (.session (.rateLimited 60000000000))),
    .channelName (.stored _) "C2".toList, .channelAnswered (.stored _) (.found (some "random".toList)),
    .senderNick (.stored _) ⟨some "U1".toList, none, none⟩, .advance 1000000000,
    .userAnswered (.stored _) (.failed (.client (.rateLimitError (some 20000000000)))), .advance 10000000000,
    .senderNick (.stored _) ⟨some "U1".toList, none, none⟩, .advance 20000000000,
    .senderNick (.stored _) ⟨some "U1".toList, none, none⟩]

def Event.isRequest : Event → Bool
  | .requested _ _ _ => true
  | _ => false

theorem lookups_spaced_limited :
    ∃ s : State, Reachable machine s ∧ s.task = .user "U1".toList 31000000000 ∧
      (s.users.events.filter Event.isRequest).length = 2 ∧
      (s.channels.events.filter Event.isRequest).length = 2 ∧
      s.users.events.Pairwise Spaced ∧ s.channels.events.Pairwise Spaced := by
  have hrun : ∃ s : State, Reachable machine s ∧ (s.task = .user "U1".toList 31000000000 ∧
      (s.users.events.filter Event.isRequest).length = 2 ∧
      (s.channels.events.filter Event.isRequest).length = 2) :=
    exists_reachable (s := initial ⟨"name".toList, "T1".toList, "A1".toList⟩ 0) limitedRun ⟨_, _, rfl⟩
      (by decide +kernel)
  obtain ⟨s, hs, htask, husers, hchannels⟩ := hrun
  exact ⟨s, hs, htask, husers, hchannels, lookups_spaced hs⟩

end

end SjmbSlack.Slackbot.Lookups
