import Mathlib.Algebra.Order.BigOperators.Group.Finset
import Mathlib.Tactic.Ring

/-! Waiting times that double from a base up to a cap, and start again from the
base after a reset, and the log of a loop that waits so between its attempts. -/
namespace SjmbSlack.Backoff

def next (cap wait : Nat) : Nat := min (wait * 2) cap

def after (base cap : Nat) : Nat → Nat
  | 0 => base
  | waits + 1 => next cap (after base cap waits)

/-- The number of waits in the current series, from the flags of all waits, newest
first: a wait with its flag set is the first of a new series. -/
def series : List Bool → Nat
  | [] => 0
  | reset :: older => if reset then 1 else series older + 1

def current (base cap : Nat) (flags : List Bool) : Nat := after base cap (series flags - 1)

def upcoming (base cap : Nat) (flags : List Bool) : Nat := after base cap (series flags)

variable {base cap : Nat}

theorem after_eq (h : base ≤ cap) (waits : Nat) : after base cap waits = min (base * 2 ^ waits) cap := by
  induction waits with
  | zero => simp [after, h]
  | succ waits ih =>
      rw [after, next, ih, pow_succ, ← Nat.mul_assoc]
      omega

theorem after_of_cap_le (h : base ≤ cap) {waits : Nat} (hcap : cap ≤ base * 2 ^ waits) :
    after base cap waits = cap := by
  rw [after_eq h]
  exact Nat.min_eq_right hcap

theorem series_pos (reset : Bool) (older : List Bool) : 0 < series (reset :: older) := by
  rw [series]
  split <;> omega

theorem series_of_false {flags : List Bool} (h : ∀ flag ∈ flags, flag = false) : series flags = flags.length := by
  induction flags with
  | nil => rfl
  | cons flag older ih =>
      rw [series, h flag (by simp), ih fun other hmem => h other (by simp [hmem])]
      rfl

theorem current_cons (reset : Bool) (older : List Bool) :
    current base cap (reset :: older) = if reset then base else upcoming base cap older := by
  simp only [current, upcoming, series]
  split <;> rfl

theorem next_current {flags : List Bool} (h : flags ≠ []) :
    next cap (current base cap flags) = upcoming base cap flags := by
  cases flags with
  | nil => exact absurd rfl h
  | cons reset older =>
      rw [upcoming, current, ← Nat.sub_add_cancel (series_pos reset older)]
      rfl

def total (base cap waits : Nat) : Nat := ∑ i ∈ Finset.range waits, after base cap i

@[simp] theorem total_zero : total base cap 0 = 0 := rfl

theorem total_succ (waits : Nat) : total base cap (waits + 1) = total base cap waits + after base cap waits :=
  Finset.sum_range_succ _ _

theorem cap_mul_le_total (h : base ≤ cap) {steps : Nat} (hcap : cap ≤ base * 2 ^ steps) (waits : Nat) :
    cap * (waits - steps) ≤ total base cap waits := by
  induction waits with
  | zero => simp
  | succ waits ih =>
      rw [total_succ]
      rcases Nat.lt_or_ge waits steps with hlt | hge
      · have hzero : waits + 1 - steps = 0 := by omega
        rw [hzero, Nat.mul_zero]
        exact Nat.zero_le _
      · have hreached : cap ≤ base * 2 ^ waits :=
          hcap.trans (Nat.mul_le_mul_left _ (Nat.pow_le_pow_right (by decide) hge))
        rw [after_of_cap_le h hreached, Nat.succ_sub hge, Nat.mul_succ]
        exact Nat.add_le_add_right ih _

/-- A wait between two attempts: when the attempt before it began, when the wait
began and how long it took, and the time that the failure asked for, if any. -/
structure Pause where
  startedAt : Nat
  since : Nat
  delay : Nat
  reset : Bool
  asked : Nat

def Pause.ends (pause : Pause) : Nat := pause.since + pause.delay

/-- The log of a loop, newest first: each wait is as long as the backoff in `unit`s and
the failure ask, with some jitter, and the next attempt begins when it is over. -/
def Spaced (base cap unit : Nat) : List Pause → Prop
  | [] => True
  | pause :: older =>
      (∃ jitter < unit, pause.delay =
        max (current base cap ((pause :: older).map Pause.reset) * unit + jitter) pause.asked) ∧
      (∀ earlier ∈ older.head?, earlier.ends ≤ pause.startedAt) ∧
      pause.startedAt ≤ pause.since ∧ Spaced base cap unit older

variable {unit : Nat}

theorem Spaced.drop {pauses : List Pause} (h : Spaced base cap unit pauses) (n : Nat) :
    Spaced base cap unit (pauses.drop n) := by
  induction pauses generalizing n with
  | nil => simpa using h
  | cons pause older ih =>
      cases n with
      | zero => exact h
      | succ n => exact ih h.2.2.2 n

theorem Spaced.law {pauses : List Pause} (h : Spaced base cap unit pauses) (hcap : base ≤ cap) {i : Nat}
    {pause : Pause} (hpause : pauses[i]? = some pause) :
    let backoff := min (base * 2 ^ (series ((pauses.drop i).map Pause.reset) - 1)) cap
    backoff * unit ≤ pause.delay ∧ pause.asked ≤ pause.delay ∧
      (pause.delay < (backoff + 1) * unit ∨ pause.delay = pause.asked) ∧
      pause.startedAt ≤ pause.since ∧
      ∀ earlier, pauses[i + 1]? = some earlier → earlier.ends ≤ pause.startedAt := by
  have hdrop : pauses.drop i = pause :: pauses.drop (i + 1) := by
    obtain ⟨hlt, rfl⟩ := List.getElem?_eq_some_iff.mp hpause
    exact List.drop_eq_getElem_cons hlt
  have hspaced := h.drop i
  rw [← after_eq hcap]
  rw [hdrop] at hspaced ⊢
  obtain ⟨⟨jitter, hjitter, hdelay⟩, hearlier, hstarted, -⟩ := hspaced
  change pause.delay = max (after base cap _ * unit + jitter) pause.asked at hdelay
  refine ⟨?_, ?_, ?_, hstarted, fun earlier hfound => hearlier earlier (by simpa [List.head?_drop] using hfound)⟩
  · rw [hdelay]
    exact (Nat.le_add_right _ _).trans (Nat.le_max_left _ _)
  · rw [hdelay]
    exact Nat.le_max_right _ _
  · rw [Nat.succ_mul]
    omega

theorem Spaced.total_le {pauses : List Pause} (h : Spaced base cap unit pauses) {last first : Pause}
    (hlast : pauses.head? = some last)
    (hfirst : pauses[series (pauses.map Pause.reset) - 1]? = some first) :
    first.since + total base cap (series (pauses.map Pause.reset)) * unit ≤ last.ends := by
  induction pauses generalizing last with
  | nil => cases hlast
  | cons pause older ih =>
      cases hlast
      obtain ⟨⟨jitter, -, hdelay⟩, hearlier, hstarted, holder⟩ := h
      have hlong : current base cap ((pause :: older).map Pause.reset) * unit ≤ pause.delay := by
        rw [hdelay]
        exact (Nat.le_add_right _ _).trans (Nat.le_max_left _ _)
      have hone (hseries : series ((pause :: older).map Pause.reset) = 1) :
          first.since + total base cap (series ((pause :: older).map Pause.reset)) * unit ≤ pause.ends := by
        rw [hseries] at hfirst ⊢
        cases Option.some.inj hfirst
        rw [current, hseries] at hlong
        simpa [total, Pause.ends] using hlong
      cases hreset : pause.reset with
      | true => exact hone (by simp [series, hreset])
      | false =>
          cases older with
          | nil => exact hone (by simp [series, hreset])
          | cons earlier rest =>
              have hseries : series ((pause :: earlier :: rest).map Pause.reset) =
                  series ((earlier :: rest).map Pause.reset) + 1 := by
                simp [series, hreset]
              obtain ⟨n, hn⟩ := Nat.exists_eq_succ_of_ne_zero
                (series_pos earlier.reset (rest.map Pause.reset)).ne'
              rw [hseries] at hfirst ⊢
              rw [current, hseries, Nat.add_sub_cancel] at hlong
              have hbefore := ih holder rfl (by
                rw [List.map_cons, hn] at hfirst ⊢
                exact hfirst)
              have hnext := hearlier earlier rfl
              rw [total_succ, Nat.add_mul]
              simp only [Pause.ends] at hbefore hnext ⊢
              omega

structure Ready (base cap unit : Nat) (pauses : List Pause) (backoff startedAt : Nat) : Prop where
  spaced : Spaced base cap unit pauses
  backoff : backoff = upcoming base cap (pauses.map Pause.reset)
  started : ∀ last ∈ pauses.head?, last.ends ≤ startedAt

structure Waiting (base cap unit : Nat) (pauses : List Pause) (backoff since delay : Nat) : Prop where
  spaced : Spaced base cap unit pauses
  backoff : backoff = current base cap (pauses.map Pause.reset)
  last : ∃ last older, pauses = last :: older ∧ last.since = since ∧ last.delay = delay

theorem Ready.initial (clock : Nat) : Ready base cap unit [] base clock := ⟨trivial, rfl, by simp⟩

theorem Ready.later {pauses : List Pause} {backoff startedAt clock : Nat}
    (h : Ready base cap unit pauses backoff startedAt) (hlater : startedAt ≤ clock) :
    Ready base cap unit pauses backoff clock :=
  ⟨h.spaced, h.backoff, fun last hlast => (h.started last hlast).trans hlater⟩

theorem Ready.wait {pauses : List Pause} (pause : Pause) {backoff jitter : Nat}
    (h : Ready base cap unit pauses backoff pause.startedAt) (hjitter : jitter < unit)
    (hsince : pause.startedAt ≤ pause.since)
    (hdelay : pause.delay = max ((if pause.reset then base else backoff) * unit + jitter) pause.asked) :
    Waiting base cap unit (pause :: pauses) (if pause.reset then base else backoff) pause.since pause.delay := by
  have hcurrent : (if pause.reset then base else backoff) =
      current base cap ((pause :: pauses).map Pause.reset) := by
    rw [List.map_cons, current_cons, h.backoff]
  refine ⟨⟨⟨jitter, hjitter, ?_⟩, h.started, hsince, h.spaced⟩, hcurrent, pause, pauses, rfl, rfl, rfl⟩
  rw [← hcurrent]
  exact hdelay

theorem Waiting.attempt {pauses : List Pause} {backoff since delay clock : Nat}
    (h : Waiting base cap unit pauses backoff since delay) (hover : since + delay ≤ clock) :
    Ready base cap unit pauses (next cap backoff) clock := by
  obtain ⟨last, older, rfl, rfl, rfl⟩ := h.last
  refine ⟨h.spaced, ?_, ?_⟩
  · rw [h.backoff]
    exact next_current (by simp)
  · rintro _ ⟨⟩
    exact hover

section

variable {α : Type*} {waits : List α} {pause : α → Pause}

theorem Spaced.law_map (h : Spaced base cap unit (waits.map pause)) (hcap : base ≤ cap) {i : Nat} {wait : α}
    (hwait : waits[i]? = some wait) :
    let backoff := min (base * 2 ^ (series ((waits.drop i).map fun wait => (pause wait).reset) - 1)) cap
    backoff * unit ≤ (pause wait).delay ∧ (pause wait).asked ≤ (pause wait).delay ∧
      ((pause wait).delay < (backoff + 1) * unit ∨ (pause wait).delay = (pause wait).asked) ∧
      (pause wait).startedAt ≤ (pause wait).since ∧
      ∀ earlier, waits[i + 1]? = some earlier → (pause earlier).ends ≤ (pause wait).startedAt := by
  have hlaw := h.law hcap (i := i) (by rw [List.getElem?_map, hwait, Option.map_some])
  rw [← List.map_drop, List.map_map] at hlaw
  obtain ⟨hlong, hasked, hshort, hstarted, hearlier⟩ := hlaw
  exact ⟨hlong, hasked, hshort, hstarted, fun earlier hfound => hearlier (pause earlier) (by
    rw [List.getElem?_map, hfound, Option.map_some])⟩

/-- An attempt begins when the last wait is over, and when a series of waits has taken
as long as its backoffs. -/
theorem Ready.spread {backoff startedAt : Nat} (h : Ready base cap unit (waits.map pause) backoff startedAt)
    (hcap : base ≤ cap) (steps : Nat) (hsteps : cap ≤ base * 2 ^ steps) :
    let inSeries := series (waits.map fun wait => (pause wait).reset)
    (∀ last, waits.head? = some last → (pause last).ends ≤ startedAt) ∧
      ∀ first, waits[inSeries - 1]? = some first →
        (pause first).since + cap * (inSeries - steps) * unit ≤ startedAt := by
  have hhead (last : α) (hlast : waits.head? = some last) : (pause last).ends ≤ startedAt :=
    h.started (pause last) (by rw [List.head?_map, hlast]; rfl)
  refine ⟨hhead, fun first hfirst => ?_⟩
  cases hnewest : waits.head? with
  | none =>
      rw [List.head?_eq_none_iff.mp hnewest] at hfirst
      cases hfirst
  | some last =>
      have htotal := @Spaced.total_le _ _ _ _ h.spaced (pause last) (pause first)
        (by rw [List.head?_map, hnewest]; rfl)
        (by rw [List.map_map, List.getElem?_map]; exact congrArg (Option.map pause) hfirst)
      rw [List.map_map] at htotal
      exact ((Nat.add_le_add_left (Nat.mul_le_mul_right unit (cap_mul_le_total hcap hsteps _)) _).trans
        htotal).trans (hhead last hnewest)

end

end SjmbSlack.Backoff
