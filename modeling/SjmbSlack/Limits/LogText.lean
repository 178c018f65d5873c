import SjmbSlack.Library.Budget
import SjmbSlack.Text

/-! `log_text`: bounded one-line text. -/
namespace SjmbSlack.Limits
open Budget

def isControl (ch : Char) : Bool :=
  ch.toNat < 0x20 || (0x7f ≤ ch.toNat && ch.toNat < 0xa0)

def isWhitespace (ch : Char) : Bool :=
  (0x09 ≤ ch.toNat && ch.toNat ≤ 0x0d) || ch.toNat = 0x20 || ch.toNat = 0x85 ||
    ch.toNat = 0xa0 || ch.toNat = 0x1680 || (0x2000 ≤ ch.toNat && ch.toNat ≤ 0x200a) ||
    ch.toNat = 0x2028 || ch.toNat = 0x2029 || ch.toNat = 0x202f || ch.toNat = 0x205f ||
    ch.toNat = 0x3000

def oneLine (ch : Char) : Char :=
  if isControl ch || isWhitespace ch then ' ' else ch

def logTextFrom (maxBytes : Nat) : Nat → Str → Str
  | _, [] => []
  | used, ch :: rest =>
      if used + (oneLine ch).utf8Size > maxBytes then []
      else oneLine ch :: logTextFrom maxBytes (used + (oneLine ch).utf8Size) rest

def logText (text : Str) (maxBytes : Nat) : Str := logTextFrom maxBytes 0 text

theorem oneLine_eq_or (ch : Char) :
    oneLine ch = ' ' ∨ oneLine ch = ch ∧ isControl ch = false ∧ isWhitespace ch = false := by
  unfold oneLine
  split
  · exact .inl rfl
  · rename_i hplain
    rw [Bool.not_eq_true, Bool.or_eq_false_iff] at hplain
    exact .inr ⟨rfl, hplain⟩

theorem oneLine_plain (ch : Char) :
    isControl (oneLine ch) = false ∧ (isWhitespace (oneLine ch) = true → oneLine ch = ' ') := by
  rcases oneLine_eq_or ch with hspace | ⟨hsame, hcontrol, hwhitespace⟩
  · rw [hspace]
    exact ⟨by decide, fun _ => rfl⟩
  · rw [hsame]
    exact ⟨hcontrol, fun h => absurd h (by simp [hwhitespace])⟩

@[simp] theorem oneLine_oneLine (ch : Char) : oneLine (oneLine ch) = oneLine ch := by
  rcases oneLine_eq_or ch with hspace | ⟨hsame, -, -⟩
  · rw [hspace]
    decide
  · rw [hsame, hsame]

/-- The loop takes of the image what fits the bytes that are left. -/
theorem logTextFrom_eq (maxBytes used : Nat) (text : Str) (h : used ≤ maxBytes) :
    logTextFrom maxBytes used text =
      takeWithin Char.utf8Size (maxBytes - used) (text.map oneLine) := by
  induction text generalizing used with
  | nil => rfl
  | cons ch rest ih =>
      rw [List.map_cons]
      unfold logTextFrom takeWithin
      split
      · rw [if_neg (by omega)]
      · rw [if_pos (by omega), ih _ (by omega), Nat.sub_add_eq]

theorem logText_eq (text : Str) (maxBytes : Nat) :
    logText text maxBytes = takeWithin Char.utf8Size maxBytes (text.map oneLine) :=
  logTextFrom_eq maxBytes 0 text (Nat.zero_le _)

theorem byteLength_logText (text : Str) (maxBytes : Nat) :
    (logText text maxBytes).byteLength ≤ maxBytes := by
  rw [logText_eq]
  exact cost_takeWithin_le Char.utf8Size maxBytes _

/-- The part of a text that is kept, before its characters are replaced. -/
def keptText (text : Str) (maxBytes : Nat) : Str :=
  takeWithin (fun ch => (oneLine ch).utf8Size) maxBytes text

theorem logText_eq_map (text : Str) (maxBytes : Nat) :
    logText text maxBytes = (keptText text maxBytes).map oneLine := by
  rw [logText_eq, takeWithin_map, keptText]

theorem prefix_keptText_iff (text start : Str) (maxBytes : Nat) :
    start <+: keptText text maxBytes ↔
      start <+: text ∧ Str.byteLength (start.map oneLine) ≤ maxBytes := by
  rw [keptText, prefix_takeWithin_iff, ← cost_map]
  rfl

theorem map_oneLine_logText (text : Str) (maxBytes : Nat) :
    (logText text maxBytes).map oneLine = logText text maxBytes := by
  rw [logText_eq_map, List.map_map]
  apply List.map_congr_left
  intro ch _
  exact oneLine_oneLine ch

theorem logText_logText (text : Str) (maxBytes again : Nat) :
    logText (logText text maxBytes) again = logText text (min maxBytes again) := by
  rw [logText_eq (logText text maxBytes), map_oneLine_logText, logText_eq, logText_eq,
    takeWithin_takeWithin]

theorem plain_of_mem_logText {text : Str} {maxBytes : Nat} {ch : Char}
    (h : ch ∈ logText text maxBytes) :
    isControl ch = false ∧ (isWhitespace ch = true → ch = ' ') := by
  rw [logText_eq_map] at h
  obtain ⟨source, -, rfl⟩ := List.mem_map.mp h
  exact oneLine_plain source

/-- `log_text` is the image of the longest beginning whose image fits, and bounds
of bounds are bounds by the smaller one. -/
theorem logText_stable (text : Str) (maxBytes again : Nat) :
    (logText text maxBytes).byteLength ≤ maxBytes ∧
      (∀ ch ∈ logText text maxBytes,
        isControl ch = false ∧ (isWhitespace ch = true → ch = ' ')) ∧
      (∃ kept, kept <+: text ∧ logText text maxBytes = kept.map oneLine ∧
        ∀ longer, longer <+: text → kept.length < longer.length →
          maxBytes < Str.byteLength (longer.map oneLine)) ∧
      logText (logText text maxBytes) again = logText text (min maxBytes again) := by
  refine ⟨byteLength_logText text maxBytes, fun ch h => plain_of_mem_logText h,
    ⟨keptText text maxBytes, takeWithin_prefix _ _ _, logText_eq_map text maxBytes, ?_⟩,
    logText_logText text maxBytes again⟩
  intro longer hbegins hlength
  apply Nat.lt_of_not_le
  intro hfits
  have hkept := (prefix_keptText_iff text longer maxBytes).mpr ⟨hbegins, hfits⟩
  exact absurd hkept.length_le (by omega)

example : logText "a\r\n\x1bb".toList 20 = "a   b".toList := by decide

end SjmbSlack.Limits
