import Mathlib.Algebra.Order.BigOperators.Group.List
import SjmbSlack.UserSession.Persist

/-! How long the JSON of a state within the limits gets. -/
namespace SjmbSlack.UserSession.Persist
open SjmbSlack.Str

theorem length_toVec (data : Snapshot) : (toVec data).length = byteLength (snapshotText data) := by
  unfold toVec byteLength
  rw [List.length_flatMap]
  simp only [String.length_utf8EncodeChar]

/-- A character that JSON leaves as it is. -/
def Plain (ch : Char) : Prop := escaped ch = [ch]

theorem byteLength_quoted {text : Str} (h : ∀ ch ∈ text, Plain ch) :
    byteLength (quoted text) = byteLength text + 2 := by
  have hescaped : text.flatMap escaped = text := by
    induction text with
    | nil => rfl
    | cons ch rest ih =>
        rw [List.flatMap_cons, h ch List.mem_cons_self,
          ih fun other hmem => h other (List.mem_cons_of_mem _ hmem)]
        rfl
  have hquote : QUOTE.utf8Size = 1 := by decide
  rw [quoted, hescaped, List.cons_append, byteLength_cons, byteLength_append, byteLength_cons,
    byteLength_nil, hquote]
  omega

theorem plain_alphanumeric {ch : Char} (h : isAsciiAlphanumeric ch = true) : Plain ch := by
  unfold isAsciiAlphanumeric isAsciiDigit at h
  simp only [Bool.or_eq_true, decide_eq_true_eq] at h
  have hlow : '0' ≤ ch := by
    rcases h with (h | h) | h
    · exact h.1
    · exact le_trans (by decide) h.1
    · exact le_trans (by decide) h.1
  have hcode : 48 ≤ ch.toNat := hlow
  unfold Plain escaped
  rw [if_neg, if_pos (by omega)]
  rintro (rfl | rfl)
  · revert hcode
    decide
  · revert h
    decide

theorem plain_digit {ch : Char} (h : isAsciiDigit ch = true) : Plain ch :=
  plain_alphanumeric (by rw [isAsciiAlphanumeric, h, Bool.true_or, Bool.true_or])

theorem contains_of_splitOnce {separator : Char} {text : Str} {parts : Str × Str}
    (h : splitOnce separator text = some parts) : text.contains separator = true := by
  rw [splitOnce_eq h]
  simp

theorem plain_timestamp {ts : Str} (h : (Harvest.messageTimestamp ts).isSome = true) :
    ∀ ch ∈ ts, Plain ch := by
  have hdigits : ∀ {digits : Str}, digits.all isAsciiDigit = true → ∀ ch ∈ digits, Plain ch :=
    fun hall ch hmem => plain_digit (List.all_eq_true.mp hall ch hmem)
  unfold Harvest.messageTimestamp at h
  dsimp only at h
  split at h
  · contradiction
  · rename_i hparts
    rw [not_or, not_or, not_not, not_and_or, not_or, not_not] at hparts
    obtain ⟨-, hwhole, hfraction⟩ := hparts
    cases hsplit : splitOnce '.' ts with
    | none =>
        rw [hsplit] at hwhole
        exact hdigits hwhole
    | some parts =>
        rw [hsplit, Option.getD_some] at hwhole hfraction
        have hrest := (hfraction.resolve_left (not_not.mpr (contains_of_splitOnce hsplit))).2
        rw [splitOnce_eq hsplit]
        intro ch hmem
        rcases List.mem_append.mp hmem with hmem | hmem
        · exact hdigits hwhole ch hmem
        · rcases List.mem_cons.mp hmem with rfl | hmem
          · rfl
          · exact hdigits hrest ch hmem

theorem byteLength_id {id : Str} (h : validId id = true) : byteLength (quoted id) ≤ 66 := by
  unfold validId at h
  simp only [Bool.and_eq_true, decide_eq_true_eq] at h
  rw [byteLength_quoted fun ch hmem => plain_alphanumeric (List.all_eq_true.mp h.2 ch hmem)]
  exact Nat.add_le_add_right h.1.2 2

theorem byteLength_ts {ts : Str} (h : validTs ts = true) : byteLength (quoted ts) ≤ 34 := by
  unfold validTs at h
  simp only [Bool.and_eq_true, decide_eq_true_eq] at h
  rw [byteLength_quoted (plain_timestamp h.2)]
  exact Nat.add_le_add_right h.1 2

theorem byteLength_toDigits {value : Nat} (h : value < 10 ^ 19) :
    byteLength (Nat.toDigits 10 value) ≤ 19 := by
  have hsize : ∀ ch ∈ Nat.toDigits 10 value, ch.utf8Size = 1 := by
    intro ch hmem
    have hdigit := Nat.isDigit_of_mem_toDigits (by decide) (by decide) hmem
    rw [Char.isDigit, Bool.and_eq_true, decide_eq_true_eq, decide_eq_true_eq] at hdigit
    have hsmall : (57 : UInt32) ≤ 127 := by decide
    exact Char.utf8Size_eq_one_iff.mpr (UInt32.le_trans hdigit.2 hsmall)
  unfold byteLength
  rw [List.map_congr_left hsize, List.map_const', List.sum_replicate_nat, Nat.mul_one]
  exact Nat.toDigits_length 10 value 19 (by decide) h

theorem byteLength_decimal {value : Int} (h : InI64 value) : byteLength (decimal value) ≤ 20 := by
  have hdigits : byteLength (Nat.toDigits 10 value.natAbs) ≤ 19 := by
    unfold InI64 at h
    exact byteLength_toDigits (by omega)
  have hminus : Char.utf8Size '-' = 1 := by decide
  unfold decimal
  split
  · rw [byteLength_cons, hminus]
    omega
  · omega

theorem byteLength_separated (texts : List Str) :
    byteLength (separated texts) ≤ (texts.map fun text => byteLength text + 1).sum := by
  have hcomma : Char.utf8Size ',' = 1 := by decide
  induction texts with
  | nil => exact Nat.le_refl _
  | cons text rest ih =>
      cases rest with
      | nil =>
          change byteLength text ≤ byteLength text + 1 + 0
          omega
      | cons next rest =>
          change byteLength (text ++ ',' :: separated (next :: rest)) ≤ _
          rw [byteLength_append, byteLength_cons, hcomma, List.map_cons, List.sum_cons]
          omega

theorem byteLength_array (items : List Str) :
    byteLength (array items) ≤ 2 + (items.map fun item => byteLength item + 1).sum := by
  have hopen : Char.utf8Size '[' = 1 := by decide
  have hclose : Char.utf8Size ']' = 1 := by decide
  have hitems := byteLength_separated items
  rw [array, List.cons_append, byteLength_cons, byteLength_append, byteLength_cons,
    byteLength_nil, hopen, hclose]
  omega

theorem byteLength_object (fields : List (Str × Str)) :
    byteLength (object fields) ≤
      2 + (fields.map fun field => byteLength (quoted field.1) + byteLength field.2 + 2).sum := by
  have hopen : Char.utf8Size '\x7b' = 1 := by decide
  have hclose : Char.utf8Size '\x7d' = 1 := by decide
  have hcolon : Char.utf8Size ':' = 1 := by decide
  have hfields :=
    byteLength_separated (fields.map fun field => quoted field.1 ++ ':' :: field.2)
  have hsame : ∀ field ∈ fields, ((fun text => byteLength text + 1) ∘
      fun field => quoted field.1 ++ ':' :: field.2) field =
      byteLength (quoted field.1) + byteLength field.2 + 2 := by
    intro field _
    rw [Function.comp, byteLength_append, byteLength_cons, hcolon]
    omega
  rw [List.map_map, List.map_congr_left hsame] at hfields
  rw [object, List.cons_append, byteLength_cons, byteLength_append, byteLength_cons,
    byteLength_nil, hopen, hclose]
  omega

theorem sum_le_affine {items : List α} {size weight : α → Nat} {fixed factor : Nat}
    (h : ∀ item ∈ items, size item ≤ fixed + factor * weight item) :
    (items.map size).sum ≤ fixed * items.length + factor * (items.map weight).sum := by
  induction items with
  | nil => exact Nat.zero_le _
  | cons item rest ih =>
      have hrest := ih fun other hmem => h other (List.mem_cons_of_mem _ hmem)
      have hitem := h item List.mem_cons_self
      rw [List.map_cons, List.map_cons, List.sum_cons, List.sum_cons, List.length_cons]
      calc size item + (rest.map size).sum
          ≤ (fixed + factor * weight item) +
              (fixed * rest.length + factor * (rest.map weight).sum) := Nat.add_le_add hitem hrest
        _ = fixed * (rest.length + 1) + factor * (weight item + (rest.map weight).sum) := by ring

variable {team user : Str} {now : Int} {channel : Channel} {record : Seen} {data : Snapshot}

theorem inI64_of_covered (hnow : now ≤ Harvest.maxSeconds) (h : ChannelSound now channel) :
    InI64 channel.coveredUntil := by
  have hcovered := h.covered
  have hmax : (Harvest.maxSeconds : Int) = 8210266876799 := rfl
  unfold InI64
  omega

theorem byteLength_channelText (hnow : now ≤ Harvest.maxSeconds) (h : ChannelSound now channel) :
    byteLength (channelText channel) ≤ 52 + 56 * channel.threads.length := by
  have hcovered := byteLength_decimal (inI64_of_covered hnow h)
  have hthreads := byteLength_object
    (channel.threads.entries.map fun thread => (thread.1, decimal thread.2))
  have hsum : ((channel.threads.entries.map fun thread =>
      (thread.1, decimal thread.2)).map fun field =>
        byteLength (quoted field.1) + byteLength field.2 + 2).sum ≤
      56 * channel.threads.length := by
    rw [List.map_map]
    refine (List.sum_le_card_nsmul _ 56 (List.forall_mem_map.mpr fun thread hmem => ?_)).trans ?_
    · obtain ⟨hts, htime⟩ := h.threads thread.1 thread.2 hmem
      have := byteLength_ts hts
      have := byteLength_decimal htime
      dsimp only [Function.comp]
      omega
    · rw [List.length_map, Nat.nsmul_eq_mul, mul_comm]
      exact Nat.le_refl _
  have hfields := byteLength_object [("covered_until".toList, decimal channel.coveredUntil),
    ("threads".toList,
      object (channel.threads.entries.map fun thread => (thread.1, decimal thread.2)))]
  have hcoveredName : byteLength (quoted "covered_until".toList) = 15 := by decide
  have hthreadsName : byteLength (quoted "threads".toList) = 9 := by decide
  simp only [List.map_cons, List.map_nil, List.sum_cons, List.sum_nil, hcoveredName, hthreadsName]
    at hfields
  unfold channelText
  omega

theorem byteLength_seenText (h : SeenSound record) : byteLength (seenText record) ≤ 155 := by
  have hfields := byteLength_object [("channel".toList, quoted record.channel),
    ("ts".toList, quoted record.ts), ("processed_at".toList, decimal record.processedAt)]
  have hchannel := byteLength_id h.channel
  have hts := byteLength_ts h.ts
  have htime := byteLength_decimal h.processedAt
  have hchannelName : byteLength (quoted "channel".toList) = 9 := by decide
  have htsName : byteLength (quoted "ts".toList) = 4 := by decide
  have htimeName : byteLength (quoted "processed_at".toList) = 14 := by decide
  simp only [List.map_cons, List.map_nil, List.sum_cons, List.sum_nil, hchannelName, htsName,
    htimeName] at hfields
  unfold seenText
  omega

theorem byteLength_channels (hnow : now ≤ Harvest.maxSeconds) (h : Limits team user now data) :
    byteLength (object (data.channels.entries.map fun entry =>
      (entry.1, channelText entry.2))) ≤ 2 + 120 * MAX_CHANNELS + 56 * MAX_THREADS := by
  have hobject := byteLength_object
    (data.channels.entries.map fun entry => (entry.1, channelText entry.2))
  rw [List.map_map] at hobject
  have hsum := @sum_le_affine _ data.channels.entries
    ((fun field => byteLength (quoted field.1) + byteLength field.2 + 2) ∘
      fun entry => (entry.1, channelText entry.2))
    (fun entry => entry.2.threads.length) 120 56 (by
      intro entry hmem
      obtain ⟨hid, hsound⟩ := h.sound entry.1 entry.2 (SortedMap.get_eq_some.mpr hmem)
      have := byteLength_id hid
      have := byteLength_channelText hnow hsound
      dsimp only [Function.comp]
      omega)
  have hchannels : data.channels.entries.length ≤ MAX_CHANNELS := h.channels
  have hthreads : (data.channels.entries.map fun entry => entry.2.threads.length).sum ≤
    MAX_THREADS := h.threads
  omega

theorem byteLength_seen (h : Limits team user now data) :
    byteLength (array (data.seen.map seenText)) ≤ 2 + 156 * MAX_SEEN := by
  have harray := byteLength_array (data.seen.map seenText)
  rw [List.map_map] at harray
  have hsum := List.sum_le_card_nsmul (data.seen.map ((fun item => byteLength item + 1) ∘ seenText))
    156 (List.forall_mem_map.mpr fun record hmem =>
      Nat.succ_le_succ (byteLength_seenText (h.records record hmem)))
  rw [List.length_map, Nat.nsmul_eq_mul] at hsum
  have hseen := h.seen
  omega

theorem toVec_lt (hnow : now ≤ Harvest.maxSeconds) (hteam : validId team = true)
    (huser : validId user = true) (h : Limits team user now data) :
    (toVec data).length < MAX_STATE_BYTES := by
  have hfields := byteLength_object [("version".toList, decimal data.version),
    ("team".toList, quoted data.team), ("user".toList, quoted data.user),
    ("channels".toList, object (data.channels.entries.map fun entry =>
      (entry.1, channelText entry.2))), ("seen".toList, array (data.seen.map seenText))]
  have hversion : byteLength (decimal data.version) = 1 := by
    rw [h.version]
    decide
  have hteamText := byteLength_id hteam
  have huserText := byteLength_id huser
  have hchannels := byteLength_channels hnow h
  have hseen := byteLength_seen h
  have hversionName : byteLength (quoted "version".toList) = 9 := by decide
  have hteamName : byteLength (quoted "team".toList) = 6 := by decide
  have huserName : byteLength (quoted "user".toList) = 6 := by decide
  have hchannelsName : byteLength (quoted "channels".toList) = 10 := by decide
  have hseenName : byteLength (quoted "seen".toList) = 6 := by decide
  simp only [List.map_cons, List.map_nil, List.sum_cons, List.sum_nil, hversionName, hteamName,
    huserName, hchannelsName, hseenName, hversion] at hfields
  rw [h.team, h.user] at hfields
  rw [length_toVec, snapshotText, h.team, h.user]
  unfold MAX_CHANNELS MAX_THREADS at hchannels
  unfold MAX_SEEN at hseen
  unfold MAX_STATE_BYTES
  omega

end SjmbSlack.UserSession.Persist
