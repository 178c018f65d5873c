import SjmbSlack.Harvest.Extract

/-! Slack's encoding of texts and links, which `extract_urls` undoes under the
documented `url_regex`. -/
namespace SjmbSlack.Harvest
open Entities

/-- The characters that Slack escapes, with the names of their entities. -/
def ENTITIES : List (Entity Char) :=
  [⟨"lt;".toList, '<'⟩, ⟨"gt;".toList, '>'⟩, ⟨"amp;".toList, '&'⟩]

theorem entities_readable : Readable '&' ENTITIES := ⟨by decide, by decide⟩

/-- The replacements one after the other are one pass over the text. -/
theorem decodeEntities_eq (value : Str) : decodeEntities value = decode '&' ENTITIES value := by
  have hlater : Readable '&' ENTITIES.tail := ⟨by decide, by decide⟩
  rw [ENTITIES, decode_replace entities_readable (by decide) (by decide),
    decode_replace hlater (by decide) (by decide), decode_single (by decide)]
  rfl

def enc (text : Str) : Str := encode '&' ENTITIES text

@[simp] theorem decodeEntities_enc (text : Str) : decodeEntities (enc text) = text := by
  rw [decodeEntities_eq, enc, decode_encode entities_readable (by decide)]

theorem enc_append (left right : Str) : enc (left ++ right) = enc left ++ enc right :=
  List.flatMap_append

theorem enc_ne_nil {text : Str} (h : text ≠ []) : enc text ≠ [] := by
  intro hnil
  have hback := decodeEntities_enc text
  rw [hnil] at hback
  exact h hback.symm

theorem opening_notMem_enc (text : Str) : '<' ∉ enc text :=
  not_mem_encode (by decide) (by decide) fun _ => by decide

theorem closing_notMem_enc (text : Str) : '>' ∉ enc text :=
  not_mem_encode (by decide) (by decide) fun _ => by decide

theorem bar_notMem_enc {text : Str} (h : '|' ∉ text) : '|' ∉ enc text :=
  not_mem_encode (by decide) (by decide) fun hmem => absurd hmem h

structure Link where
  url : Str
  label : Option Str
  linked : ∃ scheme ∈ ["http://".toList, "https://".toList], ∃ rest, rest ≠ [] ∧ url = scheme ++ rest
  unbarred : '|' ∉ url

inductive Segment where
  | plain (text : Str)
  | link (link : Link)

def Link.value (link : Link) : Str :=
  enc link.url ++ match link.label with
    | some label => '|' :: enc label
    | none => []

def Segment.render : Segment → Str
  | .plain text => enc text
  | .link shown => '<' :: shown.value ++ ['>']

def render (segments : List Segment) : Str := segments.flatMap Segment.render

def Segment.link? : Segment → Option Link
  | .plain _ => none
  | .link shown => some shown

def linkUrls (segments : List Segment) : List Str :=
  (segments.filterMap Segment.link?).map Link.url

theorem Link.closing_notMem (link : Link) : '>' ∉ link.value := by
  unfold Link.value
  cases link.label with
  | none => simpa using closing_notMem_enc link.url
  | some label => simp [closing_notMem_enc]

theorem Link.isLink_value (link : Link) : isLink link.value = true := by
  obtain ⟨scheme, hscheme, rest, hrest, hurl⟩ := link.linked
  have hplain : enc scheme = scheme := by
    rcases List.mem_pair.mp hscheme with rfl | rfl <;> decide
  have hvalue : ∃ tail, tail ≠ [] ∧ link.value = scheme ++ tail := by
    refine ⟨_, ?_, by rw [Link.value, hurl, enc_append, hplain, List.append_assoc]⟩
    exact List.append_ne_nil_of_left_ne_nil (enc_ne_nil hrest) _
  obtain ⟨tail, htail, hvalue⟩ := hvalue
  have hclosing := link.closing_notMem
  refine List.any_eq_true.mpr ⟨scheme, hscheme, ?_⟩
  rw [hvalue] at hclosing ⊢
  have hlength := List.length_pos_iff.mpr htail
  simp_all

theorem Link.splitLabel_value (link : Link) : splitLabel link.value = enc link.url := by
  have hbar := bar_notMem_enc link.unbarred
  unfold splitLabel Link.value
  cases link.label with
  | none => rw [List.append_nil, Str.splitOnce_eq_none hbar]
  | some label => rw [Str.splitOnce_append hbar]

theorem linksFrom_skip (skip : Nat) (text : Str) : linksFrom skip text = links (text.drop skip) := by
  induction skip generalizing text with
  | zero => rfl
  | succ skip ih =>
      cases text with
      | nil => simp [links, linksFrom]
      | cons ch rest => exact ih rest

theorem links_plain {plain : Str} (h : '<' ∉ plain) (rest : Str) :
    links (plain ++ rest) = links rest := by
  induction plain with
  | nil => rfl
  | cons ch plain ih =>
      rw [List.mem_cons, not_or] at h
      have hnone : linkAt (ch :: (plain ++ rest)) = none := by
        unfold linkAt
        split
        · rename_i heq
          exact absurd (List.cons.inj heq).1.symm h.1
        · rfl
      rw [List.cons_append, links, linksFrom, hnone]
      exact ih h.2

theorem links_link {value : Str} (h : isLink value = true) (hclosing : '>' ∉ value) (rest : Str) :
    links ('<' :: value ++ '>' :: rest) = some value :: links rest := by
  have htake : (value ++ '>' :: rest).takeWhile (· ≠ '>') = value := by
    rw [List.takeWhile_append_of_pos]
    · simp
    · intro ch hmem
      exact decide_eq_true fun heq => hclosing (heq ▸ hmem)
  have hlink : linkAt ('<' :: (value ++ '>' :: rest)) = some value := by
    rw [linkAt, htake, if_pos ⟨h, by simp⟩]
  rw [List.cons_append, links, linksFrom, hlink]
  dsimp only
  rw [linksFrom_skip]
  simp

theorem links_render (segments : List Segment) :
    links (render segments) = (segments.filterMap Segment.link?).map fun link => some link.value := by
  induction segments with
  | nil => rfl
  | cons segment segments ih =>
      rw [render, List.flatMap_cons]
      cases segment with
      | plain text => exact (links_plain (opening_notMem_enc text) _).trans ih
      | link link =>
          change links (('<' :: link.value ++ ['>']) ++ render segments) = _
          rw [List.append_assoc, List.singleton_append, links_link link.isLink_value link.closing_notMem,
            ih]
          rfl

theorem candidates_render (segments : List Segment) :
    candidates links (render segments) = (linkUrls segments).take MAX_URLS_PER_MESSAGE := by
  rw [candidates, links_render, linkUrls, ← List.map_take, ← List.map_take, List.filterMap_map]
  have hsome : (id ∘ fun link : Link => some link.value) = some ∘ Link.value := rfl
  rw [hsome, List.filterMap_eq_map, List.map_map]
  refine List.map_congr_left fun link _ => ?_
  rw [Function.comp_apply, link.splitLabel_value, decodeEntities_enc]

theorem length_examined (crate : UrlCrate) (values : List Str) :
    (values.filterMap fun value => (examine crate value).toOption).length +
        values.countP (fun value => examine crate value = .error .oversized) +
        values.countP (fun value => examine crate value = .error .invalid) = values.length := by
  induction values with
  | nil => rfl
  | cons value values ih =>
      simp only [List.filterMap_cons, List.countP_cons, List.length_cons, ← ih]
      cases examine crate value with
      | ok url => simp [Except.toOption]; omega
      | error refusal => cases refusal <;> simp [Except.toOption] <;> omega

/-- Extraction undoes the encoding of a message and accounts for each of its first
links; on any text, the replacements read each entity once. -/
theorem extractUrls_render (crate : UrlCrate) (segments : List Segment) (counters : Counters) :
    let first := (linkUrls segments).take MAX_URLS_PER_MESSAGE
    let result := extractUrls crate links (render segments) counters
    (∀ value, decodeEntities value = decode '&' ENTITIES value) ∧
    candidates links (render segments) = first ∧
    result.1 = first.filterMap (fun url => (examine crate url).toOption) ∧
    (∀ url text, examine crate url = .ok text →
      ∃ parsed, crate.parse url = some parsed ∧ crate.text parsed = text) ∧
    result.2.oversizedUrls = counters.oversizedUrls +
      first.countP (fun url => examine crate url = .error .oversized) ∧
    result.2.invalid = counters.invalid +
      first.countP (fun url => examine crate url = .error .invalid) ∧
    result.1.length + (result.2.oversizedUrls - counters.oversizedUrls) +
      (result.2.invalid - counters.invalid) = first.length := by
  intro first result
  have hcandidates : candidates links (render segments) = first := candidates_render segments
  have hresult : result = _ := extractFrom_eq crate counters _
  have hvalues : ((((links (render segments)).take MAX_URLS_PER_MESSAGE).filterMap id).map
      fun value => decodeEntities (splitLabel value)) = first := hcandidates
  rw [hvalues] at hresult
  have hlength := length_examined crate first
  refine ⟨decodeEntities_eq, hcandidates, by rw [hresult], fun url text hok => ?_, by rw [hresult],
    by rw [hresult], by rw [hresult]; dsimp only; omega⟩
  obtain ⟨parsed, hparse, -, htext, -⟩ := examine_ok hok
  exact ⟨parsed, hparse, htext⟩

example : links "<http://a|b> <x> <https://c<d> e".toList =
    ["http://a|b".toList, "https://c<d".toList].map some := by decide

end SjmbSlack.Harvest
