import SjmbSlack.Limits.LogText
import SjmbSlack.Library.Entities
import SjmbSlack.Url

/-! `extract_urls`: the URLs that a regular expression captures in the text of a
message, decoded and validated, and the regular expression of the documentation. -/
namespace SjmbSlack.Harvest
open Entities

def MAX_URL_BYTES : Nat := 2048
def MAX_URLS_PER_MESSAGE : Nat := 16

structure Counters where
  oversizedUrls : Nat
  invalid : Nat
  deriving DecidableEq

def decodeEntities (value : Str) : Str :=
  replace "&amp;".toList ['&'] (replace "&gt;".toList ['>'] (replace "&lt;".toList ['<'] value))

def splitLabel (value : Str) : Str :=
  match Str.splitOnce '|' value with
  | some (url, _) => url
  | none => value

def validUrl (value : Str) (url : Url) : Bool :=
  (url.scheme = "http".toList || url.scheme = "https".toList) && url.host.isSome &&
    !value.any fun ch => Limits.isControl ch || Limits.isWhitespace ch

inductive Refusal where
  | oversized
  | invalid
  deriving DecidableEq

def examine (crate : UrlCrate) (value : Str) : Except Refusal Str :=
  if value.byteLength > MAX_URL_BYTES then .error .oversized
  else match (crate.parse value).filter (validUrl value) with
    | none => .error .invalid
    | some url =>
        if (crate.text url).byteLength > MAX_URL_BYTES then .error .oversized
        else .ok (crate.text url)

def Counters.count (counters : Counters) : Refusal → Counters
  | .oversized => { counters with oversizedUrls := counters.oversizedUrls + 1 }
  | .invalid => { counters with invalid := counters.invalid + 1 }

def extractFrom (crate : UrlCrate) (counters : Counters) : List (Option Str) → List Str × Counters
  | [] => ([], counters)
  | none :: rest => extractFrom crate counters rest
  | some value :: rest =>
      match examine crate (decodeEntities (splitLabel value)) with
      | .ok url =>
          let later := extractFrom crate counters rest
          (url :: later.1, later.2)
      | .error refusal => extractFrom crate (counters.count refusal) rest

/-- `captures` gives the first group of each match of `url_regex`, in order. -/
def extractUrls (crate : UrlCrate) (captures : Str → List (Option Str)) (text : Str)
    (counters : Counters) : List Str × Counters :=
  extractFrom crate counters ((captures text).take MAX_URLS_PER_MESSAGE)

def candidates (captures : Str → List (Option Str)) (text : Str) : List Str :=
  (((captures text).take MAX_URLS_PER_MESSAGE).filterMap id).map fun value =>
    decodeEntities (splitLabel value)

/-- What `https?://[^>]+` matches. -/
def isLink (value : Str) : Bool :=
  ["http://".toList, "https://".toList].any fun scheme =>
    scheme.isPrefixOf value && scheme.length < value.length && !value.contains '>'

/-- The group of `<(https?://[^>]+)>` where it matches at the beginning of a text. -/
def linkAt : Str → Option Str
  | '<' :: rest =>
      let value := rest.takeWhile (· ≠ '>')
      if isLink value ∧ value.length < rest.length then some value else none
  | _ => none

/-- The matches from a place on; some characters belong to the last match. -/
def linksFrom : Nat → Str → List (Option Str)
  | _, [] => []
  | skip + 1, _ :: rest => linksFrom skip rest
  | 0, ch :: rest =>
      match linkAt (ch :: rest) with
      | some value => some value :: linksFrom (value.length + 1) rest
      | none => linksFrom 0 rest

/-- `captures_iter` for the documented `url_regex`, `<(https?://[^>]+)>`. -/
def links (text : Str) : List (Option Str) := linksFrom 0 text

theorem extractFrom_eq (crate : UrlCrate) (counters : Counters) (captured : List (Option Str)) :
    let values := (captured.filterMap id).map fun value => decodeEntities (splitLabel value)
    extractFrom crate counters captured =
      (values.filterMap fun value => (examine crate value).toOption,
        { oversizedUrls := counters.oversizedUrls +
            values.countP fun value => examine crate value = .error .oversized
          invalid := counters.invalid +
            values.countP fun value => examine crate value = .error .invalid }) := by
  induction captured generalizing counters with
  | nil => rfl
  | cons capture rest ih =>
      cases capture with
      | none => exact ih counters
      | some value =>
          simp only [extractFrom, List.filterMap_cons, id, List.map_cons, List.countP_cons]
          cases examine crate (decodeEntities (splitLabel value)) with
          | ok url => simp [ih, Except.toOption]
          | error refusal =>
              cases refusal <;> simp [ih, Counters.count, Except.toOption] <;> omega

theorem examine_ok {crate : UrlCrate} {value url : Str} (h : examine crate value = .ok url) :
    ∃ parsed, crate.parse value = some parsed ∧ validUrl value parsed = true ∧
      crate.text parsed = url ∧ url.byteLength ≤ MAX_URL_BYTES := by
  unfold examine at h
  split at h
  · contradiction
  · split at h
    · contradiction
    · rename_i parsed hparsed
      obtain ⟨hparse, hvalid⟩ := Option.filter_eq_some_iff.mp hparsed
      split at h
      · contradiction
      · cases Except.ok.inj h
        exact ⟨parsed, hparse, hvalid, rfl, by omega⟩

theorem extractUrls_bounded (crate : UrlCrate) (captures : Str → List (Option Str)) (text : Str)
    (counters : Counters) :
    (extractUrls crate captures text counters).1.length ≤ MAX_URLS_PER_MESSAGE ∧
      ∀ url ∈ (extractUrls crate captures text counters).1, url.byteLength ≤ MAX_URL_BYTES := by
  rw [extractUrls, extractFrom_eq]
  constructor
  · refine (List.length_filterMap_le _ _).trans ?_
    rw [List.length_map]
    refine (List.length_filterMap_le _ _).trans ?_
    rw [List.length_take]
    exact Nat.min_le_left _ _
  · intro url hmem
    obtain ⟨value, -, hok⟩ := List.mem_filterMap.mp hmem
    cases hexamine : examine crate value with
    | ok other =>
        rw [hexamine] at hok
        cases Option.some.inj hok
        obtain ⟨-, -, -, -, hle⟩ := examine_ok hexamine
        exact hle
    | error refusal =>
        rw [hexamine] at hok
        contradiction

def pageCrate : UrlCrate where
  parse input :=
    if "https://example.com/".toList.isPrefixOf input then some {
      scheme := "https".toList
      username := []
      password := none
      host := some (.domain "example.com".toList)
      port := none
      path := input.drop 19
      query := none
      fragment := none }
    else none
  text url := "https://example.com".toList ++ url.path
  parseHost host := some (.domain host.toAsciiLowercase)

end SjmbSlack.Harvest
