import SjmbSlack.Library.FormUrl
import SjmbSlack.Slackbot.Config
import SjmbSlack.UserSession.Store

/-! The websocket URL of a session: `gateway_url` and `validate_socket_url`. -/
namespace SjmbSlack.UserSession.Gateway
open Slackbot

/-- `Url::query_pairs_mut().append_pair` and `Url::query_pairs`. -/
structure FormCrate where
  appendPair : Url → Str → Str → Url
  queryPairs : Url → List (Str × Str)

def GATEWAY : Str := "wss://wss-primary.slack.com/".toList

/-- `none` where the constant is no URL. -/
def gatewayUrl (crate : UrlCrate) (forms : FormCrate) (token team : Str) : Option Str :=
  (crate.parse GATEWAY).map fun url =>
    let url := forms.appendPair url "token".toList token
    let url := forms.appendPair url "gateway_server".toList (team ++ "-1".toList)
    let url := forms.appendPair url "slack_client".toList "desktop".toList
    let url := forms.appendPair url "batch_presence_aware".toList "1".toList
    crate.text url

inductive SocketError where
  | tooLong
  | invalid
  | untrusted
  deriving DecidableEq

def hostEndsWith (suffix : Str) : Host → Bool
  | .domain name => suffix.isSuffixOf name
  | .ipv4 _ => false
  | .ipv6 _ => false

def knownPort (url : Url) : Option Nat :=
  url.port.or (
    if url.scheme = "wss".toList ∨ url.scheme = "https".toList then some 443
    else if url.scheme = "ws".toList ∨ url.scheme = "http".toList then some 80
    else if url.scheme = "ftp".toList then some 21
    else none)

def validateSocketUrl (crate : UrlCrate) (value : Str) : Except SocketError Url :=
  if ¬ value.byteLength ≤ 16384 then .error .tooLong
  else match crate.parse value with
    | none => .error .invalid
    | some url =>
        if url.scheme = "wss".toList ∧ url.host.any (hostEndsWith ".slack.com".toList) ∧
            url.username = [] ∧ url.password = none ∧ knownPort url = some 443 ∧
            url.fragment = none then .ok url
        else .error .untrusted

def gateway (query : Option Str) : Url where
  scheme := "wss".toList
  username := []
  password := none
  host := some (.domain "wss-primary.slack.com".toList)
  port := none
  path := "/".toList
  query := query
  fragment := none

/-- What the crate documents: it parses the constant, writes a query after a mark and
reads back what it wrote, and its pairs are in the form-urlencoded format. -/
structure Documented (crate : UrlCrate) (forms : FormCrate) : Prop where
  base : crate.parse GATEWAY = some (gateway none)
  append : ∀ url name value, forms.appendPair url name value =
    { url with query := some (FormUrl.appendPair (url.query.getD []) (name, value)) }
  text : ∀ query, crate.text (gateway (some query)) = GATEWAY ++ '?' :: query
  parse : ∀ pairs, crate.parse (GATEWAY ++ '?' :: FormUrl.serialize pairs) =
    some (gateway (some (FormUrl.serialize pairs)))
  pairs : ∀ pairs, forms.queryPairs (gateway (some (FormUrl.serialize pairs))) = pairs

/-- The URL is valid and carries the token and the server of the team. -/
def Usable (crate : UrlCrate) (forms : FormCrate) (token team : Str) : Prop :=
  ∃ text url, gatewayUrl crate forms token team = some text ∧
    validateSocketUrl crate text = .ok url ∧
    ((forms.queryPairs url).filter fun pair => pair.1 = "token".toList) = [("token".toList, token)] ∧
    ((forms.queryPairs url).filter fun pair => pair.1 = "gateway_server".toList) =
      [("gateway_server".toList, team ++ "-1".toList)]

def encodedLength (text : Str) : Nat := ((FormUrl.utf8 text).map FormUrl.cost).sum

def gatewayPairs (token team : Str) : List (Str × Str) :=
  [("token".toList, token), ("gateway_server".toList, team ++ "-1".toList),
    ("slack_client".toList, "desktop".toList), ("batch_presence_aware".toList, "1".toList)]

section

variable {crate : UrlCrate} {forms : FormCrate} {token team text : Str}

theorem encodedLength_append (left right : Str) :
    encodedLength (left ++ right) = encodedLength left + encodedLength right := by
  simp [encodedLength, FormUrl.utf8]

theorem byteLength_encode (text : Str) :
    Str.byteLength (FormUrl.encode (FormUrl.utf8 text)) = encodedLength text := by
  rw [Str.byteLength_ascii fun ch hmem => (FormUrl.encode_plain hmem).1, FormUrl.length_encode]
  rfl

theorem byteLength_encodePair (name value : Str) :
    Str.byteLength (FormUrl.encodePair (name, value)) = encodedLength name + 1 + encodedLength value := by
  rw [FormUrl.encodePair, Str.byteLength_append, Str.byteLength_cons, byteLength_encode,
    byteLength_encode, Nat.add_assoc]
  rfl

theorem cost_alphanumeric : ∀ n : Fin 128, Str.isAsciiAlphanumeric (Char.ofNat n) = true →
    ((String.utf8EncodeChar (Char.ofNat n)).map FormUrl.cost).sum = 1 := by
  decide +kernel

theorem isAsciiAlphanumeric_lt {ch : Char} (h : Str.isAsciiAlphanumeric ch = true) : ch.toNat < 128 := by
  simp only [Str.isAsciiAlphanumeric, Str.isAsciiDigit, Bool.or_eq_true, decide_eq_true_eq,
    Str.le_iff_toNat, show '0'.toNat = 48 from rfl, show '9'.toNat = 57 from rfl,
    show 'a'.toNat = 97 from rfl, show 'z'.toNat = 122 from rfl, show 'A'.toNat = 65 from rfl,
    show 'Z'.toNat = 90 from rfl] at h
  omega

theorem encodedLength_validId (h : validId text = true) : encodedLength text = text.length := by
  simp only [validId, Bool.and_eq_true, List.all_eq_true] at h
  have hall := h.2
  clear h
  induction text with
  | nil => rfl
  | cons ch rest ih =>
      have hch := hall ch List.mem_cons_self
      have hcost := cost_alphanumeric ⟨ch.toNat, isAsciiAlphanumeric_lt hch⟩
      rw [Char.ofNat_toNat] at hcost
      have hrest := ih fun other hmem => hall other (List.mem_cons_of_mem _ hmem)
      rw [← List.singleton_append, encodedLength_append, hrest, List.singleton_append,
        List.length_cons, Nat.add_comm, encodedLength, FormUrl.utf8, List.flatMap_singleton, hcost hch]

theorem gatewayUrl_eq (h : Documented crate forms) (token team : Str) :
    gatewayUrl crate forms token team =
      some (GATEWAY ++ '?' :: FormUrl.serialize (gatewayPairs token team)) := by
  rw [gatewayUrl, h.base, Option.map_some]
  simp only [h.append]
  have hnone : ((gateway none).query.getD [] : Str) = FormUrl.serialize [] := rfl
  rw [hnone]
  simp only [Option.getD_some, FormUrl.appendPair_serialize]
  exact congrArg some (h.text _)

theorem byteLength_gateway (token : Str) (hteam : validId team = true) :
    Str.byteLength (GATEWAY ++ '?' :: FormUrl.serialize (gatewayPairs token team)) =
      encodedLength token + team.length + 97 := by
  have hpairs : FormUrl.serialize (gatewayPairs token team) =
      FormUrl.encodePair ("token".toList, token) ++ ['&'] ++
        (FormUrl.encodePair ("gateway_server".toList, team ++ "-1".toList) ++ ['&'] ++
          (FormUrl.encodePair ("slack_client".toList, "desktop".toList) ++ ['&'] ++
            FormUrl.encodePair ("batch_presence_aware".toList, "1".toList))) := by
    simp [FormUrl.serialize, gatewayPairs]
  have hconstant : Str.byteLength GATEWAY = 28 ∧ encodedLength "token".toList = 5 ∧
      encodedLength "gateway_server".toList = 14 ∧ encodedLength "-1".toList = 2 ∧
      Str.byteLength (FormUrl.encodePair ("slack_client".toList, "desktop".toList)) = 20 ∧
      Str.byteLength (FormUrl.encodePair ("batch_presence_aware".toList, "1".toList)) = 22 := by
    decide +kernel
  obtain ⟨hbase, htoken, hserver, hone, hclient, hpresence⟩ := hconstant
  have hsingle : Str.byteLength ['&'] = 1 := rfl
  have hmark : '?'.utf8Size = 1 := rfl
  rw [hpairs]
  simp only [Str.byteLength_append, Str.byteLength_cons, byteLength_encodePair ("token".toList),
    byteLength_encodePair ("gateway_server".toList), encodedLength_append,
    encodedLength_validId hteam, hbase, htoken, hserver, hone, hclient, hpresence, hmark,
    Str.byteLength_nil, show '&'.utf8Size = 1 from rfl]
  omega

theorem validate_gateway (h : Documented crate forms) (pairs : List (Str × Str)) :
    validateSocketUrl crate (GATEWAY ++ '?' :: FormUrl.serialize pairs) =
      if Str.byteLength (GATEWAY ++ '?' :: FormUrl.serialize pairs) ≤ 16384 then
        .ok (gateway (some (FormUrl.serialize pairs)))
      else .error .tooLong := by
  have htrusted : (gateway none).host.any (hostEndsWith ".slack.com".toList) = true := by decide
  unfold validateSocketUrl
  rw [h.parse pairs]
  by_cases hshort : Str.byteLength (GATEWAY ++ '?' :: FormUrl.serialize pairs) ≤ 16384
  · rw [if_neg (not_not.mpr hshort), if_pos hshort]
    exact if_pos ⟨rfl, htrusted, rfl, rfl, rfl, rfl⟩
  · rw [if_pos hshort, if_neg hshort]

theorem gatewayPairs_filter (token team : Str) :
    ((gatewayPairs token team).filter fun pair => pair.1 = "token".toList) = [("token".toList, token)] ∧
      ((gatewayPairs token team).filter fun pair => pair.1 = "gateway_server".toList) =
        [("gateway_server".toList, team ++ "-1".toList)] := by
  constructor <;> rfl

/-- A token gives a usable URL exactly where its encoding leaves room for the rest. -/
theorem usable_iff (h : Documented crate forms) (token : Str) (hteam : validId team = true) :
    Usable crate forms token team ↔ encodedLength token + team.length + 97 ≤ 16384 := by
  have hvalid := validate_gateway h (gatewayPairs token team)
  rw [byteLength_gateway token hteam] at hvalid
  unfold Usable
  rw [gatewayUrl_eq h]
  constructor
  · rintro ⟨text, url, htext, hok, -⟩
    rw [← Option.some.inj htext, hvalid] at hok
    by_contra hlong
    rw [if_neg hlong] at hok
    cases hok
  · intro hshort
    rw [if_pos hshort] at hvalid
    refine ⟨_, _, rfl, hvalid, ?_⟩
    rw [h.pairs]
    exact gatewayPairs_filter token team

end

def sampleCrate : UrlCrate where
  parse input :=
    if input = GATEWAY then some (gateway none)
    else if (GATEWAY ++ ['?']).isPrefixOf input then some (gateway (some (input.drop 29)))
    else none
  text url := GATEWAY ++ url.query.elim [] fun query => '?' :: query
  parseHost host := some (.domain host.toAsciiLowercase)

def sampleForms : FormCrate where
  appendPair url name value :=
    { url with query := some (FormUrl.appendPair (url.query.getD []) (name, value)) }
  queryPairs url := FormUrl.parse (url.query.getD [])

theorem sample_documented : Documented sampleCrate sampleForms where
  base := by simp only [sampleCrate, if_true]
  append _ _ _ := rfl
  text _ := rfl
  parse pairs := by
    have hother : GATEWAY ++ '?' :: FormUrl.serialize pairs ≠ GATEWAY := by
      intro heq
      have hlength := congrArg List.length heq
      rw [List.length_append, List.length_cons] at hlength
      omega
    have hmark : GATEWAY ++ '?' :: FormUrl.serialize pairs =
        (GATEWAY ++ ['?']) ++ FormUrl.serialize pairs := by simp
    rw [sampleCrate]
    dsimp only
    rw [if_neg hother, hmark, if_pos (List.isPrefixOf_iff_prefix.mpr (List.prefix_append _ _)),
      List.drop_left' (by decide)]
  pairs := FormUrl.parse_serialize

theorem usable_iff_sample : Usable sampleCrate sampleForms "xoxc-a&evil=1".toList "T1".toList :=
  (usable_iff sample_documented _ (by decide)).mpr (by decide +kernel)

/-- A session token of the greatest length whose characters grow when they are encoded. -/
def GROWING_TOKEN : Str := "xoxc-".toList ++ List.replicate 8187 '%'

theorem encodedLength_replicate (count : Nat) (ch : Char) :
    encodedLength (List.replicate count ch) = count * encodedLength [ch] := by
  induction count with
  | zero => simp [encodedLength, FormUrl.utf8]
  | succ count ih =>
      rw [List.replicate_succ, ← List.singleton_append, encodedLength_append, ih, Nat.succ_mul,
        Nat.add_comm]

/-- The configuration is accepted, and its token has no usable URL. -/
theorem growing_token_unusable :
    (∃ bot, fromConfig (samplePlatform GROWING_TOKEN) (sampleBytes GROWING_TOKEN) = .ok bot ∧
      bot.backend = .userSession ∧ ∃ workspace ∈ bot.workspaces, workspace.apiToken = GROWING_TOKEN) ∧
    validId "T1".toList = true ∧ Documented sampleCrate sampleForms ∧
    ¬ Usable sampleCrate sampleForms GROWING_TOKEN "T1".toList := by
  have hlength : Str.byteLength GROWING_TOKEN = 8192 := by
    have hascii : ∀ ch ∈ List.replicate 8187 '%', ch.toNat ≤ 127 := fun ch hmem => by
      rw [List.eq_of_mem_replicate hmem]
      decide
    rw [GROWING_TOKEN, Str.byteLength_append, Str.byteLength_ascii hascii, List.length_replicate]
    rfl
  have htoken : sessionToken GROWING_TOKEN = true := by
    rw [sessionToken, hlength, Bool.and_eq_true]
    exact ⟨List.isPrefixOf_iff_prefix.mpr (List.prefix_append _ _), rfl⟩
  have hvisible : visible GROWING_TOKEN = true := by
    rw [visible, GROWING_TOKEN, List.all_append, List.all_replicate]
    rfl
  have hfirst : 'x' ∈ GROWING_TOKEN := List.mem_append_left _ List.mem_cons_self
  have hblank : trim GROWING_TOKEN ≠ [] := trim_ne_nil hfirst (by decide)
  have hcount : List.length GROWING_TOKEN ≤ 8192 := by
    rw [GROWING_TOKEN, List.length_append, List.length_replicate]
    exact Nat.le_of_eq rfl
  have hgrown : encodedLength GROWING_TOKEN = 24566 := by
    have hplain : encodedLength "xoxc-".toList = 5 ∧ encodedLength ['%'] = 3 := by decide +kernel
    rw [GROWING_TOKEN, encodedLength_append, encodedLength_replicate, hplain.1, hplain.2]
  refine ⟨⟨_, sample_accepted htoken hblank hvisible hcount, rfl, _, List.mem_cons_self, rfl⟩,
    by decide, sample_documented, fun husable => ?_⟩
  have hshort := (usable_iff sample_documented GROWING_TOKEN (by decide)).mp husable
  rw [hgrown] at hshort
  omega

end SjmbSlack.UserSession.Gateway
