import Mathlib.Data.List.TakeWhile
import SjmbSlack.Harvest.Links
import SjmbSlack.UrlFilter.Filter

/-! `Bot::from_config`: the configuration as it is read, checked and completed.
What the crates decide about a text is a field of the platform. -/
namespace SjmbSlack.Slackbot

def CONFIG_BYTES : Nat := 1024 * 1024

inductive Backend where
  | socketMode
  | userSession
  deriving DecidableEq

structure RecoveryConfig where
  stateDir : Str
  windowSeconds : Nat
  maxPagesPerChannel : Nat

structure SlackWorkspace where
  name : Str
  urlBlacklist : List Str
  urlFilter : UrlFilter
  apiToken : Str
  socketToken : Str
  cookie : Str

/-- A compiled regular expression: `captures` gives the first group of each match. -/
structure Regex where
  capturesLen : Nat
  captures : Str → List (Option Str)

structure Bot where
  dryRun : Bool
  backend : Backend
  recovery : RecoveryConfig
  urlRegex : Str
  urlLogDb : Str
  urlBlacklist : List Str
  workspaces : List SlackWorkspace
  urlRe : Option Regex

/-- The features of the binary, and the crates that `from_config` asks. -/
structure Platform where
  features : Backend → Bool
  fromSlice : List UInt8 → Option Bot
  expand : Str → Option Str
  headerValue : Str → Bool
  connectOptions : Str → Bool
  regex : Str → Option Regex
  urls : UrlCrate

inductive ConfigError where
  | tooLarge
  | json
  | noWorkspace
  | notCompiledIn
  | windowSeconds
  | maxPages
  | expansion
  | stateDir
  | workspaceName
  | duplicateName (name : Str)
  | emptyToken (name : Str)
  | emptySocketToken (name : Str)
  | duplicateSocketToken
  | sessionToken
  | tokenHeader
  | cookieTooLarge
  | cookieHeader
  | noCookie
  | unusedSocketToken
  | rule (error : RuleError)
  | database
  | regex
  | noCaptureGroup
  deriving DecidableEq

def ensure (holds : Bool) (error : ConfigError) : Except ConfigError Unit :=
  if holds then .ok () else .error error

def trim (text : Str) : Str :=
  ((text.dropWhile Limits.isWhitespace).reverse.dropWhile Limits.isWhitespace).reverse

def validWorkspaceName (name : Str) : Bool :=
  trim name ≠ [] && name.byteLength ≤ 256 && !name.any Limits.isControl

def sessionToken (token : Str) : Bool :=
  "xoxc-".toList.isPrefixOf token && token.byteLength ≤ 8192

/-- A `Cookie` header that sets `d`. -/
def sessionCookie (cookie : Str) : Bool :=
  cookie ≠ [] && (cookie.splitOn ';').any fun part =>
    "d=".toList.isPrefixOf (trim part) && (trim part).drop 2 ≠ []

/-- What the backend asks of a workspace; the tokens are those of the workspaces before. -/
def checkBackend (platform : Platform) (backend : Backend) (sockets : List Str)
    (workspace : SlackWorkspace) : Except ConfigError Unit :=
  match backend with
  | .socketMode => do
      ensure (trim workspace.socketToken ≠ []) (.emptySocketToken workspace.name)
      ensure (!sockets.contains workspace.socketToken) .duplicateSocketToken
  | .userSession => do
      ensure (sessionToken workspace.apiToken) .sessionToken
      ensure (platform.headerValue ("Bearer ".toList ++ workspace.apiToken)) .tokenHeader
      ensure (workspace.cookie.byteLength ≤ 16384) .cookieTooLarge
      ensure (platform.headerValue workspace.cookie) .cookieHeader
      ensure (sessionCookie workspace.cookie) .noCookie
      ensure (workspace.socketToken = []) .unusedSocketToken

def checkWorkspaces (platform : Platform) (backend : Backend) :
    List Str → List Str → List SlackWorkspace → Except ConfigError Unit
  | _, _, [] => .ok ()
  | names, sockets, workspace :: rest => do
      ensure (validWorkspaceName workspace.name) .workspaceName
      ensure (!names.contains workspace.name) (.duplicateName workspace.name)
      ensure (trim workspace.apiToken ≠ []) (.emptyToken workspace.name)
      checkBackend platform backend sockets workspace
      checkWorkspaces platform backend (workspace.name :: names) (workspace.socketToken :: sockets) rest

def compileRules (platform : Platform) (rules : List Str) (scope : Str) :
    Except ConfigError UrlFilter :=
  (UrlFilter.compile platform.urls rules scope).mapError .rule

def compileWorkspaces (platform : Platform) (globalFilter : UrlFilter) :
    List SlackWorkspace → Except ConfigError (List SlackWorkspace)
  | [] => .ok []
  | workspace :: rest => do
      let filter ← compileRules platform workspace.urlBlacklist ("workspace ".toList ++ workspace.name)
      let rest ← compileWorkspaces platform globalFilter rest
      .ok ({ workspace with urlFilter := filter.including globalFilter } :: rest)

def checkRecovery (platform : Platform) (recovery : RecoveryConfig) :
    Except ConfigError RecoveryConfig := do
  ensure (1 ≤ recovery.windowSeconds && recovery.windowSeconds ≤ 604800) .windowSeconds
  ensure (1 ≤ recovery.maxPagesPerChannel && recovery.maxPagesPerChannel ≤ 1000) .maxPages
  let stateDir ← (platform.expand recovery.stateDir).elim (.error .expansion) .ok
  ensure (trim stateDir ≠ []) .stateDir
  .ok { recovery with stateDir := stateDir }

def completeRecovery (platform : Platform) (bot : Bot) : Except ConfigError RecoveryConfig :=
  if bot.backend = .userSession then checkRecovery platform bot.recovery else .ok bot.recovery

def fromConfig (platform : Platform) (bytes : List UInt8) : Except ConfigError Bot := do
  ensure (bytes.length ≤ CONFIG_BYTES) .tooLarge
  let bot ← (platform.fromSlice bytes).elim (.error .json) .ok
  ensure (!bot.workspaces.isEmpty) .noWorkspace
  ensure (platform.features bot.backend) .notCompiledIn
  let recovery ← completeRecovery platform bot
  checkWorkspaces platform bot.backend [] [] bot.workspaces
  let globalFilter ← compileRules platform bot.urlBlacklist "global".toList
  let workspaces ← compileWorkspaces platform globalFilter bot.workspaces
  ensure (platform.connectOptions bot.urlLogDb) .database
  let regex ← (platform.regex bot.urlRegex).elim (.error .regex) .ok
  ensure (2 ≤ regex.capturesLen) .noCaptureGroup
  .ok {
    bot with
    recovery := recovery
    workspaces := workspaces
    urlRe := some regex }

section

variable {platform : Platform} {backend : Backend} {bot : Bot} {bytes : List UInt8}
  {workspace : SlackWorkspace}

theorem trim_ne_nil {text : Str} {ch : Char} (hmem : ch ∈ text) (h : Limits.isWhitespace ch = false) :
    trim text ≠ [] := by
  intro hnil
  have hall := List.dropWhile_eq_nil_iff.mp (List.reverse_eq_nil_iff.mp hnil)
  have hkept : ch ∈ text.dropWhile Limits.isWhitespace := by
    rw [← List.takeWhile_append_dropWhile (p := Limits.isWhitespace) (l := text)] at hmem
    refine (List.mem_append.mp hmem).resolve_left fun hdropped => ?_
    have hblank := List.mem_takeWhile_imp hdropped
    rw [h] at hblank
    contradiction
  have hblank := hall ch (List.mem_reverse.mpr hkept)
  rw [h] at hblank
  contradiction

@[simp] theorem ensure_eq_ok {holds : Bool} {error : ConfigError} {result : Unit} :
    ensure holds error = .ok result ↔ holds = true := by
  cases holds <;> simp [ensure]

theorem bind_eq_ok {α β : Type} {first : Except ConfigError α} {next : α → Except ConfigError β}
    {result : β} : first >>= next = .ok result ↔ ∃ value, first = .ok value ∧ next value = .ok result := by
  cases first <;> simp [bind, Except.bind]

theorem checkWorkspaces_ok {names sockets : List Str} {workspaces : List SlackWorkspace}
    (h : checkWorkspaces platform backend names sockets workspaces = .ok ())
    (hmem : workspace ∈ workspaces) :
    validWorkspaceName workspace.name = true ∧
      ∃ earlier, checkBackend platform backend earlier workspace = .ok () := by
  induction workspaces generalizing names sockets with
  | nil => exact absurd hmem List.not_mem_nil
  | cons first rest ih =>
      simp only [checkWorkspaces, bind_eq_ok, ensure_eq_ok] at h
      obtain ⟨-, hname, -, -, -, -, ⟨⟩, hbackend, hrest⟩ := h
      rcases List.mem_cons.mp hmem with rfl | hmem
      · exact ⟨hname, sockets, hbackend⟩
      · exact ih hrest hmem

theorem compileWorkspaces_ok {globalFilter : UrlFilter} {workspaces compiled : List SlackWorkspace}
    (h : compileWorkspaces platform globalFilter workspaces = .ok compiled)
    (hmem : workspace ∈ compiled) :
    ∃ original ∈ workspaces, workspace = { original with urlFilter := workspace.urlFilter } := by
  induction workspaces generalizing compiled with
  | nil =>
      cases Except.ok.inj h
      exact absurd hmem List.not_mem_nil
  | cons first rest ih =>
      simp only [compileWorkspaces, bind_eq_ok] at h
      obtain ⟨filter, -, later, hlater, hcompiled⟩ := h
      cases Except.ok.inj hcompiled
      rcases List.mem_cons.mp hmem with rfl | hmem
      · exact ⟨first, List.mem_cons_self, rfl⟩
      · obtain ⟨original, horiginal, hsame⟩ := ih hlater hmem
        exact ⟨original, List.mem_cons_of_mem _ horiginal, hsame⟩

theorem fromConfig_workspace (h : fromConfig platform bytes = .ok bot)
    (hmem : workspace ∈ bot.workspaces) :
    validWorkspaceName workspace.name = true ∧
      ∃ earlier, checkBackend platform bot.backend earlier workspace = .ok () := by
  simp only [fromConfig, bind_eq_ok, ensure_eq_ok] at h
  obtain ⟨-, -, read, -, -, -, -, -, recovery, -, ⟨⟩, hchecked, globalFilter, -, compiled, hcompiled,
    -, -, regex, -, -, -, hbot⟩ := h
  cases Except.ok.inj hbot
  obtain ⟨original, horiginal, hsame⟩ := compileWorkspaces_ok hcompiled hmem
  obtain ⟨hname, earlier, hbackend⟩ := checkWorkspaces_ok hchecked horiginal
  rw [hsame]
  refine ⟨hname, earlier, ?_⟩
  rw [← hbackend]
  unfold checkBackend
  rfl

theorem fromConfig_name (h : fromConfig platform bytes = .ok bot)
    (hmem : workspace ∈ bot.workspaces) : workspace.name.byteLength ≤ 256 := by
  have hname := (fromConfig_workspace h hmem).1
  simp only [validWorkspaceName, Bool.and_eq_true, decide_eq_true_eq] at hname
  exact hname.1.2

end

def sampleWorkspace (token : Str) : SlackWorkspace where
  name := "foo".toList
  urlBlacklist := []
  urlFilter := .empty
  apiToken := token
  socketToken := []
  cookie := "d=xoxd-test".toList

def sampleBot (token : Str) : Bot where
  dryRun := false
  backend := .userSession
  recovery := ⟨"state".toList, 86400, 100⟩
  urlRegex := "<(https?://[^>]+)>".toList
  urlLogDb := "postgres:///url?sslmode=disable".toList
  urlBlacklist := []
  workspaces := [sampleWorkspace token]
  urlRe := none

def SAMPLE_HEAD : List Str :=
  ["\x7b\"backend\":\"user-session\",\"url_regex\":\"<(https?://[^>]+)>\",".toList,
    "\"url_log_db\":\"postgres:///url?sslmode=disable\",".toList,
    "\"recovery\":\x7b\"state_dir\":\"state\"\x7d,\"workspaces\":[\x7b\"name\":\"foo\",".toList,
    "\"api_token\":\"".toList]

def SAMPLE_TAIL : Str := "\",\"cookie\":\"d=xoxd-test\"\x7d]\x7d".toList

def sampleBytes (token : Str) : List UInt8 :=
  (SAMPLE_HEAD.flatten ++ token ++ SAMPLE_TAIL).map fun ch => UInt8.ofNat ch.toNat

def visible (text : Str) : Bool := text.all fun ch => 32 ≤ ch.toNat && ch.toNat < 127

def samplePlatform (token : Str) : Platform where
  features _ := true
  fromSlice bytes := if bytes = sampleBytes token then some (sampleBot token) else none
  expand := some
  headerValue := visible
  connectOptions _ := true
  regex text := if text = "<(https?://[^>]+)>".toList then some ⟨2, Harvest.links⟩ else none
  urls := Harvest.pageCrate

theorem sample_accepted {token : Str} (htoken : sessionToken token = true) (hblank : trim token ≠ [])
    (hvisible : visible token = true) (hlength : token.length ≤ 8192) :
    fromConfig (samplePlatform token) (sampleBytes token) = .ok {
      sampleBot token with
      workspaces := [{ sampleWorkspace token with urlFilter := UrlFilter.empty.including .empty }]
      urlRe := some ⟨2, Harvest.links⟩ } := by
  have hbytes : (sampleBytes token).length ≤ CONFIG_BYTES := by
    have hhead : SAMPLE_HEAD.flatten.length ≤ 1000 := by
      rw [List.length_flatten]
      decide
    have htail : SAMPLE_TAIL.length ≤ 1000 := by decide
    rw [sampleBytes, List.length_map, List.length_append, List.length_append, CONFIG_BYTES]
    omega
  have hheader : visible ("Bearer ".toList ++ token) = true := by
    rw [visible, List.all_append, Bool.and_eq_true]
    exact ⟨by decide, hvisible⟩
  have hcookie : visible "d=xoxd-test".toList = true ∧ sessionCookie "d=xoxd-test".toList = true := by
    decide
  have hbackend : checkBackend (samplePlatform token) .userSession [] (sampleWorkspace token) = .ok () := by
    simp only [checkBackend, bind_eq_ok, ensure_eq_ok]
    exact ⟨(), htoken, (), hheader, (), rfl, (), hcookie.1, (), hcookie.2, rfl⟩
  have hworkspaces : checkWorkspaces (samplePlatform token) .userSession [] [] [sampleWorkspace token] =
      .ok () := by
    have hname : validWorkspaceName "foo".toList = true := by decide
    simp only [checkWorkspaces, bind_eq_ok, ensure_eq_ok]
    exact ⟨(), hname, (), rfl, (), decide_eq_true hblank, (), hbackend, trivial⟩
  have hrecovery : completeRecovery (samplePlatform token) (sampleBot token) =
      .ok ⟨"state".toList, 86400, 100⟩ := by
    have hbackend : (sampleBot token).backend = .userSession := rfl
    rw [completeRecovery, if_pos hbackend]
    rfl
  have hslice : (samplePlatform token).fromSlice (sampleBytes token) = some (sampleBot token) := by
    simp only [samplePlatform, if_true]
  have hregex : (samplePlatform token).regex (sampleBot token).urlRegex = some ⟨2, Harvest.links⟩ := by
    simp only [samplePlatform, sampleBot, if_true]
  simp only [fromConfig, bind_eq_ok, ensure_eq_ok, hslice, Option.elim_some, Except.ok.injEq,
    exists_eq_left', hregex]
  exact ⟨(), decide_eq_true hbytes, (), rfl, (), rfl, _, hrecovery, (), hworkspaces, _, rfl, _, rfl, (),
    rfl, (), rfl, rfl⟩

end SjmbSlack.Slackbot
