import Mathlib.Data.Finset.Basic
import SjmbSlack.Limits.LogText
import SjmbSlack.Url

/-! `UrlFilter`: the rules that exclude URLs from the database, and the check of a
URL against them and against the policy for addresses. -/
namespace SjmbSlack

inductive FilterError where
  | expectedName
  | invalidHost
  | invalidDnsName
  | invalidUrl
  | unsupportedScheme
  | noHost
  | blacklistedDomain
  | lookupTimedOut
  | lookupFailed
  | noAddresses
  | tooManyAddresses
  | blacklistedAddress
  | nonPublicAddress
  deriving DecidableEq

/-- A refused entry of a blacklist, counted from one. -/
structure RuleError where
  scope : Str
  entry : Nat
  reason : FilterError
  deriving DecidableEq

structure UrlFilter where
  domains : Finset Str
  addresses : Finset UrlFilter.IpAddr

namespace UrlFilter

def MAX_DNS_ADDRESSES : Nat := 64

def empty : UrlFilter := ⟨∅, ∅⟩

def validLabel (label : Str) : Bool :=
  label ≠ [] && label.byteLength ≤ 63 && label.head? ≠ some '-' && label.getLast? ≠ some '-' &&
    label.all fun ch => Str.isAsciiAlphanumeric ch || ch = '-'

def validName (domain : Str) : Bool :=
  domain ≠ [] && domain.byteLength ≤ 253 && (domain.splitOn '.').all validLabel

def stripDot (domain : Str) : Str :=
  if domain.getLast? = some '.' then domain.dropLast else domain

def dnsName (domain : Str) : Except FilterError Str :=
  if validName (stripDot domain) then .ok ((stripDot domain).toAsciiLowercase ++ ['.'])
  else .error .invalidDnsName

def FORBIDDEN : List Char := ['/', '?', '#', '@', '%', '*', '\\']

def add (crate : UrlCrate) (filter : UrlFilter) (rule : Str) : Except FilterError UrlFilter :=
  match IpAddr.parse rule with
  | some ip => .ok { filter with addresses := insert ip filter.addresses }
  | none =>
      if rule = [] ∨ rule.any (fun ch => Limits.isWhitespace ch || Limits.isControl ch) ∨
          rule.any FORBIDDEN.contains then .error .expectedName
      else match crate.parseHost rule with
        | none => .error .invalidHost
        | some (.domain domain) =>
            match dnsName domain with
            | .ok name => .ok { filter with domains := insert name filter.domains }
            | .error error => .error error
        | some (.ipv4 ip) => .ok { filter with addresses := insert (.v4 ip) filter.addresses }
        | some (.ipv6 ip) => .ok { filter with addresses := insert (.v6 ip) filter.addresses }

/-- The loop of `compile` from an entry on. -/
def compileFrom (crate : UrlCrate) (scope : Str) (index : Nat) (filter : UrlFilter) :
    List Str → Except RuleError UrlFilter
  | [] => .ok filter
  | rule :: rest =>
      match filter.add crate rule with
      | .ok filter => compileFrom crate scope (index + 1) filter rest
      | .error reason => .error ⟨scope, index + 1, reason⟩

def compile (crate : UrlCrate) (rules : List Str) (scope : Str) : Except RuleError UrlFilter :=
  compileFrom crate scope 0 empty rules

def including (filter other : UrlFilter) : UrlFilter :=
  ⟨filter.domains ∪ other.domains, filter.addresses ∪ other.addresses⟩

theorem splitOnce_length {separator : Char} {text first rest : Str}
    (h : Str.splitOnce separator text = some (first, rest)) : rest.length < text.length := by
  rw [Str.splitOnce_eq h, List.length_append, List.length_cons]
  omega

def blocksDomain (filter : UrlFilter) (suffix : Str) : Bool :=
  if suffix ∈ filter.domains then true
  else match _ : Str.splitOnce '.' suffix with
    | none => false
    | some (_, rest) => if rest = [] then false else blocksDomain filter rest
termination_by suffix.length
decreasing_by exact splitOnce_length ‹_›

inductive Lookup where
  | answered (addresses : List IpAddr)
  | failed
  | timedOut

def hostAddresses (filter : UrlFilter) (resolve : Str → Lookup) :
    Host → Except FilterError (List IpAddr)
  | .domain domain =>
      match dnsName domain with
      | .error error => .error error
      | .ok name =>
          if filter.blocksDomain name then .error .blacklistedDomain
          else match resolve name with
            | .answered addresses => .ok addresses
            | .failed => .error .lookupFailed
            | .timedOut => .error .lookupTimedOut
  | .ipv4 ip => .ok [.v4 ip]
  | .ipv6 ip => .ok [.v6 ip]

def checkAddresses (filter : UrlFilter) (addresses : List IpAddr) : Except FilterError Unit :=
  if addresses = [] then .error .noAddresses
  else if ¬ addresses.length ≤ MAX_DNS_ADDRESSES then .error .tooManyAddresses
  else if ¬ ∀ ip ∈ addresses, ip ∉ filter.addresses then .error .blacklistedAddress
  else if ¬ ∀ ip ∈ addresses, isPublicAddress ip = true then .error .nonPublicAddress
  else .ok ()

def checkWithResolver (crate : UrlCrate) (filter : UrlFilter) (input : Str)
    (resolve : Str → Lookup) : Except FilterError Unit :=
  match crate.parse input with
  | none => .error .invalidUrl
  | some url =>
      if ¬ (url.scheme = "http".toList ∨ url.scheme = "https".toList) then .error .unsupportedScheme
      else match url.host with
        | none => .error .noHost
        | some host =>
            match filter.hostAddresses resolve host with
            | .error error => .error error
            | .ok addresses => filter.checkAddresses addresses

/-- What `check` passes on of the answers to a lookup. -/
def Lookup.bounded : Lookup → Lookup
  | .answered addresses => .answered (addresses.take (MAX_DNS_ADDRESSES + 1))
  | .failed => .failed
  | .timedOut => .timedOut

def check (crate : UrlCrate) (filter : UrlFilter) (input : Str) (lookupHost : Str → Lookup) :
    Except FilterError Unit :=
  checkWithResolver crate filter input fun name => (lookupHost name).bounded

end UrlFilter

end SjmbSlack
