import SjmbSlack.UrlFilter.Address

/-! Parsed URLs, and what the program asks the parser of URLs for. -/
namespace SjmbSlack
open UrlFilter

inductive Host where
  | domain (name : Str)
  | ipv4 (address : Ipv4Addr)
  | ipv6 (address : Ipv6Addr)
  deriving DecidableEq

structure Url where
  scheme : Str
  username : Str
  password : Option Str
  host : Option Host
  port : Option Nat
  path : Str
  query : Option Str
  fragment : Option Str
  deriving DecidableEq

/-- The parser: `parse` is `Url::parse`, `text` the URL as a string, and `parseHost`
is `Host::parse`. -/
structure UrlCrate where
  parse : Str → Option Url
  text : Url → Str
  parseHost : Str → Option Host

end SjmbSlack
