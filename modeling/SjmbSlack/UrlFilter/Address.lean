import SjmbSlack.Library.Prefix
import SjmbSlack.Text

/-! Internet addresses: how they are read, and which of them are public. -/
namespace SjmbSlack.UrlFilter
open Prefix

abbrev Ipv4Addr := BitVec 32

abbrev Ipv6Addr := BitVec 128

inductive IpAddr where
  | v4 (address : Ipv4Addr)
  | v6 (address : Ipv6Addr)
  deriving DecidableEq

def Ipv4Addr.new (a b c d : BitVec 8) : Ipv4Addr := a ++ b ++ c ++ d

def Ipv6Addr.new (a b c d e f g h : BitVec 16) : Ipv6Addr := a ++ b ++ c ++ d ++ e ++ f ++ g ++ h

namespace IpAddr

def digitValue (ch : Char) : Nat :=
  if '0' ≤ ch ∧ ch ≤ '9' then ch.toNat - '0'.toNat
  else if 'a' ≤ ch ∧ ch ≤ 'f' then ch.toNat - 'a'.toNat + 10
  else if 'A' ≤ ch ∧ ch ≤ 'F' then ch.toNat - 'A'.toNat + 10
  else 16

def readChar (expected : Char) : Str → Option Str
  | ch :: rest => if ch = expected then some rest else none
  | [] => none

def readNumber (radix maxDigits bound : Nat) (allowZeroPrefix : Bool) (text : Str) :
    Option (Nat × Str) :=
  let digits := text.takeWhile fun ch => digitValue ch < radix
  let rest := text.dropWhile fun ch => digitValue ch < radix
  let value := digits.foldl (fun value ch => value * radix + digitValue ch) 0
  if digits = [] ∨ digits.length > maxDigits then none
  else if ¬ allowZeroPrefix ∧ digits.head? = some '0' ∧ digits.length > 1 then none
  else if value < bound then some (value, rest)
  else none

def readSeparated {α : Type} (separator : Char) (index : Nat) (read : Str → Option (α × Str))
    (text : Str) : Option (α × Str) :=
  if index = 0 then read text else (readChar separator text).bind read

def readOctet (index : Nat) (text : Str) : Option (Nat × Str) :=
  readSeparated '.' index (readNumber 10 3 256 false) text

def readIpv4 (text : Str) : Option (Ipv4Addr × Str) := do
  let (a, text) ← readOctet 0 text
  let (b, text) ← readOctet 1 text
  let (c, text) ← readOctet 2 text
  let (d, text) ← readOctet 3 text
  return (Ipv4Addr.new (.ofNat 8 a) (.ofNat 8 b) (.ofNat 8 c) (.ofNat 8 d), text)

/-- Groups up to a limit, and whether the last two of them are an IPv4 address. -/
def readGroups (index : Nat) : Nat → Str → List (BitVec 16) × Bool × Str
  | 0, text => ([], false, text)
  | limit + 1, text =>
      -- An IPv4 address takes two groups.
      match if limit = 0 then none else readSeparated ':' index readIpv4 text with
      | some (address, rest) =>
          ([address.extractLsb' 16 16, address.extractLsb' 0 16], true, rest)
      | none =>
          match readSeparated ':' index (readNumber 16 4 65536 true) text with
          | some (group, rest) =>
              let (groups, embedded, rest) := readGroups (index + 1) limit rest
              (.ofNat 16 group :: groups, embedded, rest)
          | none => ([], false, text)

def ofGroups (groups : List (BitVec 16)) : Ipv6Addr :=
  groups.foldl (fun address group => address <<< 16 ||| group.setWidth 128) 0

def readIpv6 (text : Str) : Option (Ipv6Addr × Str) :=
  let (head, embedded, rest) := readGroups 0 8 text
  if head.length = 8 then some (ofGroups head, rest)
  else if embedded then none
  else do
    let rest ← readChar ':' rest
    let rest ← readChar ':' rest
    let (tail, _, rest) := readGroups 0 (8 - (head.length + 1)) rest
    let zeros := List.replicate (8 - head.length - tail.length) 0
    return (ofGroups (head ++ zeros ++ tail), rest)

def parse (text : Str) : Option IpAddr :=
  let read := ((readIpv4 text).map fun (address, rest) => (IpAddr.v4 address, rest)).or
    ((readIpv6 text).map fun (address, rest) => (IpAddr.v6 address, rest))
  read.bind fun (address, rest) => if rest = [] then some address else none

example : parse "192.168.1.1".toList = some (.v4 (Ipv4Addr.new 192 168 1 1)) := by decide
example : parse "2606:4700::1:0.0.0.1".toList =
    some (.v6 (Ipv6Addr.new 0x2606 0x4700 0 0 0 1 0 1)) := by decide
example : ["".toList, "1.2.3".toList, "01.2.3.4".toList, "1.2.3.256".toList, "1:2".toList,
    "::1::".toList, "[::1]".toList, "example.com".toList].map parse = List.replicate 8 none := by
  decide

end IpAddr

def BLOCKED_V4 : List (Ipv4Addr × Nat) :=
  [(Ipv4Addr.new 0 0 0 0, 8),
    (Ipv4Addr.new 10 0 0 0, 8),
    (Ipv4Addr.new 100 64 0 0, 10),
    (Ipv4Addr.new 127 0 0 0, 8),
    (Ipv4Addr.new 169 254 0 0, 16),
    (Ipv4Addr.new 172 16 0 0, 12),
    (Ipv4Addr.new 192 0 0 0, 24),
    (Ipv4Addr.new 192 0 2 0, 24),
    (Ipv4Addr.new 192 88 99 0, 24),
    (Ipv4Addr.new 192 168 0 0, 16),
    (Ipv4Addr.new 198 18 0 0, 15),
    (Ipv4Addr.new 198 51 100 0, 24),
    (Ipv4Addr.new 203 0 113 0, 24),
    (Ipv4Addr.new 224 0 0 0, 4),
    (Ipv4Addr.new 240 0 0 0, 4)]

def BLOCKED_V6 : List (Ipv6Addr × Nat) :=
  [(Ipv6Addr.new 0x2001 0 0 0 0 0 0 0, 23),
    (Ipv6Addr.new 0x2001 0xdb8 0 0 0 0 0 0, 32),
    (Ipv6Addr.new 0x2002 0 0 0 0 0 0 0, 16),
    (Ipv6Addr.new 0x3fff 0 0 0 0 0 0 0, 20)]

/-- The addresses of global unicast. -/
def GLOBAL_V6 : Ipv6Addr := Ipv6Addr.new 0x2000 0 0 0 0 0 0 0

def publicV4 (ip : Ipv4Addr) : Bool :=
  !BLOCKED_V4.any fun entry => inPrefix entry.1 entry.2 ip

def publicV6 (ip : Ipv6Addr) : Bool :=
  if ip &&& mask 128 3 ≠ GLOBAL_V6 then false
  else !BLOCKED_V6.any fun entry => inPrefix entry.1 entry.2 ip

def isPublicAddress : IpAddr → Bool
  | .v4 ip => publicV4 ip
  | .v6 ip => publicV6 ip

theorem blockedV4_aligned : ∀ entry ∈ BLOCKED_V4, 2 ^ (32 - entry.2) ∣ entry.1.toNat := by decide

theorem blockedV6_aligned : ∀ entry ∈ BLOCKED_V6, 2 ^ (128 - entry.2) ∣ entry.1.toNat := by decide

def Within {w : Nat} (entry : BitVec w × Nat) (ip : BitVec w) : Prop :=
  entry.1.toNat ≤ ip.toNat ∧ ip.toNat ≤ entry.1.toNat + (2 ^ (w - entry.2) - 1)

theorem publicV4_iff (ip : Ipv4Addr) :
    publicV4 ip = true ↔ ∀ entry ∈ BLOCKED_V4, ¬ Within entry ip := by
  rw [publicV4, Bool.not_eq_true', List.any_eq_false]
  refine forall₂_congr fun entry hmem => not_congr ?_
  exact inPrefix_iff (blockedV4_aligned entry hmem) ip

theorem publicV6_iff (ip : Ipv6Addr) : publicV6 ip = true ↔
    Within (GLOBAL_V6, 3) ip ∧ ∀ entry ∈ BLOCKED_V6, ¬ Within entry ip := by
  have hglobal : ip &&& mask 128 3 = GLOBAL_V6 ↔ Within (GLOBAL_V6, 3) ip := by
    have h : inPrefix GLOBAL_V6 3 ip = true ↔ _ := inPrefix_iff (by decide) ip
    rwa [inPrefix, decide_eq_true_iff] at h
  unfold publicV6
  split
  · rename_i hoff
    simp [← hglobal, hoff]
  · rename_i hin
    rw [Bool.not_eq_true', List.any_eq_false, ← hglobal]
    refine ⟨fun h => ⟨not_not.mp hin, fun entry hmem hwithin => h entry hmem ?_⟩,
      fun h entry hmem hin => h.2 entry hmem ?_⟩
    · exact (inPrefix_iff (blockedV6_aligned entry hmem) ip).mpr hwithin
    · exact (inPrefix_iff (blockedV6_aligned entry hmem) ip).mp hin

end SjmbSlack.UrlFilter
