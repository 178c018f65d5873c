import Mathlib.Algebra.Ring.Nat
import Mathlib.Data.List.Lex
import Mathlib.Order.Lattice

/-! Texts of the program as lists of Unicode scalar values. Their order is the
order of the UTF-8 bytes, and `byteLength` is the length in UTF-8 bytes. -/
namespace SjmbSlack

abbrev Str := List Char

namespace Str

def byteLength (text : Str) : Nat := (text.map Char.utf8Size).sum

@[simp] theorem byteLength_nil : byteLength [] = 0 := rfl

@[simp] theorem byteLength_cons (ch : Char) (text : Str) :
    byteLength (ch :: text) = ch.utf8Size + byteLength text := by
  simp [byteLength]

@[simp] theorem byteLength_append (left right : Str) :
    byteLength (left ++ right) = byteLength left + byteLength right := by
  simp [byteLength]

def isAsciiDigit (ch : Char) : Bool := '0' ≤ ch ∧ ch ≤ '9'

def isAsciiAlphanumeric (ch : Char) : Bool :=
  isAsciiDigit ch || ('a' ≤ ch ∧ ch ≤ 'z') || ('A' ≤ ch ∧ ch ≤ 'Z')

def toAsciiLowercase (text : Str) : Str := text.map Char.toLower

def digitsValue (text : Str) : Nat :=
  text.foldl (fun value ch => value * 10 + (ch.toNat - '0'.toNat)) 0

/-- `str::parse` for an unsigned type: an optional plus sign, then digits, with
an error on overflow. -/
def parseUnsigned (bound : Nat) (text : Str) : Option Nat :=
  let digits := match text with
    | '+' :: rest => rest
    | _ => text
  if digits ≠ [] ∧ digits.all isAsciiDigit ∧ digitsValue digits < bound then
    some (digitsValue digits)
  else none

/-- `str::split_once` at the first occurrence of a character. -/
def splitOnce (separator : Char) : Str → Option (Str × Str)
  | [] => none
  | ch :: rest =>
      if ch = separator then some ([], rest)
      else (splitOnce separator rest).map fun parts => (ch :: parts.1, parts.2)

theorem splitOnce_append {separator : Char} {before : Str} (h : separator ∉ before) (rest : Str) :
    splitOnce separator (before ++ separator :: rest) = some (before, rest) := by
  induction before with
  | nil => simp [splitOnce]
  | cons ch tail ih =>
      rw [List.mem_cons, not_or] at h
      rw [List.cons_append, splitOnce, if_neg (Ne.symm h.1), ih h.2, Option.map_some]

theorem splitOnce_eq_none {separator : Char} {text : Str} (h : separator ∉ text) :
    splitOnce separator text = none := by
  induction text with
  | nil => rfl
  | cons ch rest ih =>
      rw [List.mem_cons, not_or] at h
      rw [splitOnce, if_neg (Ne.symm h.1), ih h.2, Option.map_none]

theorem splitOnce_eq {separator : Char} {text left right : Str}
    (h : splitOnce separator text = some (left, right)) : text = left ++ separator :: right := by
  induction text generalizing left with
  | nil => contradiction
  | cons ch rest ih =>
      unfold splitOnce at h
      split at h
      · rename_i heq
        cases Option.some.inj h
        rw [heq, List.nil_append]
      · obtain ⟨⟨before, after⟩, hrest, heq⟩ := Option.map_eq_some_iff.mp h
        cases heq
        rw [ih hrest, List.cons_append]

theorem le_iff_toNat (left right : Char) : left ≤ right ↔ left.toNat ≤ right.toNat := by
  simp [Char.le_def, UInt32.le_iff_toNat_le]

theorem toNat_toLower (ch : Char) :
    ch.toLower.toNat = if 65 ≤ ch.toNat ∧ ch.toNat ≤ 90 then ch.toNat + 32 else ch.toNat := by
  have hbounds : (ch.val ≥ 'A'.val ∧ ch.val ≤ 'Z'.val) ↔ (65 ≤ ch.toNat ∧ ch.toNat ≤ 90) := by
    simp only [ge_iff_le, UInt32.le_iff_toNat_le]
    rfl
  unfold Char.toLower
  split
  · rename_i h
    have hrange : 65 ≤ ch.val.toNat ∧ ch.val.toNat ≤ 90 := hbounds.mp h
    rw [if_pos (hbounds.mp h)]
    change (ch.val + 32).toNat = ch.val.toNat + 32
    rw [UInt32.toNat_add]
    simp only [UInt32.reduceToNat]
    omega
  · rename_i h
    rw [if_neg fun hin => h (hbounds.mpr hin)]

theorem toLower_toLower (ch : Char) : ch.toLower.toLower = ch.toLower := by
  rw [← Char.toNat_inj, toNat_toLower ch.toLower, if_neg]
  rw [toNat_toLower ch]
  split <;> omega

theorem toLower_eq_iff {ch other : Char} (h : other.toNat < 65) : ch.toLower = other ↔ ch = other := by
  rw [← Char.toNat_inj, ← Char.toNat_inj, toNat_toLower]
  split <;> omega

@[simp] theorem isAsciiAlphanumeric_toLower (ch : Char) :
    isAsciiAlphanumeric ch.toLower = isAsciiAlphanumeric ch := by
  rw [Bool.eq_iff_iff]
  simp only [isAsciiAlphanumeric, isAsciiDigit, Bool.or_eq_true, decide_eq_true_eq, le_iff_toNat,
    toNat_toLower, show '0'.toNat = 48 from rfl, show '9'.toNat = 57 from rfl,
    show 'a'.toNat = 97 from rfl, show 'z'.toNat = 122 from rfl, show 'A'.toNat = 65 from rfl,
    show 'Z'.toNat = 90 from rfl]
  split <;> omega

theorem utf8Size_ascii {ch : Char} (h : ch.toNat ≤ 127) : ch.utf8Size = 1 := by
  refine Char.utf8Size_eq_one_iff.mpr (UInt32.le_iff_toNat_le.mpr ?_)
  exact h

theorem byteLength_ascii {text : Str} (h : ∀ ch ∈ text, ch.toNat ≤ 127) :
    byteLength text = text.length := by
  induction text with
  | nil => rfl
  | cons ch rest ih =>
      rw [byteLength_cons, utf8Size_ascii (h ch List.mem_cons_self), List.length_cons,
        ih fun other hmem => h other (List.mem_cons_of_mem _ hmem), Nat.add_comm]

@[simp] theorem utf8Size_toLower (ch : Char) : ch.toLower.utf8Size = ch.utf8Size := by
  by_cases hupper : 65 ≤ ch.toNat ∧ ch.toNat ≤ 90
  · have hascii : ch.toNat ≤ 127 := by omega
    rw [utf8Size_ascii hascii, utf8Size_ascii]
    rw [toNat_toLower, if_pos hupper]
    omega
  · have hsame : ch.toLower = ch := by
      rw [← Char.toNat_inj, toNat_toLower, if_neg hupper]
    rw [hsame]

@[simp] theorem byteLength_toAsciiLowercase (text : Str) :
    byteLength (toAsciiLowercase text) = byteLength text := by
  simp [byteLength, toAsciiLowercase, Function.comp_def]

@[simp] theorem toAsciiLowercase_twice (text : Str) :
    toAsciiLowercase (toAsciiLowercase text) = toAsciiLowercase text := by
  simp only [toAsciiLowercase, List.map_map, Function.comp_def, toLower_toLower]

end Str

end SjmbSlack
