import Mathlib.Data.Nat.Bitwise

/-! Prefixes of bit vectors: a masked comparison with an aligned base holds on one
interval, and keeps every bit outside the mask free. -/
namespace SjmbSlack.Prefix

variable {w : Nat}

/-- All ones but for the bits after the prefix. -/
def mask (w bits : Nat) : BitVec w := BitVec.allOnes w <<< (w - bits)

def inPrefix (base : BitVec w) (bits : Nat) (n : BitVec w) : Bool := n &&& mask w bits = base

theorem toNat_and_mask (n : BitVec w) (bits : Nat) :
    (n &&& mask w bits).toNat = n.toNat / 2 ^ (w - bits) * 2 ^ (w - bits) := by
  have hle : n.toNat / 2 ^ (w - bits) * 2 ^ (w - bits) ≤ n.toNat := Nat.div_mul_le_self _ _
  rw [mask, ← BitVec.shiftLeft_ushiftRight, BitVec.toNat_shiftLeft, BitVec.toNat_ushiftRight,
    Nat.shiftLeft_eq, Nat.shiftRight_eq_div_pow]
  exact Nat.mod_eq_of_lt (hle.trans_lt n.isLt)

theorem toNat_eq_masked_add (n : BitVec w) (bits : Nat) :
    n.toNat = (n &&& mask w bits).toNat + n.toNat % 2 ^ (w - bits) := by
  rw [toNat_and_mask]
  exact (Nat.div_add_mod' _ _).symm

theorem inPrefix_iff {base : BitVec w} {bits : Nat} (hbase : 2 ^ (w - bits) ∣ base.toNat)
    (n : BitVec w) : inPrefix base bits n = true ↔
      base.toNat ≤ n.toNat ∧ n.toNat ≤ base.toNat + (2 ^ (w - bits) - 1) := by
  obtain ⟨quotient, hquotient⟩ := hbase
  have hpos : 0 < 2 ^ (w - bits) := Nat.two_pow_pos _
  have hinterval : n.toNat / 2 ^ (w - bits) = quotient ↔
      2 ^ (w - bits) * quotient ≤ n.toNat ∧
        n.toNat ≤ 2 ^ (w - bits) * quotient + (2 ^ (w - bits) - 1) := by
    rw [Nat.div_eq_iff hpos, Nat.mul_comm quotient]
    omega
  rw [inPrefix, decide_eq_true_iff, ← BitVec.toNat_inj, toNat_and_mask, hquotient, ← hinterval,
    Nat.mul_comm]
  exact ⟨fun h => Nat.eq_of_mul_eq_mul_left hpos h, fun h => congrArg _ h⟩

theorem toNat_append_add {high low : Nat} (base : BitVec high) (rest : BitVec low) :
    (base ++ rest).toNat = base.toNat * 2 ^ low + rest.toNat := by
  rw [BitVec.toNat_append, ← Nat.shiftLeft_add_eq_or_of_lt rest.isLt, Nat.shiftLeft_eq]

end SjmbSlack.Prefix
