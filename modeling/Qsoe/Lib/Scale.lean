import Mathlib.Algebra.Group.Nat.Defs
import Mathlib.Data.Nat.Init

/-! A count is converted to another unit by `f / d` in two parts, so that only the remainder is multiplied
before it is divided. The parts make up the exact quotient, rounded down. -/
namespace Scale

def split (n f d : Nat) : Nat := n / d * f + n % d * f / d

theorem split_eq (n f : Nat) (positive : 0 < d) : split n f d = n * f / d := by
  have parts : n * f = n % d * f + d * (n / d * f) := by
    calc n * f = (d * (n / d) + n % d) * f := by rw [Nat.div_add_mod]
      _ = d * (n / d) * f + n % d * f := Nat.add_mul ..
      _ = n % d * f + d * (n / d * f) := by rw [Nat.mul_assoc,Nat.add_comm]
  rw [split,parts,Nat.add_mul_div_left _ _ positive,Nat.add_comm]

theorem back_le (n f d : Nat) : n * f / d * d / f ≤ n := by
  rcases Nat.eq_zero_or_pos f with nothing | nonempty
  · rw [nothing,Nat.div_zero]
    exact Nat.zero_le n
  · refine Nat.div_le_of_le_mul ?_
    rw [Nat.mul_comm f n]
    exact Nat.div_mul_le_self (n * f) d

variable {w : Nat} {n f d : BitVec w}

structure Unwrapped (n f d : BitVec w) : Prop where
  whole : (n / d * f).toNat = (n / d).toNat * f.toNat
  rest : (n % d * f).toNat = (n % d).toNat * f.toNat
  sum : (n / d * f + n % d * f / d).toNat = (n / d * f).toNat + (n % d * f / d).toNat

/-- The rest is below the divisor, so its product has room where the divisor's has. -/
theorem unwrapped (positive : 0 < d.toNat) (room : (d.toNat - 1) * f.toNat < 2 ^ w)
    (fits : n.toNat * f.toNat / d.toNat < 2 ^ w) :
    Unwrapped n f d ∧ (n / d * f + n % d * f / d).toNat = n.toNat * f.toNat / d.toNat := by
  have exactly := split_eq n.toNat f.toNat positive
  rw [split] at exactly
  rw [← exactly] at fits
  have whole : (n / d * f).toNat = (n / d).toNat * f.toNat := by
    rw [BitVec.toNat_mul,BitVec.toNat_udiv]
    exact Nat.mod_eq_of_lt (Nat.lt_of_le_of_lt (Nat.le_add_right _ _) fits)
  have rest : (n % d * f).toNat = (n % d).toNat * f.toNat := by
    have below : n.toNat % d.toNat ≤ d.toNat - 1 := by
      have less := Nat.mod_lt n.toNat positive
      omega
    rw [BitVec.toNat_mul,BitVec.toNat_umod]
    exact Nat.mod_eq_of_lt (Nat.lt_of_le_of_lt (Nat.mul_le_mul_right _ below) room)
  have parts : (n / d * f).toNat + (n % d * f / d).toNat = n.toNat * f.toNat / d.toNat := by
    rw [BitVec.toNat_udiv,whole,rest,BitVec.toNat_udiv,BitVec.toNat_umod]
    exact exactly
  have sum : (n / d * f + n % d * f / d).toNat = (n / d * f).toNat + (n % d * f / d).toNat := by
    rw [BitVec.toNat_add,parts,← exactly]
    exact Nat.mod_eq_of_lt fits
  exact ⟨⟨whole,rest,sum⟩,sum.trans parts⟩

end Scale
