import Mathlib.Algebra.Group.Nat.Defs

/-! Rounding machine words to a power of two with a mask. -/
namespace Align

variable {w : Nat}

/-- Clearing the low `k` bits. -/
theorem toNat_and_not (a mask : BitVec w) (low : mask.toNat = 2 ^ k - 1) :
    (a &&& ~~~mask).toNat = a.toNat / 2 ^ k * 2 ^ k := by
  apply Nat.eq_of_testBit_eq
  intro i
  rw [BitVec.testBit_toNat,BitVec.getLsbD_and,BitVec.getLsbD_not,Nat.testBit_mul_two_pow,Nat.testBit_div_two_pow,
    ← BitVec.testBit_toNat mask,low,Nat.testBit_two_pow_sub_one,BitVec.testBit_toNat]
  by_cases high : k ≤ i
  · rw [Nat.sub_add_cancel high]
    by_cases below : i < w
    · simp [below,high,Nat.not_lt.mpr high]
    · simp [BitVec.getLsbD_of_ge a i (Nat.le_of_not_lt below)]
  · simp [high,Nat.lt_of_not_le high]

theorem toNat_roundUp (x granule : BitVec w) (power : granule.toNat = 2 ^ k)
    (room : x.toNat + (2 ^ k - 1) < 2 ^ w) :
    ((x + granule - 1) &&& ~~~(granule - 1)).toNat = (x.toNat + (2 ^ k - 1)) / 2 ^ k * 2 ^ k := by
  have positive := Nat.two_pow_pos k
  have less : granule.toNat < 2 ^ w := granule.isLt
  have one : (1 : BitVec w).toNat = 1 := by
    rw [show (1 : BitVec w) = BitVec.ofNat w 1 from rfl,BitVec.toNat_ofNat]
    exact Nat.mod_eq_of_lt (by omega)
  have mask : (granule - 1).toNat = 2 ^ k - 1 := by
    rw [BitVec.toNat_sub_of_le (by rw [BitVec.le_def,one,power]; exact positive),one,power]
  rw [toNat_and_not _ _ mask]
  congr 2
  have shape : x + granule - 1 = x + (granule - 1) := by grind
  rw [shape,BitVec.toNat_add,mask,Nat.mod_eq_of_lt room]

theorem roundUp_wraps (x granule : BitVec w) (power : granule.toNat = 2 ^ k)
    (wraps : ¬x.toNat + (2 ^ k - 1) < 2 ^ w) : ((x + granule - 1) &&& ~~~(granule - 1)).toNat = 0 := by
  have positive := Nat.two_pow_pos k
  have less : granule.toNat < 2 ^ w := granule.isLt
  have bound : x.toNat < 2 ^ w := x.isLt
  have one : (1 : BitVec w).toNat = 1 := by
    rw [show (1 : BitVec w) = BitVec.ofNat w 1 from rfl,BitVec.toNat_ofNat]
    exact Nat.mod_eq_of_lt (by omega)
  have mask : (granule - 1).toNat = 2 ^ k - 1 := by
    rw [BitVec.toNat_sub_of_le (by rw [BitVec.le_def,one,power]; exact positive),one,power]
  have shape : x + granule - 1 = x + (granule - 1) := by grind
  rw [toNat_and_not _ _ mask,shape,BitVec.toNat_add,mask,Nat.mod_eq_sub_mod (by omega),Nat.mod_eq_of_lt (by omega)]
  rw [Nat.div_eq_of_lt (by omega),Nat.zero_mul]

/-- Keeping the low `k` bits. -/
theorem toNat_and_mask (a mask : BitVec w) (low : mask.toNat = 2 ^ k - 1) :
    (a &&& mask).toNat = a.toNat % 2 ^ k := by
  rw [BitVec.toNat_and,low,Nat.and_two_pow_sub_one_eq_mod]

/-- An offset that stays in the block of `a` does not wrap. -/
theorem toNat_add_of_inside (a : BitVec w) (narrow : k ≤ w) (inside : a.toNat % 2 ^ k + i < 2 ^ k) :
    (a + BitVec.ofNat w i).toNat = a.toNat + i := by
  have whole : 2 ^ (w - k) * 2 ^ k = 2 ^ w := by
    rw [← Nat.pow_add,Nat.sub_add_cancel narrow]
  have above : a.toNat / 2 ^ k + 1 ≤ 2 ^ (w - k) := by
    refine Nat.div_lt_of_lt_mul ?_
    rw [Nat.mul_comm,whole]
    exact a.isLt
  have next : (a.toNat / 2 ^ k + 1) * 2 ^ k ≤ 2 ^ w := by
    rw [← whole]
    exact Nat.mul_le_mul_right _ above
  have parts := Nat.div_add_mod a.toNat (2 ^ k)
  rw [Nat.mul_comm] at parts
  rw [Nat.add_mul,Nat.one_mul] at next
  rw [BitVec.toNat_add,BitVec.toNat_ofNat,Nat.mod_eq_of_lt (a := i) (by omega),Nat.mod_eq_of_lt (by omega)]

/-- Both halves of an address in the block of `a`. -/
theorem block_add (a mask : BitVec w) (low : mask.toNat = 2 ^ k - 1) (narrow : k ≤ w)
    (inside : a.toNat % 2 ^ k + i < 2 ^ k) :
    (a + BitVec.ofNat w i) &&& ~~~mask = a &&& ~~~mask ∧ (a + BitVec.ofNat w i) &&& mask =
      (a &&& mask) + BitVec.ofNat w i := by
  have here := toNat_add_of_inside a narrow inside
  have parts := Nat.div_add_mod a.toNat (2 ^ k)
  have positive := Nat.two_pow_pos k
  have split : a.toNat + i = a.toNat % 2 ^ k + i + 2 ^ k * (a.toNat / 2 ^ k) := by omega
  constructor
  · apply BitVec.eq_of_toNat_eq
    rw [toNat_and_not _ _ low,toNat_and_not _ _ low,here,split,Nat.add_mul_div_left _ _ positive,
      Nat.div_eq_of_lt inside,Nat.zero_add]
  · apply BitVec.eq_of_toNat_eq
    have small : (a &&& mask).toNat % 2 ^ k + i < 2 ^ k := by
      rw [toNat_and_mask _ _ low,Nat.mod_mod]
      exact inside
    rw [toNat_add_of_inside _ narrow small,toNat_and_mask _ _ low,toNat_and_mask _ _ low,here,split,
      Nat.add_mul_mod_self_left,Nat.mod_eq_of_lt inside]

theorem eq_of_halves {a b : BitVec w} (mask : BitVec w) (low : mask.toNat = 2 ^ k - 1)
    (block : a &&& ~~~mask = b &&& ~~~mask) (place : a &&& mask = b &&& mask) : a = b := by
  have upper := congrArg BitVec.toNat block
  have lower := congrArg BitVec.toNat place
  rw [toNat_and_not _ _ low,toNat_and_not _ _ low] at upper
  rw [toNat_and_mask _ _ low,toNat_and_mask _ _ low] at lower
  have one := Nat.div_add_mod a.toNat (2 ^ k)
  have other := Nat.div_add_mod b.toNat (2 ^ k)
  rw [Nat.mul_comm] at one other
  apply BitVec.eq_of_toNat_eq
  omega

end Align
