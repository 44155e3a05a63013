import Mathlib.Data.Option.Basic
import Mathlib.Algebra.Order.Group.Nat

/-! Untyped memory. A retype carves the next aligned object at the watermark; deleting an
object gives nothing back, and the watermark returns to the start only once no child is left.
Making an object and deleting another one therefore costs the object's size each time. -/
structure Untyped where
  size : Nat
  watermark : Nat
  children : Nat
  deriving DecidableEq, Repr

namespace Untyped

variable {u v w : Untyped} {bytes : Nat}

/-- Where the next object of `bytes` bytes would start. -/
def base (u : Untyped) (bytes : Nat) : Nat :=
  if u.children = 0 then 0 else (u.watermark + bytes - 1) / bytes * bytes

def retype (u : Untyped) (bytes : Nat) : Option Untyped :=
  if u.base bytes + bytes ≤ u.size then
    some { u with watermark := u.base bytes + bytes, children := u.children + 1 }
  else none

def delete (u : Untyped) : Untyped := { u with children := u.children - 1 }

def room (u : Untyped) (bytes : Nat) : Nat := (u.size - u.base bytes) / bytes

theorem base_aligned (u : Untyped) (bytes : Nat) : ∃ k, u.base bytes = k * bytes := by
  unfold base
  split
  · exact ⟨0,by simp⟩
  · exact ⟨_,rfl⟩

theorem retype_base (made : u.retype bytes = some v) (positive : 0 < bytes) (alive : w.children ≠ 0)
    (same : w.watermark = v.watermark) : w.base bytes = u.base bytes + bytes := by
  unfold retype at made
  split at made
  · obtain rfl := Option.some.inj made
    obtain ⟨k,aligned⟩ := u.base_aligned bytes
    have next : (k * bytes + bytes + bytes - 1) / bytes = k + 1 := by
      have shape : k * bytes + bytes + bytes - 1 = (bytes - 1) + bytes * (k + 1) := by
        rw [Nat.mul_add,Nat.mul_comm bytes k]
        omega
      rw [shape,Nat.add_mul_div_left _ _ positive,Nat.div_eq_of_lt (by omega)]
      omega
    rw [base,if_neg alive,same]
    dsimp only
    rw [aligned,next,Nat.add_mul,Nat.one_mul]
  · cases made

/-- Where the watermark is aligned the object starts at it. -/
theorem retype_of_dvd (positive : 0 < bytes) (aligned : bytes ∣ u.watermark) (fresh : u.children = 0 →
    u.watermark = 0)
    (fits : u.watermark + bytes ≤ u.size) :
    u.retype bytes = some { u with watermark := u.watermark + bytes, children := u.children + 1 } := by
  have start : u.base bytes = u.watermark := by
    unfold base
    split
    · rename_i childless
      exact (fresh childless).symm
    · obtain ⟨k,same⟩ := aligned
      have shape : bytes * k + bytes - 1 = bytes - 1 + bytes * k := by omega
      rw [same,shape,Nat.add_mul_div_left _ _ positive,Nat.div_eq_of_lt (by omega),Nat.zero_add,Nat.mul_comm]
  rw [retype,start,if_pos fits]

theorem retype_size (made : u.retype bytes = some v) : v.size = u.size ∧ v.children = u.children + 1 := by
  unfold retype at made
  split at made
  · obtain rfl := Option.some.inj made
    exact ⟨rfl,rfl⟩
  · cases made

theorem retype_isSome (positive : 0 < bytes) : (u.retype bytes).isSome ↔ 1 ≤ u.room bytes := by
  unfold retype room
  rw [Nat.le_div_iff_mul_le positive,Nat.one_mul]
  split
  · simp only [Option.isSome_some,true_iff]
    omega
  · simp only [Option.isSome_none,Bool.false_eq_true,false_iff]
    omega

theorem room_zero (refused : u.retype bytes = none) (positive : 0 < bytes) : u.room bytes = 0 := by
  have full : ¬ 1 ≤ u.room bytes := by
    rw [← retype_isSome positive,refused]
    simp
  omega

/-- Every retype that is followed by deletions of other objects costs one place. -/
theorem retype_room (made : u.retype bytes = some v) (positive : 0 < bytes) (alive : w.children ≠ 0)
    (same : w.watermark = v.watermark) (size : w.size = u.size) : w.room bytes + 1 = u.room bytes := by
  have fits : 1 ≤ u.room bytes := (retype_isSome positive).mp (by rw [made]; rfl)
  have next := retype_base made positive alive same
  unfold room at fits ⊢
  have less : (u.size - u.base bytes - bytes) / bytes = (u.size - u.base bytes) / bytes - 1 := by
    simpa using Nat.sub_mul_div (u.size - u.base bytes) bytes 1
  rw [next,size,← Nat.sub_sub,less]
  omega

end Untyped
