import Qsoe.Taskman.Timers

/-! The conversions between clock ticks and units of time, taskman's and the C library's, for clocks of up to
10 GHz: where the result fits in a word no step on the way leaves it, and the result is the exact quotient,
rounded down. -/
namespace Qsoe.Libc

open Qsoe.Taskman (Word nsToTicks usToTicks)

/-- `ticks_to_nsec` -/
def ticksToNsec (freq ticks : Word) : Word :=
  if freq = 0 then 0 else ticks / freq * 1000000000 + ticks % freq * 1000000000 / freq

def Fitting (n f d : Word) : Prop := n.toNat * f.toNat / d.toNat < 2 ^ 64

/-- What the conversion of `n` by the factor `f` and the divisor `d` has to give. -/
structure Floor (n f d result : Word) : Prop where
  unwrapped : Scale.Unwrapped n f d
  exactly : result.toNat = n.toNat * f.toNat / d.toNat

structure Clocked (freq : Word) : Prop where
  runs : 1 ≤ freq.toNat
  few : freq.toNat ≤ 10 ^ 10

variable {freq n m f d r s : Word}

theorem Fitting.mono (fitting : Fitting m f d) (le : n ≤ m) : Fitting n f d :=
  Nat.lt_of_le_of_lt (Nat.div_le_div_right (Nat.mul_le_mul_right f.toNat (BitVec.le_def.mp le))) fitting

theorem Floor.mono (one : Floor n f d r) (other : Floor m f d s) (le : n ≤ m) : r ≤ s := by
  rw [BitVec.le_def,one.exactly,other.exactly]
  exact Nat.div_le_div_right (Nat.mul_le_mul_right f.toNat (BitVec.le_def.mp le))

theorem Floor.back_fits (there : Floor n f d r) : Fitting r d f := by
  have less := Nat.lt_of_le_of_lt (Scale.back_le n.toNat f.toNat d.toNat) n.isLt
  rw [← there.exactly] at less
  exact less

theorem Floor.back (there : Floor n f d r) (again : Floor r d f s) : s ≤ n := by
  rw [BitVec.le_def,again.exactly,there.exactly]
  exact Scale.back_le n.toNat f.toNat d.toNat

theorem Clocked.nonzero (clocked : Clocked freq) : freq ≠ 0 := by
  rintro rfl
  exact absurd clocked.runs (by decide)

theorem floor_of_fitting (positive : 0 < d.toNat) (room : (d.toNat - 1) * f.toNat < 2 ^ 64) (fitting : Fitting n f d) :
    Floor n f d (n / d * f + n % d * f / d) := by
  obtain ⟨unwrapped,exactly⟩ := Scale.unwrapped positive room fitting
  exact ⟨unwrapped,exactly⟩

theorem nsToTicks_floor (clocked : Clocked freq) (fitting : Fitting n freq 1000000000) :
    Floor n freq 1000000000 (nsToTicks freq n) := by
  have unit : (1000000000 : Word).toNat = 1000000000 := rfl
  have few := clocked.few
  rw [nsToTicks,if_neg clocked.nonzero]
  refine floor_of_fitting (by omega) ?_ fitting
  rw [unit]
  omega

theorem usToTicks_floor (clocked : Clocked freq) (fitting : Fitting n freq 1000000) :
    Floor n freq 1000000 (usToTicks freq n) := by
  have unit : (1000000 : Word).toNat = 1000000 := rfl
  have few := clocked.few
  rw [usToTicks,if_neg clocked.nonzero]
  refine floor_of_fitting (by omega) ?_ fitting
  rw [unit]
  omega

theorem ticksToNsec_floor (clocked : Clocked freq) (fitting : Fitting n 1000000000 freq) :
    Floor n 1000000000 freq (ticksToNsec freq n) := by
  have unit : (1000000000 : Word).toNat = 1000000000 := rfl
  have few := clocked.few
  rw [ticksToNsec,if_neg clocked.nonzero]
  refine floor_of_fitting clocked.runs ?_ fitting
  rw [unit]
  omega

/-- Every conversion is exact up to rounding where its result fits, and so monotone there, and nanoseconds that are
made ticks and nanoseconds again have not become more. -/
theorem conversions_floor (clocked : Clocked freq) :
    (∀ ns, Fitting ns freq 1000000000 → Floor ns freq 1000000000 (nsToTicks freq ns)) ∧
    (∀ us, Fitting us freq 1000000 → Floor us freq 1000000 (usToTicks freq us)) ∧
    (∀ ticks, Fitting ticks 1000000000 freq → Floor ticks 1000000000 freq (ticksToNsec freq ticks)) ∧
    (∀ a b, a ≤ b → Fitting b freq 1000000000 → nsToTicks freq a ≤ nsToTicks freq b) ∧
    (∀ a b, a ≤ b → Fitting b freq 1000000 → usToTicks freq a ≤ usToTicks freq b) ∧
    (∀ a b, a ≤ b → Fitting b 1000000000 freq → ticksToNsec freq a ≤ ticksToNsec freq b) ∧
    (∀ ns, Fitting ns freq 1000000000 → ticksToNsec freq (nsToTicks freq ns) ≤ ns) := by
  refine ⟨fun _ => nsToTicks_floor clocked,fun _ => usToTicks_floor clocked,fun _ => ticksToNsec_floor clocked,
    ?_,?_,?_,?_⟩
  · intro a b le fitting
    exact (nsToTicks_floor clocked (fitting.mono le)).mono (nsToTicks_floor clocked fitting) le
  · intro a b le fitting
    exact (usToTicks_floor clocked (fitting.mono le)).mono (usToTicks_floor clocked fitting) le
  · intro a b le fitting
    exact (ticksToNsec_floor clocked (fitting.mono le)).mono (ticksToNsec_floor clocked fitting) le
  · intro ns fitting
    have there := nsToTicks_floor clocked fitting
    exact there.back (ticksToNsec_floor clocked there.back_fits)

/-- A clock of 10 MHz turns 250 ns into two ticks, and these into 200 ns. -/
theorem conversions_floor_ten : nsToTicks 10000000 250 = 2 ∧ ticksToNsec 10000000 2 = 200 ∧
    ticksToNsec 10000000 (nsToTicks 10000000 250) ≤ 250 :=
  ⟨by decide,by decide,(conversions_floor ⟨by decide,by decide⟩).2.2.2.2.2.2 250 (by unfold Fitting; decide)⟩

end Qsoe.Libc
