import Qsoe.Taskman.Sleep

/-! `nanosleep` of the C library polls the clock itself. It makes the same ticks of a request as taskman
does, after a multiplication that loses what does not fit in 64 bits. -/
namespace Qsoe.Libc

open Qsoe.Taskman (Word billion Whole nsToTicks expired)

inductive SleepErrno where
  | efault | einval
  deriving DecidableEq, Repr

inductive Slept where
  | failed (errno : SleepErrno)
  | returned (readings : Nat)
  deriving DecidableEq, Repr

def spin (clock : Nat → Word) (target : Word) : Nat → Nat → Option Nat
  | 0, _ => none
  | rounds + 1, i => if (clock i - target).toInt < 0 then spin clock target rounds (i + 1) else some (i + 1)

/-- `nanosleep` of `tv_sec` and `tv_nsec`, with the readings that `rdtime` gives one after the other. -/
def nanosleep (rounds : Nat) (freq : Word) (clock : Nat → Word) (rqtp : Option (Word × Word)) : Option Slept :=
  match rqtp with
  | none => some (.failed .efault)
  | some (sec,nsec) =>
    if nsec.toInt < 0 ∨ 1000000000 ≤ nsec.toInt ∨ sec.toInt < 0 then some (.failed .einval)
    else
      let totalNs := sec * 1000000000 + nsec
      if totalNs = 0 then some (.returned 0)
      else if freq = 0 then some (.returned 0)
      else
        let whole := totalNs / 1000000000 * freq
        let part := totalNs % 1000000000 * freq / 1000000000
        (spin clock (clock 0 + whole + part) rounds 1).map .returned

/-- What `nanosleep` accepts. -/
def Accepted (sec nsec : Word) : Prop := 0 ≤ sec.toInt ∧ 0 ≤ nsec.toInt ∧ nsec.toInt < 1000000000

def requested (sec nsec : Word) : Nat := sec.toNat * billion + nsec.toNat

/-- No clock that never goes back sees `nanosleep` return 0 before the time asked for is over; without a reading no
time is. -/
def NeverShort (freq sec nsec : Word) : Prop :=
  ∀ clock : Nat → Word, (∀ i j, i ≤ j → clock i ≤ clock j) → ∀ rounds k,
    nanosleep rounds freq clock (some (sec,nsec)) = some (.returned k) →
      requested sec nsec * freq.toNat ≤ ((clock (k - 1)).toNat - (clock 0).toNat) * billion

variable {freq sec nsec target : Word} {clock : Nat → Word} {rounds i k : Nat}

theorem spin_some (ended : spin clock target rounds i = some k) :
    ∃ j, i ≤ j ∧ k = j + 1 ∧ expired (clock j) target = true := by
  induction rounds generalizing i with
  | zero => cases ended
  | succ rounds ih =>
    rw [spin] at ended
    split at ended
    · obtain ⟨j,later,same,due⟩ := ih ended
      exact ⟨j,by omega,same,due⟩
    · rename_i due
      obtain rfl := Option.some.inj ended
      exact ⟨i,Nat.le_refl i,rfl,decide_eq_true (Int.not_lt.mp due)⟩

theorem total_toNat (sec nsec : Word) : (sec * 1000000000 + nsec).toNat = requested sec nsec % 2 ^ 64 := by
  have unit : (1000000000 : Word).toNat = billion := rfl
  rw [BitVec.toNat_add,BitVec.toNat_mul,unit,requested,Nat.mod_add_mod]

/-- Without an error `nanosleep` waits for the ticks that taskman would wait for. -/
theorem nanosleep_accepted (accepted : Accepted sec nsec) (nonzero : freq ≠ 0) :
    nanosleep rounds freq clock (some (sec,nsec)) =
      if sec * 1000000000 + nsec = 0 then some (.returned 0)
      else (spin clock (clock 0 + nsToTicks freq (sec * 1000000000 + nsec)) rounds 1).map .returned := by
  obtain ⟨sec',low,high⟩ := accepted
  unfold nanosleep nsToTicks
  dsimp only
  rw [if_neg (by omega),if_neg nonzero,if_neg nonzero,BitVec.add_assoc]

/-- A clock that reads 0 once and `t` from then on. -/
def jump (t : Word) (i : Nat) : Word := if i = 0 then 0 else t

theorem jump_zero (t : Word) : jump t 0 = 0 := rfl

theorem jump_mono (t : Word) (i j : Nat) (before : i ≤ j) : jump t i ≤ jump t j := by
  unfold jump
  split
  · rw [BitVec.le_def]
    exact Nat.zero_le _
  · rw [if_neg (by omega)]
    exact BitVec.le_refl t

theorem spin_jump {t : Word} (due : expired t target = true) : spin (jump t) target 1 1 = some 2 :=
  if_neg (Int.not_lt.mpr (of_decide_eq_true due))

theorem whole_zero (zero : requested sec nsec = 0) :
    requested sec nsec < 2 ^ 64 ∧ Whole freq (requested sec nsec) := by
  rw [zero,Whole,Nat.zero_mul]
  exact ⟨by omega,⟨0,rfl⟩,Nat.zero_le _⟩

/-- A sleep in the C library is never cut short exactly where its nanoseconds fit in 64 bits and its ticks come
out even and fit. -/
theorem neverShort_iff (one : 1 ≤ freq.toNat) (few : freq.toNat ≤ 10 ^ 10) (accepted : Accepted sec nsec) :
    NeverShort freq sec nsec ↔ requested sec nsec < 2 ^ 64 ∧ Whole freq (requested sec nsec) := by
  have second : billion = 1000000000 := rfl
  have nonzero : freq ≠ 0 := by
    rintro rfl
    exact absurd one (by decide)
  have total := total_toNat sec nsec
  generalize total_eq : sec * 1000000000 + nsec = ns at total
  constructor
  · intro never
    by_cases nothing : ns = 0
    · have asleep := never (fun _ => 0) (fun _ _ _ => BitVec.le_refl 0) 0 0
        (by rw [nanosleep_accepted accepted nonzero,total_eq,if_pos nothing])
      rw [Nat.sub_self,Nat.zero_mul] at asleep
      have zero : requested sec nsec = 0 := by
        rcases Nat.mul_eq_zero.mp (Nat.le_zero.mp asleep) with zero | vacant
        · exact zero
        · omega
      exact whole_zero zero
    · have spent : ∀ t : Word, expired t (0 + nsToTicks freq ns) = true → requested sec nsec * freq.toNat ≤
        (t.toNat - (0 : Word).toNat) * billion := by
        intro t due
        have asleep := never (jump t) (jump_mono t) 1 2
          (by rw [nanosleep_accepted accepted nonzero,total_eq,if_neg nothing,jump_zero,spin_jump due]; rfl)
        rw [jump_zero] at asleep
        exact asleep
      have ticks := Taskman.nsToTicks_toNat few ns
      rcases Taskman.waits_zero _ _ spent with zero | ⟨enough,near⟩
      · exact whole_zero (Nat.mul_eq_zero.mp zero |>.resolve_right (by omega))
      · generalize (nsToTicks freq ns).toNat = spentTicks at ticks enough near
        have floor : spentTicks * billion ≤ ns.toNat * freq.toNat :=
          calc spentTicks * billion ≤ ns.toNat * freq.toNat / billion * billion :=
                Nat.mul_le_mul_right billion (ticks ▸ Nat.mod_le _ _)
            _ ≤ ns.toNat * freq.toNat := Nat.div_mul_le_self _ _
        have kept : requested sec nsec ≤ ns.toNat := Nat.le_of_mul_le_mul_right (enough.trans floor) one
        have same : ns.toNat = requested sec nsec := Nat.le_antisymm (total ▸ Nat.mod_le _ _) kept
        have bound := ns.isLt
        rw [same] at floor
        have even : requested sec nsec * freq.toNat = spentTicks * billion := Nat.le_antisymm enough floor
        refine ⟨by omega,?_⟩
        rw [Whole,even]
        exact ⟨⟨spentTicks,Nat.mul_comm ..⟩,Nat.mul_le_mul_right billion near⟩
  · rintro ⟨fits,whole⟩ clock ascending rounds k returned
    have same : ns.toNat = requested sec nsec := by rw [total,Nat.mod_eq_of_lt fits]
    rw [nanosleep_accepted accepted nonzero,total_eq] at returned
    split at returned
    · rename_i nothing
      have zero : requested sec nsec = 0 := by
        rw [← same,nothing]
        rfl
      rw [zero,Nat.zero_mul]
      exact Nat.zero_le _
    · obtain ⟨k',ended,is⟩ := Option.map_eq_some_iff.mp returned
      obtain rfl := Slept.returned.inj is
      obtain ⟨j,-,rfl,due⟩ := spin_some ended
      rw [← same]
      exact (Taskman.whole_iff few ns).mpr (same ▸ whole) _ _ (ascending 0 j (Nat.zero_le j)) due

/-- Where the ticks come out even and fit, no sleep is cut short, in taskman or in the C library;
everywhere else one can be. -/
theorem sleeps_never_short (freq : Word) (one : 1 ≤ freq.toNat) (few : freq.toNat ≤ 10 ^ 10) :
    (∀ (cfg : Taskman.Config) (ns : Word), Taskman.NeverShort cfg freq ns ↔ Whole freq ns.toNat) ∧
      ∀ sec nsec, Accepted sec nsec →
        (NeverShort freq sec nsec ↔ requested sec nsec < 2 ^ 64 ∧ Whole freq (requested sec nsec)) :=
  ⟨fun cfg ns => Taskman.neverShort_iff cfg few ns,fun _ _ accepted => neverShort_iff one few accepted⟩

theorem sleeps_never_short_usual :
    (∀ (cfg : Taskman.Config) (ns : Word), Taskman.NeverShort cfg 10000000 ns ↔ Whole 10000000 ns.toNat) ∧
      ∀ sec nsec, Accepted sec nsec →
        (NeverShort 10000000 sec nsec ↔ requested sec nsec < 2 ^ 64 ∧ Whole 10000000 (requested sec nsec)) :=
  sleeps_never_short 10000000 (by decide) (by decide)

/-- At 10 MHz taskman answers a sleep of 150 ns after one tick, and the C library is back from one of
585 years after 2904483. -/
theorem sleeps_cut_short :
    (∃ es n, Lts.Run (Taskman.Naps.step 10000000) Taskman.Naps.anyDuty (.start (.init Taskman.small)) es n ∧
      (⟨150,0⟩,1) ∈ n.answered ∧ (1 - 0) * billion < 150 * 10000000) ∧
    nanosleep 1 10000000 (jump 2904483) (some (18446744074,0)) = some (.returned 2) ∧
      2904483 * billion < requested 18446744074 0 * 10000000 := by
  refine ⟨?_,by decide,by decide⟩
  obtain ⟨es,n,run,answered⟩ := Taskman.short_run Taskman.small 10000000 150 (by decide) 1 (by decide)
  exact ⟨es,n,run,answered,by decide⟩

end Qsoe.Libc
