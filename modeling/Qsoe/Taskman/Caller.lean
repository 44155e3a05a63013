import Mathlib.Algebra.Group.Nat.Defs
import Qsoe.Taskman.Spaces

/-! Whose request taskman thinks it serves. The loop reads the caller off the badge, but the
primary endpoint carries caps badged with pids and caps badged with connection numbers. The
invariant follows every cap a CSpace can come to hold: only the SYSMGR cap of a spawn and
its copies carry the pid of the process that holds them by construction. -/
namespace Qsoe.Taskman

variable {cfg : Config} {s t : State cfg}

structure Capped (s : State cfg) : Prop where
  sound : ∀ i sp, s.spaces i = some sp → ∀ slot c, sp.caps slot = some c → c.Sound sp.pid

/-- Every cap of a CSpace is one minted for its process. -/
def Space.Sound (sp : Space) : Prop := ∀ slot c, sp.caps slot = some c → c.Sound sp.pid

theorem Space.Sound.stable : Stable Space.Sound where
  caps sp caps sound kept slot c there := by
    rcases kept slot c there with ⟨k,old⟩ | minted
    · exact sound k c old
    · exact minted
  muted _ _ sound := sound
  faulting _ sound := sound

theorem Holds.capped (holds : Holds Space.Sound s) : Capped s := ⟨holds.space⟩

theorem Capped.holds (capped : Capped s) : Holds Space.Sound s := ⟨Space.Sound.stable,capped.sound⟩

theorem step_capped (s : State cfg) (e : Event) (t : State cfg) (capped : Capped s) (_ : anyStep s e)
    (taken : step s e = some t) : Capped t := by
  apply Holds.capped
  apply step_holds capped.holds _ taken
  intro r pid issued slot c there
  cases there

theorem boot_capped (booted : boot cfg = some s) : Capped s := by
  apply Holds.capped
  apply boot_holds Space.Sound.stable _ _ booted
  · intro slot c there
    cases there
  · intro r pid issued slot c there
    cases there

def Source.number : Source → Option Nat
  | .scoid n => some (n + 1)
  | .pipe n write => some (2 * (n + 1) + write.toNat)
  | _ => none

theorem badge_number (numbered : Source.number σ = some n) : (σ.badge.setWidth 32).toNat = n % 2 ^ 32 := by
  cases σ with
  | sysmgr p => cases numbered
  | fault p => cases numbered
  | scoid k =>
    obtain rfl := Option.some.inj numbered
    simp only [Source.badge,BitVec.toNat_setWidth,BitVec.toNat_ofNat]
    omega
  | pipe k write =>
    obtain rfl := Option.some.inj numbered
    have twice : ((BitVec.ofNat 32 (k + 1)).setWidth 64 <<< 1).toNat = 2 * ((k + 1) % 2 ^ 32) := by
      simp only [BitVec.toNat_shiftLeft,BitVec.toNat_setWidth,BitVec.toNat_ofNat,Nat.shiftLeft_eq]
      omega
    have low : (if write then 1 else 0 : Word).toNat = write.toNat := by cases write <;> rfl
    have bit : write.toNat < 2 ^ 1 := by cases write <;> decide
    rw [Source.badge,BitVec.toNat_setWidth,BitVec.toNat_or,twice,low]
    rw [← Nat.two_pow_add_eq_or_of_lt bit ((k + 1) % 2 ^ 32)]
    omega

theorem badge_sysmgr (p : Pid) : (Source.sysmgr p).badge.setWidth 32 = p := by
  apply BitVec.eq_of_getElem_eq
  intro i h
  rw [Source.badge,BitVec.getElem_setWidth,BitVec.getLsbD_signExtend]
  simp [h,show i < 64 by omega]

/-- The sender's own SYSMGR cap or a copy of it, or a connection whose number happens to be
the sender's pid in its low 32 bits. -/
def Genuine (pid : Pid) (c : Cap) : Prop :=
  c.source = some (.sysmgr pid) ∨
    ∃ σ n, c.source = some σ ∧ σ.number = some n ∧ n % 2 ^ 32 = pid.toNat

/-- In every reachable state, a request sent through a cap on the primary endpoint is served
for the pid of its sender exactly when the cap is genuine. -/
theorem caller_is_sender (booted : boot cfg = some first) (run : Lts.Run step anyStep first es s)
    (process : s.pidOf i = some pid) (cap : s.held i slot = some c) (primary : c.object = .primary)
    (served : delivery c.badge = .request caller) : caller = pid ↔ Genuine pid c := by
  have capped := run.invariant Capped step_capped (boot_capped booted)
  obtain ⟨sp,used,rfl⟩ := Option.map_eq_some_iff.mp process
  obtain ⟨sp',used',holds⟩ := Option.bind_eq_some_iff.mp cap
  obtain rfl : sp = sp' := by simpa [used] using used'
  have sound := capped.sound i sp used slot c holds
  obtain ⟨σ,source⟩ := sound.primary primary
  have badge := sound.number σ source
  obtain rfl : c.badge.setWidth 32 = caller := by
    unfold delivery at served
    split at served
    · cases served
    · simpa using served
  rw [badge]
  cases σ with
  | sysmgr p =>
    obtain rfl := sound.own p source
    simp [badge_sysmgr,Genuine,source]
  | fault p => exact absurd source (sound.request p)
  | scoid n =>
    rw [BitVec.toNat_inj.symm,badge_number rfl]
    simp [Genuine,source,Source.number]
  | pipe n write =>
    rw [BitVec.toNat_inj.symm,badge_number rfl]
    simp [Genuine,source,Source.number]

/-- Init dups its SYSMGR cap into slot 20 and still speaks for itself through the copy. -/
theorem caller_is_sender_dup : ∃ s c, Lts.Run step anyStep smallBoot
    [.message 1 1 0 (.dupCap 1 20 true)] s ∧ s.held 1 20 = some c ∧
    ((2 : Pid) = 2 ↔ Genuine 2 c) := by
  obtain ⟨s,run,process,cap⟩ := Lts.Run.exists_of_replay step anyStep smallBoot
    [.message 1 1 0 (.dupCap 1 20 true)]
    (fun s => s.pidOf 1 = some 2 ∧ s.held 1 20 = some ⟨.primary,2,some (.sysmgr 2)⟩) (by decide +kernel)
  exact ⟨s,_,run,cap,caller_is_sender boot_small run process cap rfl (by decide)⟩

/-- The stdin cap of init carries scoid 1, so what init sends through it is served as a
request of taskman. -/
theorem stdin_speaks_for_taskman : ¬ ∀ es s i pid slot c caller,
    Lts.Run step anyStep smallBoot es s → s.pidOf i = some pid → s.held i slot = some c →
      c.object = .primary → delivery c.badge = .request caller → caller = pid := by
  intro truthful
  have process : smallBoot.pidOf 1 = some 2 := by decide +kernel
  have cap : smallBoot.held 1 capStdinConnect = some ⟨.primary,1,some (.scoid 0)⟩ := by decide +kernel
  have wrong := truthful [] smallBoot 1 2 capStdinConnect _ pidTaskman .nil process cap rfl (by decide)
  exact absurd wrong (by decide)

end Qsoe.Taskman
