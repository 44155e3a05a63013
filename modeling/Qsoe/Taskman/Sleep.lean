import Mathlib.Algebra.Group.Nat.Defs
import Qsoe.Lib.Scale
import Qsoe.Taskman.Replies

/-! How long a sleep lasts. A request of nanoseconds becomes a number of ticks that is rounded down and kept in
64 bits, and the sweep compares signed differences; so a sleep is as long as it was asked for exactly where
the ticks come out even and fit. -/
namespace Qsoe.Taskman

/-- The nanoseconds of a second. -/
def billion : Nat := 10 ^ 9

/-- The request comes out as a whole number of ticks, and these are at most half the range of the clock. -/
def Whole (freq : Word) (ns : Nat) : Prop := billion ∣ ns * freq.toNat ∧ ns * freq.toNat ≤ 2 ^ 63 * billion

variable {freq ns now : Word}

theorem nsToTicks_toNat (few : freq.toNat ≤ 10 ^ 10) (ns : Word) :
    (nsToTicks freq ns).toNat = ns.toNat * freq.toNat / billion % 2 ^ 64 := by
  have unit : (1000000000 : Word).toNat = billion := rfl
  have second : billion = 1000000000 := rfl
  unfold nsToTicks
  split
  · rename_i zero
    rw [zero]
    show 0 = ns.toNat * 0 / billion % 2 ^ 64
    rw [Nat.mul_zero,Nat.zero_div,Nat.zero_mod]
  · have rest : ns.toNat % billion * freq.toNat < 2 ^ 64 := by
      have small : ns.toNat % billion ≤ billion := Nat.le_of_lt (Nat.mod_lt _ (by omega))
      calc ns.toNat % billion * freq.toNat ≤ billion * 10 ^ 10 := Nat.mul_le_mul small few
        _ < 2 ^ 64 := by rw [second]; omega
    have split := Scale.split_eq ns.toNat freq.toNat (d := billion) (by omega)
    rw [Scale.split] at split
    rw [BitVec.toNat_add,BitVec.toNat_udiv,BitVec.toNat_mul,BitVec.toNat_mul,BitVec.toNat_udiv,
      BitVec.toNat_umod,unit,Nat.mod_eq_of_lt rest,Nat.mod_add_mod,split]

theorem expired_iff (now expiry : Word) : expired now expiry = true ↔ (now - expiry).toNat < 2 ^ 63 := by
  have bound := (now - expiry).isLt
  rw [expired,decide_eq_true_eq,BitVec.toInt_eq_toNat_cond]
  split
  · omega
  · omega

theorem waits_zero (ticks : Word) (n : Nat)
    (waits : ∀ t : Word, expired t (0 + ticks) = true → n ≤ (t.toNat - (0 : Word).toNat) * billion) :
    n = 0 ∨ n ≤ ticks.toNat * billion ∧ ticks.toNat ≤ 2 ^ 63 := by
  have zero : (0 : Word).toNat = 0 := rfl
  have bound := ticks.isLt
  by_cases nothing : n = 0
  · exact .inl nothing
  · by_cases near : ticks.toNat ≤ 2 ^ 63
    · have last := waits ticks (by
        rw [expired_iff,BitVec.toNat_sub,BitVec.toNat_add,zero]
        omega)
      rw [zero,Nat.sub_zero] at last
      exact .inr ⟨last,near⟩
    · have first := waits 0 (by
        rw [expired_iff,BitVec.toNat_sub,BitVec.toNat_add,zero]
        omega)
      rw [zero,Nat.sub_self,Nat.zero_mul] at first
      omega

theorem waits_iff (ticks : Word) (n : Nat) :
    (∀ start t : Word, start ≤ t → expired t (start + ticks) = true → n ≤ (t.toNat - start.toNat) * billion) ↔
      n = 0 ∨ n ≤ ticks.toNat * billion ∧ ticks.toNat ≤ 2 ^ 63 := by
  constructor
  · intro waits
    refine waits_zero ticks n fun t => waits 0 t ?_
    rw [BitVec.le_def]
    exact Nat.zero_le _
  · rintro (rfl | ⟨enough,near⟩) start t later due
    · exact Nat.zero_le _
    · have bound := ticks.isLt
      rw [expired_iff,BitVec.toNat_sub,BitVec.toNat_add] at due
      rw [BitVec.le_def] at later
      have first := start.isLt
      have last := t.isLt
      have long : ticks.toNat ≤ t.toNat - start.toNat := by omega
      exact enough.trans (Nat.mul_le_mul_right billion long)

/-- The ticks of a request end no wait early exactly where they come out even and fit. -/
theorem whole_iff (few : freq.toNat ≤ 10 ^ 10) (ns : Word) :
    (∀ start t : Word, start ≤ t → expired t (start + nsToTicks freq ns) = true →
      ns.toNat * freq.toNat ≤ (t.toNat - start.toNat) * billion) ↔ Whole freq ns.toNat := by
  have second : billion = 1000000000 := rfl
  rw [waits_iff,nsToTicks_toNat few,Whole]
  generalize ns.toNat * freq.toNat = n
  rw [second]
  omega

variable {cfg : Config}

structure Ask where
  ns : Word
  start : Word
  deriving DecidableEq, Repr

/-- The desk under a clock. `asked` is what the sleepers have asked for, and `answered` is history: the
sleeps that were answered with success, each with the reading at which it was. -/
structure Naps (cfg : Config) where
  desk : Desk cfg
  clock : Word
  asked : Slab.Table maxSleepers Ask
  answered : List (Ask × Word)

namespace Naps

/-- `tm_nanosleep`: no time at all is answered at once. -/
def nanosleep (n : Naps cfg) (caller : Pid) (freq ns now : Word) (slot : Nat) (granted : Bool) : Naps cfg where
  desk := n.desk.nanosleep caller freq ns now slot granted
  clock := now
  asked :=
    if ns = 0 then n.asked
    else match Slab.free n.desk.sleepers with
      | none => n.asked
      | some j => if (n.desk.park slot granted).isSome then Slab.put n.asked j ⟨ns,now⟩ else n.asked
  answered := if ns = 0 then n.answered ++ [(⟨ns,now⟩,now)] else n.answered

def woken (n : Naps cfg) (now : Word) (j : Fin maxSleepers) : Option (Ask × Word) :=
  (n.desk.sleepers j).bind fun z => if expired now z.expiry then (n.asked j).map fun a => (a,now) else none

def sweep (n : Naps cfg) (now : Word) : Naps cfg where
  desk := n.desk.sweep now
  clock := now
  asked := n.asked
  answered := n.answered ++ (List.finRange maxSleepers).filterMap (n.woken now)

/-- The clock never goes back, and its frequency is that of the machine. -/
def step (freq : Word) (n : Naps cfg) : Duty → Option (Naps cfg)
  | .nanosleep caller f ns now slot granted =>
      if f = freq ∧ n.clock ≤ now then some (n.nanosleep caller freq ns now slot granted) else none
  | .sweep now => if n.clock ≤ now then some (n.sweep now) else none
  | c => (n.desk.step c).map fun d => { n with desk := d }

def start (s : State cfg) : Naps cfg := ⟨.start s,0,fun _ => none,[]⟩

/-- Duties without a condition. -/
def anyDuty (_ : Naps cfg) (_ : Duty) : Prop := True

end Naps

def Long (freq : Word) (ns : Nat) (start t : Word) : Prop := ns * freq.toNat ≤ (t.toNat - start.toNat) * billion

/-- No run answers a sleep of so many nanoseconds early. -/
def NeverShort (cfg : Config) (freq ns : Word) : Prop :=
  ∀ (s : State cfg) es n, Lts.Run (Naps.step freq) Naps.anyDuty (.start s) es n →
    ∀ a ∈ n.answered, a.1.ns = ns → Long freq ns.toNat a.1.start a.2

structure Naps.Kept (freq : Word) (n : Naps cfg) : Prop where
  sleepers : ∀ j z, n.desk.sleepers j = some z → ∃ a, n.asked j = some a ∧
    z.expiry = a.start + nsToTicks freq a.ns ∧ a.start ≤ n.clock
  answered : ∀ a ∈ n.answered, a.1.ns = 0 ∨ a.1.start ≤ a.2 ∧ expired a.2 (a.1.start + nsToTicks freq a.1.ns) = true

variable {d : Desk cfg} {s : Naps cfg} {j k : Fin maxSleepers} {c : Duty}

theorem wake_sleepers (d : Desk cfg) (now : Word) (j k : Fin maxSleepers) :
    (d.wake now j).sleepers k = if k = j ∧ (d.sleepers k).any (fun z => expired now z.expiry) =
      true then none else d.sleepers k := by
  unfold Desk.wake
  by_cases same : k = j
  · subst same
    cases used : d.sleepers k with
    | none => simp [used]
    | some z =>
      by_cases due : expired now z.expiry = true
      · simp [due]
      · simp [due,used]
  · cases used : d.sleepers j with
    | none => simp [same]
    | some z =>
      by_cases due : expired now z.expiry = true
      · simp [due,same]
      · simp [due,same]

theorem sweep_sleepers (d : Desk cfg) (now : Word) (k : Fin maxSleepers) :
    (d.sweep now).sleepers k = if (d.sleepers k).any (fun z => expired now z.expiry) =
      true then none else d.sleepers k := by
  have fold : ∀ (js : List (Fin maxSleepers)) (d : Desk cfg), (js.foldl (Desk.wake now) d).sleepers k =
      if k ∈ js ∧ (d.sleepers k).any (fun z => expired now z.expiry) = true then none else d.sleepers k := by
    intro js
    induction js with
    | nil => simp
    | cons j js ih =>
      intro d
      rw [List.foldl_cons,ih,wake_sleepers]
      by_cases same : k = j
      · subst same
        by_cases due : (d.sleepers k).any (fun z => expired now z.expiry) = true
        · simp [due]
        · simp [due]
      · simp [same]
  rw [Desk.sweep,fold]
  simp [List.mem_finRange]

@[simp] theorem deliver_sleepers (d : Desk cfg) (slot : Option Nat) : (d.deliver slot).sleepers = d.sleepers := by
  cases slot with
  | none => rfl
  | some slot => rfl

theorem answer_sleepers (d : Desk cfg) (pid : Pid) : (d.answer pid).sleepers = d.sleepers := by
  unfold Desk.answer
  split
  · rfl
  · split
    · exact deliver_sleepers ..
    · rfl

theorem step_sleepers {d' : Desk cfg} (taken : d.step c = some d')
    (other : ∀ caller f ns now slot granted, c ≠ .nanosleep caller f ns now slot granted)
    (quiet : ∀ now, c ≠ .sweep now) : d'.sleepers = d.sleepers := by
  cases c with
  | spawn parent k =>
    obtain rfl := Option.some.inj taken
    unfold Desk.spawn
    dsimp only
    split
    · rfl
    · rfl
  | detach pid status =>
    obtain rfl := Option.some.inj taken
    exact answer_sleepers d pid
  | terminate target status =>
    obtain rfl := Option.some.inj taken
    unfold Desk.terminate
    split
    · rfl
    · exact answer_sleepers d target
  | waitpid waiter child slot granted =>
    obtain rfl := Option.some.inj taken
    unfold Desk.waitpid
    dsimp only
    split
    · rfl
    · rfl
  | nanosleep caller f ns now slot granted => exact absurd rfl (other caller f ns now slot granted)
  | sweep now => exact absurd rfl (quiet now)

namespace Naps

theorem Kept.start (freq : Word) (s : State cfg) : Kept freq (Naps.start s) :=
  ⟨fun _ _ nothing => absurd nothing.symm (Option.some_ne_none _),fun _ member => absurd member List.not_mem_nil⟩

theorem Kept.sweep (kept : s.Kept freq) (later : s.clock ≤ now) : (s.sweep now).Kept freq := by
  constructor
  · intro j z used
    have before := sweep_sleepers s.desk now j
    split at before
    · cases before.symm.trans used
    · obtain ⟨a,asked,expiry,start⟩ := kept.sleepers j z (before.symm.trans used)
      exact ⟨a,asked,expiry,BitVec.le_trans start later⟩
  · intro a member
    rcases List.mem_append.mp member with old | new
    · exact kept.answered a old
    · obtain ⟨j,-,hit⟩ := List.mem_filterMap.mp new
      obtain ⟨z,used,woken⟩ := Option.bind_eq_some_iff.mp hit
      obtain ⟨b,asked,expiry,start⟩ := kept.sleepers j z used
      split at woken
      · rename_i due
        rw [asked] at woken
        obtain rfl := Option.some.inj woken
        exact .inr ⟨BitVec.le_trans start later,expiry ▸ due⟩
      · cases woken

theorem nanosleep_sleepers (d : Desk cfg) (caller : Pid) (freq ns now : Word) (slot : Nat) (granted : Bool) :
    (d.nanosleep caller freq ns now slot granted).sleepers =
      if ns = 0 then d.sleepers
      else match Slab.free d.sleepers with
        | none => d.sleepers
        | some j =>
          if (d.park slot granted).isSome then Slab.put d.sleepers j ⟨caller,slot,now + nsToTicks freq ns⟩
            else d.sleepers := by
  unfold Desk.nanosleep
  by_cases nothing : ns = 0
  · rw [if_pos nothing,if_pos nothing]
  · rw [if_neg nothing,if_neg nothing]
    cases free : Slab.free d.sleepers with
    | none => rfl
    | some j =>
      by_cases fine : slot ≠ 0 ∧ granted = true ∧ slot ∉ d.held
      · have parked : d.park slot granted = some slot := if_pos fine
        rw [parked]
        rfl
      · have refused : d.park slot granted = none := if_neg fine
        rw [refused]
        rfl

theorem Kept.nanosleep (kept : s.Kept freq) (later : s.clock ≤ now) (caller : Pid) (ns : Word) (slot : Nat)
    (granted : Bool) :
    (s.nanosleep caller freq ns now slot granted).Kept freq := by
  have old : ∀ j z, s.desk.sleepers j = some z → ∃ a, s.asked j = some a ∧
    z.expiry = a.start + nsToTicks freq a.ns ∧ a.start ≤ now := by
    intro j z used
    obtain ⟨a,asked,expiry,start⟩ := kept.sleepers j z used
    exact ⟨a,asked,expiry,BitVec.le_trans start later⟩
  constructor
  · intro j z used
    have sleepers := nanosleep_sleepers s.desk caller freq ns now slot granted
    have here : (s.desk.nanosleep caller freq ns now slot granted).sleepers j = some z := used
    rw [sleepers] at here
    unfold Naps.nanosleep
    dsimp only
    by_cases nothing : ns = 0
    · rw [if_pos nothing] at here ⊢
      exact old j z here
    · rw [if_neg nothing] at here ⊢
      cases free : Slab.free s.desk.sleepers with
      | none =>
        rw [free] at here
        exact old j z here
      | some i =>
        rw [free] at here
        dsimp only at here ⊢
        by_cases parked : (s.desk.park slot granted).isSome = true
        · rw [if_pos parked] at here ⊢
          rcases eq_or_ne j i with rfl | other
          · rw [Slab.put_same] at here ⊢
            obtain rfl := Option.some.inj here
            exact ⟨_,rfl,rfl,BitVec.le_refl now⟩
          · rw [Slab.put_other _ other] at here ⊢
            exact old j z here
        · rw [if_neg parked] at here ⊢
          exact old j z here
  · intro a member
    unfold Naps.nanosleep at member
    dsimp only at member
    split at member
    · rename_i nothing
      rcases List.mem_append.mp member with before | new
      · exact kept.answered a before
      · obtain rfl := List.mem_singleton.mp new
        exact .inl nothing
    · exact kept.answered a member

theorem Kept.step {s' : Naps cfg} (kept : s.Kept freq) (taken : Naps.step freq s c = some s') : s'.Kept freq := by
  have quiet : ∀ {d : Desk cfg}, s.desk.step c = some d →
    (∀ caller f ns now slot granted, c ≠ .nanosleep caller f ns now slot granted) →
      (∀ now, c ≠ .sweep now) → { s with desk := d }.Kept freq := fun moved other still =>
    ⟨fun j z used => kept.sleepers j z (step_sleepers moved other still ▸ used),kept.answered⟩
  cases c with
  | nanosleep caller f ns now slot granted =>
    dsimp only [Naps.step] at taken
    split at taken
    · rename_i fine
      obtain rfl := Option.some.inj taken
      exact kept.nanosleep fine.2 caller ns slot granted
    · cases taken
  | sweep now =>
    dsimp only [Naps.step] at taken
    split at taken
    · rename_i later
      obtain rfl := Option.some.inj taken
      exact kept.sweep later
    · cases taken
  | spawn | detach | terminate | waitpid =>
    dsimp only [Naps.step] at taken
    obtain ⟨d,moved,rfl⟩ := Option.map_eq_some_iff.mp taken
    refine quiet moved (fun _ _ _ _ _ _ same => ?_) fun _ same => ?_
    · cases same
    · cases same

theorem run_kept (run : Lts.Run (Naps.step freq) anyDuty (Naps.start reg) es s) : s.Kept freq :=
  run.invariant (Kept freq) (fun _ _ _ kept _ taken => kept.step taken) (Kept.start freq reg)

end Naps

theorem short_run (cfg : Config) (freq : Word) (ns : Word) (nonzero : ns ≠ 0) (t : Word)
    (due : expired t (0 + nsToTicks freq ns) = true) :
    ∃ es n, Lts.Run (Naps.step freq) Naps.anyDuty (Naps.start (.init cfg)) es n ∧ (⟨ns,0⟩,t) ∈ n.answered := by
  have nothing : ((Naps.start (State.init cfg)).nanosleep 2 freq ns 0 5 true).clock ≤ t := by
    rw [BitVec.le_def]
    exact Nat.zero_le _
  have slept : Naps.step freq (Naps.start (.init cfg)) (.nanosleep 2 freq ns 0 5 true) =
      some ((Naps.start (.init cfg)).nanosleep 2 freq ns 0 5 true) := if_pos ⟨rfl,BitVec.le_refl 0⟩
  have swept : Naps.step freq ((Naps.start (.init cfg)).nanosleep 2 freq ns 0 5 true) (.sweep t) =
      some (((Naps.start (.init cfg)).nanosleep 2 freq ns 0 5 true).sweep t) := by
    dsimp only [Naps.step]
    rw [if_pos nothing]
  refine ⟨_,_,.cons trivial slept (.cons trivial swept .nil),?_⟩
  have first : 0 < maxSleepers := by decide
  have free : Slab.free (Naps.start (State.init cfg)).desk.sleepers = some ⟨0,first⟩ := rfl
  have parked : ((Naps.start (State.init cfg)).desk.park 5 true) = some 5 := rfl
  have sleepers := Naps.nanosleep_sleepers (Naps.start (State.init cfg)).desk 2 freq ns 0 5 true
  rw [if_neg nonzero,free,parked] at sleepers
  have asked : ((Naps.start (State.init cfg)).nanosleep 2 freq ns 0 5 true).asked = Slab.put (fun _ => none)
    ⟨0,first⟩ ⟨ns,0⟩ := by
    rw [Naps.nanosleep,if_neg nonzero,free,parked]
    rfl
  refine List.mem_append_right _ (List.mem_filterMap.mpr ⟨⟨0,first⟩,List.mem_finRange _,?_⟩)
  have used : ((Naps.start (State.init cfg)).nanosleep 2 freq ns 0 5 true).desk.sleepers ⟨0,first⟩ = some
    ⟨2,5,0 + nsToTicks freq ns⟩ :=
    (congrFun sleepers _).trans (Slab.put_same _)
  rw [Naps.woken,used,Option.bind_some,if_pos due,asked,Slab.put_same]
  rfl

/-- No sleep of so many nanoseconds is cut short exactly where its ticks come out even and fit. -/
theorem neverShort_iff (cfg : Config) (few : freq.toNat ≤ 10 ^ 10) (ns : Word) :
    NeverShort cfg freq ns ↔ Whole freq ns.toNat := by
  rw [← whole_iff few]
  constructor
  · intro never
    rw [waits_iff]
    by_cases nothing : ns = 0
    · have zero : ns.toNat = 0 := congrArg BitVec.toNat nothing
      refine Or.inl ?_
      rw [zero,Nat.zero_mul]
    · refine waits_zero _ _ fun t due => ?_
      obtain ⟨es,n,run,answered⟩ := short_run cfg freq _ nothing t due
      have long : Long freq ns.toNat 0 t := never _ es n run (⟨ns,0⟩,t) answered rfl
      rw [Long] at long
      exact long
  · intro waits reg es n run a member same
    rcases (Naps.run_kept run).answered a member with nothing | ⟨later,due⟩
    · have zero : ns.toNat = 0 := congrArg BitVec.toNat (same.symm.trans nothing)
      rw [Long,zero,Nat.zero_mul]
      exact Nat.zero_le _
    · rw [same] at due
      exact waits _ _ later due

end Qsoe.Taskman
