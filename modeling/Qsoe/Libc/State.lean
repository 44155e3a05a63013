import Qsoe.Lib.Run
import Qsoe.Lib.Words
import Mathlib.Algebra.Group.Nat.Defs
import Mathlib.Data.List.FinRange
import Mathlib.Logic.Function.Basic

/-! The connection ids of a process: the slots of the descriptors and of the side channel, and the flags of the
descriptors, an array beside their slots. A lock is held over each of the functions. -/
namespace Qsoe.Libc

open Words (Word)

/-- A connection id, an `int`. -/
abbrev Coid := BitVec 32

def sideChannel : BitVec 32 := 0x40000000

def slotReserved : Word := BitVec.allOnes 64

def fdConnections : Nat := 256

def sideConnections : Nat := 16

structure Coids where
  fdSlot : Fin fdConnections → Word
  sideSlot : Fin sideConnections → Word
  fdFlags : Fin fdConnections → BitVec 32

def isSide (coid : Coid) : Bool := coid &&& sideChannel != 0

theorem index_lt {n : Nat} {i : BitVec 32} (inside : 0 ≤ i.toInt ∧ i.toInt < n) : i.toInt.toNat < n := by omega

/-- The entry of a table of `n` that an `int` stands for. -/
def index (n : Nat) (i : BitVec 32) : Option (Fin n) :=
  if inside : 0 ≤ i.toInt ∧ i.toInt < n then some ⟨i.toInt.toNat,index_lt inside⟩ else none

def fdIndex (coid : Coid) : Option (Fin fdConnections) := if isSide coid then none else index fdConnections coid

def sideIndex (coid : Coid) : Option (Fin sideConnections) :=
  if isSide coid then index sideConnections (coid &&& ~~~sideChannel) else none

/-- The first free entry from one on. -/
def firstFree (slots : Fin n → Word) (start : Nat) : Option (Fin n) :=
  (List.finRange n).find? fun i => start ≤ i.val ∧ slots i = 0

namespace Coids

def takeFd (s : Coids) (i : Fin fdConnections) : Coids :=
    { s with fdSlot := Function.update s.fdSlot i slotReserved }

def takeSide (s : Coids) (i : Fin sideConnections) : Coids :=
    { s with sideSlot := Function.update s.sideSlot i slotReserved }

/-- `qsoe_state_alloc_coid`. -/
def alloc (s : Coids) (flags : BitVec 32) : Coids × Option Coid :=
  if flags &&& sideChannel ≠ 0 then
    match firstFree s.sideSlot 0 with
    | none => (s,none)
    | some i => (s.takeSide i,some (sideChannel ||| BitVec.ofNat 32 i))
  else
    match firstFree s.fdSlot 1 with
    | none => (s,none)
    | some i => (s.takeFd i,some (BitVec.ofNat 32 i))

/-- `qsoe_state_bind_coid`. -/
def bind (s : Coids) (coid : Coid) (slot : Word) : Coids :=
  match fdIndex coid with
  | some i => { s with fdSlot := Function.update s.fdSlot i slot }
  | none =>
    match sideIndex coid with
    | some i => { s with sideSlot := Function.update s.sideSlot i slot }
    | none => s

/-- The entry of an id, free or reserved or bound. -/
def entry (s : Coids) (coid : Coid) : Word :=
  match fdIndex coid with
  | some i => s.fdSlot i
  | none =>
    match sideIndex coid with
    | some i => s.sideSlot i
    | none => 0

/-- `qsoe_state_coid_to_slot`. -/
def toSlot (s : Coids) (coid : Coid) : Word := if s.entry coid = slotReserved then 0 else s.entry coid

/-- `qsoe_state_get_coid_flags`. -/
def getFlags (s : Coids) (coid : Coid) : BitVec 32 :=
  match fdIndex coid with
  | some i => s.fdFlags i
  | none => 0

/-- `qsoe_state_set_coid_flags`. -/
def setFlags (s : Coids) (coid : Coid) (flags : BitVec 32) : Coids :=
  match fdIndex coid with
  | some i => { s with fdFlags := Function.update s.fdFlags i flags }
  | none => s

/-- `qsoe_state_alloc_coid_ge`. -/
def allocGe (s : Coids) (start : BitVec 32) : Coids × Option Coid :=
  let start := if start.toInt < 0 then 0 else start.toInt.toNat
  if fdConnections ≤ start then (s,none)
  else
    match firstFree s.fdSlot start with
    | none => (s,none)
    | some i => ({ s.takeFd i with fdFlags := Function.update s.fdFlags i 0 },some (BitVec.ofNat 32 i))

/-- Zeroed memory. -/
def init : Coids := ⟨fun _ => 0,fun _ => 0,fun _ => 0⟩

end Coids

/-- A bind to slot 0 closes, and one of a free id to another slot gives it out. -/
inductive CoidCall where
  | alloc (flags : BitVec 32)
  | allocGe (start : BitVec 32)
  | bind (coid : Coid) (slot : Word)
  | setFlags (coid : Coid) (flags : BitVec 32)
  deriving DecidableEq, Repr

/-- The tables; `fresh` is history: the ids that were given out and whose flags have not been set since. -/
structure Flagged where
  coids : Coids
  fresh : Coid → Bool

namespace Flagged

def give (s : Flagged) (out : Coids × Option Coid) : Flagged where
  coids := out.1
  fresh := fun coid => out.2 == some coid || s.fresh coid

def step (s : Flagged) : CoidCall → Option Flagged
  | .alloc flags => some (s.give (s.coids.alloc flags))
  | .allocGe start => some (s.give (s.coids.allocGe start))
  | .bind coid slot =>
    if slot ≠ 0 ∧ s.coids.entry coid = 0 then some (s.give (s.coids.bind coid slot,some coid))
    else some { s with coids := s.coids.bind coid slot }
  | .setFlags coid flags => some ⟨s.coids.setFlags coid flags,Function.update s.fresh coid false⟩

def init : Flagged := ⟨.init,fun _ => false⟩

/-- Whoever got an id reads no flags until some are set. -/
def Blank (s : Flagged) : Prop := ∀ coid, s.fresh coid = true → s.coids.getFlags coid = 0

/-- What is given out next has no flags. -/
def Clean (s : Flagged) : CoidCall → Prop
  | .alloc flags => flags &&& sideChannel = 0 → ∀ i, firstFree s.coids.fdSlot 1 = some i → s.coids.fdFlags i = 0
  | .bind coid slot => slot ≠ 0 → s.coids.entry coid = 0 → s.coids.getFlags coid = 0
  | _ => True

/-- Flags are cleared before a close, and only what is not free gets any. -/
def Careful (s : Flagged) : CoidCall → Prop
  | .bind coid slot => slot = 0 → s.coids.getFlags coid = 0
  | .setFlags coid flags => flags = 0 ∨ s.coids.entry coid ≠ 0
  | _ => True

end Flagged

/-- The id a call is about: what it gives out or what it names. -/
def CoidCall.about (s : Coids) : CoidCall → Option Coid
  | .alloc flags => (s.alloc flags).2
  | .allocGe start => (s.allocGe start).2
  | .bind coid _ => some coid
  | .setFlags coid _ => some coid

variable {coid other : Coid} {s t : Coids} {i : Fin fdConnections}

theorem index_ofNat (small : n ≤ 2 ^ 31) (i : Fin n) : index n (BitVec.ofNat 32 i) = some i := by
  have bound := i.isLt
  have value : (BitVec.ofNat 32 i.val).toInt = i.val := by
    rw [BitVec.toInt_eq_toNat_of_lt (by rw [BitVec.toNat_ofNat]; omega),BitVec.toNat_ofNat,Nat.mod_eq_of_lt (by omega)]
  rw [index,dif_pos (by omega)]
  congr 1
  apply Fin.ext
  dsimp only
  omega

theorem index_inj {i j : BitVec 32} {k : Fin n} (first : index n i = some k) (second : index n j = some k) :
    i = j := by
  unfold index at first second
  split at first
  · split at second
    · have same := Option.some.inj (first.trans second.symm)
      have value := congrArg Fin.val same
      dsimp only at value
      apply BitVec.eq_of_toInt_eq
      omega
    · cases second
  · cases first

theorem sideChannel_bit : sideChannel = BitVec.twoPow 32 30 := by decide

theorem isSide_eq (coid : Coid) : isSide coid = coid.getLsbD 30 := by
  rw [isSide,sideChannel_bit,BitVec.and_twoPow]
  cases coid.getLsbD 30 with
  | false => decide
  | true => decide

theorem bit_small (small : n < 2 ^ 30) : (BitVec.ofNat 32 n).getLsbD 30 = false := by
  rw [BitVec.getLsbD_ofNat,Nat.testBit_lt_two_pow small,Bool.and_false]

theorem fdIndex_ofNat (i : Fin fdConnections) : fdIndex (BitVec.ofNat 32 i) = some i := by
  have small : isSide (BitVec.ofNat 32 i) = false := by
    rw [isSide_eq]
    exact bit_small (Nat.lt_trans i.isLt (by decide))
  rw [fdIndex,small]
  exact index_ofNat (by decide) i

theorem fdIndex_inj (first : fdIndex coid = some i) (second : fdIndex other = some i) : coid = other := by
  unfold fdIndex at first second
  split at first
  · cases first
  · split at second
    · cases second
    · exact index_inj first second

theorem isSide_ofNat (i : Fin sideConnections) : isSide (sideChannel ||| BitVec.ofNat 32 i) = true := by
  rw [isSide_eq,sideChannel_bit,BitVec.getLsbD_or,BitVec.getLsbD_twoPow]
  rfl

theorem fdIndex_side (i : Fin sideConnections) : fdIndex (sideChannel ||| BitVec.ofNat 32 i) = none := by
  rw [fdIndex,isSide_ofNat]
  rfl

theorem sideIndex_ofNat (i : Fin sideConnections) : sideIndex (sideChannel ||| BitVec.ofNat 32 i) = some i := by
  have low : (sideChannel ||| BitVec.ofNat 32 i) &&& ~~~sideChannel = BitVec.ofNat 32 i := by
    apply BitVec.eq_of_getLsbD_eq
    intro k inside
    rw [sideChannel_bit,BitVec.getLsbD_and,BitVec.getLsbD_or,BitVec.getLsbD_not,BitVec.getLsbD_twoPow]
    by_cases same : k = 30
    · subst same
      rw [bit_small (Nat.lt_trans i.isLt (by decide))]
      rfl
    · have other : ¬(30 : Nat) = k := fun is => same is.symm
      simp [other,inside]
  rw [sideIndex,isSide_ofNat,low]
  exact index_ofNat (by decide) i

theorem side_or (side : isSide coid = true) : (coid &&& ~~~sideChannel) ||| sideChannel = coid := by
  rw [isSide_eq] at side
  apply BitVec.eq_of_getLsbD_eq
  intro k inside
  rw [sideChannel_bit,BitVec.getLsbD_or,BitVec.getLsbD_and,BitVec.getLsbD_not,BitVec.getLsbD_twoPow]
  by_cases same : k = 30
  · subst same
    simp [side]
  · have other : ¬(30 : Nat) = k := fun is => same is.symm
    simp [other,inside]

theorem sideIndex_inj {i : Fin sideConnections} (first : sideIndex coid = some i)
    (second : sideIndex other = some i) :
    coid = other := by
  unfold sideIndex at first second
  split at first
  · split at second
    · rename_i one two
      rw [← side_or one,← side_or two,index_inj first second]
    · cases second
  · cases first

theorem bind_other (s : Coids) (slot : Word) (apart : other ≠ coid) :
    (s.bind coid slot).entry other = s.entry other := by
  unfold Coids.bind Coids.entry
  cases fd : fdIndex coid with
  | some i =>
    cases there : fdIndex other with
    | some j =>
      have different : j ≠ i := by
        rintro rfl
        exact apart (fdIndex_inj there fd)
      exact Function.update_of_ne different ..
    | none => rfl
  | none =>
    cases side : sideIndex coid with
    | none => rfl
    | some i =>
      cases there : fdIndex other with
      | some j => rfl
      | none =>
        cases beside : sideIndex other with
        | none => rfl
        | some j =>
          have different : j ≠ i := by
            rintro rfl
            exact apart (sideIndex_inj beside side)
          exact Function.update_of_ne different ..

theorem takeFd_eq (s : Coids) (i : Fin fdConnections) : s.takeFd i = s.bind (BitVec.ofNat 32 i) slotReserved := by
  rw [Coids.bind,fdIndex_ofNat]
  rfl

theorem takeSide_eq (s : Coids) (i : Fin sideConnections) :
    s.takeSide i = s.bind (sideChannel ||| BitVec.ofNat 32 i) slotReserved := by
  rw [Coids.bind,fdIndex_side,sideIndex_ofNat]
  rfl

@[simp] theorem bind_fdFlags (s : Coids) (coid : Coid) (slot : Word) : (s.bind coid slot).fdFlags = s.fdFlags := by
  unfold Coids.bind
  split
  · rfl
  · split
    · rfl
    · rfl

@[simp] theorem bind_getFlags (s : Coids) (coid other : Coid) (slot : Word) :
    (s.bind coid slot).getFlags other = s.getFlags other := by
  rw [Coids.getFlags,bind_fdFlags,Coids.getFlags]

@[simp] theorem setFlags_entry (s : Coids) (coid other : Coid) (flags : BitVec 32) :
    (s.setFlags coid flags).entry other = s.entry other := by
  unfold Coids.setFlags
  split
  · rfl
  · rfl

theorem setFlags_other (s : Coids) (flags : BitVec 32) (apart : other ≠ coid) :
    (s.setFlags coid flags).getFlags other = s.getFlags other := by
  unfold Coids.setFlags
  cases fd : fdIndex coid with
  | none => rfl
  | some i =>
    unfold Coids.getFlags
    cases there : fdIndex other with
    | none => rfl
    | some j =>
      have different : j ≠ i := by
        rintro rfl
        exact apart (fdIndex_inj there fd)
      exact Function.update_of_ne different ..

/-- What `alloc` does is a bind of the id that it gives out, free before. -/
theorem alloc_cases (s : Coids) (flags : BitVec 32) :
    (s.alloc flags = (s,none) ∧ (flags &&& sideChannel = 0 → firstFree s.fdSlot 1 = none)) ∨
      (∃ i, flags &&& sideChannel = 0 ∧ firstFree s.fdSlot 1 = some i ∧
        s.alloc flags = (s.bind (BitVec.ofNat 32 i) slotReserved,some (BitVec.ofNat 32 i))) ∨
      ∃ i : Fin sideConnections, flags &&& sideChannel ≠ 0 ∧
        s.alloc flags = (s.bind (sideChannel ||| BitVec.ofNat 32 i) slotReserved,
          some (sideChannel ||| BitVec.ofNat 32 i)) := by
  unfold Coids.alloc
  by_cases side : flags &&& sideChannel = 0
  · rw [if_neg (not_not_intro side)]
    cases free : firstFree s.fdSlot 1 with
    | none => exact .inl ⟨rfl,fun _ => rfl⟩
    | some i => exact .inr (.inl ⟨i,side,rfl,by rw [← takeFd_eq]⟩)
  · rw [if_pos side]
    cases free : firstFree s.sideSlot 0 with
    | none => exact .inl ⟨rfl,fun plain => absurd plain side⟩
    | some i => exact .inr (.inr ⟨i,side,by rw [← takeSide_eq]⟩)

/-- `alloc_ge` clears the flags of what it takes. -/
theorem allocGe_cases (s : Coids) (start : BitVec 32) :
    s.allocGe start = (s,none) ∨
      ∃ i : Fin fdConnections, s.fdSlot i = 0 ∧
        s.allocGe start = ((s.bind (BitVec.ofNat 32 i) slotReserved).setFlags (BitVec.ofNat 32 i) 0,
          some (BitVec.ofNat 32 i)) := by
  unfold Coids.allocGe
  dsimp only
  generalize (if start.toInt < 0 then 0 else start.toInt.toNat) = first
  split
  · exact .inl rfl
  · cases free : firstFree s.fdSlot first with
    | none => exact .inl rfl
    | some i =>
      have passed := List.find?_some free
      refine .inr ⟨i,(of_decide_eq_true passed).2,?_⟩
      rw [Coids.setFlags,fdIndex_ofNat,← takeFd_eq]
      rfl

variable {f g : Flagged} {e : CoidCall}

theorem getFlags_none (s : Coids) (nothing : fdIndex coid = none) : s.getFlags coid = 0 := by
  rw [Coids.getFlags,nothing]

theorem getFlags_ofNat (s : Coids) (i : Fin fdConnections) : s.getFlags (BitVec.ofNat 32 i) = s.fdFlags i := by
  rw [Coids.getFlags,fdIndex_ofNat]

theorem entry_ofNat (s : Coids) (i : Fin fdConnections) : s.entry (BitVec.ofNat 32 i) = s.fdSlot i := by
  rw [Coids.entry,fdIndex_ofNat]

theorem setFlags_zero (s : Coids) (coid : Coid) : (s.setFlags coid 0).getFlags coid = 0 := by
  cases fd : fdIndex coid with
  | none => exact getFlags_none _ fd
  | some i =>
    rw [Coids.setFlags,Coids.getFlags,fd]
    exact Function.update_self ..

theorem bind_fd (s : Coids) (slot : Word) (fd : fdIndex coid = some i) : (s.bind coid slot).entry coid = slot := by
  rw [Coids.bind,fd,Coids.entry,fd]
  exact Function.update_self ..

theorem firstFree_slot {slots : Fin n → Word} {i : Fin n} (free : firstFree slots start = some i) :
    slots i = 0 := by
  have passed := List.find?_some free
  exact (of_decide_eq_true passed).2

theorem give_blank {t : Coids} (blank : f.Blank) (same : ∀ other, other ≠ coid → t.getFlags other =
    f.coids.getFlags other) :
    (f.give (t,some coid)).Blank ↔ t.getFlags coid = 0 := by
  constructor
  · intro after
    refine after coid ?_
    show (some coid == some coid || f.fresh coid) = true
    rw [beq_self_eq_true,Bool.true_or]
  · intro zero other fresh
    show t.getFlags other = 0
    rcases eq_or_ne other coid with rfl | apart
    · exact zero
    · rw [same other apart]
      rcases Bool.or_eq_true_iff.mp fresh with given | before
      · exact absurd (Option.some.inj (beq_iff_eq.mp given)).symm apart
      · exact blank other before

theorem give_none (blank : f.Blank) : (f.give (f.coids,none)).Blank := by
  intro coid fresh
  have either : (none == some coid || f.fresh coid) = true := fresh
  rcases Bool.or_eq_true_iff.mp either with given | before
  · exact absurd (beq_iff_eq.mp given).symm (Option.some_ne_none coid)
  · exact blank coid before

theorem step_bind (taken : f.step (.bind coid slot) = some g) :
    (slot ≠ 0 ∧ f.coids.entry coid = 0 ∧ g = f.give (f.coids.bind coid slot,some coid)) ∨
      (¬ (slot ≠ 0 ∧ f.coids.entry coid = 0) ∧ g = { f with coids := f.coids.bind coid slot }) := by
  have body : (if slot ≠ 0 ∧ f.coids.entry coid = 0 then some (f.give (f.coids.bind coid slot,some coid))
    else some { f with coids := f.coids.bind coid slot }) = some g := taken
  by_cases gives : slot ≠ 0 ∧ f.coids.entry coid = 0
  · rw [if_pos gives] at body
    exact .inl ⟨gives.1,gives.2,(Option.some.inj body).symm⟩
  · rw [if_neg gives] at body
    exact .inr ⟨gives,(Option.some.inj body).symm⟩

theorem bind_coids (taken : f.step (.bind coid slot) = some g) : g.coids = f.coids.bind coid slot := by
  rcases step_bind taken with ⟨-,-,rfl⟩ | ⟨-,rfl⟩
  · rfl
  · rfl

/-- Ids go on reading no flags exactly where `alloc` takes, or a bind is given, a free descriptor that has none. -/
theorem step_blank (blank : f.Blank) (taken : f.step e = some g) : g.Blank ↔ f.Clean e := by
  cases e with
  | alloc flags =>
    obtain rfl := Option.some.inj taken
    rcases alloc_cases f.coids flags with ⟨full,nothing⟩ | ⟨i,plain,free,out⟩ | ⟨i,side,out⟩
    · rw [full]
      refine ⟨fun _ plain i free => ?_,fun _ => give_none blank⟩
      cases (nothing plain).symm.trans free
    · rw [out,give_blank blank fun other _ => bind_getFlags ..,bind_getFlags,getFlags_ofNat]
      constructor
      · intro zero _ j first
        obtain rfl := Option.some.inj (free.symm.trans first)
        exact zero
      · exact fun clean => clean plain i free
    · rw [out,give_blank blank fun other _ => bind_getFlags ..]
      exact ⟨fun _ plain => absurd plain side,fun _ => getFlags_none _ (fdIndex_side i)⟩
  | allocGe start =>
    obtain rfl := Option.some.inj taken
    refine ⟨fun _ => trivial,fun _ => ?_⟩
    rcases allocGe_cases f.coids start with full | ⟨i,-,out⟩
    · rw [full]
      exact give_none blank
    · rw [out,give_blank blank fun other apart => by rw [setFlags_other _ _ apart,bind_getFlags]]
      exact setFlags_zero ..
  | bind coid slot =>
    rcases step_bind taken with ⟨bound,free,rfl⟩ | ⟨moves,rfl⟩
    · rw [give_blank blank fun other _ => bind_getFlags ..,bind_getFlags]
      exact ⟨fun zero _ _ => zero,fun clean => clean bound free⟩
    · refine ⟨fun _ bound free => absurd ⟨bound,free⟩ moves,fun _ other fresh => ?_⟩
      exact (bind_getFlags ..).trans (blank other fresh)
  | setFlags coid flags =>
    obtain rfl := Option.some.inj taken
    refine ⟨fun _ => trivial,fun _ other fresh => ?_⟩
    dsimp only at fresh ⊢
    rcases eq_or_ne other coid with rfl | apart
    · rw [Function.update_self] at fresh
      cases fresh
    · rw [Function.update_of_ne apart] at fresh
      rw [setFlags_other _ _ apart]
      exact blank other fresh

/-- What is free has no flags. -/
def Coids.Tidy (s : Coids) : Prop := ∀ coid, s.entry coid = 0 → s.getFlags coid = 0

theorem Coids.Tidy.reserve (tidy : s.Tidy) (slot : Word) (closed : slot = 0 → s.getFlags coid = 0) :
    (s.bind coid slot).Tidy := by
  intro other free
  rw [bind_getFlags]
  rcases eq_or_ne other coid with rfl | apart
  · cases fd : fdIndex other with
    | none => exact getFlags_none s fd
    | some i =>
      rw [bind_fd s slot fd] at free
      exact closed free
  · rw [bind_other s slot apart] at free
    exact tidy other free

theorem reserved_ne : slotReserved ≠ 0 := by decide

theorem Coids.Tidy.reserved (tidy : s.Tidy) (coid : Coid) : (s.bind coid slotReserved).Tidy :=
  tidy.reserve slotReserved fun zero => absurd zero reserved_ne

theorem Coids.Tidy.setFlags (tidy : s.Tidy) (flags : BitVec 32) (taken : flags = 0 ∨ s.entry coid ≠ 0) :
    (s.setFlags coid flags).Tidy := by
  intro other free
  rw [setFlags_entry] at free
  rcases eq_or_ne other coid with rfl | apart
  · rcases taken with rfl | used
    · exact setFlags_zero s other
    · exact absurd free used
  · rw [setFlags_other s flags apart]
    exact tidy other free

theorem step_tidy (tidy : f.coids.Tidy) (careful : f.Careful e) (taken : f.step e = some g) : g.coids.Tidy := by
  cases e with
  | alloc flags =>
    obtain rfl := Option.some.inj taken
    show (f.coids.alloc flags).1.Tidy
    rcases alloc_cases f.coids flags with ⟨full,-⟩ | ⟨i,-,-,out⟩ | ⟨i,-,out⟩
    · rw [full]
      exact tidy
    · rw [out]
      exact tidy.reserved _
    · rw [out]
      exact tidy.reserved _
  | allocGe start =>
    obtain rfl := Option.some.inj taken
    show (f.coids.allocGe start).1.Tidy
    rcases allocGe_cases f.coids start with full | ⟨i,-,out⟩
    · rw [full]
      exact tidy
    · rw [out]
      exact (tidy.reserved _).setFlags 0 (.inl rfl)
  | bind coid slot =>
    rw [bind_coids taken]
    exact tidy.reserve slot careful
  | setFlags coid flags =>
    obtain rfl := Option.some.inj taken
    exact tidy.setFlags flags careful

theorem Coids.Tidy.clean (tidy : f.coids.Tidy) (e : CoidCall) : f.Clean e := by
  cases e with
  | alloc flags =>
    intro _ i free
    rw [← getFlags_ofNat]
    refine tidy _ ?_
    rw [entry_ofNat]
    exact firstFree_slot free
  | bind coid slot => exact fun _ free => tidy coid free
  | allocGe | setFlags => trivial

theorem step_frame (taken : f.step e = some g) (apart : e.about f.coids ≠ some coid) :
    g.coids.entry coid = f.coids.entry coid ∧ g.coids.getFlags coid = f.coids.getFlags coid := by
  cases e with
  | alloc flags =>
    obtain rfl := Option.some.inj taken
    dsimp only [CoidCall.about] at apart
    show (f.coids.alloc flags).1.entry coid = _ ∧ (f.coids.alloc flags).1.getFlags coid = _
    rcases alloc_cases f.coids flags with ⟨full,-⟩ | ⟨i,-,-,out⟩ | ⟨i,-,out⟩
    · rw [full]
      exact ⟨rfl,rfl⟩
    · rw [out] at apart ⊢
      exact ⟨bind_other _ _ fun same => apart (same ▸ rfl),bind_getFlags ..⟩
    · rw [out] at apart ⊢
      exact ⟨bind_other _ _ fun same => apart (same ▸ rfl),bind_getFlags ..⟩
  | allocGe start =>
    obtain rfl := Option.some.inj taken
    dsimp only [CoidCall.about] at apart
    show (f.coids.allocGe start).1.entry coid = _ ∧ (f.coids.allocGe start).1.getFlags coid = _
    rcases allocGe_cases f.coids start with full | ⟨i,-,out⟩
    · rw [full]
      exact ⟨rfl,rfl⟩
    · rw [out] at apart ⊢
      have other : coid ≠ BitVec.ofNat 32 i := fun same => apart (same ▸ rfl)
      rw [setFlags_entry,setFlags_other _ _ other,bind_getFlags]
      exact ⟨bind_other _ _ other,rfl⟩
  | bind id slot =>
    rw [bind_coids taken]
    exact ⟨bind_other _ _ fun same => apart (same ▸ rfl),bind_getFlags ..⟩
  | setFlags id flags =>
    obtain rfl := Option.some.inj taken
    exact ⟨setFlags_entry ..,setFlags_other _ _ fun same => apart (same ▸ rfl)⟩

theorem init_tidy : Coids.init.Tidy := by
  intro coid _
  unfold Coids.getFlags
  split
  · rfl
  · rfl

theorem init_blank : Flagged.init.Blank := fun _ fresh => absurd fresh Bool.false_ne_true

/-- Ids are fresh in every run in which nothing that is given out has flags, as in every run that clears the flags
before it closes and sets them only on what is taken; one step keeps them so exactly where what `alloc` or a bind
gives out has no flags; and no call touches another id. -/
theorem fresh_flags (s : Flagged) (e : CoidCall) :
    (∀ es, Lts.Run Flagged.step Flagged.Clean .init es s → s.Blank) ∧
      (∀ es, Lts.Run Flagged.step Flagged.Careful .init es s → s.Blank) ∧
      ∀ t, Flagged.step s e = some t → (s.Blank → (t.Blank ↔ s.Clean e)) ∧
        ∀ coid, e.about s.coids ≠ some coid →
          t.coids.entry coid = s.coids.entry coid ∧ t.coids.getFlags coid = s.coids.getFlags coid := by
  refine ⟨fun es run => ?_,fun es run => ?_,fun t taken => ⟨fun blank => step_blank blank taken,fun coid apart =>
    step_frame taken apart⟩⟩
  · exact run.invariant Flagged.Blank (fun _ _ _ blank clean taken => (step_blank blank taken).mpr clean) init_blank
  · have both := run.invariant (fun s => s.coids.Tidy ∧ s.Blank) (fun s e t kept careful taken =>
      ⟨step_tidy kept.1 careful taken,(step_blank kept.2 taken).mpr (kept.1.clean e)⟩) ⟨init_tidy,init_blank⟩
    exact both.2

/-- Descriptor 1 is opened, gets `FD_CLOEXEC`, is closed, and has it when it is opened again. -/
theorem stale_flags : ∃ s, Lts.Run Flagged.step (fun _ _ => True) .init
    [.alloc 0,.bind 1 0x800,.setFlags 1 1,.bind 1 0,.alloc 0] s ∧
    s.fresh 1 = true ∧ s.coids.getFlags 1 = 1 := by
  refine ⟨_,.cons trivial rfl (.cons trivial rfl
    (.cons trivial rfl (.cons trivial rfl (.cons trivial rfl .nil)))),?_⟩
  decide +kernel

end Qsoe.Libc
