import Qsoe.Spawn.Loader
import Qsoe.Spawn.Scratch

/-! The writes of the relocation pass. Each one maps the recorded frame of the page its first byte is in, and no
other, so it puts the eight bytes where the child is to find them exactly where they lie in one page. -/
namespace Qsoe.Spawn

open Qsoe.Path (Byte)
open Words (bytesOf)

/-- `TM_SCRATCH_VADDR` -/
def scratchVaddr : Word := 0x40000000

/-- How a write ends: -1 without one, 0 with the memory it leaves, or taskman faults. -/
inductive Wrote where
  | refused
  | written (mem : Frames)
  | faulted

/-- `reloc_write_cb` -/
def relocWriteCb (frames : List (Word × Nat)) (k : WindowKernel) (m : Frames) (vaddr value : Word) : Wrote :=
  match findFrame frames vaddr with
  | none => .refused
  | some frame =>
    if frame = 0 then .refused
    else if k.scratchPt = false then .refused
    else if k.copied = false then .refused
    else if k.mapped = false then .refused
    else
      match storeBytes [⟨scratchVaddr,0x1000,frame⟩] m (scratchVaddr + (vaddr &&& pageMask)) (bytesOf value) with
      | none => .faulted
      | some mem => .written mem

/-- The byte of the child is in a page that has been recorded. -/
def Recorded (frames : List (Word × Nat)) (x : Word) : Prop := ∃ f, findFrame frames x = some f ∧ f ≠ 0

/-- The child finds the eight bytes of `value` at `vaddr`, and everything else as it was. -/
structure Relocated (frames : List (Word × Nat)) (m : Frames) (vaddr value : Word) (m' : Frames) : Prop where
  bytes : ∀ i < 8, ∀ f, findFrame frames (vaddr + BitVec.ofNat 64 i) = some f →
    (bytesOf value)[i]? = some (m' f ((vaddr + BitVec.ofNat 64 i) &&& pageMask))
  others : ∀ f o, (∀ i < 8, ¬(findFrame frames (vaddr + BitVec.ofNat 64 i) = some f ∧
    (vaddr + BitVec.ofNat 64 i) &&& pageMask = o)) →
    m' f o = m f o

/-- What a write has to do: all of it where every byte is recorded and the kernel is willing, and else nothing. -/
structure Relocates (frames : List (Word × Nat)) (k : WindowKernel) (m : Frames) (vaddr value : Word)
    (out : Wrote) : Prop where
  complete : k.Willing → (∀ i < 8, Recorded frames (vaddr + BitVec.ofNat 64 i)) →
    ∃ m', out = .written m' ∧ Relocated frames m vaddr value m'
  refused : ¬(k.Willing ∧ ∀ i < 8, Recorded frames (vaddr + BitVec.ofNat 64 i)) → out = .refused

variable {frames : List (Word × Nat)} {k : WindowKernel} {m m' : Frames} {vaddr value x : Word} {i f : Nat}

theorem low_toNat (a : Word) : (a &&& pageMask).toNat = a.toNat % 4096 :=
  Align.toNat_and_mask a pageMask pageMask_toNat

theorem findFrame_congr (same : pageDown x = pageDown vaddr) : findFrame frames x = findFrame frames vaddr := by
  rw [findFrame,findFrame,same]

theorem beside (fits : vaddr.toNat % 4096 + i < 4096) : pageDown (vaddr + BitVec.ofNat 64 i) = pageDown vaddr ∧
    (vaddr + BitVec.ofNat 64 i) &&& pageMask = (vaddr &&& pageMask) + BitVec.ofNat 64 i :=
  Align.block_add vaddr pageMask pageMask_toNat (by decide) fits

theorem written_of_fits (willing : k.Willing) (found : findFrame frames vaddr = some f) (nonzero : f ≠ 0)
    (fits : vaddr.toNat % 4096 + 8 ≤ 4096) :
    relocWriteCb frames k m vaddr value = .written (Memory.store m f (vaddr &&& pageMask) (bytesOf value)) := by
  obtain ⟨scratchPt,copied,mapped⟩ := willing
  have stored := storeBytes_inside [] ⟨scratchVaddr,0x1000,f⟩ m (o := vaddr &&& pageMask) (bytesOf value)
    (by rw [low_toNat,Words.length_bytesOf]; exact fits)
  rw [relocWriteCb,found]
  dsimp only
  rw [if_neg nonzero,if_neg (by rw [scratchPt]; exact Bool.noConfusion),if_neg (by rw [copied]; exact Bool.noConfusion),
    if_neg (by rw [mapped]; exact Bool.noConfusion),stored]

theorem faulted_of_not_fits (m : Frames) (value : Word) (willing : k.Willing)
    (found : findFrame frames vaddr = some f) (nonzero : f ≠ 0)
    (out : ¬vaddr.toNat % 4096 + 8 ≤ 4096) : relocWriteCb frames k m vaddr value = .faulted := by
  obtain ⟨scratchPt,copied,mapped⟩ := willing
  have size : (0x1000 : Word).toNat = 4096 := rfl
  have stored := storeBytes_outside ⟨scratchVaddr,0x1000,f⟩ m (o := vaddr &&& pageMask) (bytesOf value)
    (by rw [low_toNat,size]; omega) (by rw [low_toNat,size,Words.length_bytesOf]; omega)
    (by rw [low_toNat,Words.length_bytesOf]; omega)
  rw [relocWriteCb,found]
  dsimp only
  rw [if_neg nonzero,if_neg (by rw [scratchPt]; exact Bool.noConfusion),if_neg (by rw [copied]; exact Bool.noConfusion),
    if_neg (by rw [mapped]; exact Bool.noConfusion),stored]

theorem relocated_of_fits (value : Word) (found : findFrame frames vaddr = some f)
    (fits : vaddr.toNat % 4096 + 8 ≤ 4096) :
    Relocated frames m vaddr value (Memory.store m f (vaddr &&& pageMask) (bytesOf value)) := by
  have there : ∀ i < 8, findFrame frames (vaddr + BitVec.ofNat 64 i) = some f := fun i below =>
    (findFrame_congr (beside (by omega)).1).trans found
  constructor
  · intro i below g page
    obtain rfl := Option.some.inj ((there i below).symm.trans page)
    have index := Memory.offset_toNat (vaddr &&& pageMask) (show i < 2 ^ 64 by omega)
    rw [(beside (by omega)).2,Memory.store,if_pos rfl,index,
      List.getElem?_eq_getElem (by rw [Words.length_bytesOf]; exact below),
      Option.getD_some]
  · intro g o outside
    refine Memory.store_outside m fun same i below => ?_
    intro hit
    refine outside i below ⟨?_,?_⟩
    · rw [there i below,same]
    · rw [(beside (by rw [Words.length_bytesOf] at below; omega)).2]
      exact hit

theorem refused_of_not_willing (refuses : ¬k.Willing) : relocWriteCb frames k m vaddr value = .refused := by
  unfold relocWriteCb
  split
  · rfl
  · split
    · rfl
    · split
      · rfl
      · split
        · rfl
        · split
          · rfl
          · rename_i scratchPt copied mapped
            exact absurd ⟨Bool.of_not_eq_false scratchPt,Bool.of_not_eq_false copied,
              Bool.of_not_eq_false mapped⟩ refuses

theorem refused_of_not_recorded (missing : ¬Recorded frames vaddr) :
    relocWriteCb frames k m vaddr value = .refused := by
  unfold relocWriteCb
  split
  · rfl
  · rename_i f found
    split
    · rfl
    · rename_i nonzero
      exact absurd ⟨f,found,nonzero⟩ missing

/-- The write does what it has to exactly where the kernel refuses it, the first byte's page has not
been recorded, or all eight bytes are in that page. -/
theorem reloc_write_iff (frames : List (Word × Nat)) (k : WindowKernel) (m : Frames) (vaddr value : Word) :
    Relocates frames k m vaddr value (relocWriteCb frames k m vaddr value) ↔
      (k.Willing → Recorded frames vaddr → vaddr.toNat % 4096 + 8 ≤ 4096) := by
  have first : vaddr + BitVec.ofNat 64 0 = vaddr := BitVec.add_zero vaddr
  constructor
  · rintro does willing ⟨f,found,nonzero⟩
    by_contra out
    have faults := faulted_of_not_fits m value willing found nonzero out
    by_cases all : ∀ i < 8, Recorded frames (vaddr + BitVec.ofNat 64 i)
    · obtain ⟨m',written,-⟩ := does.complete willing all
      cases faults.symm.trans written
    · cases faults.symm.trans (does.refused fun both => all both.2)
  · intro fits
    by_cases willing : k.Willing
    · by_cases recorded : Recorded frames vaddr
      · obtain ⟨f,found,nonzero⟩ := recorded
        have inside := fits willing ⟨f,found,nonzero⟩
        refine ⟨fun _ _ => ⟨_,written_of_fits willing found nonzero inside,relocated_of_fits value found inside⟩,
          fun missing => ?_⟩
        refine absurd ⟨willing,fun i below => ⟨f,?_,nonzero⟩⟩ missing
        exact (findFrame_congr (beside (by omega)).1).trans found
      · refine ⟨fun _ all => absurd ?_ recorded,fun _ => refused_of_not_recorded recorded⟩
        have here := all 0 (by omega)
        rw [first] at here
        exact here
    · exact ⟨fun granted => absurd granted willing,fun _ => refused_of_not_willing willing⟩

/-- Two pages next to each other, and a target on their border. -/
theorem reloc_straddles : ∃ (frames : List (Word × Nat)) (k : WindowKernel) (m : Frames) (vaddr value : Word),
    k.Willing ∧ (∀ i < 8, Recorded frames (vaddr + BitVec.ofNat 64 i)) ∧
      relocWriteCb frames k m vaddr value = .faulted ∧ ¬Relocates frames k m vaddr value
        (relocWriteCb frames k m vaddr value) := by
  have willing : (⟨true,true,true⟩ : WindowKernel).Willing := ⟨rfl,rfl,rfl⟩
  have found : findFrame [(0x10000,5),(0x11000,6)] 0x10FFC = some 5 := by decide
  have all : ∀ i < 8, Recorded [(0x10000,5),(0x11000,6)] (0x10FFC + BitVec.ofNat 64 i) := by
    have each : ∀ i < 8, findFrame [(0x10000,5),(0x11000,6)] (0x10FFC + BitVec.ofNat 64 i) =
      some (if i < 4 then 5 else 6) := by decide
    intro i below
    refine ⟨_,each i below,?_⟩
    split <;> decide
  have faults : relocWriteCb [(0x10000,5),(0x11000,6)] ⟨true,true,true⟩ (fun _ _ => 0) 0x10FFC 1 = .faulted :=
    faulted_of_not_fits _ _ willing found (by decide) (by decide)
  refine ⟨_,_,fun _ _ => 0,0x10FFC,1,willing,all,faults,fun does => ?_⟩
  obtain ⟨m',written,-⟩ := does.complete willing all
  cases faults.symm.trans written

def relocPass (frames : List (Word × Nat)) (k : Nat → WindowKernel) : Nat → Frames → List (Word × Word) → Wrote
  | _, m, [] => .written m
  | i, m, (vaddr,value) :: rest =>
    match relocWriteCb frames (k i) m vaddr value with
    | .written m' => relocPass frames k (i + 1) m' rest
    | stopped => stopped

theorem written_of_relocWriteCb (written : relocWriteCb frames k m vaddr value = .written m') :
    Relocated frames m vaddr value m' := by
  by_cases willing : k.Willing
  · by_cases recorded : Recorded frames vaddr
    · obtain ⟨f,found,nonempty⟩ := recorded
      by_cases fits : vaddr.toNat % 4096 + 8 ≤ 4096
      · rw [written_of_fits willing found nonempty fits] at written
        obtain rfl := Wrote.written.inj written
        exact relocated_of_fits value found fits
      · cases (faulted_of_not_fits m value willing found nonempty fits).symm.trans written
    · cases (refused_of_not_recorded recorded).symm.trans written
  · cases (refused_of_not_willing willing).symm.trans written

theorem relocPass_frame {k : Nat → WindowKernel} {rs : List (Word × Word)} {n : Nat}
    (done : relocPass frames k n m rs = .written m') {f : Nat} {o : Word}
    (outside : ∀ r ∈ rs, ∀ i < 8, ¬(findFrame frames (r.1 + BitVec.ofNat 64 i) = some f ∧
      (r.1 + BitVec.ofNat 64 i) &&& pageMask = o)) :
    m' f o = m f o := by
  induction rs generalizing m n with
  | nil =>
    obtain rfl := Wrote.written.inj done
    rfl
  | cons r rs ih =>
    rw [relocPass] at done
    split at done
    · rename_i next written
      rw [ih done fun s member => outside s (List.mem_cons_of_mem _ member)]
      exact (written_of_relocWriteCb written).others f o (outside r List.mem_cons_self)
    · rename_i stopped
      exact absurd done (stopped _)

end Qsoe.Spawn
