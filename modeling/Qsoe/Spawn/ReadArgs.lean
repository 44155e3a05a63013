import Qsoe.Lib.Align
import Qsoe.Lib.Traced
import Qsoe.Spawn.Scratch

/-! The megapages of a process in taskman's scratch windows. `tm_spawn_read_args` reads the caller's
arguments through one window, from an offset that the caller chooses, with a length that is bounded on
its own. -/
namespace Qsoe.Spawn

open Qsoe.Path (Byte)

/-- `QSOE_MEGA_PAGE` and `TM_SCRATCH_MEGA_VADDR`. -/
def megaPage : Word := 0x200000
def scratchMega : Word := 0x40200000

/-- The bytes of the megapage frames. -/
abbrev Cells := Nat × Word → Byte

/-- The megapages of a process with their frames, `mmap[0 .. mmap_count)`. -/
abbrev Tracker := List (Word × Nat)

/-- `tm_process_find_frame`, where 0 is none. -/
def processFindFrame (t : Tracker) (va : Word) : Nat :=
  ((t.find? fun e => e.1 = va &&& ~~~(megaPage - 1)).map Prod.snd).getD 0

/-- Where a byte of the process is. -/
def Tracker.place (t : Tracker) (va : Word) : Nat × Word := (processFindFrame t va,va &&& (megaPage - 1))

inductive Stop where
  | einval | e2big | enomem | efault
  | fault
  deriving DecidableEq, Repr

/-- `qmemcpy` out of the windows, up to an address that is not mapped. -/
def readBytes (ws : List Window) (m : Cells) : Nat → Word → Traced Word (Option (List Byte))
  | 0, _ => pure (some [])
  | n + 1, x =>
    match translate ws x with
    | none => ⟨none,[x]⟩
    | some place => ⟨(readBytes ws m n (x + 1)).value.map (m place :: ·),x :: (readBytes ws m n (x + 1)).reads⟩

/-- `tm_spawn_read_args`; `outBuf` is false for a null pointer. -/
def spawnReadArgs (k : WindowKernel) (proc : Option Tracker) (argsVa : Word) (len : BitVec 32) (outBuf : Bool)
    (m : Cells) :
    Traced Word (Except Stop (List Byte)) :=
  match proc with
  | none => pure (.error .einval)
  | some t =>
    if outBuf = false then pure (.error .einval)
    else if len = 0 ∨ 0x1000 < len then pure (.error .einval)
    else if processFindFrame t argsVa = 0 then pure (.error .einval)
    else if k.scratchPt = false then pure (.error .enomem)
    else if k.copied = false then pure (.error .enomem)
    else if k.mapped = false then pure (.error .enomem)
    else
      let copied := readBytes [⟨scratchMega,megaPage,processFindFrame t argsVa⟩] m len.toNat
        (scratchMega + (argsVa &&& (megaPage - 1)))
      ⟨copied.value.elim (.error .fault) .ok,copied.reads⟩

/-- What `tm_spawn_read_args` accepts. -/
structure Accepts (k : WindowKernel) (t : Tracker) (argsVa : Word) (len : BitVec 32) : Prop where
  nonempty : len ≠ 0
  short : len ≤ 0x1000
  tracked : processFindFrame t argsVa ≠ 0
  willing : k.Willing

/-- Either the bytes come out of the one window and are the caller's, or there is an error and nothing
has been read. -/
structure ReadsBack (proc : Option Tracker) (argsVa : Word) (len : BitVec 32) (m : Cells)
    (out : Traced Word (Except Stop (List Byte))) :
    Prop where
  within : ∀ bs, out.value = .ok bs → out.Within fun x => x - scratchMega < megaPage
  caller : ∀ bs, out.value = .ok bs →
    ∃ t, proc = some t ∧ bs = (List.range len.toNat).map fun i => m (t.place (argsVa + BitVec.ofNat 64 i))
  error : ∀ e, out.value = .error e → e ≠ .fault ∧ out.reads = []

variable {w : Window} {k : WindowKernel} {t : Tracker} {m : Cells} {argsVa o : Word} {len : BitVec 32}
  {n i : Nat} {proc : Option Tracker} {outBuf : Bool}

theorem mega_toNat : (megaPage - 1).toNat = 2 ^ 21 - 1 := by decide

theorem mega_low (a : Word) : (a &&& (megaPage - 1)).toNat = a.toNat % 2 ^ 21 :=
  Align.toNat_and_mask a (megaPage - 1) mega_toNat

/-- The bytes up to the end of a megapage are in one frame. -/
theorem Tracker.place_add (t : Tracker) (va : Word) (inside : va.toNat % 2 ^ 21 + i < 2 ^ 21) :
    t.place (va + BitVec.ofNat 64 i) = (processFindFrame t va,(va &&& (megaPage - 1)) + BitVec.ofNat 64 i) := by
  obtain ⟨page,low⟩ := Align.block_add va (megaPage - 1) mega_toNat (by decide) inside
  rw [Tracker.place,low,processFindFrame,processFindFrame,page]

theorem readBytes_inside (ws : List Window) (w : Window) (fits : o.toNat + n ≤ w.size.toNat) :
    readBytes (w :: ws) m n (w.va + o) =
    ⟨some ((List.range n).map fun i => m (w.frame,o + BitVec.ofNat 64 i)),(List.range n).map fun i =>
      w.va + o + BitVec.ofNat 64 i⟩ := by
  induction n generalizing o with
  | zero => rfl
  | succ n ih =>
    have bound := w.size.isLt
    have next : (o + 1).toNat = o.toNat + 1 := by
      have one : (1 : Word).toNat = 1 := rfl
      rw [BitVec.toNat_add,one,Nat.mod_eq_of_lt (by omega)]
    have shift (a : Word) (i : Nat) : a + 1 + BitVec.ofNat 64 i = a + BitVec.ofNat 64 (i + 1) := by
      rw [Nat.add_comm,BitVec.ofNat_add,BitVec.add_assoc]
      rfl
    have here (a : Word) : a + BitVec.ofNat 64 0 = a := BitVec.add_zero a
    rw [readBytes,translate_inside (BitVec.lt_def.mpr (by omega))]
    dsimp only
    rw [BitVec.add_assoc,ih (by omega),List.range_succ_eq_map,List.map_cons,List.map_cons,List.map_map,
      List.map_map,here,here]
    have bytes : (fun i => m (w.frame,o + BitVec.ofNat 64 i)) ∘ Nat.succ = fun i =>
      m (w.frame,o + 1 + BitVec.ofNat 64 i) := by
      funext i
      rw [shift]
      rfl
    have places : (fun i => w.va + o + BitVec.ofNat 64 i) ∘ Nat.succ = fun i =>
      w.va + (o + 1) + BitVec.ofNat 64 i := by
      funext i
      rw [← BitVec.add_assoc,shift]
      rfl
    rw [bytes,places]
    rfl

theorem readBytes_outside (inside : o.toNat ≤ w.size.toNat) (out : w.size.toNat < o.toNat + n)
    (room : o.toNat + n ≤ 2 ^ 64) :
    (readBytes [w] m n (w.va + o)).value = none := by
  induction n generalizing o with
  | zero => omega
  | succ n ih =>
    rw [readBytes]
    by_cases here : o < w.size
    · have less := BitVec.lt_def.mp here
      have next : (o + 1).toNat = o.toNat + 1 := by
        have one : (1 : Word).toNat = 1 := rfl
        have bound := w.size.isLt
        rw [BitVec.toNat_add,one,Nat.mod_eq_of_lt (by omega)]
      rw [translate_inside here]
      dsimp only
      rw [BitVec.add_assoc,ih (by omega) (by omega) (by omega)]
      rfl
    · have back : w.va + o - w.va = o := by
        rw [BitVec.add_comm,BitVec.add_sub_cancel]
      rw [translate,back,if_neg here,translate]

theorem spawnReadArgs_accepts (accepts : Accepts k t argsVa len) : spawnReadArgs k (some t) argsVa len true m =
    ⟨(readBytes [⟨scratchMega,megaPage,processFindFrame t argsVa⟩] m len.toNat
      (scratchMega + (argsVa &&& (megaPage - 1)))).value.elim
        (.error .fault) .ok,
      (readBytes [⟨scratchMega,megaPage,processFindFrame t argsVa⟩] m len.toNat
        (scratchMega + (argsVa &&& (megaPage - 1)))).reads⟩ := by
  obtain ⟨scratchPt,copied,mapped⟩ := accepts.willing
  have size : ¬(len = 0 ∨ 0x1000 < len) := fun bad => bad.elim accepts.nonempty (BitVec.not_lt.mpr accepts.short)
  rw [spawnReadArgs]
  dsimp only
  rw [if_neg (by decide),if_neg size,if_neg accepts.tracked,if_neg (by rw [scratchPt]; decide),
    if_neg (by rw [copied]; decide),
    if_neg (by rw [mapped]; decide)]

theorem spawnReadArgs_refuses (refuses : ¬∃ t, proc = some t ∧ outBuf = true ∧ Accepts k t argsVa len) :
    ∃ e, e ≠ .fault ∧ spawnReadArgs k proc argsVa len outBuf m = ⟨.error e,[]⟩ := by
  cases proc with
  | none => exact ⟨.einval,by decide,rfl⟩
  | some t =>
    rw [spawnReadArgs]
    dsimp only
    split
    · exact ⟨.einval,by decide,rfl⟩
    · rename_i buffer
      split
      · exact ⟨.einval,by decide,rfl⟩
      · rename_i size
        split
        · exact ⟨.einval,by decide,rfl⟩
        · rename_i tracked
          split
          · exact ⟨.enomem,by decide,rfl⟩
          · rename_i scratchPt
            split
            · exact ⟨.enomem,by decide,rfl⟩
            · rename_i copied
              split
              · exact ⟨.enomem,by decide,rfl⟩
              · rename_i mapped
                obtain ⟨nonempty,short⟩ := not_or.mp size
                exact absurd ⟨t,rfl,Bool.of_not_eq_false buffer,nonempty,BitVec.not_lt.mp short,tracked,
                  Bool.of_not_eq_false scratchPt,Bool.of_not_eq_false copied,Bool.of_not_eq_false mapped⟩ refuses

theorem spawnReadArgs_faults (m : Cells) (accepts : Accepts k t argsVa len)
    (out : ¬argsVa.toNat % 2 ^ 21 + len.toNat ≤ 2 ^ 21) :
    (spawnReadArgs k (some t) argsVa len true m).value = .error .fault := by
  have size : megaPage.toNat = 2 ^ 21 := rfl
  have below := Nat.mod_lt argsVa.toNat (Nat.two_pow_pos 21)
  have short : len.toNat ≤ 0x1000 := accepts.short
  have runs := readBytes_outside (w := ⟨scratchMega,megaPage,processFindFrame t argsVa⟩) (m := m) (n := len.toNat)
    (o := argsVa &&& (megaPage - 1)) (by rw [mega_low,size]; omega) (by rw [mega_low,size]; omega) (by rw [mega_low]; omega)
  rw [spawnReadArgs_accepts accepts,runs]
  rfl

/-- What is read back is the caller's where the bytes end in the megapage they begin in; else taskman
reads behind its window. -/
theorem read_args_iff (k : WindowKernel) (proc : Option Tracker) (argsVa : Word) (len : BitVec 32)
    (outBuf : Bool) (m : Cells) :
    ReadsBack proc argsVa len m (spawnReadArgs k proc argsVa len outBuf m) ↔
      ∀ t, proc = some t → outBuf = true → Accepts k t argsVa len → argsVa.toNat % 2 ^ 21 + len.toNat ≤ 2 ^ 21 := by
  have size : megaPage.toNat = 2 ^ 21 := rfl
  constructor
  · rintro back t rfl rfl accepts
    by_contra out
    exact (back.error .fault (spawnReadArgs_faults m accepts out)).1 rfl
  · intro fits
    by_cases accepted : ∃ t, proc = some t ∧ outBuf = true ∧ Accepts k t argsVa len
    · obtain ⟨t,rfl,rfl,accepts⟩ := accepted
      have inside := fits t rfl rfl accepts
      have reads := readBytes_inside [] ⟨scratchMega,megaPage,processFindFrame t argsVa⟩ (m := m) (n := len.toNat)
        (o := argsVa &&& (megaPage - 1)) (by rw [mega_low,size]; exact inside)
      have runs := spawnReadArgs_accepts (m := m) accepts
      rw [reads] at runs
      rw [runs]
      refine ⟨fun bs _ x member => ?_,fun bs ok => ⟨t,rfl,?_⟩,fun e failed => by cases failed⟩
      · obtain ⟨i,less,rfl⟩ := List.mem_map.mp member
        have offset : (argsVa &&& (megaPage - 1)).toNat % 2 ^ 21 + i < 2 ^ 21 := by
          have less := List.mem_range.mp less
          rw [mega_low,Nat.mod_mod]
          omega
        have back : scratchMega + (argsVa &&& (megaPage - 1)) + BitVec.ofNat 64 i - scratchMega =
            (argsVa &&& (megaPage - 1)) + BitVec.ofNat 64 i := by
          rw [BitVec.add_assoc,BitVec.add_comm,BitVec.add_sub_cancel]
        rw [back,BitVec.lt_def,Align.toNat_add_of_inside _ (by decide) offset,size]
        rw [mega_low,Nat.mod_mod] at offset
        rw [mega_low]
        exact offset
      · obtain rfl := Except.ok.inj ok
        refine List.map_congr_left fun i member => ?_
        have less := List.mem_range.mp member
        rw [t.place_add _ (by omega)]
    · obtain ⟨e,real,refused⟩ := spawnReadArgs_refuses (m := m) accepted
      rw [refused]
      refine ⟨fun bs ok => ?_,fun bs ok => ?_,fun f failed => ?_⟩
      · cases ok
      · cases ok
      · obtain rfl := Except.error.inj failed
        exact ⟨real,rfl⟩

/-- Arguments on the border of two megapages, both of which the caller has. -/
theorem read_args_straddles : ∃ (t : Tracker) (k : WindowKernel) (argsVa : Word) (len : BitVec 32) (m : Cells),
    Accepts k t argsVa len ∧ (∀ i < len.toNat, processFindFrame t (argsVa + BitVec.ofNat 64 i) ≠ 0) ∧
      ¬ReadsBack (some t) argsVa len m (spawnReadArgs k (some t) argsVa len true m) := by
  have accepts : Accepts ⟨true,true,true⟩ [(0x2000000,5),(0x2200000,6)] 0x21FFFFE 4 :=
    ⟨by decide,by decide,by decide,rfl,rfl,rfl⟩
  refine ⟨[(0x2000000,5),(0x2200000,6)],⟨true,true,true⟩,0x21FFFFE,4,fun _ => 0,accepts,by decide,fun back => ?_⟩
  exact (back.error .fault (spawnReadArgs_faults _ accepts (by decide))).1 rfl

end Qsoe.Spawn
