import Qsoe.Lib.Copying
import Qsoe.Spawn.ReadArgs

/-! `tm_bulk_copy` copies from one process to another through two windows, up to the end of a megapage
of either at a time. Chunk by chunk it is one copy from cell to cell, which is exact where the frames of
both ranges are apart. -/
namespace Qsoe.Spawn

/-- `TM_SCRATCH_MEGA_VADDR_B` and `TM_MSG_BULK_MAX`. -/
def scratchMegaB : Word := 0x40400000
def bulkMax : Nat := 16 * 1024 * 1024

structure RoundKernel where
  copySrc : Bool
  copyDst : Bool
  mapSrc : Bool
  mapDst : Bool
  deriving DecidableEq, Repr

def RoundKernel.Willing (k : RoundKernel) : Prop :=
  k.copySrc = true ∧ k.copyDst = true ∧ k.mapSrc = true ∧ k.mapDst = true

/-- Memory, and the copies in `s_bulk_slot_src` and `s_bulk_slot_dst`. -/
structure Bounce where
  mem : Cells
  src : Option Nat
  dst : Option Nat

/-- `qmemcpy` between windows; an address that is not mapped is a fault. -/
def qmemcpy (ws : List Window) (m : Cells) (dst src : Word) : Nat → Option Cells
  | 0 => some m
  | n + 1 =>
    (translate ws dst).bind fun d =>
      (translate ws src).bind fun s => qmemcpy ws (Function.update m d (m s)) (dst + 1) (src + 1) n

/-- The bytes left in whichever of the two megapages ends first. -/
def chunkOf (sva dva : Word) (left : Nat) : Nat :=
  min (min left (megaPage.toNat - (sva &&& (megaPage - 1)).toNat)) (megaPage.toNat - (dva &&& (megaPage - 1)).toNat)

/-- A turn of the loop; a copied cap whose turn fails is deleted again. -/
def copyChunk (k : RoundKernel) (b : Bounce) (fs fd : Nat) (so dof : Word) (chunk : Nat) :
    Bounce × Except Stop Unit :=
  if k.copySrc = false ∨ b.src.isSome then (b,.error .enomem)
  else if k.copyDst = false ∨ b.dst.isSome then ({ b with src := none },.error .enomem)
  else if k.mapSrc = false ∨ k.mapDst = false then ({ b with src := none, dst := none },.error .enomem)
  else
    match qmemcpy [⟨scratchMega,megaPage,fs⟩,⟨scratchMegaB,megaPage,fd⟩] b.mem (scratchMegaB + dof)
      (scratchMega + so) chunk with
    | none => (⟨b.mem,some fs,some fd⟩,.error .fault)
    | some mem => (⟨mem,none,none⟩,.ok ())

theorem mega_left (a : Word) : megaPage.toNat - (a &&& (megaPage - 1)).toNat = 2 ^ 21 - a.toNat % 2 ^ 21 := by
  rw [mega_low]
  rfl

theorem chunkOf_pos {left : Nat} (sva dva : Word) (more : 0 < left) : 0 < chunkOf sva dva left := by
  have first := Nat.mod_lt sva.toNat (Nat.two_pow_pos 21)
  have second := Nat.mod_lt dva.toNat (Nat.two_pow_pos 21)
  rw [chunkOf,mega_left,mega_left]
  omega

theorem chunkOf_le (sva dva : Word) (left : Nat) : chunkOf sva dva left ≤ left :=
  Nat.le_trans (Nat.min_le_left _ _) (Nat.min_le_left _ _)

/-- The loop of `tm_bulk_copy`, once `done` bytes have been copied. -/
def copyLoop (k : Nat → RoundKernel) (src : Tracker) (srcVa : Word) (dst : Tracker) (dstVa : Word) (len : Nat)
    (b : Bounce) (done : Nat) :
    Bounce × Except Stop Nat :=
  if more : done < len then
    let sva := srcVa + BitVec.ofNat 64 done
    let dva := dstVa + BitVec.ofNat 64 done
    if processFindFrame src sva = 0 ∨ processFindFrame dst dva = 0 then (b,.error .efault)
    else
      let chunk := chunkOf sva dva (len - done)
      have : len - (done + chunk) < len - done := by
        have progress := chunkOf_pos sva dva (Nat.sub_pos_of_lt more)
        omega
      match copyChunk (k done) b (processFindFrame src sva) (processFindFrame dst dva) (sva &&& (megaPage - 1))
        (dva &&& (megaPage - 1)) chunk with
      | (b',.error e) => (b',.error e)
      | (b',.ok _) => copyLoop k src srcVa dst dstVa len b' (done + chunk)
  else (b,.ok done)
termination_by len - done
decreasing_by exact this

/-- `tm_bulk_copy`; `ready` is false when the page tables of the windows cannot be made. -/
def tmBulkCopy (ready : Bool) (k : Nat → RoundKernel) (src : Option Tracker) (srcVa : Word)
    (dst : Option Tracker) (dstVa len : Word) (b : Bounce) : Bounce × Except Stop Word :=
  match src,dst with
  | some s,some d =>
    if len = 0 then (b,.ok 0)
    else if bulkMax < len.toNat then (b,.error .e2big)
    else if ready = false then (b,.error .enomem)
    else
      match copyLoop k s srcVa d dstVa len.toNat b 0 with
      | (b',.error e) => (b',.error e)
      | (b',.ok done) => (b',.ok (BitVec.ofNat 64 done))
  | _,_ => (b,.error .einval)

/-- Both processes have the page of their `i`-th byte. -/
def Mapped (s : Tracker) (srcVa : Word) (d : Tracker) (dstVa : Word) (i : Nat) : Prop :=
  processFindFrame s (srcVa + BitVec.ofNat 64 i) ≠ 0 ∧ processFindFrame d (dstVa + BitVec.ofNat 64 i) ≠ 0

/-- No frame of the destination is one of the source or stands for two of its pages. -/
structure FramesApart (s : Tracker) (srcVa : Word) (d : Tracker) (dstVa : Word) (len : Nat) : Prop where
  ranges : ∀ i < len, ∀ j < len, processFindFrame s (srcVa + BitVec.ofNat 64 i) ≠ processFindFrame d
    (dstVa + BitVec.ofNat 64 j)
  pages : ∀ i < len, ∀ j < len, processFindFrame d (dstVa + BitVec.ofNat 64 i) = processFindFrame d
    (dstVa + BitVec.ofNat 64 j) →
    (dstVa + BitVec.ofNat 64 i) &&& ~~~(megaPage - 1) = (dstVa + BitVec.ofNat 64 j) &&& ~~~(megaPage - 1)

variable {k : RoundKernel} {ks : Nat → RoundKernel} {s d : Tracker} {srcVa dstVa sva dva so dof x y : Word}
    {m : Cells} {b : Bounce}
  {fs fd n len done i : Nat}

/-- The first `n` bytes copied one by one. -/
def copied (s : Tracker) (srcVa : Word) (d : Tracker) (dstVa : Word) (m : Cells) (n : Nat) : Cells :=
  Copying.copy (fun i => s.place (srcVa + BitVec.ofNat 64 i)) (fun i => d.place (dstVa + BitVec.ofNat 64 i)) m n

theorem copied_add (m : Cells) (k n : Nat) : copied s srcVa d dstVa m (k + n) =
    copied s (srcVa + BitVec.ofNat 64 k) d (dstVa + BitVec.ofNat 64 k) (copied s srcVa d dstVa m k) n := by
  have together (a : Word) (i : Nat) : a + BitVec.ofNat 64 k + BitVec.ofNat 64 i = a + BitVec.ofNat 64 (k + i) := by
    rw [BitVec.add_assoc,← BitVec.ofNat_add]
  rw [copied,Copying.copy_add,copied,copied]
  simp only [together]

theorem qmemcpy_mapped (ws : List Window) (sources places : Nat → Nat × Word)
    (from' : ∀ i < n, translate ws (y + BitVec.ofNat 64 i) = some (sources i))
    (target : ∀ i < n, translate ws (x + BitVec.ofNat 64 i) = some (places i)) :
    qmemcpy ws m x y n = some (Copying.copy sources places m n) := by
  induction n generalizing m x y sources places with
  | zero => rfl
  | succ n ih =>
    have here (a : Word) : a + BitVec.ofNat 64 0 = a := BitVec.add_zero a
    have shift (a : Word) (i : Nat) : a + 1 + BitVec.ofNat 64 i = a + BitVec.ofNat 64 (1 + i) := by
      rw [BitVec.ofNat_add,← BitVec.add_assoc]
      rfl
    have first := from' 0 (Nat.zero_lt_succ n)
    have last := target 0 (Nat.zero_lt_succ n)
    rw [here] at first last
    have rest := Copying.copy_add sources places m 1 n
    rw [Nat.add_comm 1 n] at rest
    rw [qmemcpy,last,Option.bind_some,first,Option.bind_some,rest]
    refine ih _ _ (fun i below => ?_) fun i below => ?_
    · rw [shift]
      exact from' (1 + i) (by omega)
    · rw [shift]
      exact target (1 + i) (by omega)

theorem translate_src (inside : so.toNat + i < 2 ^ 21) :
    translate [⟨scratchMega,megaPage,fs⟩,⟨scratchMegaB,megaPage,fd⟩] (scratchMega + so + BitVec.ofNat 64 i) =
      some (fs,so + BitVec.ofNat 64 i) := by
  have size : megaPage.toNat = 2 ^ 21 := rfl
  have offset : (so + BitVec.ofNat 64 i).toNat = so.toNat + i := by
    rw [BitVec.toNat_add,BitVec.toNat_ofNat,Nat.mod_eq_of_lt (a := i) (by omega),Nat.mod_eq_of_lt (by omega)]
  rw [BitVec.add_assoc]
  exact translate_inside (w := ⟨scratchMega,megaPage,fs⟩) (BitVec.lt_def.mpr (by rw [offset,size]; exact inside))

theorem translate_dst (inside : dof.toNat + i < 2 ^ 21) :
    translate [⟨scratchMega,megaPage,fs⟩,⟨scratchMegaB,megaPage,fd⟩] (scratchMegaB + dof + BitVec.ofNat 64 i) =
      some (fd,dof + BitVec.ofNat 64 i) := by
  have size : megaPage.toNat = 2 ^ 21 := rfl
  have offset : (dof + BitVec.ofNat 64 i).toNat = dof.toNat + i := by
    rw [BitVec.toNat_add,BitVec.toNat_ofNat,Nat.mod_eq_of_lt (a := i) (by omega),Nat.mod_eq_of_lt (by omega)]
  have apart : scratchMegaB + (dof + BitVec.ofNat 64 i) - scratchMega = 0x200000 + (dof + BitVec.ofNat 64 i) := by
    have windows : scratchMegaB = scratchMega + 0x200000 := by decide
    rw [windows,BitVec.add_assoc,BitVec.add_comm,BitVec.add_sub_cancel]
  have behind : ¬(0x200000 : Word) + (dof + BitVec.ofNat 64 i) < megaPage := by
    have first : (0x200000 : Word).toNat = 2 ^ 21 := rfl
    rw [BitVec.lt_def,BitVec.toNat_add,offset,first,size,Nat.mod_eq_of_lt (by omega)]
    omega
  rw [BitVec.add_assoc,translate]
  dsimp only
  rw [apart,if_neg behind]
  exact translate_inside (w := ⟨scratchMegaB,megaPage,fd⟩) (BitVec.lt_def.mpr (by rw [offset,size]; exact inside))

theorem qmemcpy_chunk (s d : Tracker) (m : Cells) (first : sva.toNat % 2 ^ 21 + n ≤ 2 ^ 21)
    (second : dva.toNat % 2 ^ 21 + n ≤ 2 ^ 21) :
    qmemcpy [⟨scratchMega,megaPage,processFindFrame s sva⟩,⟨scratchMegaB,megaPage,processFindFrame d dva⟩] m
      (scratchMegaB + (dva &&& (megaPage - 1))) (scratchMega + (sva &&& (megaPage - 1))) n =
        some (copied s sva d dva m n) := by
  refine qmemcpy_mapped _ _ _ (fun i below => ?_) fun i below => ?_
  · rw [s.place_add _ (by omega)]
    exact translate_src (by rw [mega_low]; omega)
  · rw [d.place_add _ (by omega)]
    exact translate_dst (by rw [mega_low]; omega)

theorem copyChunk_willing (willing : k.Willing) (idle : b.src = none ∧ b.dst = none)
    (first : sva.toNat % 2 ^ 21 + n ≤ 2 ^ 21) (second : dva.toNat % 2 ^ 21 + n ≤ 2 ^ 21) :
    copyChunk k b (processFindFrame s sva) (processFindFrame d dva) (sva &&& (megaPage - 1))
      (dva &&& (megaPage - 1)) n =
      ({ b with mem := copied s sva d dva b.mem n },.ok ()) := by
  obtain ⟨copySrc,copyDst,mapSrc,mapDst⟩ := willing
  obtain ⟨mem,src,dst⟩ := b
  obtain ⟨rfl,rfl⟩ := idle
  rw [copyChunk]
  dsimp only
  rw [if_neg (by rw [copySrc]; decide),if_neg (by rw [copyDst]; decide),if_neg (by rw [mapSrc,mapDst]; decide),
    qmemcpy_chunk s d mem first second]

/-- The scratch slots are free, and taskman has not faulted. -/
structure Bounce.Clean {α : Type} (out : Bounce × Except Stop α) : Prop where
  src : out.1.src = none
  dst : out.1.dst = none
  runs : out.2 ≠ .error .fault

theorem Bounce.Clean.error {α : Type} {e : Stop} (idle : b.src = none ∧ b.dst = none) (real : e ≠ .fault) :
    Bounce.Clean (b,(.error e : Except Stop α)) :=
  ⟨idle.1,idle.2,fun fault => real (Except.error.inj fault)⟩

theorem Bounce.Clean.ok {α : Type} (idle : b.src = none ∧ b.dst = none) (a : α) : Bounce.Clean (b,.ok a) :=
  ⟨idle.1,idle.2,fun fault => by cases fault⟩

theorem copyChunk_clean (k : RoundKernel) (s d : Tracker) (idle : b.src = none ∧ b.dst = none)
    (first : sva.toNat % 2 ^ 21 + n ≤ 2 ^ 21) (second : dva.toNat % 2 ^ 21 + n ≤ 2 ^ 21) :
    Bounce.Clean (copyChunk k b (processFindFrame s sva) (processFindFrame d dva) (sva &&& (megaPage - 1))
      (dva &&& (megaPage - 1)) n) := by
  obtain ⟨mem,src,dst⟩ := b
  obtain ⟨rfl,rfl⟩ := idle
  rw [copyChunk]
  split
  · exact .error ⟨rfl,rfl⟩ (by decide)
  · split
    · exact .error ⟨rfl,rfl⟩ (by decide)
    · split
      · exact .error ⟨rfl,rfl⟩ (by decide)
      · rw [qmemcpy_chunk s d mem first second]
        exact .ok ⟨rfl,rfl⟩ ()

theorem chunkOf_inside (sva dva : Word) (left : Nat) :
    sva.toNat % 2 ^ 21 + chunkOf sva dva left ≤ 2 ^ 21 ∧ dva.toNat % 2 ^ 21 + chunkOf sva dva left ≤ 2 ^ 21 := by
  have first := Nat.mod_lt sva.toNat (Nat.two_pow_pos 21)
  have second := Nat.mod_lt dva.toNat (Nat.two_pow_pos 21)
  rw [chunkOf,mega_left,mega_left]
  omega

/-- The megapages of a chunk are the ones its first byte is in. -/
theorem Mapped.chunk (mapped : Mapped s srcVa d dstVa done) (left i : Nat)
    (below : i < chunkOf (srcVa + BitVec.ofNat 64 done) (dstVa + BitVec.ofNat 64 done) left) :
      Mapped s srcVa d dstVa (done + i) := by
  obtain ⟨first,second⟩ := chunkOf_inside (srcVa + BitVec.ofNat 64 done) (dstVa + BitVec.ofNat 64 done) left
  have source := congrArg Prod.fst (s.place_add (srcVa + BitVec.ofNat 64 done) (i := i) (by omega))
  have target := congrArg Prod.fst (d.place_add (dstVa + BitVec.ofNat 64 done) (i := i) (by omega))
  rw [BitVec.add_assoc,← BitVec.ofNat_add] at source target
  exact ⟨source.trans_ne mapped.1,target.trans_ne mapped.2⟩

theorem copyLoop_copies (s : Tracker) (srcVa : Word) (d : Tracker) (dstVa : Word)
    (willing : ∀ n, (ks n).Willing) (idle : b.src = none ∧ b.dst = none) (le : done ≤ len) :
    ∃ n, done + n ≤ len ∧ (∀ i < n, Mapped s srcVa d dstVa (done + i)) ∧
      (copyLoop ks s srcVa d dstVa len b done).1 =
        { b with mem := copied s (srcVa + BitVec.ofNat 64 done) d (dstVa + BitVec.ofNat 64 done) b.mem n } ∧
      ((done + n = len ∧ (copyLoop ks s srcVa d dstVa len b done).2 = .ok len) ∨
        (done + n < len ∧ ¬Mapped s srcVa d dstVa (done + n) ∧
          (copyLoop ks s srcVa d dstVa len b done).2 = .error .efault)) := by
  induction left : len - done using Nat.strongRecOn generalizing done b with
  | _ left ih =>
    subst left
    rw [copyLoop]
    by_cases more : done < len
    · rw [dif_pos more]
      dsimp only
      by_cases missing : processFindFrame s (srcVa + BitVec.ofNat 64 done) = 0 ∨ processFindFrame d
        (dstVa + BitVec.ofNat 64 done) = 0
      · rw [if_pos missing]
        refine ⟨0,le,fun i below => absurd below (Nat.not_lt_zero i),rfl,.inr ⟨more,fun mapped => ?_,rfl⟩⟩
        exact missing.elim mapped.1 mapped.2
      · have mapped : Mapped s srcVa d dstVa done := not_or.mp missing
        obtain ⟨first,second⟩ := chunkOf_inside (srcVa + BitVec.ofNat 64 done) (dstVa + BitVec.ofNat 64 done)
          (len - done)
        have progress := chunkOf_pos (srcVa + BitVec.ofNat 64 done) (dstVa + BitVec.ofNat 64 done)
          (Nat.sub_pos_of_lt more)
        have most := chunkOf_le (srcVa + BitVec.ofNat 64 done) (dstVa + BitVec.ofNat 64 done) (len - done)
        have inside (i : Nat) := mapped.chunk (len - done) i
        rw [if_neg missing,copyChunk_willing (willing done) idle first second]
        dsimp only
        generalize chunkOf (srcVa + BitVec.ofNat 64 done) (dstVa + BitVec.ofNat 64 done) (len - done) = chunk at *
        obtain ⟨n,within,tracked,onward,ends⟩ := ih (len - (done + chunk)) (by omega)
          (b := { b with mem := copied s (srcVa + BitVec.ofNat 64 done) d (dstVa + BitVec.ofNat 64 done) b.mem chunk })
          idle (by omega) rfl
        refine ⟨chunk + n,by omega,fun i below => ?_,?_,?_⟩
        · by_cases now : i < chunk
          · exact inside i now
          · have later := tracked (i - chunk) (by omega)
            rw [Nat.add_assoc,Nat.add_sub_cancel' (Nat.le_of_not_lt now)] at later
            exact later
        · have together (a : Word) : a + BitVec.ofNat 64 (done + chunk) =
            a + BitVec.ofNat 64 done + BitVec.ofNat 64 chunk := by
            rw [BitVec.ofNat_add,BitVec.add_assoc]
          rw [onward,together,together,copied_add b.mem chunk n]
        · rw [← Nat.add_assoc]
          exact ends
    · have whole : done = len := by omega
      rw [dif_neg more]
      exact ⟨0,le,fun i below => absurd below (Nat.not_lt_zero i),rfl,.inl ⟨whole,congrArg Except.ok whole⟩⟩

theorem copyLoop_clean (ks : Nat → RoundKernel) (s : Tracker) (srcVa : Word) (d : Tracker) (dstVa : Word)
    (len done : Nat)
    (idle : b.src = none ∧ b.dst = none) : Bounce.Clean (copyLoop ks s srcVa d dstVa len b done) := by
  induction left : len - done using Nat.strongRecOn generalizing done b with
  | _ left ih =>
    subst left
    rw [copyLoop]
    split
    · rename_i more
      dsimp only
      split
      · exact .error idle (by decide)
      · obtain ⟨first,second⟩ := chunkOf_inside (srcVa + BitVec.ofNat 64 done) (dstVa + BitVec.ofNat 64 done)
          (len - done)
        have progress := chunkOf_pos (srcVa + BitVec.ofNat 64 done) (dstVa + BitVec.ofNat 64 done)
          (Nat.sub_pos_of_lt more)
        have turn := copyChunk_clean (ks done) s d idle first second
        split
        · rename_i b' e failed
          rw [failed] at turn
          exact .error ⟨turn.src,turn.dst⟩ fun fault => turn.runs (congrArg Except.error fault)
        · rename_i b' ok
          rw [ok] at turn
          exact ih _ (by omega) _ ⟨turn.src,turn.dst⟩ rfl
    · exact .ok idle done

theorem tmBulkCopy_clean (ready : Bool) (ks : Nat → RoundKernel) (src : Option Tracker) (srcVa : Word)
    (dst : Option Tracker) (dstVa len : Word) (idle : b.src = none ∧ b.dst = none) :
    Bounce.Clean (tmBulkCopy ready ks src srcVa dst dstVa len b) := by
  cases src with
  | none => exact .error idle (by decide)
  | some s =>
    cases dst with
    | none => exact .error idle (by decide)
    | some d =>
      have loop := copyLoop_clean ks s srcVa d dstVa len.toNat 0 idle
      rw [tmBulkCopy]
      split
      · exact .ok idle 0
      · split
        · exact .error idle (by decide)
        · split
          · exact .error idle (by decide)
          · split
            · rename_i b' e failed
              rw [failed] at loop
              exact .error ⟨loop.src,loop.dst⟩ fun fault => loop.runs (congrArg Except.error fault)
            · rename_i b' done ok
              rw [ok] at loop
              exact .ok ⟨loop.src,loop.dst⟩ _

theorem tmBulkCopy_eq {len : Word} (short : len.toNat ≤ bulkMax) :
    tmBulkCopy true ks (some s) srcVa (some d) dstVa len b =
    ((copyLoop ks s srcVa d dstVa len.toNat b 0).1,(copyLoop ks s srcVa d dstVa len.toNat b 0).2.map
      (BitVec.ofNat 64)) := by
  rw [tmBulkCopy]
  by_cases nothing : len = 0
  · have zero : len.toNat = 0 := congrArg BitVec.toNat nothing
    rw [if_pos nothing,zero,copyLoop,dif_neg (Nat.lt_irrefl 0)]
    rfl
  · rw [if_neg nothing,if_neg (Nat.not_lt.mpr short),if_neg (by decide)]
    obtain ⟨b',answer⟩ := copyLoop ks s srcVa d dstVa len.toNat b 0
    cases answer with
    | error e => rfl
    | ok done => rfl

/-- Different bytes of the destination are in different places. -/
theorem FramesApart.once (apart : FramesApart s srcVa d dstVa n) (short : n ≤ bulkMax) :
    ∀ i < n, ∀ j < n, d.place (dstVa + BitVec.ofNat 64 i) = d.place (dstVa + BitVec.ofNat 64 j) → i = j := by
  intro i less j less' same
  have most : bulkMax = 2 ^ 24 := rfl
  obtain ⟨frame,low⟩ := Prod.mk.inj same
  have address := Align.eq_of_halves (megaPage - 1) mega_toNat (apart.pages i less j less' frame) low
  have one := Memory.offset_toNat dstVa (show i < 2 ^ 64 by omega)
  have other := Memory.offset_toNat dstVa (show j < 2 ^ 64 by omega)
  rw [address] at one
  exact one.symm.trans other

/-- Between mapped ranges in frames that are apart the copy is exact and touches nothing else; where a
page is missing it ends with `EFAULT` and has written no more than the bytes before. -/
theorem bulk_copy_exact {len : Word} (willing : ∀ n, (ks n).Willing) (idle : b.src = none ∧ b.dst = none)
    (short : len.toNat ≤ bulkMax) (s : Tracker) (srcVa : Word) (d : Tracker) (dstVa : Word) :
    ((∀ i < len.toNat, Mapped s srcVa d dstVa i) → FramesApart s srcVa d dstVa len.toNat →
      ∃ mem, tmBulkCopy true ks (some s) srcVa (some d) dstVa len b = ({ b with mem := mem },.ok len) ∧
        (∀ i < len.toNat, mem (d.place (dstVa + BitVec.ofNat 64 i)) = b.mem (s.place (srcVa + BitVec.ofNat 64 i))) ∧
        ∀ c, (∀ i < len.toNat, d.place (dstVa + BitVec.ofNat 64 i) ≠ c) → mem c = b.mem c) ∧
    ((¬∀ i < len.toNat, Mapped s srcVa d dstVa i) →
      ∃ mem n, n < len.toNat ∧ (∀ i < n, Mapped s srcVa d dstVa i) ∧
        tmBulkCopy true ks (some s) srcVa (some d) dstVa len b = ({ b with mem := mem },.error .efault) ∧
        ∀ c, (∀ i < n, d.place (dstVa + BitVec.ofNat 64 i) ≠ c) → mem c = b.mem c) := by
  have start (a : Word) : a + BitVec.ofNat 64 0 = a := BitVec.add_zero a
  obtain ⟨n,-,tracked,bytes,ends⟩ := copyLoop_copies s srcVa d dstVa willing idle (Nat.zero_le len.toNat)
  rw [start,start] at bytes
  simp only [Nat.zero_add] at tracked ends
  refine ⟨fun mapped apart => ?_,fun missing => ?_⟩
  · rcases ends with ⟨whole,ok⟩ | ⟨less,untracked,-⟩
    · rw [whole] at bytes
      refine ⟨copied s srcVa d dstVa b.mem len.toNat,?_,fun i below =>
        Copying.copy_exact (fun i less j less' same => ?_) (apart.once short) below,
        fun c outside => Copying.copy_outside outside⟩
      · rw [tmBulkCopy_eq short,bytes,ok,Except.map,BitVec.ofNat_toNat,BitVec.setWidth_eq]
      · exact apart.ranges j less' i less (congrArg Prod.fst same).symm
    · exact absurd (mapped n less) untracked
  · rcases ends with ⟨whole,-⟩ | ⟨less,-,fault⟩
    · rw [whole] at tracked
      exact absurd tracked missing
    · refine ⟨copied s srcVa d dstVa b.mem n,n,less,tracked,?_,fun c outside => Copying.copy_outside outside⟩
      rw [tmBulkCopy_eq short,bytes,fault,Except.map]

/-- Three bytes across the border of the source's megapages. -/
theorem bulk_copy_exact_border : ∃ mem : Cells,
    (tmBulkCopy true (fun _ => ⟨true,true,true,true⟩) (some [(0x2000000,1),(0x2200000,2)]) 0x21FFFFF
    (some [(0x4000000,3)]) 0x4000000 3 ⟨fun c => BitVec.ofNat 8 c.1,none,none⟩) = (⟨mem,none,none⟩,.ok 3) ∧
      mem (3,0) = 1 ∧ mem (3,1) = 2 := by
  have tracked : ∀ i < 3, Mapped [(0x2000000,1),(0x2200000,2)] 0x21FFFFF [(0x4000000,3)] 0x4000000 i := by
    unfold Mapped
    decide
  have apart : FramesApart [(0x2000000,1),(0x2200000,2)] 0x21FFFFF [(0x4000000,3)] 0x4000000 3 :=
    ⟨by decide,by decide⟩
  obtain ⟨mem,done,bytes,-⟩ := (@bulk_copy_exact (fun _ => ⟨true,true,true,true⟩)
    ⟨fun c => BitVec.ofNat 8 c.1,none,none⟩ 3
    (fun _ => ⟨rfl,rfl,rfl,rfl⟩) ⟨rfl,rfl⟩ (by decide) [(0x2000000,1),(0x2200000,2)] 0x21FFFFF [(0x4000000,3)]
    0x4000000).1 tracked apart
  exact ⟨mem,done,bytes 0 (by decide),bytes 1 (by decide)⟩

end Qsoe.Spawn
