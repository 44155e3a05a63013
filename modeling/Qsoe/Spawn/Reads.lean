import Qsoe.Spawn.Segments

/-! What `tm_spawn` reads of an image whose length it is given: the identification, the fields of the header
and of the program headers, the bytes of the pages it loads and the name of the interpreter. Only
the scan for a `#!` line heeds the length. -/
namespace Qsoe.Spawn

open Qsoe.Path (Byte slash)
open Words (span)
open Traced (Confined andThen)

/-- A byte of an image of so many bytes. -/
def Inside (len : Nat) (a : Word) : Prop := a.toNat < len

/-- The magic number and `ELFCLASS64`. -/
def elfIdent : List Byte := [0x7f,0x45,0x4c,0x46,2]

namespace Image

/-- Compares bytes up to the first that differs. -/
def begins (img : Image) (a : Word) : List Byte → Traced Word Bool
  | [] => pure true
  | b :: rest => do
    let c ← Traced.read img a
    if c = b then begins img (a + 1) rest else pure false

/-- The loop that looks for `PT_INTERP` from a program header on; the first number is how many are left. -/
def findInterp (img : Image) (ph : Word) : Nat → Nat → Traced Word (Option Nat)
  | 0, _ => pure none
  | n + 1, i => do
    let type ← img.pType (phdr ph i)
    if type = ptInterp then pure (some i) else findInterp img ph n (i + 1)

/-- The address of the program headers in the segment that holds them, if the loop comes to it. -/
def phdrAddress (img : Image) (ph phoff : Word) (i : Nat) : Traced Word (Option Word) := do
  let offset ← img.pOffset (phdr ph i)
  if phoff < offset then pure none
  else
    let filesz ← img.pFilesz (phdr ph i)
    if phoff < offset + filesz then do
      let vaddr ← img.pVaddr (phdr ph i)
      pure (some (vaddr + (phoff - offset)))
    else pure none

/-- The loop for `AT_PHDR`. -/
def mainPhdr (img : Image) (ph : Word) : Nat → Nat → Traced Word Word
  | 0, _ => pure 0
  | n + 1, i => do
    let type ← img.pType (phdr ph i)
    if type = ptLoad then do
      let found ← img.phdrAddress ph ph i
      match found with
      | some va => pure va
      | none => mainPhdr img ph n (i + 1)
    else mainPhdr img ph n (i + 1)

/-- One character of a text that goes on to its NUL. -/
def textStep (img : Image) (s : Word × List Byte) : Traced Word ((Word × List Byte) ⊕ List Byte) := do
  let c ← Traced.read img s.1
  pure (if c = 0 then .inr s.2 else .inl (s.1 + 1,s.2 ++ [c]))

/-- The name of the interpreter without its first slash. A lookup that fails need not come to its NUL;
then the reads up to the NUL are those of `tm_err`, which prints the name and whose code is not in the
repository. -/
def interpName (img : Image) (rounds : Nat) (at' : Word) : Option (Traced Word (List Byte)) :=
  andThen (some (do
    let offset ← img.pOffset at'
    let c ← Traced.read img offset
    pure (if c = slash then offset + 1 else offset)))
  fun start => Traced.loop img.textStep rounds (start,[])

end Image

/-- What `tm_spawn` of an image of `len` bytes meets outside the image: `shebang` is what
`tm_script_parse_shebang` makes of the scanned bytes, `objects` whether the kernel's objects are there,
`dynamic` whether interpreter and libc are found and loaded, `library` what `tm_elf_parse` and
`tm_reloc_apply` read of the image they get with its length. -/
structure Outside (len : Nat) where
  shebang : List Byte → Bool
  objects : Bool
  mem : Frames
  used : List Nat
  page : Nat → PageKernel
  dynamic : List Byte → Bool
  library : Image → Traced Word Bool
  confined : ∀ img, (library img).Within (Inside len)

namespace Outside

variable {len : Nat}

/-- The child has page tables for its first 2 MiB and no pages yet. -/
def child (w : Outside len) : Loader := ⟨.header 0,0,w.mem,w.used,fun va => va.toNat < 2 ^ 21,[],[],[]⟩

/-- What is read of a program whose program header `i` names an interpreter. -/
def linkInterp (w : Outside len) (rounds : Nat) (img : Image) (ph : Word) (i : Nat) : Option (Traced Word Unit) :=
  andThen (img.interpName rounds (Image.phdr ph i)) fun name =>
  if w.dynamic name = false then some (pure ())
  else
    andThen (some (w.library img)) fun parsed =>
    if parsed = false then some (pure ())
    else some (do
      let phnum ← img.ePhnum
      let _ ← img.mainPhdr ph phnum.toNat 0
      let _ ← img.ePhnum
      let _ ← img.eEntry
      pure ())

/-- What is read of a program once its segments are loaded. -/
def link (w : Outside len) (rounds : Nat) (img : Image) (ph : Word) : Option (Traced Word Unit) :=
  andThen (some (do
    let phnum ← img.ePhnum
    let found ← img.findInterp ph phnum.toNat 0
    let _ ← img.eType
    let _ ← img.eEntry
    pure found))
  fun found => found.elim (some (pure ())) (w.linkInterp rounds img ph)

def loadAndLink (w : Outside len) (rounds : Nat) (img : Image) : Option (Traced Word Unit) :=
  andThen (some img.ePhoff) fun ph =>
  andThen (Loader.loadElfSegments rounds w.page img 0 w.child) fun loaded =>
  if loaded.2 = false then some (pure ()) else w.link rounds img ph

end Outside

/-- `tm_spawn`, as far as it reads the image. For a script it goes on with the image of the interpreter. -/
def tmSpawn (rounds : Nat) (len : Nat) (w : Outside len) (img : Image) : Option (Traced Word Unit) :=
  andThen (some (do
    let line ← Traced.readAll img (span 0 (min len 256))
    pure (w.shebang line)))
  fun script =>
  if script then some (pure ())
  else
    andThen (some (img.begins 0 elfIdent)) fun elf =>
    if elf = false ∨ w.objects = false then some (pure ()) else w.loadAndLink rounds img

def Holds (len : Nat) (a : Word) (n : Nat) : Prop := ∀ x ∈ span a n, Inside len x

structure Fits (vs : List Word) : Prop where
  once : vs.Nodup
  low : ∀ v ∈ vs, v.toNat < 2 ^ 21
  few : vs.length ≤ maxFrames

namespace Image

variable (img : Image)

def IsElf : Prop := ∀ j (less : j < elfIdent.length), img (BitVec.ofNat 64 j) = elfIdent[j]

/-- The addresses of the pages that come before a page of a program header. -/
def before (i j : Nat) : List Word :=
  (img.pagesBefore img.ePhoff.value 0 i ++ (img.header img.ePhoff.value i).firstPages 0 j).map Prod.snd

def relroBefore (i : Nat) : Nat :=
  ((List.range i).filter fun n => (img.header img.ePhoff.value n).type = ptGnuRelro).length

def EndsInside (len : Nat) (a : Word) : Prop :=
  ∃ n, img (a + BitVec.ofNat 64 n) = 0 ∧ ∀ m ≤ n, Inside len (a + BitVec.ofNat 64 m)

/-- Every part that is looked at lies in the image: the identification up to a difference, the header of an
ELF file, each program header that is come to, the bytes of each page that is come to, and the name of
the interpreter. What is come to are the program headers and pages before which all pages find place. -/
structure Readable (len : Nat) : Prop where
  ident : ∀ j (less : j < elfIdent.length), (∀ i (earlier : i < j), img (BitVec.ofNat 64 i) = elfIdent[i]) → j < len
  header : img.IsElf → 58 ≤ len
  types : img.IsElf → ∀ i < img.phnum, Fits (img.before i 0) → Holds len (phdr img.ePhoff.value i) 4
  loads : img.IsElf → ∀ i < img.phnum, Fits (img.before i 0) → (img.header img.ePhoff.value i).type = ptLoad →
    Holds len (phdr img.ePhoff.value i + 8) 16 ∧ Holds len (phdr img.ePhoff.value i + 32) 16
  pages : img.IsElf → ∀ i < img.phnum, (img.header img.ePhoff.value i).type = ptLoad →
    ∀ j < (img.header img.ePhoff.value i).pageCount 0, Fits (img.before i j) →
      let seg := (img.header img.ePhoff.value i).extent 0
      let v := (img.header img.ePhoff.value i).pageAt 0 j
      Holds len (seg.src + seg.fileOff v) (seg.fileBytes v).toNat ∧ Holds len (phdr img.ePhoff.value i + 4) 4
  relros : img.IsElf → Fits (img.before img.phnum 0) → ∀ i < img.phnum, img.relroBefore i ≤ maxRelro →
    (img.header img.ePhoff.value i).type = ptGnuRelro →
      Holds len (phdr img.ePhoff.value i + 16) 8 ∧ Holds len (phdr img.ePhoff.value i + 40) 8
  interp : img.IsElf → Fits (img.before img.phnum 0) → ∀ i < img.phnum, (img.header img.ePhoff.value i).type =
    ptInterp →
    (∀ n < i, (img.header img.ePhoff.value n).type ≠ ptInterp) →
      Holds len (phdr img.ePhoff.value i + 8) 8 ∧ img.EndsInside len (img.header img.ePhoff.value i).offset

end Image

variable {img : Image} {len n m i j rounds : Nat} {a ph : Word} {w : Outside len} {bs : List Byte}

theorem within_field : (img.field a n).Within (Inside len) ↔ Holds len a n := by
  rw [Image.field,Traced.within_bind,Traced.within_readAll]
  exact and_iff_left (Traced.within_pure _)

theorem holds_add : Holds len a (n + m) ↔ Holds len a n ∧ Holds len (a + BitVec.ofNat 64 n) m := by
  unfold Holds span
  simp only [List.forall_mem_map,List.mem_range]
  constructor
  · intro all
    refine ⟨fun i less => all i (by omega),fun i less => ?_⟩
    have shifted := all (n + i) (by omega)
    rwa [BitVec.ofNat_add,← BitVec.add_assoc] at shifted
  · rintro ⟨front,back⟩ i less
    by_cases early : i < n
    · exact front i early
    · have shifted := back (i - n) (by omega)
      rwa [BitVec.add_assoc,← BitVec.ofNat_add,Nat.add_sub_cancel' (by omega)] at shifted

/-- A header field lies in the image where it ends there. -/
theorem holds_low (small : n + m < 2 ^ 64) (positive : 0 < m) : Holds len (BitVec.ofNat 64 n) m ↔ n + m ≤ len := by
  unfold Holds span
  simp only [List.forall_mem_map,List.mem_range,Inside]
  have address : ∀ i < m, (BitVec.ofNat 64 n + BitVec.ofNat 64 i).toNat = n + i := by
    intro i less
    rw [← BitVec.ofNat_add,BitVec.toNat_ofNat,Nat.mod_eq_of_lt (by omega)]
  constructor
  · intro all
    have last := all (m - 1) (by omega)
    rw [address _ (by omega)] at last
    omega
  · intro fits i less
    rw [address i less]
    omega

theorem next_cell (a : Word) (i : Nat) : a + BitVec.ofNat 64 (i + 1) = a + 1 + BitVec.ofNat 64 i := by
  rw [BitVec.ofNat_add,BitVec.add_comm (BitVec.ofNat 64 i),← BitVec.add_assoc]
  rfl

theorem within_begins : (img.begins a bs).Within (Inside len) ↔
    ∀ j (less : j < bs.length), (∀ i (earlier : i < j), img (a + BitVec.ofNat 64 i) = bs[i]) →
      Inside len (a + BitVec.ofNat 64 j) := by
  induction bs generalizing a with
  | nil => exact iff_of_true (Traced.within_pure _) fun j less => absurd less (Nat.not_lt_zero j)
  | cons b rest ih =>
    have next := next_cell a
    rw [Image.begins,Traced.within_bind,Traced.within_read,Traced.value_read]
    constructor
    · rintro ⟨first,others⟩ j less same
      cases j with
      | zero =>
        rw [BitVec.add_zero]
        exact first
      | succ j =>
        have start : img (a + BitVec.ofNat 64 0) = b := same 0 (Nat.succ_pos j)
        rw [BitVec.add_zero] at start
        rw [if_pos start,ih] at others
        rw [next]
        refine others j (Nat.lt_of_succ_lt_succ less) fun i earlier => ?_
        rw [← next]
        exact same (i + 1) (Nat.succ_lt_succ earlier)
    · intro all
      refine ⟨?_,?_⟩
      · have start := all 0 (Nat.succ_pos _) fun i earlier => absurd earlier (Nat.not_lt_zero i)
        rwa [BitVec.add_zero] at start
      · split
        · rename_i start
          rw [ih]
          intro j less same
          rw [← next]
          refine all (j + 1) (Nat.succ_lt_succ less) fun i earlier => ?_
          cases i with
          | zero =>
            rw [BitVec.add_zero]
            exact start
          | succ i =>
            rw [next]
            exact same i (Nat.lt_of_succ_lt_succ earlier)
        · exact Traced.within_pure _

theorem begins_value :
    (img.begins a bs).value = true ↔ ∀ j (less : j < bs.length), img (a + BitVec.ofNat 64 j) = bs[j] := by
  induction bs generalizing a with
  | nil => exact iff_of_true rfl fun j less => absurd less (Nat.not_lt_zero j)
  | cons b rest ih =>
    have next := next_cell a
    rw [Image.begins,Traced.value_bind,Traced.value_read]
    constructor
    · intro found j less
      split at found
      · rename_i start
        cases j with
        | zero =>
          rw [BitVec.add_zero]
          exact start
        | succ j =>
          rw [next]
          exact ih.mp found j (Nat.lt_of_succ_lt_succ less)
      · cases found
    · intro all
      have start : img (a + BitVec.ofNat 64 0) = b := all 0 (Nat.succ_pos _)
      rw [BitVec.add_zero] at start
      rw [if_pos start,ih]
      intro j less
      rw [← next]
      exact all (j + 1) (Nat.succ_lt_succ less)

theorem holds_offset_vaddr : Holds len (a + 8) 16 ↔ Holds len (a + 8) 8 ∧ Holds len (a + 16) 8 := by
  rw [show 16 = 8 + 8 from rfl,holds_add,BitVec.add_assoc]
  rfl

theorem holds_filesz_memsz : Holds len (a + 32) 16 ↔ Holds len (a + 32) 8 ∧ Holds len (a + 40) 8 := by
  rw [show 16 = 8 + 8 from rfl,holds_add,BitVec.add_assoc]
  rfl

theorem within_findInterp {ph : Word} (types : ∀ m < n, (img.pType (Image.phdr ph (i + m))).Within (Inside len)) :
    (img.findInterp ph n i).Within (Inside len) := by
  induction n generalizing i with
  | zero => exact Traced.within_pure _
  | succ n ih =>
    rw [Image.findInterp,Traced.within_bind]
    refine ⟨types 0 (Nat.succ_pos n),?_⟩
    split
    · exact Traced.within_pure _
    · refine ih fun m less => ?_
      rw [Nat.add_right_comm]
      exact types (m + 1) (Nat.succ_lt_succ less)

theorem findInterp_some {ph : Word} (found : (img.findInterp ph n i).value = some j) :
    j < i + n ∧ (img.header ph j).type = ptInterp ∧ ∀ m, i ≤ m → m < j → (img.header ph m).type ≠ ptInterp := by
  induction n generalizing i with
  | zero => cases found
  | succ n ih =>
    rw [Image.findInterp,Traced.value_bind] at found
    split at found
    · rename_i is
      obtain rfl := Option.some.inj found
      exact ⟨by omega,is,fun m from' below => absurd below (Nat.not_lt.mpr from')⟩
    · rename_i other
      obtain ⟨inside,is,first⟩ := ih found
      refine ⟨by omega,is,fun m from' below => ?_⟩
      rcases Nat.eq_or_lt_of_le from' with rfl | later
      · exact other
      · exact first m later below

theorem within_mainPhdr {ph : Word} (types : ∀ m < n, (img.pType (Image.phdr ph (i + m))).Within (Inside len))
    (loads : ∀ m < n, (img.header ph (i + m)).type = ptLoad → Holds len (Image.phdr ph (i + m) + 8) 16 ∧
      Holds len (Image.phdr ph (i + m) + 32) 16) :
    (img.mainPhdr ph n i).Within (Inside len) := by
  induction n generalizing i with
  | zero => exact Traced.within_pure _
  | succ n ih =>
    have rest : (img.mainPhdr ph n (i + 1)).Within (Inside len) := by
      refine ih (fun m less => ?_) fun m less load => ?_
      · rw [Nat.add_right_comm]
        exact types (m + 1) (Nat.succ_lt_succ less)
      · rw [Nat.add_right_comm] at load ⊢
        exact loads (m + 1) (Nat.succ_lt_succ less) load
    rw [Image.mainPhdr,Traced.within_bind]
    refine ⟨types 0 (Nat.succ_pos n),?_⟩
    split
    · rename_i load
      obtain ⟨front,back⟩ := loads 0 (Nat.succ_pos n) load
      rw [holds_offset_vaddr] at front
      rw [holds_filesz_memsz] at back
      rw [Traced.within_bind]
      refine ⟨?_,?_⟩
      · rw [Image.phdrAddress,Traced.within_bind]
        refine ⟨within_field.mpr front.1,?_⟩
        split
        · exact Traced.within_pure _
        · rw [Traced.within_bind]
          refine ⟨within_field.mpr back.1,?_⟩
          split
          · rw [Traced.within_bind]
            exact ⟨within_field.mpr front.2,Traced.within_pure _⟩
          · exact Traced.within_pure _
      · split
        · exact Traced.within_pure _
        · exact rest
    · exact rest

theorem endsInside_succ (first : Inside len a) (rest : img.EndsInside len (a + 1)) : img.EndsInside len a := by
  obtain ⟨n,nul,inside⟩ := rest
  refine ⟨n + 1,next_cell a n ▸ nul,fun m le => ?_⟩
  cases m with
  | zero =>
    rw [BitVec.add_zero]
    exact first
  | succ m =>
    rw [next_cell]
    exact inside m (Nat.le_of_succ_le_succ le)

theorem endsInside_cases (ends : img.EndsInside len a) :
    Inside len a ∧ (img a = 0 ∨ img.EndsInside len (a + 1)) := by
  obtain ⟨n,nul,inside⟩ := ends
  have first := inside 0 (Nat.zero_le n)
  rw [BitVec.add_zero] at first
  refine ⟨first,?_⟩
  cases n with
  | zero =>
    rw [BitVec.add_zero] at nul
    exact .inl nul
  | succ n =>
    rw [next_cell] at nul
    exact .inr ⟨n,nul,fun m le => next_cell a m ▸ inside (m + 1) (Nat.succ_le_succ le)⟩

theorem text_ends (run : Confined (Inside len) (Traced.loop img.textStep rounds (a,bs))) :
    img.EndsInside len a := by
  obtain ⟨out,run,within⟩ := run
  induction rounds generalizing a bs out with
  | zero => cases run
  | succ rounds ih =>
    rw [Traced.loop] at run
    by_cases nul : img a = 0
    · have turn : (img.textStep (a,bs)).value = .inr bs := if_pos nul
      rw [turn] at run
      obtain rfl := Option.some.inj run
      have here := List.forall_mem_singleton.mp within
      refine ⟨0,by rw [BitVec.add_zero]; exact nul,fun m le => ?_⟩
      obtain rfl := Nat.le_zero.mp le
      rw [BitVec.add_zero]
      exact here
    · have turn : (img.textStep (a,bs)).value = .inl (a + 1,bs ++ [img a]) := if_neg nul
      rw [turn] at run
      obtain ⟨rest,later,rfl⟩ := Option.map_eq_some_iff.mp run
      obtain ⟨first,others⟩ := List.forall_mem_append.mp within
      exact endsInside_succ (List.forall_mem_singleton.mp first) (ih rest later others)

theorem text_confined (ends : img.EndsInside len a) (bs : List Byte) :
    ∃ rounds, Confined (Inside len) (Traced.loop img.textStep rounds (a,bs)) := by
  obtain ⟨n,nul,inside⟩ := ends
  induction n generalizing a bs with
  | zero =>
    rw [BitVec.add_zero] at nul
    have here := inside 0 (Nat.le_refl 0)
    rw [BitVec.add_zero] at here
    have turn : (img.textStep (a,bs)).value = .inr bs := if_pos nul
    refine ⟨1,⟨bs,[a]⟩,?_,List.forall_mem_singleton.mpr here⟩
    rw [Traced.loop,turn]
    rfl
  | succ n ih =>
    have here := inside 0 (Nat.zero_le _)
    rw [BitVec.add_zero] at here
    by_cases stop : img a = 0
    · have turn : (img.textStep (a,bs)).value = .inr bs := if_pos stop
      refine ⟨1,⟨bs,[a]⟩,?_,List.forall_mem_singleton.mpr here⟩
      rw [Traced.loop,turn]
      rfl
    · rw [next_cell] at nul
      obtain ⟨rounds,out,run,within⟩ := ih (bs ++ [img a]) nul fun m le => next_cell a m ▸ inside (m + 1)
        (Nat.succ_le_succ le)
      have turn : (img.textStep (a,bs)).value = .inl (a + 1,bs ++ [img a]) := if_neg stop
      refine ⟨rounds + 1,⟨out.value,a :: out.reads⟩,?_,List.forall_mem_cons.mpr ⟨here,within⟩⟩
      rw [Traced.loop,turn]
      dsimp only
      rw [run]
      rfl

/-- The name behind a slash ends where the text with the slash does. -/
theorem interpName_confined {at' : Word} : (∃ rounds, Confined (Inside len) (img.interpName rounds at')) ↔
    Holds len (at' + 8) 8 ∧ img.EndsInside len (img.pOffset at').value := by
  have slashes : img (img.pOffset at').value = slash → img (img.pOffset at').value ≠ 0 := fun same => by
    rw [same]
    decide
  constructor
  · rintro ⟨rounds,run⟩
    obtain ⟨start,same,within,text⟩ := Traced.confined_andThen.mp run
    obtain rfl := Option.some.inj same
    simp only [Traced.within_bind,Traced.within_read,Traced.within_pure,and_true] at within
    refine ⟨within_field.mp within.1,?_⟩
    have text : Confined (Inside len) (Traced.loop img.textStep rounds
        (if img (img.pOffset at').value = slash then (img.pOffset at').value + 1 else (img.pOffset at').value,[])) := text
    by_cases same : img (img.pOffset at').value = slash
    · rw [if_pos same] at text
      exact endsInside_succ within.2 (text_ends text)
    · rw [if_neg same] at text
      exact text_ends text
  · rintro ⟨field,ends⟩
    obtain ⟨first,rest⟩ := endsInside_cases ends
    have start : img.EndsInside len (if img (img.pOffset at').value = slash then (img.pOffset at').value +
      1 else (img.pOffset at').value) := by
      split
      · rename_i same
        exact rest.resolve_left (slashes same)
      · exact ends
    obtain ⟨rounds,run⟩ := text_confined start []
    refine ⟨rounds,Traced.confined_andThen.mpr ⟨_,rfl,?_,run⟩⟩
    simp only [Traced.within_bind,Traced.within_read,Traced.within_pure,and_true]
    exact ⟨within_field.mpr field,first⟩

end Qsoe.Spawn
