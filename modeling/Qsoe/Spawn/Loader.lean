import Qsoe.Lib.Traced
import Qsoe.Spawn.Stack

/-! `load_elf_segments`: the pages of a program's segments are filled from its image through the scratch
window, mapped into the child and recorded. Addresses in the image are distances from its first
byte; what lies at other distances is taskman's own memory. -/
namespace Qsoe.Spawn

open Qsoe.Path (Byte)
open Words (span)

abbrev Image := Word → Byte

/-- `PT_LOAD`, `PT_INTERP`, `PT_GNU_RELRO`, `PF_W` and `PF_R`. -/
def ptLoad : Word := 1
def ptInterp : Word := 3
def ptGnuRelro : Word := 0x6474e552
def pfW : Word := 2
def pfR : Word := 4

/-- `SPAWN_MAX_FRAMES` and `SPAWN_MAX_RELRO`. -/
def maxFrames : Nat := 256
def maxRelro : Nat := 8

def pageMask : Word := 0xFFF

namespace Image

/-- A field of `n` bytes, at most eight. -/
def field (img : Image) (a : Word) (n : Nat) : Traced Word Word := do
  let bs ← Traced.readAll img (span a n)
  pure (Words.wordOf bs)

/-- The fields of `struct elf64_hdr` that are read. -/
def eType (img : Image) : Traced Word Word := img.field 16 2
def eEntry (img : Image) : Traced Word Word := img.field 24 8
def ePhoff (img : Image) : Traced Word Word := img.field 32 8
def ePhnum (img : Image) : Traced Word Word := img.field 56 2

/-- The entry `i` of the program headers at `ph`. -/
def phdr (ph : Word) (i : Nat) : Word := ph + BitVec.ofNat 64 (56 * i)

/-- The fields of a `struct elf64_phdr` that are read. -/
def pType (img : Image) (at' : Word) : Traced Word Word := img.field at' 4
def pFlags (img : Image) (at' : Word) : Traced Word Word := img.field (at' + 4) 4
def pOffset (img : Image) (at' : Word) : Traced Word Word := img.field (at' + 8) 8
def pVaddr (img : Image) (at' : Word) : Traced Word Word := img.field (at' + 16) 8
def pFilesz (img : Image) (at' : Word) : Traced Word Word := img.field (at' + 32) 8
def pMemsz (img : Image) (at' : Word) : Traced Word Word := img.field (at' + 40) 8

end Image

structure PageRights where
  read : Bool
  write : Bool
  deriving DecidableEq, Repr

/-- A page of the child. -/
structure Place where
  va : Word
  frame : Nat
  rights : PageRights
  deriving DecidableEq, Repr

/-- What the kernel answers about one page: the slot of the new frame, and whether it maps and unmaps
the frame in the scratch window and maps it in the child. -/
structure PageKernel where
  slot : Nat
  scratch : Bool
  unscratch : Bool
  mapped : Bool
  deriving DecidableEq, Repr

structure Extent where
  base : Word
  vend : Word
  filesz : Word
  src : Word
  deriving DecidableEq, Repr

/-- Where the loader is: before a program header of the first loop, at a page of one, or before a
program header of the second loop. -/
inductive Stage where
  | header (i : Nat)
  | page (i : Nat) (seg : Extent) (v : Word)
  | relro (i : Nat)
  deriving DecidableEq, Repr

/-- `used` are the slots of taskman that hold a cap, `tables` the addresses of the child that its page
tables cover, `frames` is `s_frames` and `relro` is `s_relro`. -/
structure Loader where
  stage : Stage
  ph : Word
  mem : Frames
  used : List Nat
  tables : Word → Bool
  pages : List Place
  frames : List (Word × Nat)
  relro : List (Word × Word)

/-- `base & ~0xFFF` and `(base + memsz + 0xFFF) & ~0xFFF`. -/
def pageDown (a : Word) : Word := a &&& ~~~pageMask
def pageUp (a : Word) : Word := (a + pageMask) &&& ~~~pageMask

namespace Extent

/-- `in_page_start` -/
def inPageStart (seg : Extent) (v : Word) : Word := if v < seg.base then seg.base - v else 0

/-- `file_off_at_v` -/
def fileOff (seg : Extent) (v : Word) : Word := if seg.base < v then v - seg.base else 0

/-- `file_bytes_this_page` -/
def fileBytes (seg : Extent) (v : Word) : Word :=
  if seg.fileOff v < seg.filesz then
    if 0x1000 - seg.inPageStart v < seg.filesz - seg.fileOff v then 0x1000 - seg.inPageStart v
    else seg.filesz - seg.fileOff v
  else 0

end Extent

/-- `spawn_record_frame` -/
def recordFrame (frames : List (Word × Nat)) (v : Word) (frame : Nat) : Option (List (Word × Nat)) :=
  if maxFrames ≤ frames.length then none else some (frames ++ [(v,frame)])

/-- `spawn_find_frame` -/
def findFrame (frames : List (Word × Nat)) (va : Word) : Option Nat :=
  (frames.find? fun e => e.1 = pageDown va).map Prod.snd

namespace Loader

/-- The bytes of the page are put into its frame. -/
def fill (s : Loader) (frame : Nat) (start : Word) (bytes : List Byte) : Loader :=
  { s with used := frame :: s.used, mem := Memory.store (s.mem.clear frame) frame start bytes }

def Vacant (s : Loader) (v : Word) : Prop := s.tables v = true ∧ ∀ p ∈ s.pages, p.va ≠ v

instance (s : Loader) (v : Word) : Decidable (s.Vacant v) := inferInstanceAs (Decidable (_ ∧ _))

/-- The frame is mapped in the child and recorded. -/
def install (s : Loader) (i : Nat) (seg : Extent) (v : Word) (frame : Nat) (mapped : Bool) (rights : PageRights) :
    Loader ⊕ Loader × Bool :=
  if mapped = false ∨ ¬s.Vacant v then .inr (s,false)
  else
    match recordFrame s.frames v frame with
    | none => .inr ({ s with pages := ⟨v,frame,rights⟩ :: s.pages },false)
    | some frames =>
      .inl { s with stage := .page i seg (v + 0x1000), pages := ⟨v,frame,rights⟩ :: s.pages, frames := frames }

/-- The rights of a page of the program header. -/
def rightsOf (flags : Word) : PageRights := ⟨decide (flags &&& pfR ≠ 0),decide (flags &&& pfW ≠ 0)⟩

/-- One turn of the loop over the pages of a segment. -/
def loadPage (k : PageKernel) (img : Image) (s : Loader) (i : Nat) (seg : Extent) (v : Word) :
    Traced Word (Loader ⊕ Loader × Bool) :=
  if k.slot = 0 ∨ k.slot ∈ s.used then pure (.inr (s,false))
  else if k.scratch = false then pure (.inr ({ s with used := k.slot :: s.used },false))
  else do
    let bytes ← Traced.readAll img (span (seg.src + seg.fileOff v) (seg.fileBytes v).toNat)
    if k.unscratch = false then pure (.inr (s.fill k.slot (seg.inPageStart v) bytes,false))
    else
      let flags ← img.pFlags (Image.phdr s.ph i)
      pure ((s.fill k.slot (seg.inPageStart v) bytes).install i seg v k.slot k.mapped (rightsOf flags))

/-- A program header of type `PT_LOAD`. -/
def enter (img : Image) (off : Word) (s : Loader) (i : Nat) : Traced Word Loader := do
  let vaddr ← img.pVaddr (Image.phdr s.ph i)
  let memsz ← img.pMemsz (Image.phdr s.ph i)
  let filesz ← img.pFilesz (Image.phdr s.ph i)
  let offset ← img.pOffset (Image.phdr s.ph i)
  pure { s with stage := .page i ⟨off + vaddr,pageUp (off + vaddr + memsz),filesz,offset⟩ (pageDown (off + vaddr)) }

/-- A program header of type `PT_GNU_RELRO`; where the table is full the loop is left. -/
def noteRelro (img : Image) (off : Word) (s : Loader) (i : Nat) : Traced Word (Loader ⊕ Loader × Bool) := do
  let vaddr ← img.pVaddr (Image.phdr s.ph i)
  let memsz ← img.pMemsz (Image.phdr s.ph i)
  if maxRelro ≤ s.relro.length then pure (.inr (s,true))
  else pure (.inl { s with
    stage := .relro (i + 1), relro := s.relro ++ [(pageDown (off + vaddr),pageUp (off + vaddr + memsz))] })

/-- One step of `load_elf_segments`; the answer says whether it returns 0. -/
def step (k : Nat → PageKernel) (img : Image) (off : Word) (s : Loader) : Traced Word (Loader ⊕ Loader × Bool) :=
  match s.stage with
  | .header i => do
    let phnum ← img.ePhnum
    if phnum.toNat ≤ i then pure (.inl { s with stage := .relro 0 })
    else
      let type ← img.pType (Image.phdr s.ph i)
      if type = ptLoad then do
        let t ← enter img off s i
        pure (.inl t)
      else pure (.inl { s with stage := .header (i + 1) })
  | .page i seg v =>
    if v < seg.vend then loadPage (k s.frames.length) img s i seg v
    else pure (.inl { s with stage := .header (i + 1) })
  | .relro i => do
    let phnum ← img.ePhnum
    if phnum.toNat ≤ i then pure (.inr (s,true))
    else
      let type ← img.pType (Image.phdr s.ph i)
      if type = ptGnuRelro then noteRelro img off s i else pure (.inl { s with stage := .relro (i + 1) })

/-- `load_elf_segments` behind the read of `e_phoff`, for so many steps at most. -/
def run (rounds : Nat) (k : Nat → PageKernel) (img : Image) (off : Word) (s : Loader) :
    Option (Traced Word (Loader × Bool)) :=
  Traced.loop (step k img off) rounds s

/-- `load_elf_segments` -/
def loadElfSegments (rounds : Nat) (k : Nat → PageKernel) (img : Image) (off : Word) (s : Loader) :
    Option (Traced Word (Loader × Bool)) :=
  (run rounds k img off { s with stage := .header 0, ph := img.ePhoff.value }).map fun out => do
    let _ ← img.ePhoff
    out

/-- The byte the child finds at an address. -/
def childByte (s : Loader) (va : Word) : Option Byte :=
  (s.pages.find? fun p => p.va = pageDown va).map fun p => s.mem p.frame (va - p.va)

end Loader

structure Phdr where
  type : Word
  flags : Word
  offset : Word
  vaddr : Word
  filesz : Word
  memsz : Word
  deriving DecidableEq, Repr

/-- The program header `i`. -/
def Image.header (img : Image) (ph : Word) (i : Nat) : Phdr where
  type := (img.pType (Image.phdr ph i)).value
  flags := (img.pFlags (Image.phdr ph i)).value
  offset := (img.pOffset (Image.phdr ph i)).value
  vaddr := (img.pVaddr (Image.phdr ph i)).value
  filesz := (img.pFilesz (Image.phdr ph i)).value
  memsz := (img.pMemsz (Image.phdr ph i)).value

def Image.phnum (img : Image) : Nat := img.ePhnum.value.toNat

namespace Phdr

variable (h : Phdr) (off : Word)

def base : Word := off + h.vaddr

def extent : Extent := ⟨h.base off,pageUp (h.base off + h.memsz),h.filesz,h.offset⟩

/-- The page `j` of the segment. -/
def pageAt (j : Nat) : Word := pageDown (h.base off) + BitVec.ofNat 64 (4096 * j)

def pageCount : Nat := ((pageUp (h.base off + h.memsz)).toNat - (pageDown (h.base off)).toNat) / 4096

/-- The first `n` pages of the segment. -/
def firstPages (n : Nat) : List (Phdr × Word) := (List.range n).map fun j => (h,h.pageAt off j)

def byteAt (img : Image) (a : Word) : Byte :=
  if h.base off ≤ a ∧ a - h.base off < h.filesz then img (h.offset + (a - h.base off)) else 0

end Phdr

/-- The pages of the first `n` program headers. -/
def Image.pagesBefore (img : Image) (ph off : Word) (n : Nat) : List (Phdr × Word) :=
  ((List.range n).map (img.header ph)).flatMap fun h => if h.type = ptLoad then h.firstPages off
    (h.pageCount off) else []

/-- The program headers. -/
def Image.headers (img : Image) : List Phdr := (List.range img.phnum).map (img.header img.ePhoff.value)

/-- The addresses of the pages that a segment touches. -/
def Phdr.Covers (h : Phdr) (off v : Word) : Prop :=
  v.toNat % 4096 = 0 ∧ pageDown (h.base off) ≤ v ∧ v < pageUp (h.base off + h.memsz)

inductive Position (img : Image) (ph off : Word) : Stage → List (Phdr × Word) → Prop where
  | header (i : Nat) (inside : i ≤ img.phnum) : Position img ph off (.header i) (img.pagesBefore ph off i)
  | page (i j : Nat) (inside : i < img.phnum) (load : (img.header ph i).type = ptLoad)
      (before : j ≤ (img.header ph i).pageCount off) :
      Position img ph off (.page i ((img.header ph i).extent off) ((img.header ph i).pageAt off j))
        (img.pagesBefore ph off i ++ (img.header ph i).firstPages off j)
  | relro (i : Nat) : Position img ph off (.relro i) (img.pagesBefore ph off img.phnum)

structure Filled (img : Image) (off : Word) (mem : Frames) (e : Phdr × Word) (p : Place) : Prop where
  va : p.va = e.2
  rights : p.rights = Loader.rightsOf e.1.flags
  bytes : ∀ i < 4096, mem p.frame (BitVec.ofNat 64 i) = e.1.byteAt off img (e.2 + BitVec.ofNat 64 i)

structure Loader.Placeable (s : Loader) (vs : List Word) : Prop where
  once : vs.Nodup
  vacant : ∀ v ∈ vs, s.Vacant v
  room : ∀ n < vs.length, s.frames.length + n < maxFrames

/-- These pages have been loaded since `s`, into the frames that the kernel gave one after the other. -/
structure Loader.Loaded (k : Nat → PageKernel) (img : Image) (off : Word) (s : Loader) (es : List (Phdr × Word))
    (places : List Place) (t : Loader) :
    Prop where
  ph : t.ph = s.ph
  tables : t.tables = s.tables
  filled : List.Forall₂ (Filled img off t.mem) es places
  pages : t.pages = places.reverse ++ s.pages
  frames : t.frames = s.frames ++ places.map fun p => (p.va,p.frame)
  used : t.used = (places.map Place.frame).reverse ++ s.used
  slots : places.map Place.frame = (List.range places.length).map fun n => (k (s.frames.length + n)).slot
  kept : ∀ f ∈ s.used, t.mem f = s.mem f
  placeable : s.Placeable (es.map Prod.snd)

variable {img : Image} {ph off : Word} {h : Phdr} {mem : Frames} {v : Word} {i j frame : Nat}

theorem pageMask_toNat : pageMask.toNat = 2 ^ 12 - 1 := rfl

theorem pageDown_toNat (a : Word) : (pageDown a).toNat = a.toNat / 2 ^ 12 * 2 ^ 12 :=
  Align.toNat_and_not a pageMask pageMask_toNat

theorem pageUp_toNat (a : Word) : (pageUp a).toNat = (a + pageMask).toNat / 2 ^ 12 * 2 ^ 12 :=
  Align.toNat_and_not _ pageMask pageMask_toNat

theorem Phdr.pageAt_toNat (within : j ≤ h.pageCount off) :
    (h.pageAt off j).toNat = (pageDown (h.base off)).toNat + 4096 * j := by
  have top := (pageUp (h.base off + h.memsz)).isLt
  have bottom := (pageDown (h.base off)).isLt
  rw [pageCount] at within
  rw [pageAt,BitVec.toNat_add,BitVec.toNat_ofNat]
  omega

theorem Phdr.pages_end (h : Phdr) (off : Word) (positive : 0 < h.pageCount off) :
    (pageDown (h.base off)).toNat + 4096 * h.pageCount off ≤ (h.extent off).vend.toNat := by
  have vend : (h.extent off).vend = pageUp (h.base off + h.memsz) := rfl
  rw [vend]
  rw [pageCount] at positive ⊢
  omega

theorem Phdr.pageAt_lt (within : j ≤ h.pageCount off) :
    h.pageAt off j < (h.extent off).vend ↔ j < h.pageCount off := by
  have here := h.pageAt_toNat within
  have up := pageUp_toNat (h.base off + h.memsz)
  have down := pageDown_toNat (h.base off)
  have vend : (h.extent off).vend = pageUp (h.base off + h.memsz) := rfl
  rw [BitVec.lt_def,here,vend]
  rw [pageCount] at within ⊢
  omega

theorem Phdr.covers_iff (h : Phdr) (off v : Word) : h.Covers off v ↔ ∃ j < h.pageCount off, v = h.pageAt off j := by
  have up := pageUp_toNat (h.base off + h.memsz)
  have down := pageDown_toNat (h.base off)
  constructor
  · rintro ⟨aligned,low,high⟩
    rw [BitVec.le_def] at low
    rw [BitVec.lt_def] at high
    have less : (v.toNat - (pageDown (h.base off)).toNat) / 4096 < h.pageCount off := by
      rw [pageCount]
      omega
    refine ⟨_,less,BitVec.eq_of_toNat_eq ?_⟩
    rw [h.pageAt_toNat (Nat.le_of_lt less)]
    omega
  · rintro ⟨j,less,rfl⟩
    have here := h.pageAt_toNat (Nat.le_of_lt less)
    have inside := (h.pageAt_lt (Nat.le_of_lt less)).mpr less
    exact ⟨by omega,by rw [BitVec.le_def]; omega,inside⟩

theorem Phdr.pageAt_succ (h : Phdr) (off : Word) (j : Nat) : h.pageAt off j + 0x1000 = h.pageAt off (j + 1) := by
  have page : (0x1000 : Word) = BitVec.ofNat 64 4096 := rfl
  rw [pageAt,pageAt,page,BitVec.add_assoc,← BitVec.ofNat_add]
  rfl

theorem Phdr.pageAt_zero (h : Phdr) (off : Word) : h.pageAt off 0 = pageDown (h.base off) := BitVec.add_zero _

theorem Phdr.firstPages_succ (h : Phdr) (off : Word) (j : Nat) :
    h.firstPages off (j + 1) = h.firstPages off j ++ [(h,h.pageAt off j)] := by
  rw [firstPages,List.range_succ,List.map_append]
  rfl

theorem Image.pagesBefore_succ (img : Image) (ph off : Word) (n : Nat) : img.pagesBefore ph off (n + 1) =
    img.pagesBefore ph off n ++ if (img.header ph n).type = ptLoad
      then (img.header ph n).firstPages off ((img.header ph n).pageCount off) else [] := by
  rw [pagesBefore,List.range_succ,List.map_append,List.flatMap_append]
  simp [pagesBefore]

namespace Extent

variable {seg : Extent}

theorem inPageStart_toNat (seg : Extent) (v : Word) : (seg.inPageStart v).toNat = seg.base.toNat - v.toNat := by
  unfold inPageStart
  split
  · rename_i below
    exact BitVec.toNat_sub_of_le (BitVec.le_of_lt below)
  · rename_i above
    rw [BitVec.lt_def] at above
    exact (Nat.sub_eq_zero_of_le (Nat.le_of_not_lt above)).symm

theorem fileOff_toNat (seg : Extent) (v : Word) : (seg.fileOff v).toNat = v.toNat - seg.base.toNat := by
  unfold fileOff
  split
  · rename_i below
    exact BitVec.toNat_sub_of_le (BitVec.le_of_lt below)
  · rename_i above
    rw [BitVec.lt_def] at above
    exact (Nat.sub_eq_zero_of_le (Nat.le_of_not_lt above)).symm

theorem fileBytes_toNat (seg : Extent) (v : Word) (near : seg.base.toNat - v.toNat < 4096) :
    (seg.fileBytes v).toNat =
    min (seg.filesz.toNat - (v.toNat - seg.base.toNat)) (4096 - (seg.base.toNat - v.toNat)) := by
  have start := seg.inPageStart_toNat v
  have behind := seg.fileOff_toNat v
  have size : (0x1000 : Word).toNat = 4096 := rfl
  have left : ((0x1000 : Word) - seg.inPageStart v).toNat = 4096 - (seg.base.toNat - v.toNat) := by
    rw [BitVec.toNat_sub_of_le (by rw [BitVec.le_def]; omega),start,size]
  unfold fileBytes
  split
  · rename_i more
    rw [BitVec.lt_def] at more
    have rest : (seg.filesz - seg.fileOff v).toNat = seg.filesz.toNat - (v.toNat - seg.base.toNat) := by
      rw [BitVec.toNat_sub_of_le (by rw [BitVec.le_def]; omega),behind]
    split
    · rename_i long
      rw [BitVec.lt_def] at long
      omega
    · rename_i short
      rw [BitVec.lt_def] at short
      omega
  · rename_i done
    have zero : (0 : Word).toNat = 0 := rfl
    rw [BitVec.lt_def] at done
    omega

end Extent

theorem clear_byte (m : Frames) (frame : Nat) (below : i < pageBytes) :
    m.clear frame frame (BitVec.ofNat 64 i) = 0 := by
  have size := pageBytes_eq
  have index : (BitVec.ofNat 64 i - 0 : Word).toNat = i := by
    rw [show (BitVec.ofNat 64 i - 0 : Word) = BitVec.ofNat 64 i from BitVec.sub_zero _,BitVec.toNat_ofNat]
    omega
  rw [Frames.clear,Memory.store,if_pos rfl,index,List.getElem?_replicate,if_pos below,Option.getD_some]

theorem getElem?_span (a : Word) (n k : Nat) :
    ((span a n).map img)[k]? = if k < n then some (img (a + BitVec.ofNat 64 k)) else none := by
  rw [span,List.map_map,List.getElem?_map]
  split
  · rename_i below
    rw [List.getElem?_range below]
    rfl
  · rename_i above
    rw [List.getElem?_eq_none (by rw [List.length_range]; omega)]
    rfl

theorem inFile_iff {b v i : Nat} (filesz : Nat) (below : i < 4096) (reached : b ≤ v + i) :
    i - (b - v) < min (filesz - (v - b)) (4096 - (b - v)) ↔ v + i - b < filesz := by
  rw [Nat.lt_min]
  omega

theorem offset_wraps {b v i : Nat} (near : b - v < 4096) (before : ¬b ≤ v + i) :
    4096 ≤ (2 ^ 64 - (b - v) + i) % 2 ^ 64 := by
  rw [Nat.mod_eq_of_lt (by omega)]
  omega

theorem offset_toNat {x : Word} (below : i < 4096) (le : x.toNat ≤ i) :
    (BitVec.ofNat 64 i - x).toNat = i - x.toNat := by
  have small : (BitVec.ofNat 64 i : Word).toNat = i := by
    rw [BitVec.toNat_ofNat,Nat.mod_eq_of_lt (by omega)]
  rw [BitVec.toNat_sub_of_le (by rw [BitVec.le_def,small]; exact le),small]

theorem inPage_toNat (aligned : v.toNat % 4096 = 0) (below : i < 4096) :
    (v + BitVec.ofNat 64 i).toNat = v.toNat + i := by
  have bound := v.isLt
  rw [BitVec.toNat_add,BitVec.toNat_ofNat,Nat.mod_eq_of_lt (a := i) (by omega),Nat.mod_eq_of_lt (by omega)]

theorem base_near (from' : (pageDown (h.base off)).toNat ≤ v.toNat) : (h.base off).toNat - v.toNat < 4096 := by
  rw [pageDown_toNat] at from'
  omega

/-- A page is filled with what the child is to find there. -/
theorem fill_byte (from' : (pageDown (h.base off)).toNat ≤ v.toNat) (aligned : v.toNat % 4096 = 0)
    (below : i < 4096) :
    Memory.store (mem.clear frame) frame ((h.extent off).inPageStart v)
      ((span ((h.extent off).src + (h.extent off).fileOff v) ((h.extent off).fileBytes v).toNat).map img) frame
        (BitVec.ofNat 64 i) =
      h.byteAt off img (v + BitVec.ofNat 64 i) := by
  have near := base_near from'
  have start : ((h.extent off).inPageStart v).toNat = (h.base off).toNat - v.toNat :=
    (h.extent off).inPageStart_toNat v
  have behind : ((h.extent off).fileOff v).toNat = v.toNat - (h.base off).toNat := (h.extent off).fileOff_toNat v
  have count : ((h.extent off).fileBytes v).toNat =
      min (h.filesz.toNat - (v.toNat - (h.base off).toNat)) (4096 - ((h.base off).toNat - v.toNat)) :=
    (h.extent off).fileBytes_toNat v near
  have here := inPage_toNat aligned below
  rw [Memory.store,if_pos rfl,getElem?_span,clear_byte mem frame (pageBytes_eq ▸ below),Phdr.byteAt,count]
  by_cases reached : (h.base off).toNat ≤ v.toNat + i
  · have from_base : h.base off ≤ v + BitVec.ofNat 64 i := by
      rw [BitVec.le_def,here]
      exact reached
    have distance : (v + BitVec.ofNat 64 i - h.base off).toNat = v.toNat + i - (h.base off).toNat := by
      rw [BitVec.toNat_sub_of_le from_base,here]
    have index := offset_toNat below (start ▸ Nat.sub_le_iff_le_add'.mpr reached :
      ((h.extent off).inPageStart v).toNat ≤ i)
    rw [start] at index
    have inside := inFile_iff h.filesz.toNat below reached
    rw [index]
    by_cases inFile : v + BitVec.ofNat 64 i - h.base off < h.filesz
    · have same : (h.extent off).src + (h.extent off).fileOff v +
          BitVec.ofNat 64 (i - ((h.base off).toNat - v.toNat)) =
          h.offset + (v + BitVec.ofNat 64 i - h.base off) := by
        rw [BitVec.add_assoc]
        congr 1
        apply BitVec.eq_of_toNat_eq
        rw [distance,BitVec.toNat_add,behind,BitVec.toNat_ofNat]
        have bound := v.isLt
        clear count inside index from' here
        omega
      rw [if_pos (inside.mpr (distance ▸ BitVec.lt_def.mp inFile)),if_pos ⟨from_base,inFile⟩,same]
      rfl
    · rw [if_neg fun less => inFile (BitVec.lt_def.mpr (distance ▸ inside.mp less)),if_neg fun both =>
        inFile both.2]
      rfl
  · have wraps := offset_wraps near reached
    have index : (BitVec.ofNat 64 i - (h.extent off).inPageStart v).toNat =
      (2 ^ 64 - ((h.base off).toNat - v.toNat) + i) % 2 ^ 64 := by
      rw [BitVec.toNat_sub,start,BitVec.toNat_ofNat,Nat.mod_eq_of_lt (a := i) (by omega)]
    have outside : ¬(BitVec.ofNat 64 i - (h.extent off).inPageStart v).toNat <
        min (h.filesz.toNat - (v.toNat - (h.base off).toNat)) (4096 - ((h.base off).toNat - v.toNat)) := by
      rw [index]
      exact Nat.not_lt.mpr (Nat.le_trans (Nat.le_trans (Nat.min_le_right _ _) (Nat.sub_le _ _)) wraps)
    rw [if_neg outside,if_neg fun both => reached (here ▸ BitVec.le_def.mp both.1)]
    rfl

end Qsoe.Spawn
