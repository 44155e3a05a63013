import Qsoe.Lib.Run
import Qsoe.Lib.Slab
import Qsoe.Lib.Untyped
import Qsoe.Lib.Align
import Qsoe.Lib.Mapping

/-! The memory manager of `taskman/mem/mmap.c`: anonymous Mega_Pages behind a per-process cursor
and recycle list, and device regions carved once from their untypeds and mapped by copied caps.
What the kernel and the slot allocator answer is part of a request. -/
namespace Qsoe.Mem

abbrev Pid := BitVec 32
abbrev Addr := BitVec 64

/-- `QSOE_MEGA_PAGE`, `QSOE_PAGE_4K` and `QSOE_MMAP_BASE`. -/
@[irreducible] def megaPage : Addr := 0x200000
@[irreducible] def page4k : Addr := 0x1000
def mmapBase : Addr := 0x2000000

theorem megaPage_toNat : megaPage.toNat = 2 ^ 21 := by
  unfold megaPage
  rfl

theorem page4k_toNat : page4k.toNat = 2 ^ 12 := by
  unfold page4k
  rfl

/-- `TM_MMAP_FREE_MAX`, `TM_MAX_DEVFRAMES`, `TM_DEVMAP_MAX` and `TM_DEVMAP_MAX_FRAMES`. -/
def mmapFreeMax : Nat := 16
def maxDevframes : Nat := 32
def devmapMax : Nat := 16
def devmapMaxFrames : BitVec 32 := 64

structure Rights where
  read : Bool
  write : Bool
  exec : Bool
  deriving DecidableEq, Repr

/-- `QSOE_RIGHTS_ALL` and `QSOE_VM_ATTR_DEFAULT`. -/
def rightsAll : Rights := ⟨true,true,true⟩

structure BootUntyped where
  isDevice : Bool
  paddr : Addr
  sizeBits : Nat
  deriving DecidableEq, Repr

/-- What comes from headers outside the repository and from the kernel: `TM_MAX_MMAP_PER_PROC`,
`TM_MMAP_FLAG_PHYS`, the end of user address space, bootinfo's untyped list and the rights the kernel
gives a mapping of those it is asked for. -/
structure Config where
  maxMmap : Nat
  flagPhys : Addr
  userTop : Nat
  untypeds : List BootUntyped
  userTop_le : userTop ≤ 2 ^ 63
  mask : Rights → Rights
  mask_all : ∀ exec, mask ⟨true,true,exec⟩ = ⟨true,true,exec⟩

/-- What a slot of taskman's CNode holds: a RAM frame, all zero or not, an object in device memory at a
physical address, or something else. -/
inductive Cap where
  | ram (zero : Bool)
  | device (paddr : Nat)
  | other
  deriving DecidableEq, Repr

/-- What a page maps: the slot of the frame, `none` where taskman does not keep its cap, and the rights. -/
structure Backing where
  cap : Option Nat
  rights : Rights
  deriving DecidableEq, Repr

abbrev Page := Mapping Backing

structure DevFrame where
  va : Addr
  cap : Nat
  deriving DecidableEq, Repr

/-- The memory of a `tm_process_t` and the pages of its VSpace. The recycle list is a stack; `mprot` are the
RELRO pages. -/
structure Proc where
  mmapTop : Addr
  mmap : List (Addr × Nat)
  mmapFree : List Nat
  devframes : List DevFrame
  mprot : List (Addr × Nat)
  pages : List Page

/-- The cursor moves to `top`. -/
@[irreducible] def Proc.setTop (p : Proc) (top : Addr) : Proc := { p with mmapTop := top }

@[simp] theorem Proc.setTop_mmapTop (p : Proc) (top : Addr) : (p.setTop top).mmapTop = top := by rw [Proc.setTop]
@[simp] theorem Proc.setTop_mmap (p : Proc) (top : Addr) : (p.setTop top).mmap = p.mmap := by rw [Proc.setTop]
@[simp] theorem Proc.setTop_mmapFree (p : Proc) (top : Addr) : (p.setTop top).mmapFree =
    p.mmapFree := by rw [Proc.setTop]
@[simp] theorem Proc.setTop_devframes (p : Proc) (top : Addr) : (p.setTop top).devframes =
    p.devframes := by rw [Proc.setTop]
@[simp] theorem Proc.setTop_mprot (p : Proc) (top : Addr) : (p.setTop top).mprot = p.mprot := by rw [Proc.setTop]
@[simp] theorem Proc.setTop_pages (p : Proc) (top : Addr) : (p.setTop top).pages = p.pages := by rw [Proc.setTop]

/-- `tm_devmap_t`. -/
structure Devmap where
  phys : Addr
  len : Addr
  granule : Addr
  nframes : BitVec 32
  frames : List Nat
  deriving DecidableEq, Repr

/-- The slots of taskman's CNode. -/
abbrev Slots := Nat → Option Cap

/-- `untyped` is the kernel's side of the untypeds, `hwm` the marks taskman keeps of them. -/
structure State where
  procs : Pid → Option Proc
  slots : Slots
  devmaps : Slab.Table devmapMax Devmap
  hwm : List (Nat × Addr)
  untyped : Nat → Untyped

inductive Errno where
  | einval | esrch | enomem | eacces
  deriving DecidableEq, Repr

def roundUp (x granule : Addr) : Addr := (x + granule - 1) &&& ~~~(granule - 1)

/-- Mega_Pages in `bytes`. -/
@[irreducible] def pagesIn (bytes : Addr) : Nat := (bytes / megaPage).toNat

theorem pagesIn_eq (bytes : Addr) : pagesIn bytes = bytes.toNat / 2 ^ 21 := by
  unfold pagesIn
  rw [BitVec.toNat_udiv,megaPage_toNat]

theorem roundUp_mega (x : Addr) (room : x.toNat + (2 ^ 21 - 1) < 2 ^ 64) :
    (roundUp x megaPage).toNat = (x.toNat + (2 ^ 21 - 1)) / 2 ^ 21 * 2 ^ 21 :=
  Align.toNat_roundUp x megaPage megaPage_toNat room

theorem roundUp_4k (x : Addr) (room : x.toNat + (2 ^ 12 - 1) < 2 ^ 64) :
    (roundUp x page4k).toNat = (x.toNat + (2 ^ 12 - 1)) / 2 ^ 12 * 2 ^ 12 :=
  Align.toNat_roundUp x page4k page4k_toNat room

/-- The kernel fills an empty slot; 0 is no slot. -/
def newSlot (slots : Slots) (slot : Nat) (cap : Cap) : Option Slots :=
  if slot ≠ 0 ∧ slots slot = none then some (Function.update slots slot (some cap)) else none

/-- The page a mapping of the frame in `cap` makes. -/
def pageOf (cfg : Config) (va size : Addr) (cap : Nat) (rights : Rights) : Page :=
  ⟨va.toNat,size.toNat,some cap,cfg.mask rights⟩

/-- The kernel maps a frame of `size` bytes where user space is clear. -/
def pageMap (cfg : Config) (p : Proc) (va size : Addr) (cap : Nat) (rights : Rights) (granted : Bool) :
    Option Proc :=
  if granted ∧ va.toNat + size.toNat ≤ cfg.userTop ∧ Mapping.Clear p.pages va.toNat size.toNat then
    some { p with pages := pageOf cfg va size cap rights :: p.pages }
  else none

/-- `Page_Unmap` of each of the caps. -/
def unmap (p : Proc) (caps : List Nat) : Proc :=
  { p with pages := p.pages.filter fun q => !q.target.cap.any caps.contains }

/-- The answers for one page: `tm_zero_megaframe`, the slot of a fresh frame, `Page_Map`. -/
structure PageKernel where
  zeroed : Bool
  slot : Nat
  mapped : Bool
  deriving DecidableEq, Repr

/-- `tm_zero_megaframe`. -/
def zeroFrame (slots : Slots) (frame : Nat) : Slots := Function.update slots frame (some (.ram true))

/-- A recycled frame is zeroed and put back if that fails; otherwise a fresh one is retyped, which the kernel has
zeroed. -/
def takeFrame (slots : Slots) (p : Proc) (k : PageKernel) : Option (Slots × Proc × Nat) :=
  match p.mmapFree with
  | frame :: rest => if k.zeroed then some (zeroFrame slots frame,{ p with mmapFree := rest },frame) else none
  | [] => (newSlot slots k.slot (.ram true)).map fun filled => (filled,p,k.slot)

/-- One turn of the loop in `mmap_anonymous`; `false` is `-ENOMEM`. -/
def placePage (cfg : Config) (slots : Slots) (p : Proc) (va : Addr) (k : PageKernel) :
    (Slots × Proc) × Bool :=
  match takeFrame slots p k with
  | none => ((slots,p),false)
  | some (filled,taken,frame) =>
    match pageMap cfg taken va megaPage frame rightsAll k.mapped with
    | none => ((filled,taken),false)
    | some there =>
      if cfg.maxMmap ≤ there.mmap.length then ((filled,there),false)
      else ((filled,{ there with mmap := there.mmap ++ [(va,frame)] }),true)

def placePages (cfg : Config) (base : Addr) (k : Nat → PageKernel) :
    Nat → Nat → Slots → Proc → (Slots × Proc) × Bool
  | 0, _, slots, p => ((slots,p),true)
  | n + 1, i, slots, p =>
    match placePage cfg slots p (base + BitVec.ofNat 64 i * megaPage) (k i) with
    | (stopped,false) => (stopped,false)
    | ((filled,placed),true) => placePages cfg base k n (i + 1) filled placed

/-- The loop over `bytes` from `base`, and the cursor behind it. -/
def mmapPages (cfg : Config) (slots : Slots) (p : Proc) (base bytes : Addr) (k : Nat → PageKernel) :
    (Slots × Proc) × Except Errno Addr :=
  match placePages cfg base k (pagesIn bytes) 0 slots p with
  | (stopped,false) => (stopped,.error .enomem)
  | ((filled,placed),true) => ((filled,placed.setTop (base + bytes)),.ok base)

def mmapAnonymous (cfg : Config) (slots : Slots) (p : Proc) (len : Addr) (k : Nat → PageKernel) :
    (Slots × Proc) × Except Errno Addr :=
  mmapPages cfg slots p (roundUp p.mmapTop megaPage) (roundUp len megaPage) k

/-- `devmap_find`. -/
def State.devmapFind (s : State) (phys len : Addr) : Option (Fin devmapMax × Devmap) :=
  Slab.find s.devmaps fun d => d.phys ≤ phys && phys + len ≤ d.phys + d.len

/-- `find_device_ut_containing`: the untyped with its index. -/
def findDeviceUt (uts : List BootUntyped) (paddr len : Addr) : Option (BootUntyped × Nat) :=
  uts.zipIdx.find? fun (u,_) =>
    u.isDevice && u.paddr ≤ paddr && paddr + len ≤ u.paddr + (1#64 <<< u.sizeBits)

/-- `ctz_ul`. -/
def ctz (x : Nat) : Nat := ((List.range 64).find? (x.testBit ·)).getD 64

def chunkBits (utBits target advanced : Nat) : Nat :=
  min (Nat.log2 (target - advanced)) (if advanced = 0 then utBits else ctz advanced)

/-- The throwaway children that take the untyped from `advanced` to `target`. -/
def skipChunks (utBits target advanced : Nat) : List Nat :=
  if advanced < target then
    chunkBits utBits target advanced ::
      skipChunks utBits target (advanced + 2 ^ chunkBits utBits target advanced)
  else []
termination_by target - advanced
decreasing_by
  have positive := Nat.two_pow_pos (chunkBits utBits target advanced)
  omega

/-- The answers for one retype: the slot it goes to and whether the kernel grants it. -/
structure RetypeKernel where
  slot : Nat
  granted : Bool
  deriving DecidableEq, Repr

/-- An object of `2 ^ bits` bytes at the watermark of the device untyped at `paddr`. -/
def State.retype (s : State) (ut paddr bits : Nat) (k : RetypeKernel) : Option State :=
  if k.granted then
    (newSlot s.slots k.slot (.device (paddr + (s.untyped ut).base (2 ^ bits)))).bind fun filled =>
      ((s.untyped ut).retype (2 ^ bits)).map fun u =>
        { s with slots := filled, untyped := Function.update s.untyped ut u }
  else none

/-- The retypes of a carve up to the first that fails; `false` is a failure. -/
def State.retypes (s : State) (ut paddr : Nat) (k : Nat → RetypeKernel) : Nat → List Nat → State × Bool
  | _, [] => (s,true)
  | i, bits :: rest =>
    match s.retype ut paddr bits (k i) with
    | none => (s,false)
    | some made => made.retypes ut paddr k (i + 1) rest

def State.hwmOf (s : State) (ut : Nat) : Addr := ((s.hwm.find? (·.1 == ut)).map (·.2)).getD 0

/-- `ut_hwm_slot`: a new mark starts at 0, `none` when there is no room for one. -/
def State.hwmSlot (s : State) (ut : Nat) : Option State :=
  if (s.hwm.find? (·.1 == ut)).isSome then some s
  else if devmapMax ≤ s.hwm.length then none
  else some { s with hwm := s.hwm ++ [(ut,0)] }

def State.setHwm (s : State) (ut : Nat) (mark : Addr) : State :=
  { s with hwm := s.hwm.map fun e => if e.1 == ut then (e.1,mark) else e }

structure Carve where
  ut : Nat
  paddr : Addr
  utBits : Nat
  offset : Addr
  granule : Addr
  rlen : Addr
  nframes : BitVec 32
  idx : Fin devmapMax
  deriving DecidableEq, Repr

/-- The granule of a region at `offset` of its untyped. -/
def granuleOf (phys offset len : Addr) : Addr :=
  if phys &&& (megaPage - 1) = 0 ∧ offset &&& (megaPage - 1) = 0 ∧ megaPage ≤ len then megaPage else page4k

/-- `devmap_carve` up to the watermark: `nframes` is an `int`. -/
def State.carvePlan (cfg : Config) (s : State) (phys len : Addr) : Option Carve :=
  (findDeviceUt cfg.untypeds phys len).bind fun (u,ut) =>
    let offset := phys - u.paddr
    if (1#64 <<< u.sizeBits) < offset + len then none
    else
      let granule := granuleOf phys offset len
      let rlen := roundUp len granule
      let nframes := (rlen / granule).setWidth 32
      if devmapMaxFrames.slt nframes then none
      else (Slab.free s.devmaps).map fun idx => ⟨ut,u.paddr,u.sizeBits,offset,granule,rlen,nframes,idx⟩

/-- The frames an `int` count asks for. -/
def Carve.count (c : Carve) : Nat := c.nframes.toInt.toNat

def Carve.frameBits (c : Carve) : Nat := if c.granule = megaPage then 21 else 12

/-- The retypes of a carve: throwaway children, then the frames. -/
def Carve.skips (c : Carve) (mark : Addr) : List Nat := skipChunks c.utBits c.offset.toNat mark.toNat

def Carve.objects (c : Carve) (mark : Addr) : List Nat :=
  c.skips mark ++ List.replicate c.count c.frameBits

/-- `devmap_carve`. -/
def State.devmapCarve (cfg : Config) (s : State) (phys len : Addr) (k : Nat → RetypeKernel) :
    State × Option Devmap :=
  match s.carvePlan cfg phys len with
  | none => (s,none)
  | some c =>
    match s.hwmSlot c.ut with
    | none => (s,none)
    | some marked =>
      let mark := marked.hwmOf c.ut
      if c.offset < mark then (marked,none)
      else
        match marked.retypes c.ut c.paddr.toNat k 0 (c.objects mark) with
        | (stopped,false) => (stopped,none)
        | (carved,true) =>
          let frames := (List.range c.count).map fun i => (k ((c.skips mark).length + i)).slot
          let d : Devmap := ⟨phys,c.rlen,c.granule,c.nframes,frames⟩
          ({ carved.setHwm c.ut (c.offset + c.rlen) with devmaps := Slab.put carved.devmaps c.idx d },some d)

/-- The answers for one device frame: its page table, the slot and copy of its cap, `Page_Map`. -/
structure DevKernel where
  pageTable : Bool
  slot : Nat
  copied : Bool
  mapped : Bool
  deriving DecidableEq, Repr

/-- One turn of the loop in `devmap_map_into`. -/
def placeFrame (cfg : Config) (slots : Slots) (p : Proc) (d : Devmap) (f : BitVec 32) (va : Addr)
    (k : DevKernel) : (Slots × Proc) × Bool :=
  if maxDevframes ≤ p.devframes.length then ((slots,p),false)
  else if d.granule = page4k ∧ va &&& (megaPage - 1) = 0 ∧ k.pageTable = false then ((slots,p),false)
  else match (d.frames[f.toNat]?).bind slots with
    | none => ((slots,p),false)
    | some frame =>
      if k.copied = false then ((slots,p),false)
      else match newSlot slots k.slot frame, pageMap cfg p va d.granule k.slot rightsAll k.mapped with
        | some filled, some there => ((filled,{ there with devframes := there.devframes ++ [⟨va,k.slot⟩] }),true)
        | _, _ => ((slots,p),false)

def placeFrames (cfg : Config) (d : Devmap) (first : BitVec 32) (base : Addr) (k : Nat → DevKernel) :
    Nat → Nat → Slots → Proc → (Slots × Proc) × Bool
  | 0, _, slots, p => ((slots,p),true)
  | n + 1, i, slots, p =>
    match placeFrame cfg slots p d (first + BitVec.ofNat 32 i) (base + BitVec.ofNat 64 i * d.granule) (k i) with
    | (stopped,false) => (stopped,false)
    | ((filled,placed),true) => placeFrames cfg d first base k n (i + 1) filled placed

/-- The first frame of a request and the one after its last, both `int`s. -/
def Devmap.first (d : Devmap) (phys : Addr) : BitVec 32 := ((phys - d.phys) / d.granule).setWidth 32

def Devmap.last (d : Devmap) (phys len : Addr) : BitVec 32 :=
  let last := ((phys + len - d.phys + d.granule - 1) / d.granule).setWidth 32
  if d.nframes.slt last then d.nframes else last

/-- The turns of a loop from one `int` to another. -/
@[irreducible] def turns (first last : BitVec 32) : Nat := (last.toInt - first.toInt).toNat

def devmapMapInto (cfg : Config) (slots : Slots) (p : Proc) (d : Devmap) (phys len : Addr)
    (k : Nat → DevKernel) : (Slots × Proc) × Except Errno Addr :=
  let first := d.first phys
  let last := d.last phys len
  let base := roundUp p.mmapTop megaPage
  match placeFrames cfg d first base k (turns first last) 0 slots p with
  | (stopped,false) => (stopped,.error .enomem)
  | ((filled,placed),true) =>
    ((filled,placed.setTop (base + (last - first).signExtend 64 * d.granule)),
      .ok (base + (phys - d.phys - first.signExtend 64 * d.granule)))

/-- The kernel's answers to a whole request; `address` is `Page_GetAddress`. -/
structure Kernel where
  page : Nat → PageKernel
  retype : Nat → RetypeKernel
  dev : Nat → DevKernel
  address : Option Addr

def State.setProc (s : State) (pid : Pid) (slots : Slots) (p : Proc) : State :=
  { s with slots := slots, procs := Function.update s.procs pid (some p) }

def State.region (cfg : Config) (s : State) (phys len : Addr) (k : Nat → RetypeKernel) : State × Option Devmap :=
  match s.devmapFind phys len with
  | some (_,d) => (s,some d)
  | none => s.devmapCarve cfg phys len k

/-- `mmap_phys`. -/
def State.mmapPhys (cfg : Config) (s : State) (caller : Pid) (p : Proc) (phys len : Addr) (k : Kernel) :
    State × Except Errno Addr :=
  if phys &&& (page4k - 1) ≠ 0 then (s,.error .einval)
  else
    let rounded := roundUp len page4k
    match s.region cfg phys rounded k.retype with
    | (t,none) => (t,.error .enomem)
    | (t,some d) =>
      let placed := devmapMapInto cfg t.slots p d phys rounded k.dev
      (t.setProc caller placed.1.1 placed.1.2,placed.2)

/-- `tm_mmap_serve`. -/
def State.mmapServe (cfg : Config) (s : State) (caller : Pid) (len flags phys : Addr) (k : Kernel) :
    State × Except Errno Addr :=
  match s.procs caller with
  | none => (s,.error .esrch)
  | some p =>
    if len = 0 then (s,.error .einval)
    else if flags &&& cfg.flagPhys ≠ 0 then s.mmapPhys cfg caller p phys len k
    else
      let placed := mmapAnonymous cfg s.slots p len k.page
      (s.setProc caller placed.1.1 placed.1.2,placed.2)

/-- `tm_alloc_phys_serve`: the page's address and the physical address of its frame. -/
def State.allocPhysServe (cfg : Config) (s : State) (caller : Pid) (len : Addr) (k : Kernel) :
    State × Except Errno (Addr × Addr) :=
  match s.procs caller with
  | none => (s,.error .esrch)
  | some p =>
    if len = 0 ∨ megaPage < len then (s,.error .einval)
    else
      let placed := mmapAnonymous cfg s.slots p len k.page
      let t := s.setProc caller placed.1.1 placed.1.2
      match placed.2 with
      | .error e => (t,.error e)
      | .ok base =>
        -- the page stays where it is when its address cannot be read
        match k.address with
        | none => (t,.error .enomem)
        | some pa => if pa = 0 then (t,.error .enomem) else (t,.ok (base,pa))

/-- Drops entry `i`, moving the last one into its place. -/
def swapRemove (l : List α) (i : Nat) : List α :=
  match l.getLast? with
  | none => l
  | some last => (l.set i last).dropLast

/-- The loop of `munmap_devframes`: `n` entries to go from `i`; what is left and what was hit. -/
def sweep (hit : α → Bool) : Nat → Nat → List α → List α × List α
  | 0, _, l => (l,[])
  | n + 1, i, l =>
    match l[i]? with
    | none => (l,[])
    | some a =>
      if hit a then
        let rest := sweep hit n i (swapRemove l i)
        (rest.1,a :: rest.2)
      else sweep hit n (i + 1) l

def freeSlots (slots : Slots) (caps : List Nat) : Slots := fun slot =>
    if caps.contains slot then none else slots slot

/-- `munmap_devframes`, with the frames it tore down. -/
def munmapDevframes (slots : Slots) (p : Proc) (va len : Addr) : (Slots × Proc) × List DevFrame :=
  let swept := sweep (fun f : DevFrame => va ≤ f.va && f.va < va + len) p.devframes.length 0 p.devframes
  ((freeSlots slots (swept.2.map (·.cap)),{ unmap p (swept.2.map (·.cap)) with devframes := swept.1 }),swept.2)

/-- `find_mmap_idx`. -/
def findMmapIdx (p : Proc) (va : Addr) : Option Nat := p.mmap.findIdx? (·.1 == va)

def allTracked (p : Proc) (va : Addr) : Nat → Nat → Bool
  | 0, _ => true
  | n + 1, i => (findMmapIdx p (va + BitVec.ofNat 64 i * megaPage)).isSome && allTracked p va n (i + 1)

/-- One turn of the second sweep: the frame is parked, or deleted when the recycle list is full. -/
def dropPage (slots : Slots) (p : Proc) (va : Addr) : Slots × Proc :=
  match findMmapIdx p va with
  | none => (slots,p)
  | some i =>
    match p.mmap[i]? with
    | none => (slots,p)
    | some (_,frame) =>
      let bare := { unmap p [frame] with mmap := swapRemove p.mmap i }
      if p.mmapFree.length < mmapFreeMax then (slots,{ bare with mmapFree := frame :: p.mmapFree })
      else (freeSlots slots [frame],bare)

def dropPages (va : Addr) : Nat → Nat → Slots → Proc → Slots × Proc
  | 0, _, slots, p => (slots,p)
  | n + 1, i, slots, p =>
    let dropped := dropPage slots p (va + BitVec.ofNat 64 i * megaPage)
    dropPages va n (i + 1) dropped.1 dropped.2

/-- `tm_munmap_serve`. -/
def State.munmapServe (s : State) (caller : Pid) (va len : Addr) : State × Except Errno Unit :=
  match s.procs caller with
  | none => (s,.error .esrch)
  | some p =>
    if len = 0 then (s,.error .einval)
    else
      let devices := munmapDevframes s.slots p va len
      if devices.2 ≠ [] then (s.setProc caller devices.1.1 devices.1.2,.ok ())
      else if va &&& (megaPage - 1) ≠ 0 then (s,.error .einval)
      else
        let bytes := roundUp len megaPage
        if allTracked p va (pagesIn bytes) 0 = false then (s,.error .einval)
        else
          let dropped := dropPages va (pagesIn bytes) 0 s.slots p
          -- only a range at the top of the region rewinds the cursor
          let top := if va + bytes = p.mmapTop then va else p.mmapTop
          (s.setProc caller dropped.1 (dropped.2.setTop top),.ok ())

/-- `TM_PROT_READ`, `TM_PROT_WRITE` and `TM_PROT_EXEC`. -/
def protRead : Addr := 0x1
def protWrite : Addr := 0x2
def protExec : Addr := 0x4

/-- The rights and the attribute of a `prot`. -/
def rightsOf (prot : Addr) : Rights := ⟨prot &&& protRead != 0,prot &&& protWrite != 0,prot &&& protExec != 0⟩

/-- The page behind `cap` gets new rights. -/
def setRights (cfg : Config) (cap : Nat) (rights : Rights) (q : Page) : Page :=
  if q.target.cap = some cap then { q with target := ⟨some cap,cfg.mask rights⟩ } else q

/-- `Page_Map` of a frame that may be mapped already: its rights change where it is. -/
def pageRemap (cfg : Config) (p : Proc) (va : Addr) (cap : Nat) (rights : Rights) (granted : Bool) : Option Proc :=
  match p.pages.find? fun q => q.target.cap == some cap with
  | none => pageMap cfg p va page4k cap rights granted
  | some q =>
    if granted ∧ q.start = va.toNat then some { p with pages := p.pages.map (setRights cfg cap rights) } else none

/-- `find_mmap_span`. -/
def findMmapSpan (p : Proc) (va : Addr) : Option Nat := p.mmap.findIdx? fun e => e.1 ≤ va && va < e.1 + megaPage

/-- One turn of the loop in `tm_mprotect_serve`. -/
def protectPage (cfg : Config) (p : Proc) (va prot : Addr) (granted : Bool) : Proc × Except Errno Unit :=
  match p.mprot.find? fun e => e.1 == va with
  | some (_,frame) =>
    match pageRemap cfg p va frame (rightsOf prot) granted with
    | none => (p,.error .eacces)
    | some q => (q,.ok ())
  | none =>
    if (findMmapSpan p va).isSome then
      if prot &&& (protRead ||| protWrite) ≠ 0 then (p,.ok ()) else (p,.error .eacces)
    else (p,.error .enomem)

def protectPages (cfg : Config) (addr prot : Addr) (k : Nat → Bool) : Nat → Nat → Proc → Proc × Except Errno Unit
  | 0, _, p => (p,.ok ())
  | n + 1, i, p =>
    match protectPage cfg p (addr + BitVec.ofNat 64 i * page4k) prot (k i) with
    | (stopped,.error e) => (stopped,.error e)
    | (done,.ok _) => protectPages cfg addr prot k n (i + 1) done

/-- The turns of the loop from `addr` to the rounded end, none where the end is not above. -/
def protectTurns (addr len : Addr) : Nat := ((roundUp (addr + len) page4k).toNat - addr.toNat) / 2 ^ 12

/-- `tm_mprotect_serve`. -/
def State.mprotectServe (cfg : Config) (s : State) (caller : Pid) (addr len prot : Addr) (k : Nat → Bool) :
    State × Except Errno Unit :=
  match s.procs caller with
  | none => (s,.error .esrch)
  | some p =>
    if len = 0 then (s,.error .einval)
    else if addr &&& (page4k - 1) ≠ 0 then (s,.error .einval)
    else
      let done := protectPages cfg addr prot k (protectTurns addr len) 0 p
      (s.setProc caller s.slots done.1,done.2)

end Qsoe.Mem
