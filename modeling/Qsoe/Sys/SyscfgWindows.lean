import Qsoe.Sys.SyscfgBuild

/-! What a reader of the tag list finds of the tree: a record of any tag, and the window of PCI memory
that `sysmap.c` takes from the `ranges` of a host bridge. -/
namespace Qsoe.Sys

open Qsoe.Path (Byte slash)

/-- An entry of `ranges`: the first cell and the address on the bus, the address of the processor, the size. -/
structure Range where
  hi : BitVec 32
  pci : BitVec 64
  cpu : BitVec 64
  size : BitVec 64

def Range.bytes (r : Range) : List Byte :=
  bigBytes 4 r.hi.toNat ++ (bigBytes 8 r.pci.toNat ++ (bigBytes 8 r.cpu.toNat ++ (bigBytes 8 r.size.toNat ++ [])))

/-- Memory that is not prefetchable. -/
def Range.usable (r : Range) : Prop := (r.hi >>> 24 &&& 3 = 2 ∨ r.hi >>> 24 &&& 3 = 3) ∧ r.hi &&& 0x40000000 = 0

instance (r : Range) : Decidable r.usable :=
  inferInstanceAs (Decidable ((r.hi >>> 24 &&& 3 = 2 ∨ r.hi >>> 24 &&& 3 = 3) ∧ r.hi &&& 0x40000000 = 0))

def Range.window (r : Range) : Window := ⟨r.cpu,r.pci,r.size⟩

/-- The node found for a compatible string has these entries; without a node there are none. -/
def Image.Written (im : Image) (compat : String) (rs : List Range) : Prop :=
  match im.first compat with
  | none => rs = []
  | some n => Node.value n "ranges" = some (rs.flatMap Range.bytes)

/-- Tags that are not those of a window. -/
def Tags.others (c : Tags) : List (BitVec 16) :=
  [c.version,c.model,c.compatible,c.timebaseHz,c.numCpus,c.bootHart,c.cmdline,c.memory,c.pciEcam,c.pciIrq,c.dwMsi]

/-- What the header promises. -/
structure Tags.Sound (c : Tags) : Prop where
  capacity : c.max.toNat < 65536
  ended : tagEnd ∉ c.pciWindow :: c.others
  apart : c.pciWindow ∉ c.others
  mem : c.windowMem ≠ 0
  early : c.windowPrefetch ≠ 0
  memEarly : c.windowMem &&& c.windowPrefetch = 0
  io : c.windowIo &&& c.windowMem = 0 ∧ c.windowPrefetch &&& c.windowMem = 0

def Emission.id : Emission → BitVec 16
  | .plain id _ => id
  | .u32 id _ => id
  | .u64 id _ => id
  | .asciz id _ => id

variable {b : Blob} {im : Image} {rounds : Nat} {c : Tags} {rs rs' : List Range} {e : Emission}
    {es : List Emission} {r : Record}

theorem Emission.record_id (asked : e.record = some r) : r.1 = e.id := by
  cases e with
  | plain id payload => rw [← Option.some.inj asked]; rfl
  | u32 id v => rw [← Option.some.inj asked]; rfl
  | u64 id v => rw [← Option.some.inj asked]; rfl
  | asciz id s =>
    rw [Emission.record] at asked
    split at asked
    · cases asked
    · rw [← Option.some.inj asked]; rfl

theorem mem_map_toList {α : Type} {o : Option α} {f : α → Emission} (member : e ∈ (o.map f).toList) :
    ∃ a, e = f a := by
  obtain ⟨a,-,same⟩ := Option.map_eq_some_iff.mp (Option.mem_toList.mp member)
  exact ⟨a,same.symm⟩

theorem timebase_id {found : Option (List Byte)} (member : e ∈ timebaseTags c found) : e.id = c.timebaseHz := by
  cases found with
  | none => cases member
  | some bs =>
    rw [timebaseTags] at member
    split at member
    · split at member
      · cases member
      · rw [List.mem_singleton.mp member]
        rfl
    · rw [if_pos rfl] at member
      cases member

theorem rootTags_id (member : e ∈ im.rootTags c) : e.id ∈ c.others := by
  rcases List.mem_append.mp member with model | compat
  · obtain ⟨s,rfl⟩ := mem_map_toList model
    simp [Emission.id,Tags.others]
  · obtain ⟨s,rfl⟩ := mem_map_toList compat
    simp [Emission.id,Tags.others]

theorem cpuTags_id (member : e ∈ im.cpuTags c) : e.id ∈ c.others := by
  rw [Image.cpuTags] at member
  cases found : im.named (ascii "cpus") with
  | none => rw [found] at member; cases member
  | some n =>
    rw [found] at member
    rcases List.mem_append.mp member with hz | count
    · rw [timebase_id hz]
      simp [Tags.others]
    · split at count
      · cases count
      · rw [List.mem_singleton.mp count]
        simp [Emission.id,Tags.others]

theorem chosenTags_id (member : e ∈ im.chosenTags c) : e.id ∈ c.others := by
  rw [Image.chosenTags] at member
  cases found : im.named (ascii "chosen") with
  | none => rw [found] at member; cases member
  | some n =>
    rw [found] at member
    rcases List.mem_append.mp member with hart | args
    · obtain ⟨bs,-,same⟩ := Option.bind_eq_some_iff.mp (Option.mem_toList.mp hart)
      split at same
      · rw [← Option.some.inj same]
        simp [Emission.id,Tags.others]
      · cases same
    · obtain ⟨s,rfl⟩ := mem_map_toList args
      simp [Emission.id,Tags.others]

theorem memoryTags_id (member : e ∈ im.memoryTags c) : e.id ∈ c.others := by
  rw [Image.memoryTags] at member
  cases found : im.named (ascii "memory@80000000") with
  | none => rw [found] at member; cases member
  | some n =>
    rw [found] at member
    obtain ⟨r,rfl⟩ := mem_map_toList member
    simp [Emission.id,Tags.others]

theorem irqTags_id {found : Option (List Byte)} (member : e ∈ irqTags c found) : e.id = c.pciIrq := by
  cases found with
  | none => cases member
  | some bs =>
    rw [irqTags] at member
    split at member
    · rw [List.mem_singleton.mp member]
      rfl
    · cases member

/-- What `sysmap.c` sees in an emission. -/
def sees (c : Tags) (e : Emission) : Option Window :=
  e.record.bind fun r =>
    if r.1 = c.pciWindow ∧ 28 ≤ BitVec.ofNat 16 r.2.length then windowIn c.toConsts r.2 else none

theorem sees_other (sound : c.Sound) (other : e.id ∈ c.others) : sees c e = none := by
  rw [sees]
  cases asked : e.record with
  | none => rfl
  | some r =>
    rw [Option.bind_some,Emission.record_id asked]
    refine if_neg ?_
    rintro ⟨same,-⟩
    exact sound.apart (same ▸ other)

theorem findSome?_others (sound : c.Sound) (others : ∀ e ∈ es, e.id ∈ c.others) : es.findSome? (sees c) = none :=
  List.findSome?_eq_none_iff.mpr fun e member => sees_other sound (others e member)

theorem slice_at {α : Type} (pre part rest : List α) {o k : Nat} (before : pre.length = o)
    (long : part.length = k) :
    Records.slice (pre ++ (part ++ rest)) o k = part := by
  rw [← before,← long]
  exact Records.slice_middle pre part rest

theorem bigEndian_of {w k : Nat} (wide : 8 ≤ w) (v : BitVec w) (fits : 2 ^ w ≤ 256 ^ k) :
    bigEndian w (bigBytes k v.toNat) = v := by
  rw [bigEndian_bigBytes wide (Nat.lt_of_lt_of_le v.isLt fits),BitVec.ofNat_toNat,BitVec.setWidth_eq]

theorem length_range_bytes (r : Range) : r.bytes.length = 28 := by
  simp [Range.bytes]

def windowBytes (r : Range) (flags : BitVec 32) : List Byte :=
  Words.bytesOf r.cpu ++ (Words.bytesOf r.pci ++ (Words.bytesOf r.size ++ (le32 flags ++ [])))

theorem windowTag_bytes (c : Tags) (r : Range) : windowTag c r.bytes =
    let early := if r.hi &&& 0x40000000 ≠ 0 then c.windowPrefetch else 0
    if r.hi >>> 24 &&& 3 = 1 then some (.plain c.pciWindow (windowBytes r (c.windowIo ||| early)))
    else if r.hi >>> 24 &&& 3 = 2 ∨ r.hi >>> 24 &&& 3 = 3 then some
      (.plain c.pciWindow (windowBytes r (c.windowMem ||| early)))
    else none := by
  have hi : bigEndian 32 (r.bytes.take 4) = r.hi := by
    rw [Range.bytes,List.take_left' (length_bigBytes 4 _)]
    exact bigEndian_of (by decide) r.hi (by decide)
  have pci : bigEndian 64 (Records.slice r.bytes 4 8) = r.pci := by
    rw [Range.bytes,slice_at _ _ _ (length_bigBytes 4 _) (length_bigBytes 8 _)]
    exact bigEndian_of (by decide) r.pci (by decide)
  have cpu : bigEndian 64 (Records.slice r.bytes 12 8) = r.cpu := by
    rw [Range.bytes,← List.append_assoc,slice_at _ _ _ (by simp) (length_bigBytes 8 _)]
    exact bigEndian_of (by decide) r.cpu (by decide)
  have size : bigEndian 64 (Records.slice r.bytes 20 8) = r.size := by
    rw [Range.bytes,← List.append_assoc,← List.append_assoc,slice_at _ _ _ (by simp) (length_bigBytes 8 _)]
    exact bigEndian_of (by decide) r.size (by decide)
  simp only [windowTag,hi,pci,cpu,size,windowBytes,List.append_assoc,List.append_nil]

theorem wordOf_le32 (v : BitVec 32) : (Words.wordOf (le32 v)).setWidth 32 = v := by
  have four : le32 v = (List.range 4).map fun i => BitVec.ofNat 8 ((v.setWidth 64).toNat / 256 ^ i) := rfl
  have wide : (v.setWidth 64).toNat = v.toNat := by
    rw [BitVec.toNat_setWidth]
    omega
  have digits := Words.foldr_bytes v.toNat 4
  have small := v.isLt
  rw [four,Words.wordOf,wide,digits]
  apply BitVec.eq_of_toNat_eq
  rw [BitVec.toNat_setWidth,BitVec.toNat_ofNat]
  omega

theorem windowIn_bytes (k : Consts) (r : Range) (flags : BitVec 32) :
    windowIn k (windowBytes r flags) = if flags &&& k.windowMem ≠ 0 ∧ flags &&& k.windowPrefetch =
      0 then some r.window else none := by
  have cpu : rd64 (windowBytes r flags) 0 = r.cpu := by
    have front := slice_at (o := 0) [] (Words.bytesOf r.cpu)
      (Words.bytesOf r.pci ++ (Words.bytesOf r.size ++ (le32 flags ++ []))) rfl
      (Words.length_bytesOf _)
    rw [List.nil_append] at front
    rw [rd64,windowBytes,front,Words.wordOf_bytesOf]
  have pci : rd64 (windowBytes r flags) 8 = r.pci := by
    rw [rd64,windowBytes,slice_at _ _ _ (Words.length_bytesOf _) (Words.length_bytesOf _),Words.wordOf_bytesOf]
  have size : rd64 (windowBytes r flags) 16 = r.size := by
    rw [rd64,windowBytes,← List.append_assoc,slice_at _ _ _ (by simp) (Words.length_bytesOf _),Words.wordOf_bytesOf]
  have last : rd32 (windowBytes r flags) 24 = flags := by
    rw [rd32,windowBytes,← List.append_assoc,← List.append_assoc,slice_at _ _ _ (by simp)
      (show (le32 flags).length = 4 from rfl),wordOf_le32]
  rw [windowIn,cpu,pci,size,last]
  rfl

theorem sees_range (sound : c.Sound) (r : Range) :
    (windowTag c r.bytes).bind (sees c) = if r.usable then some r.window else none := by
  have length : ∀ flags, (windowBytes r flags).length = 28 := fun flags => rfl
  have seen : ∀ flags, sees c (.plain c.pciWindow (windowBytes r flags)) =
      if flags &&& c.windowMem ≠ 0 ∧ flags &&& c.windowPrefetch = 0 then some r.window else none := by
    intro flags
    rw [← windowIn_bytes]
    exact if_pos ⟨rfl,by rw [length]; decide⟩
  obtain ⟨io,early⟩ := sound.io
  rw [windowTag_bytes]
  dsimp only
  by_cases first : r.hi >>> 24 &&& 3 = 1
  · have other : ¬r.usable := by
      rintro ⟨kind | kind,-⟩
      · rw [first] at kind
        cases kind
      · rw [first] at kind
        cases kind
    have flags : (c.windowIo ||| if r.hi &&& 0x40000000 ≠ 0 then c.windowPrefetch else 0) &&& c.windowMem = 0 := by
      rw [BitVec.and_or_distrib_right,io]
      split
      · simp [early]
      · simp
    rw [if_pos first,if_neg other,Option.bind_some,seen]
    exact if_neg fun both => both.1 flags
  · rw [if_neg first]
    by_cases kind : r.hi >>> 24 &&& 3 = 2 ∨ r.hi >>> 24 &&& 3 = 3
    · have mem : (c.windowMem ||| if r.hi &&& 0x40000000 ≠ 0 then c.windowPrefetch else 0) &&& c.windowMem ≠ 0 := by
        rw [BitVec.and_or_distrib_right,BitVec.and_self]
        split
        · simpa [early] using sound.mem
        · simpa using sound.mem
      have late : (c.windowMem ||| if r.hi &&& 0x40000000 ≠ 0 then c.windowPrefetch else 0) &&&
        c.windowPrefetch = 0 ↔ r.hi &&& 0x40000000 = 0 := by
        rw [BitVec.and_or_distrib_right,sound.memEarly]
        split
        · rename_i bit
          refine iff_of_false ?_ bit
          simpa using sound.early
        · rename_i bit
          refine iff_of_true ?_ (not_not.mp bit)
          simp
      rw [if_pos kind,Option.bind_some,seen]
      by_cases bit : r.hi &&& 0x40000000 = 0
      · have usable : r.usable := ⟨kind,bit⟩
        rw [if_pos ⟨mem,late.mpr bit⟩,if_pos usable]
      · have other : ¬r.usable := fun both => bit both.2
        rw [if_neg fun both => bit (late.mp both.2),if_neg other]
    · have other : ¬r.usable := fun both => kind both.1
      rw [if_neg kind,if_neg other]
      rfl

theorem slices_flatMap {α β : Type} {f : α → List β} {k : Nat} (same : ∀ a, (f a).length = k) (l : List α) :
    (List.range l.length).map (fun i => Records.slice (l.flatMap f) (k * i) k) = l.map f := by
  refine List.ext_getElem (by simp) fun i less _ => ?_
  rw [List.length_map,List.length_range] at less
  have cut : Records.slice (l.flatMap f) (k * i) k = f l[i] := by
    rw [Records.slice,Nat.mul_comm,drop_flatMap same,List.drop_eq_getElem_cons less,List.flatMap_cons,
      List.take_left' (same _)]
  rw [List.getElem_map,List.getElem_map,List.getElem_range,cut]

theorem findSome?_windows (sound : c.Sound) (rs : List Range) :
    (emitPciWindows c (some (rs.flatMap Range.bytes))).findSome? (sees c) =
      (rs.find? fun r => r.usable).map Range.window := by
  have length : (rs.flatMap Range.bytes).length = 28 * rs.length := by
    induction rs with
    | nil => rfl
    | cons r rs ih =>
      rw [List.flatMap_cons,List.length_append,length_range_bytes,ih,List.length_cons]
      omega
  have whole : ¬(28 * rs.length) % 28 ≠ 0 := by omega
  have count : 28 * rs.length / 28 = rs.length := by omega
  have cut : (List.range rs.length).filterMap
    (fun i => windowTag c (Records.slice (rs.flatMap Range.bytes) (28 * i) 28)) =
      (rs.map Range.bytes).filterMap (windowTag c) := by
    rw [← slices_flatMap length_range_bytes rs,List.filterMap_map]
    rfl
  rw [emitPciWindows,length,if_neg whole,count,cut]
  clear length whole count cut
  induction rs with
  | nil => rfl
  | cons r rs ih =>
    have here := sees_range sound r
    rw [List.map_cons,List.filterMap_cons,List.find?_cons]
    cases tag : windowTag c r.bytes with
    | none =>
      rw [tag,Option.bind_none] at here
      have other : ¬r.usable := by
        intro usable
        rw [if_pos usable] at here
        cases here
      rw [decide_eq_false other]
      exact ih
    | some e =>
      rw [tag,Option.bind_some] at here
      dsimp only
      rw [List.findSome?_cons,here]
      by_cases usable : r.usable
      · rw [if_pos usable,decide_eq_true usable]
        rfl
      · rw [if_neg usable,decide_eq_false usable]
        exact ih

theorem ecamTags_window (sound : c.Sound) (written : im.Written "pci-host-ecam-generic" rs) :
    (im.ecamTags c).findSome? (sees c) = (rs.find? fun r => r.usable).map Range.window := by
  rw [Image.Written] at written
  rw [Image.ecamTags]
  cases found : im.first "pci-host-ecam-generic" with
  | none =>
    rw [found] at written
    rw [written]
    rfl
  | some n =>
    rw [found] at written
    dsimp only at written
    have front : ∀ e ∈ ((Node.window n 0).map fun w => ecamTag c w (lastBus (Node.value n "bus-range"))).toList,
      e.id ∈ c.others := by
      intro e member
      obtain ⟨w,rfl⟩ := mem_map_toList member
      simp [ecamTag,Emission.id,Tags.others]
    have back : ∀ e ∈ irqTags c (Node.value n "interrupt-map"), e.id ∈ c.others := by
      intro e member
      rw [irqTags_id member]
      simp [Tags.others]
    rw [Option.elim_some,written,List.append_assoc,List.findSome?_append,findSome?_others sound front,
      Option.none_or,List.findSome?_append,findSome?_windows sound,findSome?_others sound back,Option.or_none]

theorem dwTags_window (sound : c.Sound) (written : im.Written "sifive,fu740-pcie" rs) :
    (im.dwTags c).findSome? (sees c) = (rs.find? fun r => r.usable).map Range.window := by
  rw [Image.Written] at written
  rw [Image.dwTags]
  cases found : im.first "sifive,fu740-pcie" with
  | none =>
    rw [found] at written
    rw [written]
    rfl
  | some n =>
    rw [found] at written
    dsimp only at written
    have front (w last payload) : [ecamTag c w last,.plain c.dwMsi payload].findSome? (sees c) = none := by
      refine findSome?_others sound fun e member => ?_
      rcases List.mem_cons.mp member with rfl | rest
      · simp [ecamTag,Emission.id,Tags.others]
      · rw [List.mem_singleton.mp rest]
        simp [Emission.id,Tags.others]
    rw [Option.elim_some,written,List.findSome?_append,front,Option.none_or,findSome?_windows sound]

theorem emissions_window (sound : c.Sound) (ecam : im.Written "pci-host-ecam-generic" rs)
    (dw : im.Written "sifive,fu740-pcie" rs') :
    (im.emissions c).findSome? (sees c) = ((rs ++ rs').find? fun r => r.usable).map Range.window := by
  have version : sees c (.u32 c.version c.layout) = none := sees_other sound (by simp [Emission.id,Tags.others])
  rw [Image.emissions,List.findSome?_cons,version,Image.tags]
  dsimp only
  rw [List.findSome?_append,List.findSome?_append,ecamTags_window sound ecam,dwTags_window sound dw,
    List.find?_append]
  have front : (im.rootTags c ++ im.cpuTags c ++ im.chosenTags c ++ im.memoryTags c).findSome? (sees c) = none := by
    refine findSome?_others sound fun e member => ?_
    simp only [List.mem_append] at member
    rcases member with ((first | cpus) | chosen) | memory
    · exact rootTags_id first
    · exact cpuTags_id cpus
    · exact chosenTags_id chosen
    · exact memoryTags_id memory
  rw [front,Option.none_or]
  cases rs.find? fun r => r.usable with
  | none => rfl
  | some r => rfl

theorem emitPciWindows_id {found : Option (List Byte)} (member : e ∈ emitPciWindows c found) :
    e.id = c.pciWindow := by
  cases found with
  | none => cases member
  | some bs =>
    rw [emitPciWindows] at member
    split at member
    · cases member
    · obtain ⟨i,-,tag⟩ := List.mem_filterMap.mp member
      rw [windowTag] at tag
      split at tag
      · rw [← Option.some.inj tag]
        rfl
      · split at tag
        · rw [← Option.some.inj tag]
          rfl
        · cases tag

theorem ecamTags_id (member : e ∈ im.ecamTags c) : e.id ∈ c.pciWindow :: c.others := by
  rw [Image.ecamTags] at member
  cases found : im.first "pci-host-ecam-generic" with
  | none => rw [found] at member; cases member
  | some n =>
    rw [found,Option.elim_some,List.mem_append,List.mem_append] at member
    rcases member with (window | ranges) | map
    · obtain ⟨w,rfl⟩ := mem_map_toList window
      simp [ecamTag,Emission.id,Tags.others]
    · rw [emitPciWindows_id ranges]
      exact List.mem_cons_self
    · rw [irqTags_id map]
      simp [Tags.others]

theorem dwTags_id (member : e ∈ im.dwTags c) : e.id ∈ c.pciWindow :: c.others := by
  rw [Image.dwTags] at member
  cases found : im.first "sifive,fu740-pcie" with
  | none => rw [found] at member; cases member
  | some n =>
    rw [found,Option.elim_some,List.mem_append] at member
    rcases member with registers | ranges
    · rcases List.mem_cons.mp registers with rfl | last
      · simp [ecamTag,Emission.id,Tags.others]
      · rw [List.mem_singleton.mp last]
        simp [Emission.id,Tags.others]
    · rw [emitPciWindows_id ranges]
      exact List.mem_cons_self

theorem emissions_id (member : e ∈ im.emissions c) : e.id ∈ c.pciWindow :: c.others := by
  rcases List.mem_cons.mp member with rfl | later
  · simp [Emission.id,Tags.others]
  · simp only [Image.tags,List.mem_append] at later
    rcases later with ((((first | cpus) | chosen) | memory) | ecam) | dw
    · exact List.mem_cons_of_mem _ (rootTags_id first)
    · exact List.mem_cons_of_mem _ (cpuTags_id cpus)
    · exact List.mem_cons_of_mem _ (chosenTags_id chosen)
    · exact List.mem_cons_of_mem _ (memoryTags_id memory)
    · exact ecamTags_id ecam
    · exact dwTags_id dw

/-- The bytes that an emission takes. -/
def Emission.room (e : Emission) : Nat := e.record.elim 0 fun r => 4 + r.2.length

theorem accepted_all {max : BitVec 32} {blob : List Byte} (small : max.toNat < 65536)
    (room : blob.length + (es.map Emission.room).sum ≤ max.toNat) :
    accepted max blob es = es.filterMap Emission.record := by
  induction es generalizing blob with
  | nil => rfl
  | cons e es ih =>
    rw [List.map_cons,List.sum_cons,Emission.room] at room
    rw [accepted,List.filterMap_cons]
    cases asked : e.record with
    | none =>
      rw [asked,Option.elim_none,Nat.zero_add] at room
      exact ih room
    | some r =>
      rw [asked,Option.elim_some] at room
      have taken : (emit max blob r).2 = true := (emit_accepts small (by omega) (by omega)).mpr (by omega)
      have grown : (emit max blob r).1.length = blob.length + (4 + r.2.length) := by
        rw [emit_eq,if_pos taken,List.length_append,Records.length_cells]
        rfl
      dsimp only
      rw [if_pos taken,ih (by rw [grown]; omega)]

theorem room_le (member : e ∈ es) : e.room ≤ (es.map Emission.room).sum := by
  induction es with
  | nil => cases member
  | cons a es ih =>
    rw [List.map_cons,List.sum_cons]
    rcases List.mem_cons.mp member with rfl | later
    · omega
    · have below := ih later
      omega

theorem length_pack_records (es : List Emission) :
    (Records.pack tagFormat (es.filterMap Emission.record)).length = (es.map Emission.room).sum := by
  induction es with
  | nil => rfl
  | cons e es ih =>
    rw [List.filterMap_cons,List.map_cons,List.sum_cons,Emission.room,← ih]
    cases e.record with
    | none => exact (Nat.zero_add _).symm
    | some r =>
      dsimp only
      rw [Records.pack_cons,List.length_append,Records.length_cells]
      rfl

theorem window_visitAll {k : Consts} {bp : List Byte} (last : BitVec 32) (hs : List Header) :
    (visitAll (windowVisit k bp) (fun _ => none) last hs ()).value =
      hs.findSome? fun h => if h.id = k.pciWindow ∧ 28 ≤ h.len then windowIn k (payload bp h) else none := by
  induction hs with
  | nil => rfl
  | cons h hs ih =>
    rw [visitAll,List.findSome?_cons,windowVisit]
    by_cases here : h.id = k.pciWindow ∧ 28 ≤ h.len
    · rw [if_pos here,if_pos here]
      cases windowIn k (payload bp h) with
      | none => exact ih
      | some w => rfl
    · rw [if_neg here,if_neg here]
      exact ih

theorem findSome?_congr {α β : Type} {f g : α → Option β} {l : List α} (same : ∀ a ∈ l, f a = g a) :
    l.findSome? f = l.findSome? g := by
  induction l with
  | nil => rfl
  | cons a l ih =>
    rw [List.findSome?_cons,List.findSome?_cons,same a List.mem_cons_self,ih fun a member =>
      same a (List.mem_cons_of_mem _ member)]

theorem findSome?_record (es : List Emission) : (es.filterMap Emission.record).findSome? (fun r : Record =>
    if r.1 = c.pciWindow ∧ 28 ≤ BitVec.ofNat 16 r.2.length then windowIn c.toConsts r.2 else none) =
      es.findSome? (sees c) := by
  induction es with
  | nil => rfl
  | cons e es ih =>
    rw [List.filterMap_cons,List.findSome?_cons,sees]
    cases e.record with
    | none => exact ih
    | some r =>
      dsimp only
      rw [List.findSome?_cons,ih,Option.bind_some]

/-- The list built from a tree answers for each tag what is first emitted with it, and `sysmap.c` finds
in it the first entry of the bridges' `ranges` that is memory and not prefetchable. -/
theorem syscfg_of_tree (laid : im.Laid b) (sound : c.Sound) (ecam : im.Written "pci-host-ecam-generic" rs)
    (dw : im.Written "sifive,fu740-pcie" rs') (room : ((im.emissions c).map Emission.room).sum + 4 ≤ c.max.toNat)
    (enough : im.block.length ≤ rounds) (long : 16 < rounds) (old : Syscfg) :
    ∃ cfg, b.tmSyscfgBuild rounds c old = some (cfg,true) ∧
      (∀ tagId, ∃ more out, tmSyscfgFind more cfg tagId = some out ∧
        out.value.map (fun v => Records.slice cfg.blob v.1.toNat v.2.toNat) =
          (((im.emissions c).filterMap Emission.record).find? fun r => r.1.setWidth 32 = tagId).map Prod.snd) ∧
      ∃ more out, sysmapWindow more c.toConsts cfg = some out ∧
        out.value = ((rs ++ rs').find? fun r => r.usable).map Range.window := by
  have small := sound.capacity
  have all : accepted c.max [] (im.emissions c) = (im.emissions c).filterMap Emission.record :=
    accepted_all small (by simp; omega)
  have proper : ∀ e ∈ im.emissions c, e.Proper := by
    intro e member r asked
    have below := room_le member
    rw [Emission.room,asked,Option.elim_some] at below
    refine ⟨fun same => sound.ended ?_,by omega⟩
    rw [← same,Emission.record_id asked]
    exact emissions_id member
  have empty : ([] : List Byte).length ≤ c.max.toNat := Nat.zero_le _
  obtain ⟨built,fits⟩ := build_eq small empty proper
  rw [all,List.nil_append] at built
  have size : (build c.max [] (im.emissions c)).length = ((im.emissions c).map Emission.room).sum := by
    rw [built,length_pack_records]
  have version : ((Emission.u32 c.version c.layout).send c.max []).2 = true := by
    have below : (Emission.u32 c.version c.layout).room ≤ ((im.emissions c).map Emission.room).sum :=
      room_le List.mem_cons_self
    have wide : (Emission.u32 c.version c.layout).room = 8 := rfl
    refine (emit_accepts (r := (c.version,le32 c.layout)) small empty (show 4 < 2 ^ 31 by decide)).mpr ?_
    show 0 + 4 + 4 ≤ c.max.toNat
    omega
  have sentinel : (emit c.max (build c.max [] (im.emissions c)) (tagEnd,[])).2 = true := by
    refine (emit_accepts (r := (tagEnd,[])) small fits (Nat.two_pow_pos 31)).mpr ?_
    rw [size]
    exact room
  have content : (emit c.max (build c.max [] (im.emissions c)) (tagEnd,[])).1 =
      Records.pack tagFormat ((im.emissions c).filterMap Emission.record) ++ Records.cells tagFormat
        (tagEnd,[]) := by
    rw [emit_eq,if_pos sentinel,built]
  have short : (Records.pack tagFormat ((im.emissions c).filterMap Emission.record) ++ Records.cells tagFormat
    (tagEnd,[])).length < 65536 := by
    have inside := emit_length (r := (tagEnd,[])) small fits (Nat.two_pow_pos 31)
    rw [content] at inside
    omega
  have whole : ([] ++ (Records.pack tagFormat ((im.emissions c).filterMap Emission.record) ++
      Records.cells tagFormat (tagEnd,[]))).length < 65536 :=
    short
  have tags : ∀ r ∈ (im.emissions c).filterMap Emission.record, r.1 ≠ tagEnd := by
    intro r member
    obtain ⟨e,emitted,asked⟩ := List.mem_filterMap.mp member
    exact (proper e emitted r asked).1
  have names := Records.map_placed (f := tagFormat) ((im.emissions c).filterMap Emission.record) 0
  refine ⟨_,tmSyscfgBuild_eq laid enough long old version sentinel,fun tagId => ?_,?_⟩
  · obtain ⟨more,run⟩ := walk_visits (s := ()) (findVisit tagId) (fun _ => none) [] whole tags
    rw [List.nil_append,← content] at run
    refine ⟨more,_,run,?_⟩
    rw [find_visitAll,Option.map_map]
    conv => rhs; rw [← names,List.find?_map,Option.map_map]
    refine Option.map_congr fun r found => ?_
    dsimp only [Function.comp]
    rw [content]
    exact payload_placed short (List.mem_of_find?_eq_some found)
  · obtain ⟨more,run⟩ := walk_visits (s := ())
      (windowVisit c.toConsts (emit c.max (build c.max [] (im.emissions c)) (tagEnd,[])).1)
      (fun _ => none) [] whole tags
    rw [List.nil_append,← content] at run
    refine ⟨more,_,run,?_⟩
    rw [window_visitAll,← emissions_window sound ecam dw,← findSome?_record,headers,List.findSome?_map]
    conv => rhs; rw [← names,List.findSome?_map]
    refine findSome?_congr fun r member => ?_
    dsimp only [Function.comp]
    have bytes := payload_placed short member
    rw [← content] at bytes
    rw [payload,bytes]

/-- Twelve tags and room for 256 bytes. -/
def twelveTags : Tags where
  max := 256
  memory := 8
  pciWindow := 12
  windowMem := 2
  windowPrefetch := 4
  memoryClass := 1
  version := 1
  model := 2
  compatible := 3
  timebaseHz := 4
  numCpus := 5
  bootHart := 6
  cmdline := 7
  pciEcam := 9
  pciIrq := 10
  dwMsi := 11
  layout := 1
  windowIo := 1

theorem syscfg_of_soc : ∃ cfg, socBlob.tmSyscfgBuild 300 twelveTags ⟨[],false⟩ = some (cfg,true) ∧
    (∀ tagId, ∃ more out, tmSyscfgFind more cfg tagId = some out ∧
      out.value.map (fun v => Records.slice cfg.blob v.1.toNat v.2.toNat) =
        (((soc.emissions twelveTags).filterMap Emission.record).find? fun r => r.1.setWidth 32 = tagId).map Prod.snd) ∧
    ∃ more out, sysmapWindow more twelveTags.toConsts cfg = some out ∧ out.value = some ⟨8,7,9⟩ := by
  have sound : twelveTags.Sound := by constructor <;> decide
  have ecam : soc.Written "pci-host-ecam-generic" [⟨0x01000000,0,5,6⟩,⟨0x02000000,7,8,9⟩] := by
    have found : soc.first "pci-host-ecam-generic" = some bridge := by decide +kernel
    rw [Image.Written,found]
    decide +kernel
  have dw : soc.Written "sifive,fu740-pcie" [] := by
    have found : soc.first "sifive,fu740-pcie" = none := by decide +kernel
    rw [Image.Written,found]
  exact syscfg_of_tree soc_laid sound ecam dw (by decide +kernel) (by decide +kernel) (by decide) _

end Qsoe.Sys
