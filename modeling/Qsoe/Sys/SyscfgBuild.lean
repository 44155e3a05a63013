import Qsoe.Sys.FdtValues
import Qsoe.Sys.Syscfg

/-! `tm_syscfg_build`, from the device tree in a blob to the tag list that the rest of taskman reads. -/
namespace Qsoe.Sys

open Cells
open Qsoe.Path (Byte slash)

/-- The other tags of `<qsoe/syscfg.h>`, the version of the list and the flag of an I/O window. -/
structure Tags extends Consts where
  version : BitVec 16
  model : BitVec 16
  compatible : BitVec 16
  timebaseHz : BitVec 16
  numCpus : BitVec 16
  bootHart : BitVec 16
  cmdline : BitVec 16
  pciEcam : BitVec 16
  pciIrq : BitVec 16
  dwMsi : BitVec 16
  layout : BitVec 32
  windowIo : BitVec 32

def le32 (v : BitVec 32) : List Byte := (Words.bytesOf (v.setWidth 64)).take 4

/-- An entry of `ranges`; configuration space is skipped. -/
def windowTag (c : Tags) (r : List Byte) : Option Emission :=
  let hi := bigEndian 32 (r.take 4)
  let kind := hi >>> 24 &&& 3
  let prefetch := if hi &&& 0x40000000 ≠ 0 then c.windowPrefetch else 0
  let record flags := Emission.plain c.pciWindow (Words.bytesOf (bigEndian 64 (Records.slice r 12 8)) ++
    Words.bytesOf (bigEndian 64 (Records.slice r 4 8)) ++ Words.bytesOf (bigEndian 64 (Records.slice r 20 8)) ++
      le32 (flags ||| prefetch))
  if kind = 1 then some (record c.windowIo)
  else if kind = 2 ∨ kind = 3 then some (record c.windowMem)
  else none

/-- `emit_pci_windows` on the value of `ranges`. -/
def emitPciWindows (c : Tags) : Option (List Byte) → List Emission
  | none => []
  | some bs =>
    if bs.length % 28 ≠ 0 then [] else (List.range (bs.length / 28)).filterMap fun i =>
      windowTag c (Records.slice bs (28 * i) 28)

def timebaseTags (c : Tags) : Option (List Byte) → List Emission
  | none => []
  | some bs =>
    let hz := if bs.length = 4 ∨ bs.length = 8 then bigEndian 64 bs else 0
    if hz = 0 then [] else [.u64 c.timebaseHz hz]

/-- The last bus of `bus-range`. -/
def lastBus : Option (List Byte) → BitVec 32
  | none => 0xff
  | some bs => if bs.length = 8 then bigEndian 32 (bs.drop 4) else 0xff

def ecamTag (c : Tags) (window : BitVec 64 × BitVec 64) (bus : BitVec 32) : Emission :=
  .plain c.pciEcam (Words.bytesOf window.1 ++ Words.bytesOf window.2 ++ le32 bus)

/-- The first vector of each pin in `interrupt-map`. -/
def irqVectors (bs : List Byte) : List (BitVec 32) :=
  (List.range (bs.length / 24)).foldl (fun vec i =>
    let pin := bigEndian 32 (Records.slice bs (24 * i + 12) 4)
    let plic := bigEndian 32 (Records.slice bs (24 * i + 20) 4)
    if 1 ≤ pin ∧ pin ≤ 4 ∧ vec.getD (pin.toNat - 1) 0 = 0 then vec.set (pin.toNat - 1) plic else vec) [0,0,0,0]

def irqTags (c : Tags) : Option (List Byte) → List Emission
  | none => []
  | some bs =>
    if bs.length % 24 = 0 ∧ (irqVectors bs).any (· ≠ 0) then [.plain c.pciIrq ((irqVectors bs).flatMap le32)]
      else []

/-- The first of `interrupts`. -/
def msiIrq : Option (List Byte) → BitVec 32
  | none => 0
  | some bs => if 4 ≤ bs.length then bigEndian 32 (bs.take 4) else 0

/-- `/cpus/cpu@` and the number in hexadecimal digits. -/
def cpuPath (i : Nat) : List Byte :=
  ascii "/cpus/cpu@" ++ (if 16 ≤ i then [BitVec.ofNat 8 (0x30 + i / 16)] else []) ++
    [BitVec.ofNat 8 (if i % 16 < 10 then 0x30 + i % 16 else 0x61 + i % 16 - 10)]

namespace Blob

variable (b : Blob) (rounds : Nat) (c : Tags)

/-- The bytes of a property. -/
def value (node : BitVec 32) (name : String) : Option (Option (List Byte)) :=
  (b.tmFdtProp rounds node (ascii name)).map fun found => found.map fun v => row b.mem v.1 v.2.toNat

/-- `emit_asciz` of a string in the blob. -/
def strTag (tag : BitVec 16) : Option Nat → Option (List Emission)
  | none => some []
  | some x => (b.sLen rounds x).map fun n => [.asciz tag (row b.mem x n)]

def rootTags (root : BitVec 32) : Option (List Emission) := do
  let model ← b.tmFdtPropStr rounds root (ascii "model")
  let first ← b.strTag rounds c.model model
  let compat ← b.tmFdtProp rounds root (ascii "compatible")
  let second ← b.strTag rounds c.compatible (compat.map Prod.fst)
  return first ++ second

/-- The processors from `i` on, up to the first that is missing. -/
def cpuCount : Nat → Nat → Option Nat
  | 0, _ => some 0
  | k + 1, i => do
    let node ← b.tmFdtPath rounds (cpuPath i)
    if node.slt 0 then return 0
    let more ← cpuCount k (i + 1)
    return more + 1

def cpuTags : Option (List Emission) := do
  let cpus ← b.tmFdtPath rounds (ascii "/cpus")
  if cpus.slt 0 then return []
  let hz ← b.value rounds cpus "timebase-frequency"
  let n ← b.cpuCount rounds 64 0
  return timebaseTags c hz ++ if n = 0 then [] else [.u32 c.numCpus (BitVec.ofNat 32 n)]

def chosenTags : Option (List Emission) := do
  let chosen ← b.tmFdtPath rounds (ascii "/chosen")
  if chosen.slt 0 then return []
  let hart ← b.tmFdtPropU32 rounds chosen (ascii "boot-hartid")
  let bootargs ← b.tmFdtPropStr rounds chosen (ascii "bootargs")
  let cmdline ← b.strTag rounds c.cmdline bootargs
  return (hart.map (Emission.u32 c.bootHart)).toList ++ cmdline

def memoryTags : Option (List Emission) := do
  let node ← b.tmFdtPath rounds (ascii "/memory@80000000")
  if node.slt 0 then return []
  let range ← b.tmFdtReg rounds node 2 2 0
  return (range.map fun r => Emission.plain c.memory (Words.bytesOf r.1 ++ Words.bytesOf r.2)).toList

def ecamTags : Option (List Emission) := do
  let pci ← b.tmFdtCompatible rounds (ascii "pci-host-ecam-generic")
  if pci.slt 0 then return []
  let window ← b.tmFdtReg rounds pci 2 2 0
  let bus ← b.value rounds pci "bus-range"
  let ranges ← b.value rounds pci "ranges"
  let map ← b.value rounds pci "interrupt-map"
  return (window.map fun w => ecamTag c w (lastBus bus)).toList ++ emitPciWindows c ranges ++ irqTags c map

def dwTags : Option (List Emission) := do
  let dwpci ← b.tmFdtCompatible rounds (ascii "sifive,fu740-pcie")
  if dwpci.slt 0 then return []
  let config ← b.tmFdtReg rounds dwpci 2 2 1
  let dbi ← b.tmFdtReg rounds dwpci 2 2 0
  let interrupts ← b.value rounds dwpci "interrupts"
  let bus ← b.value rounds dwpci "bus-range"
  let ranges ← b.value rounds dwpci "ranges"
  let registers := dbi.getD (0,0)
  return [ecamTag c (config.getD (0,0)) (lastBus bus),
    .plain c.dwMsi (Words.bytesOf registers.1 ++ Words.bytesOf registers.2 ++ le32 (msiIrq interrupts))] ++
      emitPciWindows c ranges

def tags (root : BitVec 32) : Option (List Emission) := do
  let first ← b.rootTags rounds c root
  let cpus ← b.cpuTags rounds c
  let chosen ← b.chosenTags rounds c
  let memory ← b.memoryTags rounds c
  let ecam ← b.ecamTags rounds c
  let dw ← b.dwTags rounds c
  return first ++ cpus ++ chosen ++ memory ++ ecam ++ dw

/-- The list that is built over an old one, and whether 0 is returned. -/
def tmSyscfgBuild (old : Syscfg) : Option (Syscfg × Bool) :=
  if b.tmFdtCheck = false then some (old,false)
  else do
    let root ← b.tmFdtPath rounds (ascii "/")
    if root.slt 0 then return (⟨[],false⟩,false)
    let first := (Emission.u32 c.version c.layout).send c.max []
    if first.2 = false then return (⟨first.1,false⟩,false)
    let es ← b.tags rounds c root
    let last := emit c.max (build c.max first.1 es) (tagEnd,[])
    return (⟨last.1,last.2⟩,last.2)

end Blob

namespace Node

def value (n : Node) (name : String) : Option (List Byte) := (Node.property n (ascii name)).map fun q => q.2.value

/-- The first string of a value that has one. -/
def text (n : Node) (name : String) : Option (List Byte) :=
  (Node.value n name).bind fun bs => if 0 ∈ bs then some (Delimited.field 0 bs) else none

/-- A pair of `reg`, two cells each. -/
def window (n : Node) (i : Nat) : Option (BitVec 64 × BitVec 64) := (Node.value n "reg").bind (regIn 2 2 i)

end Node

namespace Image

variable (im : Image) (c : Tags)

/-- The node of a path below the root. -/
def named (path : List Byte) : Option Node := Node.descendant im.root (components path)

/-- The first node that is compatible. -/
def first (compat : String) : Option Node := im.nodes.find? fun n => Node.compatibleWith n (ascii compat)

def rootTags : List Emission :=
  ((Node.text im.root "model").map (Emission.asciz c.model)).toList ++
    ((Node.text im.root "compatible").map (Emission.asciz c.compatible)).toList

def cpuCount : Nat := ((List.range 64).takeWhile fun i => (im.named (cpuPath i).tail).isSome).length

def cpuTags : List Emission :=
  (im.named (ascii "cpus")).elim [] fun n => timebaseTags c (Node.value n "timebase-frequency") ++
    if im.cpuCount = 0 then [] else [.u32 c.numCpus (BitVec.ofNat 32 im.cpuCount)]

def chosenTags : List Emission :=
  (im.named (ascii "chosen")).elim [] fun n =>
    ((Node.value n "boot-hartid").bind fun bs =>
      if bs.length = 4 then some (Emission.u32 c.bootHart (bigEndian 32 bs)) else none).toList ++
      ((Node.text n "bootargs").map (Emission.asciz c.cmdline)).toList

def memoryTags : List Emission :=
  (im.named (ascii "memory@80000000")).elim [] fun n =>
    ((Node.window n 0).map fun r => Emission.plain c.memory (Words.bytesOf r.1 ++ Words.bytesOf r.2)).toList

def ecamTags : List Emission :=
  (im.first "pci-host-ecam-generic").elim [] fun n =>
    ((Node.window n 0).map fun w => ecamTag c w (lastBus (Node.value n "bus-range"))).toList ++
      emitPciWindows c (Node.value n "ranges") ++ irqTags c (Node.value n "interrupt-map")

def dwTags : List Emission :=
  (im.first "sifive,fu740-pcie").elim [] fun n =>
    let registers := (Node.window n 0).getD (0,0)
    [ecamTag c ((Node.window n 1).getD (0,0)) (lastBus (Node.value n "bus-range")),
      .plain c.dwMsi
        (Words.bytesOf registers.1 ++ Words.bytesOf registers.2 ++ le32 (msiIrq (Node.value n "interrupts")))] ++
      emitPciWindows c (Node.value n "ranges")

def tags : List Emission :=
  im.rootTags c ++ im.cpuTags c ++ im.chosenTags c ++ im.memoryTags c ++ im.ecamTags c ++ im.dwTags c

end Image

variable {b : Blob} {im : Image} {rounds : Nat} {c : Tags} {n : Node}

theorem slt_handle (laid : im.Laid b) {found : Option Node} (member : ∀ n ∈ found, n ∈ im.nodes) :
    (handle found).slt 0 = found.isNone := by
  cases found with
  | none => decide
  | some n => exact (laid.node (member n rfl)).1.nonneg laid

theorem Image.named_mem (im : Image) (path : List Byte) : ∀ n ∈ im.named path, n ∈ im.nodes :=
  fun _ found => Node.descendant_mem im.root_mem found

theorem Image.first_mem (im : Image) (compat : String) : ∀ n ∈ im.first compat, n ∈ im.nodes :=
  fun _ found => List.mem_of_find?_eq_some found

theorem row_has {x : Nat} {bs : List Byte} (has : b.Has x bs) : row b.mem x bs.length = bs :=
  (row_eq_map ..).trans (has_map has)

theorem value_eq (laid : im.Laid b) (member : n ∈ im.nodes) (name : String) (free : 0 ∉ ascii name)
    (enough : im.block.length ≤ rounds) :
    b.value rounds (BitVec.ofNat 32 n.start) name = some (Node.value n name) := by
  rw [Blob.value,tmFdtProp_eq laid member free enough,Node.value]
  cases found : Node.property n (ascii name) with
  | none => rfl
  | some q =>
    obtain ⟨-,has,whole,-⟩ := has_valueOf laid member found
    rw [Option.map_some,Option.map_some,Option.map_some,Option.map_some,whole,row_has has]

theorem strTag_has {tag : BitVec 16} {x : Nat} {bs : List Byte} (has : b.Has x bs) (ends : 0 ∈ bs)
    (long : bs.length ≤ rounds) :
    b.strTag rounds tag (some x) = some [.asciz tag (Delimited.field 0 bs)] := by
  have free : 0 ∉ Delimited.field 0 bs := Delimited.field_free bs
  have less : (Delimited.field 0 bs).length < bs.length := by
    refine Nat.lt_of_le_of_ne (Delimited.field_length_le bs) fun same => ?_
    rw [(Delimited.field_isPrefix bs).eq_of_length same] at free
    exact free ends
  obtain ⟨rest,whole⟩ := Delimited.field_ends bs less
  have start : b.Has x (Delimited.field 0 bs ++ [0]) := by
    rw [whole,show Delimited.field 0 bs ++ 0 :: rest = Delimited.field 0 bs ++ [0] ++ rest from by simp] at has
    exact (Blob.has_append.mp has).1
  rw [Blob.strTag,sLen_has start free (by omega),Option.map_some,row_has (Blob.has_append.mp start).1]

theorem tmFdtPropStr_eq (laid : im.Laid b) (member : n ∈ im.nodes) (name : String) (free : 0 ∉ ascii name)
    (enough : im.block.length ≤ rounds) :
    b.tmFdtPropStr rounds (BitVec.ofNat 32 n.start) (ascii name) =
      some ((Node.property n (ascii name)).bind fun q => if 0 ∈ q.2.value then some (b.valueOf q).1 else none) := by
  rw [Blob.tmFdtPropStr,tmFdtProp_eq laid member free enough,Option.map_some]
  cases found : Node.property n (ascii name) with
  | none => rfl
  | some q =>
    obtain ⟨-,has,whole,-⟩ := has_valueOf laid member found
    have cells := has_map has
    have any : (List.range (b.valueOf q).2.toNat).any (fun i => b.mem ((b.valueOf q).1 + i) == 0) = true ↔
      0 ∈ q.2.value := by
      conv => rhs; rw [← cells]
      simp [whole]
    rw [Option.map_some,Option.bind_some,Option.bind_some]
    by_cases ends : 0 ∈ q.2.value
    · rw [if_pos (any.mpr ends),if_pos ends]
    · rw [if_neg (mt any.mp ends),if_neg ends]

theorem strTag_text (laid : im.Laid b) (member : n ∈ im.nodes) (name : String) (tag : BitVec 16)
    (enough : im.block.length ≤ rounds) :
    b.strTag rounds tag ((Node.property n (ascii name)).bind fun q =>
      if 0 ∈ q.2.value then some (b.valueOf q).1 else none) =
      some ((Node.text n name).map (Emission.asciz tag)).toList := by
  rw [Node.text,Node.value]
  cases found : Node.property n (ascii name) with
  | none => rfl
  | some q =>
    obtain ⟨-,has,-,short⟩ := has_valueOf laid member found
    rw [Option.map_some,Option.bind_some,Option.bind_some]
    by_cases ends : 0 ∈ q.2.value
    · rw [if_pos ends,if_pos ends,strTag_has has ends (by omega)]
      rfl
    · rw [if_neg ends,if_neg ends]
      rfl

theorem window_eq (laid : im.Laid b) (member : n ∈ im.nodes) (enough : im.block.length ≤ rounds) (i : Nat)
    (small : i < 16) :
    b.tmFdtReg rounds (BitVec.ofNat 32 n.start) 2 2 (BitVec.ofNat 32 i) = some (Node.window n i) := by
  have read := tmFdtReg_eq laid member enough (a := 2) (s := 2) (i := i) (by omega) (by omega)
  rw [Node.window,Node.value,Option.bind_map]
  exact read

theorem path_eq (laid : im.Laid b) (enough : im.block.length ≤ rounds) {p path : List Byte}
    (shape : p = slash :: path) (free : 0 ∉ path)
    (long : path.length < rounds) : b.tmFdtPath rounds p = some (handle (im.named path)) := by
  rw [shape]
  exact tmFdtPath_eq laid free enough long

theorem rootTags_eq (laid : im.Laid b) (enough : im.block.length ≤ rounds) :
    b.rootTags rounds c (BitVec.ofNat 32 im.root.start) = some (im.rootTags c) := by
  have named : 0 ∉ ascii "model" ∧ 0 ∉ ascii "compatible" := by decide
  have second : b.strTag rounds c.compatible
    (((Node.property im.root (ascii "compatible")).map b.valueOf).map Prod.fst) =
      some ((Node.text im.root "compatible").map (Emission.asciz c.compatible)).toList := by
    rw [← strTag_text laid im.root_mem "compatible" c.compatible enough]
    cases found : Node.property im.root (ascii "compatible") with
    | none => rfl
    | some q =>
      obtain ⟨called,-⟩ := has_valueOf laid im.root_mem found
      have ends : 0 ∈ q.2.value := List.mem_of_getLast? (q.2.worded called)
      rw [Option.bind_some,if_pos ends]
      rfl
  rw [Blob.rootTags,tmFdtPropStr_eq laid im.root_mem "model" named.1 enough,tmFdtProp_eq laid im.root_mem
    named.2 enough]
  simp only [Option.bind_eq_bind,Option.bind_some,strTag_text laid im.root_mem "model" c.model enough,second]
  rfl

/-- From `i` on. -/
theorem cpuCount_eq (laid : im.Laid b) (enough : im.block.length ≤ rounds) (long : 16 < rounds) (k i : Nat)
    (most : i + k ≤ 64) :
    b.cpuCount rounds k i = some ((List.range' i k).takeWhile fun i =>
      (im.named (cpuPath i).tail).isSome).length := by
  have shapes : ∀ i < 64, cpuPath i = slash :: (cpuPath i).tail ∧ 0 ∉ (cpuPath i).tail ∧
    (cpuPath i).tail.length < 16 := by decide +kernel
  induction k generalizing i with
  | zero => rfl
  | succ k ih =>
    obtain ⟨shape,free,short⟩ := shapes i (by omega)
    have node := path_eq laid enough shape free (by omega)
    have sign := slt_handle laid (im.named_mem (cpuPath i).tail)
    have later := ih (i + 1) (by omega)
    rw [Blob.cpuCount,node,List.range'_succ,List.takeWhile_cons,later]
    simp only [Option.bind_eq_bind,Option.bind_some,sign]
    cases im.named (cpuPath i).tail with
    | none => rfl
    | some n => rfl

theorem cpuTags_eq (laid : im.Laid b) (enough : im.block.length ≤ rounds) (long : 16 < rounds) :
    b.cpuTags rounds c = some (im.cpuTags c) := by
  have node := path_eq laid enough (show ascii "/cpus" = slash :: ascii "cpus" from rfl) (by decide)
    (Nat.lt_trans (by decide) long)
  have sign := slt_handle laid (im.named_mem (ascii "cpus"))
  have count := cpuCount_eq laid enough long 64 0 (Nat.le_refl 64)
  rw [← List.range_eq_range'] at count
  rw [Blob.cpuTags,node,Image.cpuTags]
  simp only [Option.bind_eq_bind,Option.bind_some,sign,count]
  cases found : im.named (ascii "cpus") with
  | none => rfl
  | some n =>
    have hz := value_eq laid (im.named_mem _ n found) "timebase-frequency" (by decide) enough
    simp only [handle,Option.map_some,Option.getD_some,hz]
    rfl

theorem chosenTags_eq (laid : im.Laid b) (enough : im.block.length ≤ rounds) (long : 16 < rounds) :
    b.chosenTags rounds c = some (im.chosenTags c) := by
  have node := path_eq laid enough (show ascii "/chosen" = slash :: ascii "chosen" from rfl) (by decide)
    (Nat.lt_trans (by decide) long)
  have sign := slt_handle laid (im.named_mem (ascii "chosen"))
  rw [Blob.chosenTags,node,Image.chosenTags]
  simp only [Option.bind_eq_bind,Option.bind_some,sign]
  cases found : im.named (ascii "chosen") with
  | none => rfl
  | some n =>
    have member := im.named_mem _ n found
    have hart : b.tmFdtPropU32 rounds (BitVec.ofNat 32 n.start) (ascii "boot-hartid") =
        some ((Node.value n "boot-hartid").bind fun bs => if bs.length = 4 then some (bigEndian 32 bs)
          else none) := by
      rw [tmFdtPropU32_eq laid member (by decide) enough,Node.value,Option.bind_map]
      rfl
    have args := tmFdtPropStr_eq laid member "bootargs" (by decide) enough
    have text := strTag_text laid member "bootargs" c.cmdline enough
    have same : (((Node.value n "boot-hartid").bind fun bs => if bs.length = 4 then some (bigEndian 32 bs)
      else none).map
        (Emission.u32 c.bootHart)).toList = ((Node.value n "boot-hartid").bind fun bs =>
          if bs.length = 4 then some (Emission.u32 c.bootHart (bigEndian 32 bs)) else none).toList := by
      rw [Option.map_bind]
      congr 2
      funext bs
      rw [Function.comp,apply_ite (Option.map (Emission.u32 c.bootHart))]
      rfl
    simp only [handle,Option.map_some,Option.getD_some,hart,args,text,Option.bind_some,same]
    rfl

theorem memoryTags_eq (laid : im.Laid b) (enough : im.block.length ≤ rounds) (long : 16 < rounds) :
    b.memoryTags rounds c = some (im.memoryTags c) := by
  have node := path_eq laid enough (show ascii "/memory@80000000" = slash :: ascii "memory@80000000" from rfl)
    (by decide)
    (Nat.lt_trans (by decide) long)
  have sign := slt_handle laid (im.named_mem (ascii "memory@80000000"))
  rw [Blob.memoryTags,node,Image.memoryTags]
  simp only [Option.bind_eq_bind,Option.bind_some,sign]
  cases found : im.named (ascii "memory@80000000") with
  | none => rfl
  | some n =>
    have range : b.tmFdtReg rounds (BitVec.ofNat 32 n.start) 2 2 0 = some (Node.window n 0) :=
      window_eq laid (im.named_mem _ n found) enough 0 (by decide)
    simp only [handle,Option.map_some,Option.getD_some,range,Option.bind_some]
    rfl

theorem ecamTags_eq (laid : im.Laid b) (enough : im.block.length ≤ rounds) :
    b.ecamTags rounds c = some (im.ecamTags c) := by
  have node : b.tmFdtCompatible rounds (ascii "pci-host-ecam-generic") =
    some (handle (im.first "pci-host-ecam-generic")) :=
    tmFdtCompatible_eq laid (by decide) enough
  have sign := slt_handle laid (im.first_mem "pci-host-ecam-generic")
  rw [Blob.ecamTags,node,Image.ecamTags]
  simp only [Option.bind_eq_bind,Option.bind_some,sign]
  cases found : im.first "pci-host-ecam-generic" with
  | none => rfl
  | some n =>
    have member := im.first_mem _ n found
    have window : b.tmFdtReg rounds (BitVec.ofNat 32 n.start) 2 2 0 = some (Node.window n 0) :=
      window_eq laid member enough 0 (by decide)
    have bus := value_eq laid member "bus-range" (by decide) enough
    have ranges := value_eq laid member "ranges" (by decide) enough
    have map := value_eq laid member "interrupt-map" (by decide) enough
    simp only [handle,Option.map_some,Option.getD_some,window,bus,ranges,map,Option.bind_some]
    rfl

theorem dwTags_eq (laid : im.Laid b) (enough : im.block.length ≤ rounds) :
    b.dwTags rounds c = some (im.dwTags c) := by
  have node : b.tmFdtCompatible rounds (ascii "sifive,fu740-pcie") = some (handle (im.first "sifive,fu740-pcie")) :=
    tmFdtCompatible_eq laid (by decide) enough
  have sign := slt_handle laid (im.first_mem "sifive,fu740-pcie")
  rw [Blob.dwTags,node,Image.dwTags]
  simp only [Option.bind_eq_bind,Option.bind_some,sign]
  cases found : im.first "sifive,fu740-pcie" with
  | none => rfl
  | some n =>
    have member := im.first_mem _ n found
    have config : b.tmFdtReg rounds (BitVec.ofNat 32 n.start) 2 2 1 = some (Node.window n 1) :=
      window_eq laid member enough 1 (by decide)
    have dbi : b.tmFdtReg rounds (BitVec.ofNat 32 n.start) 2 2 0 = some (Node.window n 0) :=
      window_eq laid member enough 0 (by decide)
    have interrupts := value_eq laid member "interrupts" (by decide) enough
    have bus := value_eq laid member "bus-range" (by decide) enough
    have ranges := value_eq laid member "ranges" (by decide) enough
    simp only [handle,Option.map_some,Option.getD_some,config,dbi,interrupts,bus,ranges,Option.bind_some]
    rfl

theorem tags_eq (laid : im.Laid b) (enough : im.block.length ≤ rounds) (long : 16 < rounds) :
    b.tags rounds c (BitVec.ofNat 32 im.root.start) = some (im.tags c) := by
  rw [Blob.tags,rootTags_eq laid enough,cpuTags_eq laid enough long,chosenTags_eq laid enough long,
    memoryTags_eq laid enough long,
    ecamTags_eq laid enough,dwTags_eq laid enough]
  rfl

/-- The emissions of a build. -/
def Image.emissions (im : Image) (c : Tags) : List Emission := .u32 c.version c.layout :: im.tags c

/-- The build emits what the tree says, and succeeds where its first and its last tag find room. -/
theorem tmSyscfgBuild_eq (laid : im.Laid b) (enough : im.block.length ≤ rounds) (long : 16 < rounds) (old : Syscfg)
    (first : ((Emission.u32 c.version c.layout).send c.max []).2 = true)
    (last : (emit c.max (build c.max [] (im.emissions c)) (tagEnd,[])).2 = true) :
    b.tmSyscfgBuild rounds c old = some (⟨(emit c.max (build c.max [] (im.emissions c)) (tagEnd,[])).1,true⟩,
      true) := by
  have root := path_eq laid enough (show ascii "/" = slash :: [] from rfl) List.not_mem_nil
    (Nat.lt_trans (by decide) long)
  have here : handle (im.named []) = BitVec.ofNat 32 im.root.start := rfl
  have start : (BitVec.ofNat 32 im.root.start).slt 0 = false := (laid.node im.root_mem).1.nonneg laid
  have built : build c.max [] (im.emissions c) = build c.max
    ((Emission.u32 c.version c.layout).send c.max []).1 (im.tags c) := rfl
  rw [built] at last ⊢
  rw [Blob.tmSyscfgBuild,laid.check,if_neg (Bool.false_ne_true ·.symm),root,here]
  simp only [Option.bind_eq_bind,Option.bind_some,start,first,tags_eq laid enough long,last]
  rfl

end Qsoe.Sys
