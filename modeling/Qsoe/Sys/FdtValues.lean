import Qsoe.Sys.FdtLookup

/-! What is read through the handles of the parser: property values and the numbers in them. -/
namespace Qsoe.Sys

open Qsoe.Path (Byte slash)

variable {b : Blob} {im : Image} {x rounds w : Nat} {bs s name : List Byte} {n : Node}

def bigEndian (w : Nat) (bs : List Byte) : BitVec w := bs.foldl (fun v c => v <<< 8 ||| c.setWidth w) 0

/-- The lowest `k` bytes of a number, the highest of them first. -/
def bigBytes : Nat → Nat → List Byte
  | 0, _ => []
  | k + 1, v => bigBytes k (v / 256) ++ [BitVec.ofNat 8 v]

@[simp] theorem length_bigBytes (k v : Nat) : (bigBytes k v).length = k := by
  induction k generalizing v with
  | zero => rfl
  | succ k ih => rw [bigBytes,List.length_append,ih,List.length_singleton]

theorem has_map (has : b.Has x bs) : (List.range bs.length).map (fun i => b.mem (x + i)) = bs := by
  induction bs generalizing x with
  | nil => rfl
  | cons c bs ih =>
    rw [List.length_cons,List.range_succ_eq_map,List.map_cons,List.map_map]
    have later := ih has.2
    have shifted : (fun i => b.mem (x + i)) ∘ Nat.succ = fun i => b.mem (x + 1 + i) := by
      funext i
      rw [Function.comp,Nat.succ_eq_add_one,Nat.add_comm i,Nat.add_assoc]
    rw [shifted,later,Nat.add_zero,has.1]

theorem number_has (w : Nat) (has : b.Has x bs) : b.number w x bs.length = bigEndian w bs := by
  have cells := has_map has
  rw [Blob.number,bigEndian]
  conv => rhs; rw [← cells,List.foldl_map]

theorem shift_or (wide : 8 ≤ w) (v : BitVec w) (c : Byte) :
    v <<< 8 ||| c.setWidth w = BitVec.ofNat w (256 * v.toNat + c.toNat) := by
  have small : c.toNat < 2 ^ 8 := c.isLt
  obtain ⟨k,rfl⟩ : ∃ k, w = 8 + k := ⟨w - 8,by omega⟩
  have room : 2 ^ 8 ≤ 2 ^ (8 + k) := Nat.pow_le_pow_right (by decide) wide
  have upper : v.toNat * 2 ^ 8 % 2 ^ (8 + k) = v.toNat % 2 ^ k * 2 ^ 8 := by
    rw [Nat.pow_add,Nat.mul_comm v.toNat,Nat.mul_mod_mul_left,Nat.mul_comm]
  have both : (256 * v.toNat + c.toNat) % 2 ^ (8 + k) = v.toNat % 2 ^ k * 2 ^ 8 + c.toNat := by
    have quotient : (256 * v.toNat + c.toNat) / 256 = v.toNat := by omega
    have remainder : (256 * v.toNat + c.toNat) % 256 = c.toNat := by omega
    rw [Nat.pow_add,show 2 ^ 8 = 256 from rfl,Nat.mod_mul,quotient,remainder,Nat.add_comm,Nat.mul_comm]
  apply BitVec.eq_of_toNat_eq
  rw [BitVec.toNat_or,BitVec.toNat_shiftLeft,BitVec.toNat_setWidth,BitVec.toNat_ofNat,Nat.shiftLeft_eq,upper,both,
    Nat.mod_eq_of_lt (Nat.lt_of_lt_of_le small room),← Nat.shiftLeft_eq,← Nat.shiftLeft_add_eq_or_of_lt small]

theorem bigEndian_bigBytes (wide : 8 ≤ w) {k v : Nat} (fits : v < 256 ^ k) :
    bigEndian w (bigBytes k v) = BitVec.ofNat w v := by
  induction k generalizing v with
  | zero =>
    have zero : v = 0 := by omega
    rw [zero]
    rfl
  | succ k ih =>
    have high : v / 256 < 256 ^ k := by
      rw [Nat.div_lt_iff_lt_mul (by decide)]
      rwa [Nat.pow_succ] at fits
    have upper := ih high
    rw [bigEndian] at upper ⊢
    rw [bigBytes,List.foldl_append,upper,List.foldl_cons,List.foldl_nil,shift_or wide]
    have digits : 256 * (v / 256) + v % 256 = v := Nat.div_add_mod v 256
    apply BitVec.eq_of_toNat_eq
    rw [BitVec.toNat_ofNat,BitVec.toNat_ofNat,BitVec.toNat_ofNat,BitVec.toNat_ofNat,Nat.add_mod,Nat.mul_mod_mod,
      ← Nat.add_mod]
    exact congrArg (· % 2 ^ w) digits

theorem number_slice (w o k : Nat) (has : b.Has x bs) (inside : o + k ≤ bs.length) :
    b.number w (x + o) k = bigEndian w ((bs.drop o).take k) := by
  have cut : bs = bs.take o ++ ((bs.drop o).take k ++
    (bs.drop o).drop k) := by rw [List.take_append_drop,List.take_append_drop]
  have front : (bs.take o).length = o := List.length_take_of_le (by omega)
  have length : ((bs.drop o).take k).length = k := List.length_take_of_le (by rw [List.length_drop]; omega)
  rw [cut] at has
  have middle := (Blob.has_append.mp (Blob.has_append.mp has).2).1
  rw [front] at middle
  have read := number_has w middle
  rwa [length] at read

theorem number_four (b : Blob) (x : Nat) : b.number 32 x 4 = (b.mem x).setWidth 32 <<< 24 |||
    (b.mem (x + 1)).setWidth 32 <<< 16 |||
    (b.mem (x + 2)).setWidth 32 <<< 8 ||| (b.mem (x + 3)).setWidth 32 := by
  have cells : b.number 32 x 4 =
    (((0#32 <<< 8 ||| (b.mem x).setWidth 32) <<< 8 ||| (b.mem (x + 1)).setWidth 32) <<< 8 |||
    (b.mem (x + 2)).setWidth 32) <<< 8 ||| (b.mem (x + 3)).setWidth 32 := rfl
  rw [cells]
  simp only [BitVec.shiftLeft_or_distrib,← BitVec.shiftLeft_add,BitVec.zero_shiftLeft,BitVec.zero_or,Nat.reduceAdd]

theorem tmFdtPropU32_eq (laid : im.Laid b) (member : n ∈ im.nodes) (free : 0 ∉ name)
    (enough : im.block.length ≤ rounds) :
    b.tmFdtPropU32 rounds (BitVec.ofNat 32 n.start) name = some ((Node.property n name).bind fun q =>
      if q.2.value.length = 4 then some (bigEndian 32 q.2.value) else none) := by
  rw [Blob.tmFdtPropU32,tmFdtProp_eq laid member free enough,Option.map_some]
  cases found : Node.property n name with
  | none => rfl
  | some q =>
    obtain ⟨-,has,whole,-⟩ := has_valueOf laid member found
    have four : (b.valueOf q).2 = 4 ↔ q.2.value.length = 4 := by
      rw [← whole]
      exact BitVec.toNat_inj.symm
    rw [Option.map_some,Option.bind_some,Option.bind_some]
    by_cases length : q.2.value.length = 4
    · have read := number_has 32 has
      rw [length] at read
      rw [if_neg (fun other => other (four.mpr length)),if_pos length,← read,number_four]
    · rw [if_pos (mt four.mp length),if_neg length]

theorem drop_flatMap {α β : Type} {f : α → List β} {k : Nat} (same : ∀ a, (f a).length = k) (l : List α) (i : Nat) :
    (l.flatMap f).drop (i * k) = (l.drop i).flatMap f := by
  induction i generalizing l with
  | zero => rw [Nat.zero_mul,List.drop_zero,List.drop_zero]
  | succ i ih =>
    cases l with
    | nil => simp
    | cons a l =>
      have front := same a
      rw [List.flatMap_cons,Nat.add_mul,Nat.one_mul,Nat.add_comm,← List.drop_drop,← front,List.drop_left,front,
        ih,List.drop_succ_cons]

def regIn (a s i : Nat) (bs : List Byte) : Option (BitVec 64 × BitVec 64) :=
  if bs.length < (i + 1) * (4 * (a + s)) then none
  else some (bigEndian 64 ((bs.drop (i * (4 * (a + s)))).take (4 * a)),
    bigEndian 64 ((bs.drop (i * (4 * (a + s)) + 4 * a)).take (4 * s)))

theorem tmFdtReg_eq (laid : im.Laid b) (member : n ∈ im.nodes) (enough : im.block.length ≤ rounds) {a s i : Nat}
    (cells : 0 < a + s) (small : (i + 1) * (4 * (a + s)) < 2 ^ 32) :
    b.tmFdtReg rounds (BitVec.ofNat 32 n.start) (BitVec.ofNat 32 a) (BitVec.ofNat 32 s) (BitVec.ofNat 32 i) =
      some ((Node.property n (ascii "reg")).bind fun q => regIn a s i q.2.value) := by
  have named : 0 ∉ ascii "reg" := by decide
  have scaled : (i + 1) * (4 * (a + s)) = i * (4 * (a + s)) + 4 * (a + s) := by rw [Nat.add_mul,Nat.one_mul]
  have bytes : ((BitVec.ofNat 32 a + BitVec.ofNat 32 s) * 4 : BitVec 32) = BitVec.ofNat 32 (4 * (a + s)) := by
    rw [← BitVec.ofNat_add,Nat.mul_comm]
    exact (BitVec.ofNat_mul ..).symm
  have words : ¬(BitVec.ofNat 32 a + BitVec.ofNat 32 s : BitVec 32) = 0 := by
    rw [← BitVec.ofNat_add]
    intro zero
    have nothing := congrArg BitVec.toNat zero
    rw [BitVec.toNat_ofNat,Nat.mod_eq_of_lt (by omega)] at nothing
    have nil : (0 : BitVec 32).toNat = 0 := rfl
    omega
  have stop : ((BitVec.ofNat 32 i + 1) * BitVec.ofNat 32 (4 * (a + s)) : BitVec 32).toNat =
    (i + 1) * (4 * (a + s)) := by
    have one : (BitVec.ofNat 32 i + 1 : BitVec 32) = BitVec.ofNat 32 (i + 1) := (BitVec.ofNat_add i 1).symm
    rw [one,← BitVec.ofNat_mul,BitVec.toNat_ofNat,Nat.mod_eq_of_lt small]
  have offset : (BitVec.ofNat 32 i * BitVec.ofNat 32 (4 * (a + s)) : BitVec 32).toNat = i * (4 * (a + s)) := by
    rw [← BitVec.ofNat_mul,BitVec.toNat_ofNat,Nat.mod_eq_of_lt (by omega)]
  have four : ∀ k, 4 * k < 2 ^ 32 → (BitVec.ofNat 32 k * 4 : BitVec 32).toNat = 4 * k := by
    intro k less
    have product : (BitVec.ofNat 32 k * 4 : BitVec 32) = BitVec.ofNat 32 (k * 4) := (BitVec.ofNat_mul ..).symm
    rw [product,BitVec.toNat_ofNat,Nat.mul_comm,Nat.mod_eq_of_lt less]
  rw [Blob.tmFdtReg,tmFdtProp_eq laid member named enough,Option.map_some]
  cases found : Node.property n (ascii "reg") with
  | none => rfl
  | some q =>
    obtain ⟨-,has,whole,-⟩ := has_valueOf laid member found
    have beyond : (b.valueOf q).2 < (BitVec.ofNat 32 i + 1) * BitVec.ofNat 32 (4 * (a + s)) ↔
      q.2.value.length < (i + 1) * (4 * (a + s)) := by
      rw [BitVec.lt_def,stop,whole]
    rw [Option.map_some,Option.bind_some,Option.bind_some,regIn]
    dsimp only
    rw [if_neg words,bytes,offset,four a (by omega),four s (by omega)]
    by_cases short : q.2.value.length < (i + 1) * (4 * (a + s))
    · rw [if_pos (beyond.mpr short),if_pos short]
    · rw [if_neg (mt beyond.mp short),if_neg short,number_slice 64 _ _ has (by omega),Nat.add_assoc,
        number_slice 64 _ _ has (by omega)]

/-- A pair of a `reg` property: so many cells of address and of size. -/
def regBytes (addrCells sizeCells : Nat) (t : Nat × Nat) : List Byte :=
  bigBytes (4 * addrCells) t.1 ++ bigBytes (4 * sizeCells) t.2

theorem length_regBytes (a s : Nat) (t : Nat × Nat) : (regBytes a s t).length = 4 * (a + s) := by
  rw [regBytes,List.length_append,length_bigBytes,length_bigBytes,Nat.mul_add]

theorem length_flatMap_regBytes (a s : Nat) (ts : List (Nat × Nat)) :
    (ts.flatMap (regBytes a s)).length = ts.length * (4 * (a + s)) := by
  induction ts with
  | nil => simp
  | cons t ts ih =>
    rw [List.flatMap_cons,List.length_append,length_regBytes,ih,List.length_cons,Nat.add_mul,Nat.one_mul,
      Nat.add_comm]

theorem regIn_regBytes {a s i : Nat} {ts : List (Nat × Nat)} (fits : ∀ t ∈ ts, t.1 < 256 ^ (4 * a) ∧
    t.2 < 256 ^ (4 * s)) (cells : 0 < a + s) :
    regIn a s i (ts.flatMap (regBytes a s)) = ts[i]?.map fun t => (BitVec.ofNat 64 t.1,BitVec.ofNat 64 t.2) := by
  rw [regIn,length_flatMap_regBytes]
  cases at' : ts[i]? with
  | none =>
    have past := List.getElem?_eq_none_iff.mp at'
    rw [if_pos (Nat.mul_lt_mul_of_pos_right (by omega) (by omega))]
    rfl
  | some t =>
    obtain ⟨less,same⟩ := List.getElem?_eq_some_iff.mp at'
    obtain ⟨address,size⟩ := fits t (List.mem_of_getElem? at')
    have behind : (ts.flatMap (regBytes a s)).drop (i * (4 * (a + s))) =
        bigBytes (4 * a) t.1 ++ (bigBytes (4 * s) t.2 ++ (ts.drop (i + 1)).flatMap (regBytes a s)) := by
      rw [drop_flatMap (length_regBytes a s),List.drop_eq_getElem_cons less,same,List.flatMap_cons,regBytes,
        List.append_assoc]
    rw [if_neg (Nat.not_lt_of_le (Nat.mul_le_mul_right _ less)),← List.drop_drop,behind,List.take_left'
      (length_bigBytes _ _),
      List.drop_left' (length_bigBytes _ _),List.take_left' (length_bigBytes _ _),bigEndian_bigBytes
        (by decide) address,
      bigEndian_bigBytes (by decide) size]
    rfl

/-- What `tm_fdt_prop` answers is a property's value, or that there is none. -/
def Blob.Reads (b : Blob) (found : Option Blob.Value) : Option (Nat × Property) → Prop
  | none => found = none
  | some q => ∃ v, found = some v ∧ b.Has v.1 q.2.value ∧ v.2.toNat = q.2.value.length

theorem reads_handle (laid : im.Laid b) (free : 0 ∉ name) (enough : im.block.length ≤ rounds) (found : Option Node)
    (member : ∀ n ∈ found, n ∈ im.nodes) :
    ∃ value, b.tmFdtProp rounds (handle found) name = some value ∧
      b.Reads value (found.bind fun n => Node.property n name) := by
  cases found with
  | none =>
    refine ⟨none,?_,rfl⟩
    rw [Blob.tmFdtProp,if_pos (.inr (by decide))]
  | some n =>
    have known := member n rfl
    refine ⟨_,tmFdtProp_eq laid known free enough,?_⟩
    rw [Option.bind_some]
    cases property : Node.property n name with
    | none => rfl
    | some q =>
      obtain ⟨-,has,whole,-⟩ := has_valueOf laid known property
      exact ⟨_,rfl,has,whole⟩

theorem Node.descendant_mem {comps : List (List Byte)} {m : Node} (member : n ∈ im.nodes)
    (found : Node.descendant n comps = some m) :
    m ∈ im.nodes := by
  induction comps generalizing n with
  | nil =>
    obtain rfl := Option.some.inj found
    exact member
  | cons comp comps ih =>
    rw [Node.descendant,List.foldlM_cons] at found
    obtain ⟨c,child,later⟩ := Option.bind_eq_some_iff.mp found
    exact ih (Node.child_mem member child) later

def windows : Property := ⟨ascii "reg",[(1,2),(3,4)].flatMap (regBytes 1 1),by decide,by decide⟩

/-- An I/O window and one of memory: the kind, the addresses on the bus and of the processor, the size. -/
def ranges : Property where
  name := ascii "ranges"
  value := [(0x01000000,0,5,6),(0x02000000,7,8,9)].flatMap fun r =>
    bigBytes 4 r.1 ++ (bigBytes 8 r.2.1 ++ (bigBytes 8 r.2.2.1 ++ bigBytes 8 r.2.2.2))
  named := by decide
  worded := by decide

def bridge : Node where
  start := 28
  label := ⟨ascii "pci@1",by decide⟩
  inner := .leaf (.prop ⟨ascii "compatible",ascii "pci-host-ecam-generic" ++ [0] ++ ascii "dw" ++
    [0],by decide,by decide⟩)
    (.leaf .nop (.leaf (.prop windows) (.leaf (.prop ranges) .nil)))

def soc : Image where
  nops := 1
  name := ⟨[],by decide⟩
  inner := .leaf (.prop ⟨ascii "model",ascii "m",by decide,by decide⟩) (.node bridge.label bridge.inner .nil)
  place name := if name = ascii "model" then 0 else if name = ascii "compatible" then 6
    else if name = ascii "reg" then 17 else 21
  totalsize := 300
  structs := 40
  strings := 240
  rsvmap := 28
  version := 17
  lastComp := 16

def socBlob : Blob :=
  ⟨fun x => (soc.header ++ List.replicate 12 0 ++ soc.block ++ List.replicate (200 - soc.block.length) 0 ++
    ascii "model" ++ [0] ++ ascii "compatible" ++ [0] ++ ascii "reg" ++ [0] ++ ascii "ranges" ++ [0]).getD x 0⟩

theorem soc_laid : soc.Laid socBlob where
  header := by decide +kernel
  readable := by decide
  block := by decide +kernel
  strings := by decide +kernel
  fits := by decide +kernel

/-- `tm_fdt_path` answers the node that a path names in the tree, and `tm_fdt_prop` its property. -/
theorem fdt_read_by_path (laid : im.Laid b) {p : List Byte} (free : 0 ∉ p) (free' : 0 ∉ name)
    (enough : im.block.length ≤ rounds) (long : p.length < rounds) :
    ∃ node value, b.tmFdtPath rounds (slash :: p) = some node ∧ b.tmFdtProp rounds node name = some value ∧
      node = handle (Node.descendant im.root (components p)) ∧
        b.Reads value ((Node.descendant im.root (components p)).bind fun n => Node.property n name) := by
  obtain ⟨value,read,means⟩ := reads_handle laid free' enough (Node.descendant im.root (components p))
    fun n named => Node.descendant_mem im.root_mem named
  exact ⟨_,value,tmFdtPath_eq laid free enough long,read,rfl,means⟩

theorem fdt_read_by_path_soc : ∃ node value, socBlob.tmFdtPath 300 (slash :: ascii "pci") = some node ∧
    socBlob.tmFdtProp 300 node (ascii "reg") = some value ∧
      node = handle (Node.descendant soc.root (components (ascii "pci"))) ∧
        socBlob.Reads value ((Node.descendant soc.root (components (ascii "pci"))).bind fun n =>
          Node.property n (ascii "reg")) :=
  fdt_read_by_path soc_laid (by decide) (by decide) (by decide +kernel) (by decide)

/-- `tm_fdt_compatible` answers the first node of the tree that is compatible, and `tm_fdt_prop` its property. -/
theorem fdt_read_by_compatible (laid : im.Laid b) (free : 0 ∉ s) (free' : 0 ∉ name)
    (enough : im.block.length ≤ rounds) :
    ∃ node value, b.tmFdtCompatible rounds s = some node ∧ b.tmFdtProp rounds node name = some value ∧
      node = handle (im.nodes.find? fun n => Node.compatibleWith n s) ∧
        b.Reads value ((im.nodes.find? fun n => Node.compatibleWith n s).bind fun n => Node.property n name) := by
  obtain ⟨value,read,means⟩ := reads_handle laid free' enough (im.nodes.find? fun n => Node.compatibleWith n s)
    fun n named => List.mem_of_find?_eq_some named
  exact ⟨_,value,tmFdtCompatible_eq laid free enough,read,rfl,means⟩

theorem fdt_read_by_compatible_soc : ∃ node value, socBlob.tmFdtCompatible 300 (ascii "dw") = some node ∧
    socBlob.tmFdtProp 300 node (ascii "reg") = some value ∧
      node = handle (soc.nodes.find? fun n => Node.compatibleWith n (ascii "dw")) ∧
        socBlob.Reads value ((soc.nodes.find? fun n => Node.compatibleWith n (ascii "dw")).bind fun n =>
          Node.property n (ascii "reg")) :=
  fdt_read_by_compatible soc_laid (by decide) (by decide) (by decide +kernel)

/-- `tm_fdt_reg` reads the pairs that a `reg` property was written from. -/
theorem fdt_reg_round_trip (laid : im.Laid b) (member : n ∈ im.nodes) (enough : im.block.length ≤ rounds)
    {a s i : Nat} {ts : List (Nat × Nat)} {q : Nat × Property} (found : Node.property n (ascii "reg") = some q)
    (written : q.2.value = ts.flatMap (regBytes a s))
    (fits : ∀ t ∈ ts, t.1 < 256 ^ (4 * a) ∧ t.2 < 256 ^ (4 * s)) (cells : 0 < a + s)
    (small : (i + 1) * (4 * (a + s)) < 2 ^ 32) :
    b.tmFdtReg rounds (BitVec.ofNat 32 n.start) (BitVec.ofNat 32 a) (BitVec.ofNat 32 s) (BitVec.ofNat 32 i) =
      some (ts[i]?.map fun t => (BitVec.ofNat 64 t.1,BitVec.ofNat 64 t.2)) := by
  rw [tmFdtReg_eq laid member enough cells small,found,Option.bind_some,written,regIn_regBytes fits cells]

theorem fdt_reg_round_trip_soc : socBlob.tmFdtReg 300 28 1 1 1 = some (some (3,4)) := by
  have member : bridge ∈ soc.nodes := by decide +kernel
  have found : Node.property bridge (ascii "reg") = some (84,windows) := by decide +kernel
  exact fdt_reg_round_trip soc_laid member (by decide +kernel) (a := 1) (s := 1) (i := 1) found rfl (by decide)
    (by decide) (by decide)

end Qsoe.Sys
