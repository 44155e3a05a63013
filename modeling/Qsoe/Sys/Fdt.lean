import Qsoe.Lib.Nested
import Qsoe.Path.Cpio

/-! The device tree parser of `fdt.c`. Addresses are counted from the first byte of the blob, an `int` offset
from the structure block. `rounds` bounds every loop; where it is too small there is no answer. -/
namespace Qsoe.Sys

open Qsoe.Path (Byte slash)

structure Blob where
  mem : Nat → Byte

/-- `TM_FDT_MAGIC` and the tokens. -/
def fdtMagic : BitVec 32 := 0xd00dfeed
def fdtBeginNode : BitVec 32 := 1
def fdtEndNode : BitVec 32 := 2
def fdtProp : BitVec 32 := 3
def fdtNop : BitVec 32 := 4

/-- `@`. -/
def atSign : Byte := 0x40

def ascii (s : String) : List Byte := s.toList.map fun c => BitVec.ofNat 8 c.toNat

def be32 (v : BitVec 32) : BitVec 32 :=
  (v &&& 0xff) <<< 24 ||| (v &&& 0xff00) <<< 8 ||| (v &&& 0xff0000) >>> 8 ||| (v &&& 0xff000000) >>> 24

def align4 (x : BitVec 32) : BitVec 32 := (x + 3) &&& ~~~3

namespace Blob

variable (b : Blob)

/-- A word as the machine loads it, the lowest byte first. -/
def load (x : Nat) : BitVec 32 := b.mem (x + 3) ++ b.mem (x + 2) ++ b.mem (x + 1) ++ b.mem x

/-- `fdt_struct_base` -/
def structBase : Nat := (be32 (b.load 8)).toNat

/-- `fdt_strings_base` -/
def stringsBase : Nat := (be32 (b.load 12)).toNat

/-- `tm_fdt_check(blob) == 0` -/
def tmFdtCheck : Bool := be32 (b.load 0) = fdtMagic ∧ be32 (b.load 24) ≤ 17

/-- `s_eq(p, s) == 0` for the string at `x`; behind the list stands the NUL of `s`. -/
def sEq : Nat → List Byte → Bool
  | x, [] => b.mem x == 0
  | x, c :: s => if b.mem x ≠ 0 ∧ c ≠ 0 then b.mem x == c && sEq (x + 1) s else b.mem x == c

/-- `s_eqn(p, comp, comp_len) == 0` -/
def sEqn : Nat → List Byte → Bool
  | _, [] => true
  | x, c :: comp => b.mem x == c && (b.mem x == 0 || sEqn (x + 1) comp)

def sLen : Nat → Nat → Option Nat
  | 0, _ => none
  | rounds + 1, x => if b.mem x = 0 then some 0 else (sLen rounds (x + 1)).map (· + 1)

/-- `be32(base[off / 4])` -/
def word (off : BitVec 32) : BitVec 32 := be32 (b.load (b.structBase + off.toNat / 4 * 4))

/-- `(const char *)base + off` -/
def addr (off : BitVec 32) : Nat := b.structBase + off.toNat

def stepToken (rounds : Nat) (off : BitVec 32) : Option (BitVec 32) :=
  if b.word off = fdtBeginNode then
    (b.sLen rounds (b.addr off + 4)).map fun n => off + 4 + align4 (BitVec.ofNat 32 n + 1)
  else if b.word off = fdtEndNode ∨ b.word off = fdtNop then some (off + 4)
  else if b.word off = fdtProp then some (off + 12 + align4 (b.word (off + 4)))
  else some (-1)

abbrev Spot := BitVec 32 × Int

/-- A turn of the loop in `find_child_node`. -/
def childTurn (rounds : Nat) (comp : List Byte) (s : Spot) : Option (Spot ⊕ BitVec 32) :=
  if s.1.slt 0 then some (.inr (-1))
  else if b.word s.1 = fdtBeginNode then
    if s.2 = 1 ∧ b.sEqn (b.addr s.1 + 4) comp ∧
        (b.mem (b.addr s.1 + 4 + comp.length) = 0 ∨ b.mem (b.addr s.1 + 4 + comp.length) = atSign) then
          some (.inr s.1)
    else (b.stepToken rounds s.1).map fun off => .inl (off,s.2 + 1)
  else if b.word s.1 = fdtEndNode then
    if s.2 - 1 = 0 then some (.inr (-1)) else (b.stepToken rounds s.1).map fun off => .inl (off,s.2 - 1)
  else if b.word s.1 = fdtProp ∨ b.word s.1 = fdtNop then (b.stepToken rounds s.1).map fun off => .inl (off,s.2)
  else some (.inr (-1))

def findChildNode (rounds : Nat) (parent : BitVec 32) (comp : List Byte) : Option (BitVec 32) :=
  (b.stepToken rounds parent).bind fun off => Nested.loop (b.childTurn rounds comp) rounds (off,1)

/-- `while (be32(base[off / 4]) == FDT_NOP) off += 4;` -/
def skipNops : Nat → BitVec 32 → Option (BitVec 32)
  | 0, _ => none
  | rounds + 1, off => if b.word off = fdtNop then skipNops rounds (off + 4) else some off

/-- The loop of `tm_fdt_path` over what is left of the path. -/
def descend (rounds : Nat) : Nat → BitVec 32 → List Byte → Option (BitVec 32)
  | 0, _, _ => none
  | more + 1, node, p =>
    if p = [] then some node
    else match b.findChildNode rounds node (p.takeWhile (· ≠ slash)) with
      | none => none
      | some child => if child.slt 0 then some (-1) else descend rounds more child (p.dropWhile (· ≠ slash)).tail

/-- The first token that is no NOP has to open a node. -/
def rootNode (rounds : Nat) : Option (Option (BitVec 32)) :=
  (b.skipNops rounds 0).map fun off => if b.word off = fdtBeginNode then some off else none

def tmFdtPath (rounds : Nat) (path : List Byte) : Option (BitVec 32) :=
  if b.tmFdtCheck = false then some (-1)
  else if path.head? ≠ some slash then some (-1)
  else match b.rootNode rounds with
    | none => none
    | some none => some (-1)
    | some (some node) => b.descend rounds rounds node path.tail

abbrev Value := Nat × BitVec 32

/-- A turn of the loop in `tm_fdt_prop`. -/
def propTurn (rounds : Nat) (name : List Byte) (s : Spot) : Option (Spot ⊕ Option Value) :=
  if s.1.slt 0 then some (.inr none)
  else if b.word s.1 = fdtProp ∧ s.2 = 1 then
    if b.sEq (b.stringsBase + (b.word (s.1 + 8)).toNat) name then some
      (.inr (some (b.addr s.1 + 12,b.word (s.1 + 4))))
    else (b.stepToken rounds s.1).map fun off => .inl (off,s.2)
  else if b.word s.1 = fdtBeginNode then (b.stepToken rounds s.1).map fun off => .inl (off,s.2 + 1)
  else if b.word s.1 = fdtEndNode then
    if s.2 - 1 = 0 then some (.inr none) else (b.stepToken rounds s.1).map fun off => .inl (off,s.2 - 1)
  else if b.word s.1 = fdtNop then some (.inl (s.1 + 4,s.2))
  else some (.inr none)

def tmFdtProp (rounds : Nat) (node : BitVec 32) (name : List Byte) : Option (Option Value) :=
  if b.tmFdtCheck = false ∨ node.slt 0 then some none
  else (b.stepToken rounds node).bind fun off => Nested.loop (b.propTurn rounds name) rounds (off,1)

/-- `n` bytes as a number, the highest first. -/
def number (w : Nat) (x n : Nat) : BitVec w :=
    (List.range n).foldl (fun v i => v <<< 8 ||| (b.mem (x + i)).setWidth w) 0

def tmFdtPropU32 (rounds : Nat) (node : BitVec 32) (name : List Byte) : Option (Option (BitVec 32)) :=
  (b.tmFdtProp rounds node name).map fun found => found.bind fun v =>
    if v.2 ≠ 4 then none
    else some ((b.mem v.1).setWidth 32 <<< 24 ||| (b.mem (v.1 + 1)).setWidth 32 <<< 16 |||
      (b.mem (v.1 + 2)).setWidth 32 <<< 8 ||| (b.mem (v.1 + 3)).setWidth 32)

/-- The string starts where the value does. -/
def tmFdtPropStr (rounds : Nat) (node : BitVec 32) (name : List Byte) : Option (Option Nat) :=
  (b.tmFdtProp rounds node name).map fun found => found.bind fun v =>
    if (List.range v.2.toNat).any (fun i => b.mem (v.1 + i) == 0) then some v.1 else none

/-- `while (i < len && s[i] != 0) ++i;` -/
def nulFrom (s : Nat) (len : BitVec 32) : Nat → BitVec 32 → Option (BitVec 32)
  | 0, _ => none
  | rounds + 1, i => if i < len ∧ b.mem (s + i.toNat) ≠ 0 then nulFrom s len rounds (i + 1) else some i

/-- Whether one of the strings of a value is `compat`. -/
def lists (compat : List Byte) (v : Value) (rounds : Nat) : Nat → BitVec 32 → Option Bool
  | 0, _ => none
  | more + 1, i =>
    if i < v.2 then
      if b.sEq (v.1 + i.toNat) compat then some true
      else match b.nulFrom v.1 v.2 rounds i with
        | none => none
        | some j => lists compat v rounds more (j + 1)
    else some false

/-- Whether the node at `off` is the one that is looked for. -/
def probe (rounds : Nat) (compat : List Byte) (off : BitVec 32) : Option Bool :=
  match b.tmFdtProp rounds off (ascii "compatible") with
  | none => none
  | some none => some false
  | some (some v) => b.lists compat v rounds rounds 0

/-- A turn of the loop in `tm_fdt_compatible`. -/
def compatTurn (rounds : Nat) (compat : List Byte) (s : Spot) : Option (Spot ⊕ BitVec 32) :=
  if s.1.slt 0 then some (.inr (-1))
  else if b.word s.1 = fdtBeginNode then
    match b.probe rounds compat s.1 with
    | none => none
    | some true => some (.inr s.1)
    | some false => (b.stepToken rounds s.1).map fun off => .inl (off,s.2 + 1)
  else if b.word s.1 = fdtEndNode then
    (b.stepToken rounds s.1).map fun off => if s.2 - 1 = 0 then .inr (-1) else .inl (off,s.2 - 1)
  else if b.word s.1 = fdtProp then (b.stepToken rounds s.1).map fun off => .inl (off,s.2)
  else if b.word s.1 = fdtNop then some (.inl (s.1 + 4,s.2))
  else some (.inr (-1))

def tmFdtCompatible (rounds : Nat) (compat : List Byte) : Option (BitVec 32) :=
  if b.tmFdtCheck = false then some (-1)
  else match b.rootNode rounds with
    | none => none
    | some none => some (-1)
    | some (some node) => Nested.loop (b.compatTurn rounds compat) rounds (node,0)

/-- `*out_base` and `*out_size`. -/
def tmFdtReg (rounds : Nat) (node addrCells sizeCells idx : BitVec 32) : Option (Option (BitVec 64 × BitVec 64)) :=
  (b.tmFdtProp rounds node (ascii "reg")).map fun found => found.bind fun v =>
    let tupleWords := addrCells + sizeCells
    let tupleBytes := tupleWords * 4
    if tupleWords = 0 then none
    else if v.2 < (idx + 1) * tupleBytes then none
    else
      let bp := v.1 + (idx * tupleBytes).toNat
      some (b.number 64 bp (addrCells * 4).toNat,b.number 64 (bp + (addrCells * 4).toNat) (sizeCells * 4).toNat)

end Blob

end Qsoe.Sys
