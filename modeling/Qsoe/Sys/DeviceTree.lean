import Qsoe.Lib.Components
import Qsoe.Sys.Fdt

/-! Device trees and how a blob holds one. Properties have to stand in front of the nodes inside a node by the
format; here they may stand anywhere. -/
namespace Qsoe.Sys

open Qsoe.Path (Byte slash)
open Nested (Forest Group)

/-- What is named `compatible` is a list of strings. -/
structure Property where
  name : List Byte
  value : List Byte
  named : 0 ∉ name
  worded : name = ascii "compatible" → value.getLast? = some 0
  deriving DecidableEq, Repr

inductive Leaf where
  | nop
  | prop (p : Property)
  deriving DecidableEq, Repr

def Leaf.property? : Leaf → Option Property
  | .nop => none
  | .prop p => some p

abbrev Name := { s : List Byte // 0 ∉ s }

abbrev Token := Nested.Token Name Leaf

abbrev Node := Group Name Leaf

def upTo4 (n : Nat) : Nat := (n + 3) / 4 * 4

def padded (bs : List Byte) : List Byte := bs ++ List.replicate (upTo4 bs.length - bs.length) 0

def wordBytes (v : BitVec 32) : List Byte :=
    [(v >>> 24).setWidth 8,(v >>> 16).setWidth 8,(v >>> 8).setWidth 8,v.setWidth 8]

/-- `place` is where the strings block has a name. -/
def tokenBytes (place : List Byte → BitVec 32) : Token → List Byte
  | .opening name => wordBytes fdtBeginNode ++ padded (name.1 ++ [0])
  | .closing => wordBytes fdtEndNode
  | .leaf .nop => wordBytes fdtNop
  | .leaf (.prop p) =>
    wordBytes fdtProp ++ wordBytes (BitVec.ofNat 32 p.value.length) ++ wordBytes (place p.name) ++ padded p.value

def width : Token → Nat
  | .opening name => 4 + upTo4 (name.1.length + 1)
  | .closing => 4
  | .leaf .nop => 4
  | .leaf (.prop p) => 12 + upTo4 p.value.length

/-- A tree with the header fields of its blob, the number of NOPs in front of it and the places of the names. -/
structure Image where
  nops : Nat
  name : Name
  inner : Forest Name Leaf
  place : List Byte → BitVec 32
  totalsize : BitVec 32
  structs : BitVec 32
  strings : BitVec 32
  rsvmap : BitVec 32
  version : BitVec 32
  lastComp : BitVec 32

def behindNops : Nat → Forest Name Leaf → Forest Name Leaf
  | 0, f => f
  | k + 1, f => .leaf .nop (behindNops k f)

def Image.forest (im : Image) : Forest Name Leaf := behindNops im.nops (.node im.name im.inner .nil)

def Image.header (im : Image) : List Byte :=
  [fdtMagic,im.totalsize,im.structs,im.strings,im.rsvmap,im.version,im.lastComp].flatMap wordBytes

def Image.block (im : Image) : List Byte := im.forest.tokens.flatMap (tokenBytes im.place) ++ wordBytes 9

def Blob.Has (b : Blob) : Nat → List Byte → Prop
  | _, [] => True
  | x, c :: cs => b.mem x = c ∧ b.Has (x + 1) cs

instance Blob.decidableHas (b : Blob) : (x : Nat) → (bs : List Byte) → Decidable (b.Has x bs)
  | _, [] => inferInstanceAs (Decidable True)
  | x, c :: cs =>
    have := b.decidableHas (x + 1) cs
    inferInstanceAs (Decidable (b.mem x = c ∧ b.Has (x + 1) cs))

/-- The blob holds the tree; a structure block of 2 GiB would not fit the offsets. -/
structure Image.Laid (im : Image) (b : Blob) : Prop where
  header : b.Has 0 im.header
  readable : im.lastComp ≤ 17
  block : b.Has im.structs.toNat im.block
  strings : ∀ l ∈ im.forest.leaves, ∀ p ∈ l.property?, b.Has (im.strings.toNat + (im.place p.name).toNat)
    (p.name ++ [0])
  fits : im.block.length < 2 ^ 31

namespace Image

def root (im : Image) : Node := ⟨4 * im.nops,im.name,im.inner⟩

/-- All nodes, each in front of the ones inside. -/
def nodes (im : Image) : List Node := Nested.groups width 0 im.forest

end Image

def Matches (comp : List Byte) (name : Name) : Prop := name.1 = comp ∨ comp ++ [atSign] <+: name.1

instance (comp : List Byte) (name : Name) : Decidable (Matches comp name) :=
  inferInstanceAs (Decidable (name.1 = comp ∨ comp ++ [atSign] <+: name.1))

/-- What stands between the slashes; behind a slash at the end stands nothing. -/
def components (p : List Byte) : List (List Byte) :=
  if (p.splitOn slash).getLast? = some [] then (p.splitOn slash).dropLast else p.splitOn slash

namespace Node

def children (n : Node) : List Node := Nested.siblings width (n.body width) n.inner

def child (n : Node) (comp : List Byte) : Option Node := n.children.find? fun c => Matches comp c.label

def descendant (n : Node) (comps : List (List Byte)) : Option Node := comps.foldlM child n

def properties (n : Node) : List (Nat × Property) :=
  (Nested.visible width (fun l => l.property?.isSome) (n.body width) n.inner).filterMap fun l =>
    l.2.property?.map (l.1,·)

/-- The first property of a name, with the position of its token. -/
def property (n : Node) (name : List Byte) : Option (Nat × Property) := n.properties.find? fun p => p.2.name = name

end Node

def Property.strings (p : Property) : List (List Byte) := (p.value.splitOn 0).dropLast

/-- One of the strings of `compatible` is the one that is looked for. -/
def Node.compatibleWith (n : Node) (compat : List Byte) : Prop :=
  ∃ p ∈ Node.property n (ascii "compatible"), compat ∈ p.2.strings

instance (n : Node) (compat : List Byte) : Decidable (Node.compatibleWith n compat) :=
  inferInstanceAs (Decidable (∃ p ∈ Node.property n (ascii "compatible"), compat ∈ p.2.strings))

end Qsoe.Sys
