import Qsoe.Spawn.Stack

/-! Taskman's scratch windows. A frame of a child is copied into a scratch slot and the copy mapped at a
fixed address, so that taskman gets at the frame there; the addresses behind a window are not mapped. -/
namespace Qsoe.Spawn

open Qsoe.Path (Byte)

/-- The frame that is mapped at `va`. -/
structure Window where
  va : Word
  size : Word
  frame : Nat
  deriving DecidableEq, Repr

def translate : List Window → Word → Option (Nat × Word)
  | [], _ => none
  | w :: ws, x => if x - w.va < w.size then some (w.frame,x - w.va) else translate ws x

def storeBytes (ws : List Window) (m : Frames) (x : Word) : List Byte → Option Frames
  | [] => some m
  | b :: bs =>
    (storeBytes ws m (x + 1) bs).bind fun m =>
      (translate ws x).map fun place => Memory.store m place.1 place.2 [b]

/-- What the kernel answers when a window is opened: the page tables of the window, the copy of the
frame, its mapping. -/
structure WindowKernel where
  scratchPt : Bool
  copied : Bool
  mapped : Bool
  deriving DecidableEq, Repr

/-- The kernel refuses nothing. -/
def WindowKernel.Willing (k : WindowKernel) : Prop := k.scratchPt = true ∧ k.copied = true ∧ k.mapped = true

variable {ws : List Window} {w : Window} {m : Frames} {x o : Word} {f : Nat} {bs : List Byte}

theorem translate_inside (inside : o < w.size) : translate (w :: ws) (w.va + o) = some (w.frame,o) := by
  have back : w.va + o - w.va = o := by
    rw [BitVec.add_comm,BitVec.add_sub_cancel]
  rw [translate,back,if_pos inside]

/-- What is stored in a window is stored in its frame. -/
theorem storeBytes_inside (ws : List Window) (w : Window) (m : Frames) (bs : List Byte)
    (fits : o.toNat + bs.length ≤ w.size.toNat) :
    storeBytes (w :: ws) m (w.va + o) bs = some (Memory.store m w.frame o bs) := by
  induction bs generalizing o with
  | nil => rw [storeBytes,Memory.store_nil]
  | cons b bs ih =>
    have bound := w.size.isLt
    rw [List.length_cons] at fits
    have next : (o + 1).toNat = o.toNat + 1 := by
      have one : (1 : Word).toNat = 1 := rfl
      rw [BitVec.toNat_add,one,Nat.mod_eq_of_lt (by omega)]
    have front := Memory.store_front m w.frame o [b] bs
    rw [storeBytes,BitVec.add_assoc,ih (by omega),Option.bind_some,translate_inside
      (BitVec.lt_def.mpr (by omega)),Option.map_some]
    exact congrArg some front

theorem storeBytes_outside (w : Window) (m : Frames) (bs : List Byte) (inside : o.toNat ≤ w.size.toNat)
    (out : w.size.toNat < o.toNat + bs.length)
    (room : o.toNat + bs.length ≤ 2 ^ 64) : storeBytes [w] m (w.va + o) bs = none := by
  induction bs generalizing o with
  | nil =>
    rw [List.length_nil] at out
    omega
  | cons b bs ih =>
    rw [List.length_cons] at out room
    rw [storeBytes]
    by_cases here : o < w.size
    · have less := BitVec.lt_def.mp here
      have next : (o + 1).toNat = o.toNat + 1 := by
        have one : (1 : Word).toNat = 1 := rfl
        have bound := w.size.isLt
        rw [BitVec.toNat_add,one,Nat.mod_eq_of_lt (by omega)]
      rw [BitVec.add_assoc,ih (by omega) (by omega) (by omega),Option.bind_none]
    · have back : w.va + o - w.va = o := by
        rw [BitVec.add_comm,BitVec.add_sub_cancel]
      have unmapped : translate [w] (w.va + o) = none := by
        rw [translate,back,if_neg here,translate]
      rw [unmapped]
      cases storeBytes [w] m (w.va + o + 1) bs
      · rfl
      · rfl

end Qsoe.Spawn
