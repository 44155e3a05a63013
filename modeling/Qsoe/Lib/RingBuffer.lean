import Mathlib.Logic.Function.Basic
import Mathlib.Data.List.Basic

/-! A ring buffer with separate head, tail and count over a fixed array, and the queue it
holds. Indices wrap by a remainder; a popped cell keeps its old value. -/
structure RingBuffer (α : Type) where
  head : Nat
  tail : Nat
  count : Nat
  cells : Nat → α

namespace RingBuffer

variable {α : Type} {r : RingBuffer α} {cap : Nat} {l : List α}

def push (r : RingBuffer α) (cap : Nat) (a : α) : RingBuffer α :=
  { r with
    cells := Function.update r.cells r.tail a
    tail := (r.tail + 1) % cap
    count := r.count + 1 }

def front (r : RingBuffer α) : α := r.cells r.head

def pop (r : RingBuffer α) (cap : Nat) : RingBuffer α :=
  { r with head := (r.head + 1) % cap, count := r.count - 1 }

def clear (r : RingBuffer α) : RingBuffer α := { r with head := 0, tail := 0, count := 0 }

/-- The cells from the head on, oldest first, are `l`. -/
structure Holds (r : RingBuffer α) (cap : Nat) (l : List α) : Prop where
  count : r.count = l.length
  room : l.length ≤ cap
  head : r.head < cap
  tail : r.tail = (r.head + r.count) % cap
  cell : ∀ j a, l[j]? = some a → r.cells ((r.head + j) % cap) = a

theorem offset_ne (head : Nat) (less : i < j) (turn : j < cap) : (head + i) % cap ≠ (head + j) % cap := by
  intro same
  have apart : (j - i) % cap = 0 := by
    have shape : head + j = head + i + (j - i) := by omega
    rw [shape] at same
    have left := Nat.sub_mod_eq_zero_of_mod_eq same.symm
    rwa [Nat.add_sub_cancel_left] at left
  rw [Nat.mod_eq_of_lt (by omega)] at apart
  omega

theorem holds_clear (r : RingBuffer α) (positive : 0 < cap) : r.clear.Holds cap [] where
  count := rfl
  room := Nat.zero_le cap
  head := positive
  tail := (Nat.zero_mod cap).symm
  cell := by simp

theorem Holds.push (holds : r.Holds cap l) (room : l.length < cap) (a : α) :
    (r.push cap a).Holds cap (l ++ [a]) where
  count := by simp [RingBuffer.push,holds.count]
  room := by
    rw [List.length_append,List.length_singleton]
    exact room
  head := holds.head
  tail := by
    dsimp only [RingBuffer.push]
    rw [holds.tail,Nat.mod_add_mod,Nat.add_assoc]
  cell j b found := by
    have slot : r.tail = (r.head + l.length) % cap := holds.count ▸ holds.tail
    dsimp only [RingBuffer.push]
    rw [slot]
    rcases Nat.lt_or_ge j l.length with old | new
    · rw [List.getElem?_append_left old] at found
      rw [Function.update_of_ne (offset_ne r.head old room)]
      exact holds.cell j b found
    · rw [List.getElem?_append_right new] at found
      obtain ⟨last,rfl⟩ : j - l.length = 0 ∧ a = b := by simpa [List.getElem?_singleton] using found
      rw [show j = l.length by omega,Function.update_self]

theorem Holds.front (holds : r.Holds cap (a :: l)) : r.front = a := by
  have first := holds.cell 0 a rfl
  rwa [Nat.add_zero,Nat.mod_eq_of_lt holds.head] at first

theorem Holds.pop (holds : r.Holds cap (a :: l)) : (r.pop cap).Holds cap l where
  count := by simp [RingBuffer.pop,holds.count]
  room := Nat.le_of_succ_le holds.room
  head := Nat.mod_lt _ (Nat.zero_lt_of_lt holds.head)
  tail := by
    have counted := holds.count
    rw [List.length_cons] at counted
    dsimp only [RingBuffer.pop]
    rw [holds.tail,Nat.mod_add_mod]
    congr 1
    omega
  cell j b found := by
    have next := holds.cell (j + 1) b found
    dsimp only [RingBuffer.pop]
    rw [Nat.mod_add_mod,Nat.add_assoc,Nat.add_comm 1 j]
    exact next

end RingBuffer
