import Mathlib.Data.List.Basic

/-! Consecutive cells of a memory as a list. -/
namespace Cells

variable {α : Type} {mem mem' : Nat → α} {a n : Nat} {xs ys : List α}

def row (mem : Nat → α) (a n : Nat) : List α := (List.range' a n).map mem

@[simp] theorem length_row (mem : Nat → α) (a n : Nat) : (row mem a n).length = n := by
  rw [row,List.length_map,List.length_range']

theorem row_add (mem : Nat → α) (a m n : Nat) : row mem a (m + n) = row mem a m ++ row mem (a + m) n := by
  have both : List.range' a m ++ List.range' (a + m) n = List.range' a (m + n) := List.range'_append_1
  rw [row,← both,List.map_append,row,row]

theorem row_succ (mem : Nat → α) (a n : Nat) : row mem a (n + 1) = mem a :: row mem (a + 1) n := rfl

theorem row_snoc (mem : Nat → α) (a n : Nat) : row mem a (n + 1) = row mem a n ++ [mem (a + n)] := row_add mem a n 1

theorem row_eq_map (mem : Nat → α) (a n : Nat) : row mem a n = (List.range n).map fun k => mem (a + k) := by
  rw [row,List.range'_eq_map_range,List.map_map]
  rfl

theorem row_congr (same : ∀ x, a ≤ x → x < a + n → mem x = mem' x) : row mem a n = row mem' a n := by
  refine List.map_congr_left fun x member => ?_
  obtain ⟨low,high⟩ := List.mem_range'_1.mp member
  exact same x low high

theorem row_append (there : row mem a n = xs ++ ys) :
    row mem a xs.length = xs ∧ row mem (a + xs.length) (n - xs.length) = ys := by
  have length := congrArg List.length there
  rw [length_row,List.length_append] at length
  have split := row_add mem a xs.length (n - xs.length)
  rw [Nat.add_sub_cancel' (by omega),there] at split
  exact ⟨List.append_inj_left split.symm (length_row ..),List.append_inj_right split.symm (length_row ..)⟩

/-- A list kept from `a` on is read back from there. -/
theorem row_getD (xs : List α) (d : α) (a : Nat) : row (fun x => xs.getD (x - a) d) a xs.length = xs := by
  rw [row_eq_map]
  apply List.ext_getElem
  · simp
  · intro k below there
    simp [List.getD_eq_getElem?_getD,there]

theorem take_drop_row (mem : Nat → α) (a n pos k : Nat) :
    ((row mem a n).drop pos).take k = row mem (a + pos) (min k (n - pos)) := by
  apply List.ext_getElem
  · simp
  · intro i one two
    simp [row,Nat.add_assoc]

end Cells
