import Qsoe.Sync.Table

/-! The waiters of an entry as `libc/qsoe/sync.c` keeps them, in the first cells of an array that are moved one down
where one goes. They are the list that the entries of the table have. -/
namespace Qsoe.Sync

/-- `waiters` and `nwaiters`. -/
structure Fifo (ι : Type) where
  cells : Nat → ι
  nwaiters : Nat

variable {ι : Type}

/-- `waiters[i - 1] = waiters[i]` for so many cells from `k` on. -/
def shift (k : Nat) : Nat → (Nat → ι) → Nat → ι
  | 0, cells => cells
  | n + 1, cells => Function.update (shift k n cells) (k + n - 1) (shift k n cells (k + n))

theorem shift_spec (cells : Nat → ι) (positive : 0 < k) (n x : Nat) :
    shift k n cells x = if k ≤ x + 1 ∧ x + 1 < k + n then cells (x + 1) else cells x := by
  induction n generalizing x with
  | zero =>
    rw [if_neg (by omega)]
    rfl
  | succ n ih =>
    rw [shift]
    rcases eq_or_ne x (k + n - 1) with rfl | other
    · rw [Function.update_self,ih,if_neg (by omega),if_pos (by omega)]
      congr 1
      omega
    · rw [Function.update_of_ne other,ih]
      by_cases inside : k ≤ x + 1 ∧ x + 1 < k + n
      · rw [if_pos inside,if_pos (by omega)]
      · rw [if_neg inside,if_neg (by omega)]

namespace Fifo

/-- `push_waiter`. -/
def push (f : Fifo ι) (n : ι) : Option (Fifo ι) :=
  if maxWaiters ≤ f.nwaiters then none else some ⟨Function.update f.cells f.nwaiters n,f.nwaiters + 1⟩

/-- `pop_waiter`. -/
def pop (f : Fifo ι) : Option (ι × Fifo ι) :=
  if f.nwaiters = 0 then none else some (f.cells 0,⟨shift 1 (f.nwaiters - 1) f.cells,f.nwaiters - 1⟩)

/-- `remove_waiter`. -/
def remove [DecidableEq ι] (f : Fifo ι) (n : ι) : Fifo ι :=
  match (List.range f.nwaiters).find? fun i => f.cells i = n with
  | none => f
  | some i => ⟨shift (i + 1) (f.nwaiters - (i + 1)) f.cells,f.nwaiters - 1⟩

def list (f : Fifo ι) : List ι := (List.range f.nwaiters).map f.cells

@[simp] theorem length_list (f : Fifo ι) : f.list.length = f.nwaiters := by
  rw [list,List.length_map,List.length_range]

theorem list_push (f : Fifo ι) (n : ι) :
    (f.push n).map list = if f.list.length < maxWaiters then some (f.list ++ [n]) else none := by
  rw [length_list,push]
  by_cases full : maxWaiters ≤ f.nwaiters
  · rw [if_pos full,if_neg (by omega)]
    rfl
  · rw [if_neg full,if_pos (by omega),Option.map_some]
    congr 1
    rw [list,List.range_succ,List.map_append,List.map_singleton]
    dsimp only
    rw [Function.update_self]
    congr 1
    refine List.map_congr_left fun i member => ?_
    have inside := List.mem_range.mp member
    exact Function.update_of_ne (by omega) ..

/-- What is left where the element at `i` goes. -/
theorem list_shift (f : Fifo ι) (inside : i < f.nwaiters) :
    list ⟨shift (i + 1) (f.nwaiters - (i + 1)) f.cells,f.nwaiters - 1⟩ = f.list.eraseIdx i := by
  apply List.ext_getElem
  · rw [length_list,List.length_eraseIdx,length_list,if_pos inside]
  · intro x short _
    rw [length_list] at short
    dsimp only at short
    rw [List.getElem_eraseIdx]
    simp only [list,List.getElem_map,List.getElem_range]
    rw [shift_spec _ (Nat.succ_pos i)]
    by_cases front : x < i
    · rw [if_neg (by omega),dif_pos front]
    · rw [if_pos (by omega),dif_neg front]

theorem list_pop (f : Fifo ι) :
    (f.pop).map (fun out => (out.1,out.2.list)) = f.list.head?.map fun n => (n,f.list.tail) := by
  rw [pop]
  by_cases nothing : f.nwaiters = 0
  · have empty : f.list = [] := List.eq_nil_of_length_eq_zero ((length_list f).trans nothing)
    rw [if_pos nothing,empty]
    rfl
  · obtain ⟨n,count⟩ : ∃ n, f.nwaiters = n + 1 := ⟨f.nwaiters - 1,by omega⟩
    have rest := list_shift f (i := 0) (by omega)
    rw [List.eraseIdx_zero] at rest
    have first : f.list.head? = some (f.cells 0) := by
      rw [list,count,List.range_succ_eq_map,List.map_cons,List.head?_cons]
    rw [if_neg nothing,Option.map_some,first,Option.map_some,← rest]

theorem list_remove [DecidableEq ι] (f : Fifo ι) (n : ι) : (f.remove n).list = f.list.erase n := by
  unfold remove
  cases found : (List.range f.nwaiters).find? fun i => f.cells i = n with
  | none =>
    have absent : n ∉ f.list := by
      intro member
      obtain ⟨i,inside,same⟩ := List.mem_map.mp member
      exact absurd (decide_eq_true same) (List.find?_eq_none.mp found i inside)
    rw [List.erase_of_not_mem absent]
  | some i =>
    obtain ⟨here,member,first⟩ := List.find?_range_eq_some.mp found
    have inside := List.mem_range.mp member
    have short : i < f.list.length := by
      rw [length_list]
      exact inside
    have split := List.take_append_drop i f.list
    rw [List.drop_eq_getElem_cons short] at split
    have at_i : f.list[i] = n := by
      simp only [list,List.getElem_map,List.getElem_range]
      exact of_decide_eq_true here
    have before : n ∉ f.list.take i := by
      intro early
      obtain ⟨j,low,same⟩ := List.mem_take_iff_getElem.mp early
      simp only [list,List.getElem_map,List.getElem_range] at same
      have missed := first j (by omega)
      rw [same] at missed
      simp at missed
    dsimp only
    rw [list_shift f inside,List.eraseIdx_eq_take_drop_succ]
    conv_rhs => rw [← split,at_i,List.erase_append_right _ before,List.erase_cons_head]

end Fifo

end Qsoe.Sync
