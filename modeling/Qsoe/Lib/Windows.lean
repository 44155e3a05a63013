import Mathlib.Data.List.Basic
import Mathlib.Data.List.Count
import Mathlib.Data.List.Perm.Basic

/-! A list is handed out in windows: each pass goes through it from the start, skips so many elements and keeps
as many as are wanted. The windows one after the other are the list. -/
namespace Windows

structure Cursor (α : Type) where
  idx : Nat
  got : List α

variable {α β : Type}

def emit (want skip : Nat) (c : Cursor α) (a : α) : Cursor α :=
  if want ≤ c.got.length then c
  else if c.idx < skip then { c with idx := c.idx + 1 }
  else ⟨c.idx + 1,c.got ++ [a]⟩

theorem foldl_emit (want skip : Nat) (xs : List α) (c : Cursor α) :
    (xs.foldl (emit want skip) c).got = c.got ++ (xs.drop (skip - c.idx)).take (want - c.got.length) := by
  induction xs generalizing c with
  | nil => simp
  | cons x xs ih =>
    rw [List.foldl_cons,ih]
    unfold emit
    by_cases full : want ≤ c.got.length
    · rw [if_pos full,Nat.sub_eq_zero_of_le full,List.take_zero,List.take_zero]
    · rw [if_neg full]
      by_cases before : c.idx < skip
      · have step : skip - c.idx = skip - (c.idx + 1) + 1 := by omega
        rw [if_pos before,step,List.drop_succ_cons]
      · have here : skip - c.idx = 0 := by omega
        have behind : skip - (c.idx + 1) = 0 := by omega
        have room : want - c.got.length = want - (c.got.length + 1) + 1 := by omega
        rw [if_neg before]
        dsimp only
        rw [here,behind,room,List.drop_zero,List.drop_zero,List.take_succ_cons,List.length_append,
          List.length_singleton,List.append_assoc]
        rfl

theorem tile (xs : List α) (w n : Nat) :
    (List.range n).flatMap (fun k => (xs.drop (k * w)).take w) = xs.take (n * w) := by
  induction n with
  | zero => simp
  | succ n ih => rw [List.range_succ,List.flatMap_append,ih,List.flatMap_singleton,Nat.succ_mul,List.take_add]

theorem gather_perm (keys : List β) (fits : α → β → Bool) (xs : List α) (one : ∀ x ∈ xs, keys.countP (fits x) = 1) :
    (keys.flatMap fun b => xs.filter fun x => fits x b).Perm xs := by
  induction xs with
  | nil => simp
  | cons x xs ih =>
    have single : (keys.flatMap fun b => if fits x b then [x] else []) = [x] := by
      have repeated : (keys.flatMap fun b => if fits x b then [x] else []) = List.replicate
        (keys.countP (fits x)) x := by
        clear one ih
        induction keys with
        | nil => rfl
        | cons b keys ih =>
          rw [List.flatMap_cons,ih,List.countP_cons]
          by_cases hit : fits x b = true
          · rw [if_pos hit,if_pos hit,List.replicate_succ]
            rfl
          · rw [if_neg hit,if_neg hit]
            rfl
      rw [repeated,one x List.mem_cons_self]
      rfl
    have split : (fun b => (x :: xs).filter fun x => fits x b) = fun b =>
      (if fits x b then [x] else []) ++ xs.filter fun x => fits x b := by
      funext b
      by_cases hit : fits x b = true
      · rw [List.filter_cons,if_pos hit,if_pos hit]
        rfl
      · rw [List.filter_cons,if_neg hit,if_neg hit]
        rfl
    rw [split]
    refine (List.flatMap_append_perm ..).symm.trans ?_
    rw [single]
    exact (ih fun y member => one y (List.mem_cons_of_mem x member)).cons x

end Windows
