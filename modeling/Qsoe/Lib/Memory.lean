import Mathlib.Algebra.Group.Nat.Defs
import Mathlib.Data.List.Basic

/-! Several address spaces of `2 ^ w` cells each: ranges read as lists and lists written to
ranges. An address wraps, so a range is at most as long as its space. -/
namespace Memory

variable {π β : Type} {w : Nat} {m : π → BitVec w → β} {p q : π} {a b : BitVec w} {bs : List β}

def load (m : π → BitVec w → β) (p : π) (a : BitVec w) (n : Nat) : List β :=
  (List.range n).map fun i => m p (a + BitVec.ofNat w i)

def Apart (p : π) (a : BitVec w) (k : Nat) (q : π) (b : BitVec w) (n : Nat) : Prop :=
  p = q → ∀ i < k, ∀ j < n, a + BitVec.ofNat w i ≠ b + BitVec.ofNat w j

@[simp] theorem length_load (m : π → BitVec w → β) (p : π) (a : BitVec w) (n : Nat) :
    (load m p a n).length = n := by
  simp [load]

theorem getElem?_load (m : π → BitVec w → β) (p : π) (a : BitVec w) (n i : Nat) :
    (load m p a n)[i]? = if i < n then some (m p (a + BitVec.ofNat w i)) else none := by
  simp only [load,List.getElem?_map]
  split
  · rename_i below
    simp [below]
  · rename_i above
    simp [above]

theorem load_append (m : π → BitVec w → β) (p : π) (a : BitVec w) (k n : Nat) :
    load m p a (k + n) = load m p a k ++ load m p (a + BitVec.ofNat w k) n := by
  simp only [load,List.range_add,List.map_append,List.map_map]
  congr 1
  apply List.map_congr_left
  intro i _
  simp [Function.comp,BitVec.ofNat_add,BitVec.add_assoc]

theorem take_load (m : π → BitVec w → β) (p : π) (a : BitVec w) (k n : Nat) :
    (load m p a n).take k = load m p a (min k n) := by
  simp [load,← List.map_take,List.take_range]

theorem sub_offset (x a : BitVec w) (k : Nat) : x - (a + BitVec.ofNat w k) = x - a - BitVec.ofNat w k := by
  grind

theorem sub_offset_toNat (x a : BitVec w) (behind : k ≤ (x - a).toNat) :
    (x - (a + BitVec.ofNat w k)).toNat = (x - a).toNat - k := by
  have bound := (x - a).isLt
  have below : (BitVec.ofNat w k).toNat = k := by
    rw [BitVec.toNat_ofNat,Nat.mod_eq_of_lt (by omega)]
  rw [sub_offset,BitVec.toNat_sub_of_le,below]
  rw [BitVec.le_def,below]
  exact behind

theorem offset_toNat (a : BitVec w) (below : i < 2 ^ w) : (a + BitVec.ofNat w i - a).toNat = i := by
  have same : a + BitVec.ofNat w i - a = BitVec.ofNat w i := by
    rw [BitVec.add_comm,BitVec.add_sub_cancel]
  rw [same,BitVec.toNat_ofNat,Nat.mod_eq_of_lt below]

/-- The memories are the same wherever `seen` looks. -/
def Agree (seen : π → BitVec w → Prop) (m n : π → BitVec w → β) : Prop := ∀ q x, seen q x → m q x = n q x

theorem Agree.load {seen : π → BitVec w → Prop} {n : π → BitVec w → β} (agree : Agree seen m n) (p : π)
    (a : BitVec w) (k : Nat) (all : ∀ i < k, seen p (a + BitVec.ofNat w i)) : load m p a k = load n p a k := by
  apply List.map_congr_left
  intro i member
  exact agree p _ (all i (List.mem_range.mp member))

variable [DecidableEq π]

def store (m : π → BitVec w → β) (p : π) (a : BitVec w) (bs : List β) : π → BitVec w → β :=
  fun q x => if q = p then (bs[(x - a).toNat]?).getD (m q x) else m q x

theorem load_store (m : π → BitVec w → β) (p : π) (a : BitVec w) (fits : bs.length ≤ 2 ^ w) (n : Nat)
    (short : n ≤ bs.length) :
    load (store m p a bs) p a n = bs.take n := by
  apply List.ext_getElem?
  intro i
  rw [getElem?_load,List.getElem?_take]
  split
  · rename_i below
    have inside : i < bs.length := by omega
    rw [store,if_pos rfl,offset_toNat a (by omega),List.getElem?_eq_getElem inside,Option.getD_some]
  · rfl

theorem store_nil (m : π → BitVec w → β) (p : π) (a : BitVec w) : store m p a [] = m := by
  funext q x
  simp [store]

theorem store_front (m : π → BitVec w → β) (p : π) (a : BitVec w) (xs ys : List β) :
    store (store m p (a + BitVec.ofNat w xs.length) ys) p a xs = store m p a (xs ++ ys) := by
  funext q x
  unfold store
  by_cases own : q = p
  · rw [if_pos own,if_pos own,if_pos own]
    by_cases first : (x - a).toNat < xs.length
    · rw [List.getElem?_append_left first,List.getElem?_eq_getElem first,Option.getD_some,Option.getD_some]
    · rw [List.getElem?_append_right (by omega),List.getElem?_eq_none (l := xs) (by omega),Option.getD_none,
        sub_offset_toNat x a (by omega)]
  · rw [if_neg own,if_neg own,if_neg own]

/-- A list written to the front of a range leaves the rest of it. -/
theorem load_store_drop (m : π → BitVec w → β) (p : π) (a : BitVec w) (fits : n ≤ 2 ^ w) (short : bs.length ≤ n) :
    load (store m p a bs) p a n = bs ++ (load m p a n).drop bs.length := by
  apply List.ext_getElem?
  intro i
  rw [getElem?_load,List.getElem?_append]
  by_cases below : i < n
  · rw [if_pos below,store,if_pos rfl,offset_toNat a (by omega)]
    by_cases written : i < bs.length
    · rw [if_pos written,List.getElem?_eq_getElem written,Option.getD_some]
    · rw [if_neg written,List.getElem?_eq_none (by omega),Option.getD_none,List.getElem?_drop,getElem?_load]
      rw [Nat.add_sub_cancel' (by omega),if_pos below]
  · rw [if_neg below,if_neg (by omega),List.getElem?_drop,getElem?_load,if_neg (by omega)]

theorem store_outside (m : π → BitVec w → β) (outside : p = q → ∀ i < bs.length, a + BitVec.ofNat w i ≠ x) :
    store m p a bs q x = m q x := by
  unfold store
  split
  · rename_i own
    have far : bs.length ≤ (x - a).toNat := by
      by_contra inside
      refine outside own.symm (x - a).toNat (by omega) ?_
      rw [BitVec.ofNat_toNat,BitVec.setWidth_eq,BitVec.add_comm,BitVec.sub_add_cancel]
    rw [List.getElem?_eq_none far,Option.getD_none]
  · rfl

theorem load_store_apart (m : π → BitVec w → β) (apart : Apart p a bs.length q b n) :
    load (store m p a bs) q b n = load m q b n := by
  apply List.map_congr_left
  intro j member
  have below : j < n := List.mem_range.mp member
  exact store_outside m fun own i inside => apart own i inside j below

theorem store_append (m : π → BitVec w → β) (p : π) (a : BitVec w) (xs ys : List β)
    (fits : xs.length + ys.length ≤ 2 ^ w) :
    store m p a (xs ++ ys) = store (store m p a xs) p (a + BitVec.ofNat w xs.length) ys := by
  funext q x
  unfold store
  by_cases own : q = p
  · rw [if_pos own,if_pos own,if_pos own]
    have bound := (x - a).isLt
    by_cases first : (x - a).toNat < xs.length
    · have past : ys.length ≤ (x - (a + BitVec.ofNat w xs.length)).toNat := by
        rw [sub_offset,BitVec.toNat_sub,BitVec.toNat_ofNat]
        by_cases whole : xs.length < 2 ^ w
        · rw [Nat.mod_eq_of_lt whole,Nat.mod_eq_of_lt (by omega)]
          omega
        · omega
      rw [List.getElem?_append_left first,List.getElem?_eq_none past,Option.getD_none]
    · have shift := sub_offset_toNat x a (Nat.le_of_not_lt first)
      rw [List.getElem?_append_right (by omega),shift,List.getElem?_eq_none (l := xs) (by omega),Option.getD_none]
  · rw [if_neg own,if_neg own,if_neg own]

theorem Agree.store {seen : π → BitVec w → Prop} {n : π → BitVec w → β} (agree : Agree seen m n) (p : π)
    (a : BitVec w) (bs : List β) :
    Agree seen (store m p a bs) (store n p a bs) := by
  intro q x visible
  unfold Memory.store
  split
  · rw [agree q x visible]
  · exact agree q x visible

end Memory
