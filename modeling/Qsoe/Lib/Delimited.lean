import Mathlib.Algebra.GroupWithZero.Nat
import Mathlib.Data.List.Basic
import Mathlib.Data.List.TakeWhile

/-! Lists of fields that each end in a delimiter. What is packed from fields without the
delimiter is unpacked again, whatever follows. -/
namespace Delimited

variable {α : Type} {z : α} {s bs rest : List α} {ss : List (List α)}

def pack (z : α) (ss : List (List α)) : List α := ss.flatMap (· ++ [z])

@[simp] theorem pack_nil : pack z [] = [] := rfl

@[simp] theorem pack_cons (s : List α) (ss : List (List α)) : pack z (s :: ss) = s ++ z :: pack z ss := by
  simp [pack]

theorem pack_append (ss ts : List (List α)) : pack z (ss ++ ts) = pack z ss ++ pack z ts := List.flatMap_append

theorem length_pack (ss : List (List α)) : (pack z ss).length = (ss.map fun s => s.length + 1).sum := by
  induction ss with
  | nil => rfl
  | cons s ss ih =>
    rw [pack_cons,List.length_append,List.length_cons,ih,List.map_cons,List.sum_cons]
    omega

theorem length_le_pack (ss : List (List α)) : ss.length ≤ (pack z ss).length := by
  induction ss with
  | nil => exact Nat.le_refl 0
  | cons s ss ih =>
    rw [pack_cons,List.length_append,List.length_cons,List.length_cons]
    omega

/-- A field that was packed stands in the text with its delimiter. -/
theorem infix_pack {t : List α} (member : t ∈ ss) : t ++ [z] <:+: pack z ss := by
  obtain ⟨before,after,rfl⟩ := List.append_of_mem member
  refine ⟨pack z before,pack z after,?_⟩
  rw [pack_append,pack_cons]
  simp

variable [DecidableEq α]

def field (z : α) (bs : List α) : List α := bs.takeWhile (· ≠ z)

/-- Reads `n` fields, each of which has to end; the rest is left. -/
def unpack (z : α) : Nat → List α → Option (List (List α) × List α)
  | 0, bs => some ([],bs)
  | n + 1, bs =>
    match bs.drop (field z bs).length with
    | [] => none
    | _ :: rest => (unpack z n rest).map fun read => (field z bs :: read.1,read.2)

theorem field_isPrefix (bs : List α) : field z bs <+: bs := List.takeWhile_prefix _

theorem field_length_le (bs : List α) : (field z bs).length ≤ bs.length := (field_isPrefix bs).length_le

theorem field_free (bs : List α) : z ∉ field z bs := by
  intro member
  simpa using List.mem_takeWhile_imp member

theorem field_append (free : z ∉ s) (rest : List α) : field z (s ++ z :: rest) = s := by
  have all : ∀ a ∈ s, decide (a ≠ z) = true := by
    intro a member
    simp only [ne_eq,decide_eq_true_eq]
    rintro rfl
    exact free member
  rw [field,List.takeWhile_append_of_pos all,List.takeWhile_cons_of_neg (by simp),List.append_nil]

theorem field_ends (bs : List α) (ends : (field z bs).length < bs.length) :
    ∃ rest, bs = field z bs ++ z :: rest := by
  induction bs with
  | nil => exact absurd ends (Nat.lt_irrefl _)
  | cons a bs ih =>
    rcases eq_or_ne a z with rfl | other
    · exact ⟨bs,by simp [field]⟩
    · have step : field z (a :: bs) = a :: field z bs := List.takeWhile_cons_of_pos (by simpa using other)
      rw [step,List.length_cons,List.length_cons,Nat.add_lt_add_iff_right] at ends
      obtain ⟨rest,whole⟩ := ih ends
      refine ⟨rest,?_⟩
      rw [step,List.cons_append,← whole]

/-- A field that ends in a part of the text is the same in the whole. -/
theorem field_of_prefix {whole : List α} (part : bs <+: whole) (ends : (field z bs).length < bs.length) :
    field z whole = field z bs := by
  obtain ⟨tail,rfl⟩ := part
  obtain ⟨rest,split⟩ := field_ends bs ends
  calc field z (bs ++ tail) = field z (field z bs ++ z :: (rest ++ tail)) := by
        rw [← List.cons_append,← List.append_assoc,← split]
    _ = field z bs := field_append (field_free bs) _

theorem unpack_pack (free : ∀ s ∈ ss, z ∉ s) (rest : List α) :
    unpack z ss.length (pack z ss ++ rest) = some (ss,rest) := by
  induction ss with
  | nil => rfl
  | cons s ss ih =>
    have first : field z (s ++ z :: (pack z ss ++ rest)) = s := field_append (free s (List.mem_cons_self ..)) _
    rw [pack_cons,List.append_assoc,List.cons_append,List.length_cons,unpack,first,List.drop_left]
    dsimp only
    rw [ih fun t member => free t (List.mem_cons_of_mem _ member)]
    rfl

theorem pack_of_unpack (read : unpack z n bs = some (ss,rest)) :
    bs = pack z ss ++ rest ∧ ss.length = n ∧ ∀ s ∈ ss, z ∉ s := by
  induction n generalizing bs ss with
  | zero =>
    obtain ⟨rfl,rfl⟩ := Prod.mk.inj (Option.some.inj read)
    exact ⟨rfl,rfl,fun _ member => absurd member List.not_mem_nil⟩
  | succ n ih =>
    rw [unpack] at read
    split at read
    · cases read
    · rename_i z' left ends
      obtain ⟨⟨ts,last⟩,later,same⟩ := Option.map_eq_some_iff.mp read
      obtain ⟨rfl,rfl⟩ := Prod.mk.inj same
      obtain ⟨whole,length,free⟩ := ih later
      have more : (field z bs).length < bs.length := by
        have long := congrArg List.length ends
        rw [List.length_drop,List.length_cons] at long
        omega
      obtain ⟨tail,split⟩ := field_ends bs more
      have behind := congrArg (List.drop (field z bs).length) split
      rw [List.drop_left,ends] at behind
      obtain ⟨rfl,rfl⟩ := List.cons.inj behind
      refine ⟨?_,congrArg Nat.succ length,fun s member => ?_⟩
      · rw [pack_cons,List.append_assoc,List.cons_append,← whole]
        exact split
      · rcases List.mem_cons.mp member with rfl | other
        · exact field_free bs
        · exact free s other

theorem unpack_add {us : List (List α)} (read : unpack z (n + m) bs = some (us,rest)) :
    ∃ ts vs middle, unpack z n bs = some (ts,middle) ∧ unpack z m middle = some (vs,rest) ∧ us = ts ++ vs := by
  induction n generalizing bs us with
  | zero =>
    rw [Nat.zero_add] at read
    exact ⟨[],us,bs,rfl,read,rfl⟩
  | succ n ih =>
    rw [show n + 1 + m = n + m + 1 from by omega,unpack] at read
    rw [unpack]
    split at read
    · cases read
    · rename_i z' left behind
      obtain ⟨⟨ts,last⟩,later,equal⟩ := Option.map_eq_some_iff.mp read
      obtain ⟨rfl,rfl⟩ := Prod.mk.inj equal
      obtain ⟨vs,ws,middle,first,second,rfl⟩ := ih later
      refine ⟨field z bs :: vs,ws,middle,?_,second,rfl⟩
      rw [first]
      rfl

end Delimited
