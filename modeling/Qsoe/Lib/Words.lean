import Mathlib.Data.Nat.Init
import Qsoe.Lib.Memory

/-! Machine words as eight bytes, the lowest first, and words pushed downward in a memory: what is
pushed below a list that is stored there is stored in front of it. -/
namespace Words

abbrev Word := BitVec 64
abbrev Byte := BitVec 8

def span (a : Word) (n : Nat) : List Word := (List.range n).map fun i => a + BitVec.ofNat 64 i

def bytesOf (v : Word) : List Byte := (List.range 8).map fun i => BitVec.ofNat 8 (v.toNat / 256 ^ i)

def wordOf (bs : List Byte) : Word := BitVec.ofNat 64 (bs.foldr (fun b n => b.toNat + 256 * n) 0)

def wordsOf : List Byte → List Word
  | a :: b :: c :: d :: e :: f :: g :: h :: rest => wordOf [a,b,c,d,e,f,g,h] :: wordsOf rest
  | _ => []

variable {π : Type} {w : Nat} {m : π → BitVec w → Byte} {p : π} {a : BitVec w} {bs : List Byte}

theorem span_add (a : Word) (m n : Nat) : span a (m + n) = span a m ++ span (a + BitVec.ofNat 64 m) n := by
  unfold span
  rw [List.range_add,List.map_append,List.map_map]
  congr 1
  refine List.map_congr_left fun i _ => ?_
  rw [Function.comp_apply,BitVec.ofNat_add,BitVec.add_assoc]

@[simp] theorem length_span (a : Word) (n : Nat) : (span a n).length = n := by
  rw [span,List.length_map,List.length_range]

theorem take_span (a : Word) {m n : Nat} (le : m ≤ n) : (span a n).take m = span a m := by
  obtain ⟨extra,rfl⟩ := Nat.exists_eq_add_of_le le
  rw [span_add]
  exact List.take_left' (length_span a m)

@[simp] theorem length_bytesOf (v : Word) : (bytesOf v).length = 8 := rfl

theorem foldr_bytes (v n : Nat) :
    ((List.range n).map fun i => BitVec.ofNat 8 (v / 256 ^ i)).foldr (fun (b : Byte) n => b.toNat + 256 * n) 0 =
      v % 256 ^ n := by
  induction n generalizing v with
  | zero => rw [Nat.pow_zero,Nat.mod_one,List.range_zero,List.map_nil,List.foldr_nil]
  | succ n ih =>
    have later : (fun i => BitVec.ofNat 8 (v / 256 ^ i)) ∘ Nat.succ = fun i =>
      BitVec.ofNat 8 (v / 256 / 256 ^ i) := by
      funext i
      rw [Function.comp,Nat.succ_eq_add_one,Nat.pow_succ',Nat.div_div_eq_div_mul]
    rw [List.range_succ_eq_map,List.map_cons,List.foldr_cons,List.map_map,later,ih,BitVec.toNat_ofNat,
      Nat.pow_zero,Nat.div_one]
    calc v % 2 ^ 8 + 256 * (v / 256 % 256 ^ n) = v % (256 * 256 ^ n) := Nat.mod_mul.symm
      _ = v % 256 ^ (n + 1) := by rw [Nat.pow_succ']

theorem wordOf_bytesOf (v : Word) : wordOf (bytesOf v) = v := by
  have digits := foldr_bytes v.toNat 8
  rw [Nat.mod_eq_of_lt (show v.toNat < 256 ^ 8 from v.isLt)] at digits
  rw [wordOf,bytesOf,digits,BitVec.ofNat_toNat,BitVec.setWidth_eq]

theorem wordsOf_cons (v : Word) (bs : List Byte) : wordsOf (bytesOf v ++ bs) = v :: wordsOf bs := by
  calc wordsOf (bytesOf v ++ bs) = wordOf (bytesOf v) :: wordsOf bs := rfl
    _ = v :: wordsOf bs := by rw [wordOf_bytesOf]

theorem wordsOf_append (vs : List Word) (bs : List Byte) :
    wordsOf (vs.flatMap bytesOf ++ bs) = vs ++ wordsOf bs := by
  induction vs with
  | nil => rfl
  | cons v vs ih => rw [List.flatMap_cons,List.append_assoc,wordsOf_cons,ih,List.cons_append]

theorem length_flatMap (vs : List Word) : (vs.flatMap bytesOf).length = 8 * vs.length := by
  induction vs with
  | nil => rfl
  | cons v vs ih =>
    rw [List.flatMap_cons,List.length_append,length_bytesOf,ih,List.length_cons]
    omega

variable [DecidableEq π]

/-- `*--p = v`, on a memory and the address `p`. -/
def push (p : π) (s : (π → BitVec w → Byte) × BitVec w) (v : Word) : (π → BitVec w → Byte) × BitVec w :=
  (Memory.store s.1 p (s.2 - 8) (bytesOf v),s.2 - 8)

theorem push_store (v : Word) :
    push p (Memory.store m p a bs,a) v = (Memory.store m p (a - 8) (bytesOf v ++ bs),a - 8) := by
  have back : a - 8 + BitVec.ofNat w (bytesOf v).length = a := by
    rw [length_bytesOf]
    exact BitVec.sub_add_cancel a 8
  have front := Memory.store_front m p (a - 8) (bytesOf v) bs
  rw [back] at front
  rw [push,front]

/-- Words that are pushed stand in memory in the opposite order. -/
theorem foldl_push (vs : List Word) :
    vs.foldl (push p) (Memory.store m p a bs,a) =
      (Memory.store m p (a - BitVec.ofNat w (8 * vs.length)) (vs.reverse.flatMap bytesOf ++ bs),
        a - BitVec.ofNat w (8 * vs.length)) := by
  induction vs generalizing a bs with
  | nil => simp
  | cons v vs ih =>
    have down : a - 8 - BitVec.ofNat w (8 * vs.length) = a - BitVec.ofNat w (8 * (vs.length + 1)) := by
      rw [Nat.mul_succ,BitVec.ofNat_add]
      have eight : BitVec.ofNat w 8 = 8 := rfl
      rw [eight]
      grind
    rw [List.foldl_cons,push_store,ih,down,
      List.length_cons,List.reverse_cons,List.flatMap_append,List.append_assoc]
    simp

end Words
