import Mathlib.Tactic.IntervalCases
import Qsoe.Lib.Align
import Qsoe.Sys.DeviceTree

/-! What the parser finds in a blob that holds a tree: every loop of it walks over the tokens of the tree. -/
namespace Qsoe.Sys

open Qsoe.Path (Byte slash)
open Nested (Forest Group)

variable {b : Blob} {im : Image} {x o rounds : Nat} {d : Int} {bs cs s name comp : List Byte} {v : BitVec 32}
    {t : Token} {n : Node}

theorem Blob.has_append : b.Has x (bs ++ cs) ↔ b.Has x bs ∧ b.Has (x + bs.length) cs := by
  induction bs generalizing x with
  | nil => simp [Blob.Has]
  | cons c bs ih => simp only [List.cons_append,Blob.Has,ih,List.length_cons,and_assoc,Nat.add_assoc,Nat.add_comm 1]

theorem be32_bytes (v : BitVec 32) :
    be32 (v.setWidth 8 ++ (v >>> 8).setWidth 8 ++ (v >>> 16).setWidth 8 ++ (v >>> 24).setWidth 8) = v := by
  apply BitVec.eq_of_getLsbD_eq
  intro i less
  simp only [be32,BitVec.getLsbD_or,BitVec.getLsbD_and,BitVec.getLsbD_shiftLeft,BitVec.getLsbD_ushiftRight,
    BitVec.getLsbD_append,BitVec.getLsbD_setWidth]
  interval_cases i <;> simp

theorem be32_load (has : b.Has x (wordBytes v ++ bs)) : be32 (b.load x) = v := by
  obtain ⟨first,second,third,fourth,-⟩ := has
  rw [Blob.load,first,second,third,fourth]
  exact be32_bytes v

@[simp] theorem length_wordBytes (v : BitVec 32) : (wordBytes v).length = 4 := rfl

theorem le_upTo4 (n : Nat) : n ≤ upTo4 n := by
  unfold upTo4
  omega

theorem length_padded (bs : List Byte) : (padded bs).length = upTo4 bs.length := by
  have grows := le_upTo4 bs.length
  rw [padded,List.length_append,List.length_replicate]
  omega

theorem length_tokenBytes (place : List Byte → BitVec 32) (t : Token) : (tokenBytes place t).length = width t := by
  match t with
  | .opening name => simp [tokenBytes,width,length_padded]
  | .closing => rfl
  | .leaf .nop => rfl
  | .leaf (.prop p) =>
    simp only [tokenBytes,width,List.length_append,length_padded,length_wordBytes]

theorem width_aligned (t : Token) : width t % 4 = 0 := by
  match t with
  | .opening name => simp only [width,upTo4]; omega
  | .closing => rfl
  | .leaf .nop => rfl
  | .leaf (.prop p) => simp only [width,upTo4]; omega

theorem four_le_width (t : Token) : 4 ≤ width t := by
  match t with
  | .opening name => exact Nat.le_add_right 4 _
  | .closing => exact Nat.le_refl 4
  | .leaf .nop => exact Nat.le_refl 4
  | .leaf (.prop p) => simp only [width]; omega

theorem toNat_align4 (n : Nat) (small : n + 3 < 2 ^ 32) : (align4 (BitVec.ofNat 32 n)).toNat = upTo4 n := by
  have three : (3 : BitVec 32).toNat = 2 ^ 2 - 1 := rfl
  rw [align4,Align.toNat_and_not _ _ three,BitVec.toNat_add,BitVec.toNat_ofNat,three,upTo4]
  omega

theorem sLen_has (has : b.Has x (s ++ [0])) (free : 0 ∉ s) (enough : s.length < rounds) :
    b.sLen rounds x = some s.length := by
  induction s generalizing x rounds with
  | nil =>
    obtain ⟨more,rfl⟩ : ∃ more, rounds = more + 1 := ⟨rounds - 1,by rw [List.length_nil] at enough; omega⟩
    exact if_pos has.1
  | cons c s ih =>
    obtain ⟨same,later⟩ := has
    rw [List.length_cons] at enough
    obtain ⟨more,rfl⟩ : ∃ more, rounds = more + 1 := ⟨rounds - 1,by omega⟩
    have nonzero : b.mem x ≠ 0 := fun zero => free (List.mem_cons.mpr (.inl (zero.symm.trans same)))
    rw [Blob.sLen,if_neg nonzero,ih later (fun member => free (List.mem_cons_of_mem _ member)) (by omega)]
    rfl

theorem sEq_has (has : b.Has x (s ++ [0])) (free : 0 ∉ s) (free' : 0 ∉ name) : b.sEq x name = true ↔ s = name := by
  induction s generalizing x name with
  | nil =>
    have zero : b.mem x = 0 := has.1
    cases name with
    | nil => simp [Blob.sEq,zero]
    | cons c name =>
      have nonzero : c ≠ 0 := fun same => free' (List.mem_cons.mpr (.inl same.symm))
      rw [Blob.sEq,zero,if_neg fun both => both.1 rfl,beq_iff_eq]
      exact iff_of_false nonzero.symm (List.cons_ne_nil c name).symm
  | cons a s ih =>
    obtain ⟨same,later⟩ := has
    have nonzero : a ≠ 0 := fun zero => free (List.mem_cons.mpr (.inl zero.symm))
    cases name with
    | nil =>
      rw [Blob.sEq,same,beq_iff_eq]
      exact iff_of_false nonzero (List.cons_ne_nil a s)
    | cons c name =>
      have other : c ≠ 0 := fun zero => free' (List.mem_cons.mpr (.inl zero.symm))
      have rest := ih later (fun member => free (List.mem_cons_of_mem _ member))
        (fun member => free' (List.mem_cons_of_mem _ member))
      rw [Blob.sEq,same,if_pos ⟨nonzero,other⟩,Bool.and_eq_true,rest,beq_iff_eq,List.cons.injEq]

/-- The test of `find_child_node`. -/
theorem sEqn_has (has : b.Has x (s ++ [0])) (free : 0 ∉ s) (free' : 0 ∉ comp) :
    (b.sEqn x comp = true ∧ (b.mem (x + comp.length) = 0 ∨ b.mem (x + comp.length) = atSign)) ↔
      s = comp ∨ comp ++ [atSign] <+: s := by
  induction comp generalizing x s with
  | nil =>
    rw [List.nil_append,List.length_nil,Nat.add_zero,Blob.sEqn]
    cases s with
    | nil =>
      have zero : b.mem x = 0 := has.1
      exact iff_of_true ⟨rfl,.inl zero⟩ (.inl rfl)
    | cons a s =>
      have same : b.mem x = a := has.1
      have letter : a ≠ 0 := fun zero => free (List.mem_cons.mpr (.inl zero.symm))
      rw [same,List.cons_prefix_cons]
      constructor
      · rintro ⟨-,zero | unit⟩
        · exact absurd zero letter
        · exact .inr ⟨unit.symm,List.nil_prefix⟩
      · rintro (nothing | ⟨unit,-⟩)
        · cases nothing
        · exact ⟨rfl,.inr unit.symm⟩
  | cons c comp ih =>
    have letter : c ≠ 0 := fun zero => free' (List.mem_cons.mpr (.inl zero.symm))
    have further : x + (c :: comp).length = x + 1 + comp.length := by rw [List.length_cons]; omega
    rw [Blob.sEqn,List.cons_append,further]
    cases s with
    | nil =>
      have zero : b.mem x = 0 := has.1
      rw [zero,Bool.and_eq_true,beq_iff_eq]
      refine iff_of_false (fun both => letter both.1.1.symm) ?_
      rintro (nothing | front)
      · cases nothing
      · cases List.prefix_nil.mp front
    | cons a s =>
      obtain ⟨same,later⟩ := has
      have other : a ≠ 0 := fun zero => free (List.mem_cons.mpr (.inl zero.symm))
      have rest := ih later (fun member => free (List.mem_cons_of_mem _ member))
        (fun member => free' (List.mem_cons_of_mem _ member))
      have nonzero : (a == 0) = false := beq_eq_false_iff_ne.mpr other
      rw [same,nonzero,Bool.false_or,Bool.and_eq_true,beq_iff_eq,and_assoc,rest,List.cons.injEq,
        List.cons_prefix_cons,eq_comm (a := c)]
      exact and_or_left

theorem has_words {vs : List (BitVec 32)} {i : Nat} (has : b.Has x (vs.flatMap wordBytes))
    (found : vs[i]? = some v) :
    be32 (b.load (x + 4 * i)) = v := by
  induction vs generalizing x i with
  | nil => cases found
  | cons u vs ih =>
    rw [List.flatMap_cons] at has
    cases i with
    | zero =>
      obtain rfl := Option.some.inj found
      exact be32_load has
    | succ i =>
      have later := ih (Blob.has_append.mp has).2 found
      rwa [length_wordBytes,Nat.add_assoc,Nat.add_comm 4] at later

theorem Image.Laid.structBase (laid : im.Laid b) : b.structBase = im.structs.toNat :=
  congrArg BitVec.toNat (has_words (i := 2) laid.header rfl)

theorem Image.Laid.stringsBase (laid : im.Laid b) : b.stringsBase = im.strings.toNat :=
  congrArg BitVec.toNat (has_words (i := 3) laid.header rfl)

theorem Image.Laid.check (laid : im.Laid b) : b.tmFdtCheck = true := by
  have magic := has_words (i := 0) laid.header rfl
  have last := has_words (i := 6) laid.header rfl
  rw [Nat.zero_add] at magic last
  rw [Blob.tmFdtCheck,decide_eq_true_eq]
  exact ⟨magic,last.symm ▸ laid.readable⟩

structure There (im : Image) (b : Blob) (o : Nat) (t : Token) : Prop where
  aligned : o % 4 = 0
  fits : o + width t ≤ im.block.length
  bytes : b.Has (b.structBase + o) (tokenBytes im.place t)
  named : ∀ p, t = .leaf (.prop p) → b.Has (b.stringsBase + (im.place p.name).toNat) (p.name ++ [0])

theorem length_flatMap_tokenBytes (place : List Byte → BitVec 32) (ts : List Token) :
    (ts.flatMap (tokenBytes place)).length = Nested.extent width ts := by
  induction ts with
  | nil => rfl
  | cons t ts ih => rw [List.flatMap_cons,List.length_append,length_tokenBytes,ih,Nested.extent_cons]

theorem length_block (im : Image) : im.block.length = Nested.extent width im.forest.tokens + 4 := by
  rw [Image.block,List.length_append,length_flatMap_tokenBytes,length_wordBytes]

theorem standing_of_has {ts : List Token} (aligned : o % 4 = 0)
    (fits : o + Nested.extent width ts ≤ im.block.length)
    (has : b.Has (b.structBase + o) (ts.flatMap (tokenBytes im.place)))
    (named : ∀ p, .leaf (.prop p) ∈ ts → b.Has (b.stringsBase + (im.place p.name).toNat) (p.name ++ [0])) :
    Nested.Standing width (There im b) o ts := by
  induction ts generalizing o with
  | nil => trivial
  | cons t ts ih =>
    have whole := width_aligned t
    rw [List.flatMap_cons,Blob.has_append,length_tokenBytes,Nat.add_assoc] at has
    rw [Nested.extent_cons] at fits
    exact ⟨⟨aligned,by omega,has.1,fun p same => named p (same ▸ List.mem_cons_self)⟩,
      ih (by omega) (by omega) has.2 fun p member => named p (List.mem_cons_of_mem _ member)⟩

theorem Image.Laid.standing (laid : im.Laid b) : Nested.Standing width (There im b) 0 im.forest.tokens := by
  refine standing_of_has rfl ?_ ?_ fun p member => ?_
  · rw [length_block]
    omega
  · rw [laid.structBase]
    exact (Blob.has_append.mp laid.block).1
  · rw [laid.stringsBase]
    exact laid.strings _ (Nested.mem_tokens.mp member) p rfl

def tag : Token → BitVec 32
  | .opening _ => fdtBeginNode
  | .closing => fdtEndNode
  | .leaf .nop => fdtNop
  | .leaf (.prop _) => fdtProp

theorem tokenBytes_tag (place : List Byte → BitVec 32) (t : Token) :
    ∃ bs, tokenBytes place t = wordBytes (tag t) ++ bs := by
  match t with
  | .opening name => exact ⟨_,rfl⟩
  | .closing => exact ⟨[],rfl⟩
  | .leaf .nop => exact ⟨[],rfl⟩
  | .leaf (.prop p) => exact ⟨_,rfl⟩

theorem word_has (aligned : o % 4 = 0) (small : o < 2 ^ 32) (has : b.Has (b.structBase + o) (wordBytes v ++ bs)) :
    b.word (BitVec.ofNat 32 o) = v := by
  have back : o / 4 * 4 = o := by omega
  rw [Blob.word,BitVec.toNat_ofNat,Nat.mod_eq_of_lt small,back]
  exact be32_load has

theorem word_has_last (aligned : o % 4 = 0) (small : o < 2 ^ 32) (has : b.Has (b.structBase + o) (wordBytes v)) :
    b.word (BitVec.ofNat 32 o) = v := by
  rw [← List.append_nil (wordBytes v)] at has
  exact word_has aligned small has

namespace There

variable (laid : im.Laid b)
include laid

theorem small (there : There im b o t) : o + width t < 2 ^ 31 := Nat.lt_of_le_of_lt there.fits laid.fits

theorem addr (there : There im b o t) : b.addr (BitVec.ofNat 32 o) = b.structBase + o := by
  have less := there.small laid
  rw [Blob.addr,BitVec.toNat_ofNat,Nat.mod_eq_of_lt (by omega)]

theorem nonneg (there : There im b o t) : (BitVec.ofNat 32 o).slt 0 = false := by
  have less := there.small laid
  have sign : (BitVec.ofNat 32 o).slt 0 = (BitVec.ofNat 32 o).msb := BitVec.slt_zero_eq_msb
  rw [sign,BitVec.msb_eq_false_iff_two_mul_lt,BitVec.toNat_ofNat]
  omega

theorem word (there : There im b o t) : b.word (BitVec.ofNat 32 o) = tag t := by
  obtain ⟨bs,whole⟩ := tokenBytes_tag im.place t
  have bytes := there.bytes
  have less := there.small laid
  rw [whole] at bytes
  exact word_has there.aligned (by omega) bytes

theorem opening {a : Name} (there : There im b o (.opening a)) :
    b.Has (b.addr (BitVec.ofNat 32 o) + 4) (a.1 ++ [0]) := by
  have bytes := (Blob.has_append.mp there.bytes).2
  rw [there.addr laid]
  exact (Blob.has_append.mp bytes).1

/-- The words and the value behind the tag of a property. -/
theorem prop {p : Property} (there : There im b o (.leaf (.prop p))) :
    b.word (BitVec.ofNat 32 o + 4) = BitVec.ofNat 32 p.value.length ∧ b.word (BitVec.ofNat 32 o + 8) =
      im.place p.name ∧
      b.Has (b.addr (BitVec.ofNat 32 o) + 12) p.value ∧ p.value.length < 2 ^ 31 := by
  have less := there.small laid
  have aligned := there.aligned
  have grows := le_upTo4 p.value.length
  simp only [width] at less
  have bytes := there.bytes
  rw [tokenBytes,Blob.has_append,Blob.has_append,Blob.has_append] at bytes
  obtain ⟨⟨⟨-,length⟩,place⟩,value⟩ := bytes
  have four : BitVec.ofNat 32 o + 4 = BitVec.ofNat 32 (o + 4) := (BitVec.ofNat_add o 4).symm
  have eight : BitVec.ofNat 32 o + 8 = BitVec.ofNat 32 (o + 8) := (BitVec.ofNat_add o 8).symm
  rw [four,eight,there.addr laid]
  exact ⟨word_has_last (by omega) (by omega) length,word_has_last (by omega) (by omega) place,
    (Blob.has_append.mp value).1,by omega⟩

/-- `step_token` comes to the next token. -/
theorem step (there : There im b o t) (enough : im.block.length ≤ rounds) :
    b.stepToken rounds (BitVec.ofNat 32 o) = some (BitVec.ofNat 32 (o + width t)) := by
  have less := there.small laid
  have inside := there.fits
  match t with
  | .opening a =>
    have word : b.word (BitVec.ofNat 32 o) = fdtBeginNode := there.word laid
    have grows := le_upTo4 (a.1.length + 1)
    simp only [width] at less inside
    have length : b.sLen rounds (b.addr (BitVec.ofNat 32 o) + 4) = some a.1.length :=
      sLen_has (there.opening laid) a.2 (by omega)
    have sum : (BitVec.ofNat 32 a.1.length + 1 : BitVec 32) = BitVec.ofNat 32 (a.1.length + 1) :=
      (BitVec.ofNat_add _ 1).symm
    rw [Blob.stepToken,if_pos word,length,Option.map_some,sum]
    have next := toNat_align4 (a.1.length + 1) (by omega)
    have four : (4 : BitVec 32).toNat = 4 := rfl
    refine congrArg some (BitVec.eq_of_toNat_eq ?_)
    rw [BitVec.toNat_add,next,BitVec.toNat_add,BitVec.toNat_ofNat,BitVec.toNat_ofNat,four,width]
    omega
  | .closing =>
    have word : b.word (BitVec.ofNat 32 o) = fdtEndNode := there.word laid
    rw [Blob.stepToken,word,if_neg (by decide),if_pos (.inl rfl),width,BitVec.ofNat_add]
    rfl
  | .leaf .nop =>
    have word : b.word (BitVec.ofNat 32 o) = fdtNop := there.word laid
    rw [Blob.stepToken,word,if_neg (by decide),if_pos (.inr rfl),width,BitVec.ofNat_add]
    rfl
  | .leaf (.prop p) =>
    have word : b.word (BitVec.ofNat 32 o) = fdtProp := there.word laid
    have grows := le_upTo4 p.value.length
    simp only [width] at less
    rw [Blob.stepToken,word,if_neg (by decide),if_neg (by decide),if_pos rfl,(there.prop laid).1]
    have next := toNat_align4 p.value.length (by omega)
    have twelve : (12 : BitVec 32).toNat = 12 := rfl
    refine congrArg some (BitVec.eq_of_toNat_eq ?_)
    rw [BitVec.toNat_add,next,BitVec.toNat_add,BitVec.toNat_ofNat,BitVec.toNat_ofNat,twelve,width]
    omega

end There

theorem groups_behindNops (k o : Nat) (f : Forest Name Leaf) :
    Nested.groups width o (behindNops k f) = Nested.groups width (o + 4 * k) f := by
  induction k generalizing o with
  | zero => rfl
  | succ k ih =>
    rw [behindNops,Nested.groups,ih,width]
    congr 1
    omega

theorem Image.nodes_eq (im : Image) :
    im.nodes = im.root :: Nested.groups width (Group.body width im.root) im.inner := by
  rw [Image.nodes,Image.forest,groups_behindNops,Nat.zero_add,Nested.groups,Nested.groups,List.append_nil]
  rfl

theorem Image.root_mem (im : Image) : im.root ∈ im.nodes := by
  rw [im.nodes_eq]
  exact List.mem_cons_self

theorem Node.child_mem {c : Node} (member : n ∈ im.nodes) (found : Node.child n comp = some c) : c ∈ im.nodes :=
  Nested.groups_inner member ((Nested.siblings_sublist _ _).subset (List.mem_of_find?_eq_some found))

/-- A node starts with its own token, behind which its contents stand. -/
theorem Image.Laid.node (laid : im.Laid b) (member : n ∈ im.nodes) :
    There im b n.start (.opening n.label) ∧
      Nested.Standing width (There im b) (n.body width) (n.inner.tokens ++ [.closing]) := laid.standing.group member

theorem Image.length_le_block (member : n ∈ im.nodes) : n.tokens.length ≤ im.block.length := by
  obtain ⟨before,after,row,-⟩ := Nested.groups_row member
  have long := Nested.length_le_extent (fun t => Nat.lt_of_lt_of_le (by decide) (four_le_width t)) n.tokens
  rw [length_block,row,Nested.extent_append,Nested.extent_append]
  omega

/-- What `find_child_node` answers at a token. -/
def childVisit (comp : List Byte) (o : Nat) (d : Int) : Token → Option (BitVec 32)
  | .opening a => if d = 1 ∧ Matches comp a then some (BitVec.ofNat 32 o) else none
  | .closing => if d = 1 then some (-1) else none
  | .leaf _ => none

theorem There.childTurn (laid : im.Laid b) (free : 0 ∉ comp) (enough : im.block.length ≤ rounds)
    (there : There im b o t) :
    b.childTurn rounds comp (BitVec.ofNat 32 o,d) =
      some ((childVisit comp o d t).elim (.inl (BitVec.ofNat 32 (o + width t),d + t.turn)) .inr) := by
  have start : ¬(BitVec.ofNat 32 o).slt 0 = true := Bool.eq_false_iff.mp (there.nonneg laid)
  have next := there.step laid enough
  rw [Blob.childTurn]
  dsimp only
  rw [if_neg start,next]
  match t with
  | .opening a =>
    have word : b.word (BitVec.ofNat 32 o) = fdtBeginNode := there.word laid
    have named := sEqn_has (there.opening laid) a.2 free
    rw [if_pos word,childVisit]
    by_cases found : d = 1 ∧ Matches comp a
    · rw [if_pos ⟨found.1,named.mpr found.2⟩,if_pos found]
      rfl
    · rw [if_neg fun both => found ⟨both.1,named.mp both.2⟩,if_neg found]
      rfl
  | .closing =>
    have word : b.word (BitVec.ofNat 32 o) = fdtEndNode := there.word laid
    rw [word,if_neg (by decide),if_pos rfl,childVisit]
    by_cases last : d = 1
    · rw [if_pos (by omega),if_pos last]
      rfl
    · rw [if_neg (by omega),if_neg last]
      rfl
  | .leaf l =>
    rw [childVisit,Nested.Token.turn,Int.add_zero]
    cases l with
    | nop =>
      have word : b.word (BitVec.ofNat 32 o) = fdtNop := there.word laid
      rw [word,if_neg (by decide),if_neg (by decide),if_pos (.inr rfl)]
      rfl
    | prop p =>
      have word : b.word (BitVec.ofNat 32 o) = fdtProp := there.word laid
      rw [word,if_neg (by decide),if_neg (by decide),if_pos (.inl rfl)]
      rfl

theorem findSome?_ite {α β : Type} (p : α → Prop) [DecidablePred p] (f : α → β) (l : List α) :
    (l.findSome? fun a => if p a then some (f a) else none) = (l.find? p).map f := by
  induction l with
  | nil => rfl
  | cons a l ih =>
    rw [List.findSome?_cons,List.find?_cons,ih]
    by_cases here : p a
    · simp [here]
    · simp [here]

/-- A handle: the offset of a node, or −1. -/
def handle (found : Option Node) : BitVec 32 := (found.map fun c => BitVec.ofNat 32 c.start).getD (-1)

theorem findChildNode_eq (laid : im.Laid b) (member : n ∈ im.nodes) (free : 0 ∉ comp)
    (enough : im.block.length ≤ rounds) :
    b.findChildNode rounds (BitVec.ofNat 32 n.start) comp = some (handle (Node.child n comp)) := by
  obtain ⟨opening,contents⟩ := laid.node member
  have first : Nested.walk width (childVisit comp) n.inner.tokens (n.body width) 1 =
    (Node.child n comp).map fun c => BitVec.ofNat 32 c.start := by
    rw [Nested.walk_siblings fun o a => if Matches comp a then some (BitVec.ofNat 32 o) else none]
    · exact findSome?_ite _ _ _
    · intro o a
      simp [childVisit]
    · intro o e a deep
      exact if_neg fun both => absurd both.1 (by omega)
    · intro o e deep
      exact if_neg (by omega)
    · intro o e l _
      rfl
  have answer : Nested.walk width (childVisit comp) (n.inner.tokens ++ [.closing]) (n.body width) 1 =
    some (handle (Node.child n comp)) := by
    rw [Nested.walk_closing (r := -1) fun o => by rw [childVisit,if_pos rfl],first]
    rfl
  rw [Blob.findChildNode,opening.step laid enough]
  exact Nested.loop_walk (fun o d => (BitVec.ofNat 32 o,d))
    (fun _ _ _ there => there.childTurn laid free enough) contents answer
    (Nat.le_trans (Nat.le_of_succ_le (im.length_le_block member)) enough)

theorem components_cons {p : List Byte} (nonempty : p ≠ []) :
    components p = p.takeWhile (· ≠ slash) :: components (p.dropWhile (· ≠ slash)).tail := by
  by_cases ends : (Delimited.field slash p).length < p.length
  · obtain ⟨rest,whole⟩ := Delimited.field_ends p ends
    have free : slash ∉ Delimited.field slash p := Delimited.field_free p
    have behind : p.dropWhile (· ≠ slash) = slash :: rest := by
      have both := List.takeWhile_append_dropWhile (p := (· ≠ slash)) (l := p)
      exact List.append_cancel_left (both.trans whole)
    have split := List.splitOn_append_cons_self_of_not_mem free rest
    rw [← whole] at split
    obtain ⟨c,cs,parts⟩ := List.exists_cons_of_ne_nil (List.splitOn_ne_nil slash rest)
    rw [behind,List.tail_cons,components,components,split,parts,List.getLast?_cons_cons,List.dropLast_cons_cons]
    split
    · rfl
    · rfl
  · have same : Delimited.field slash p = p :=
      (Delimited.field_isPrefix p).eq_of_length (Nat.le_antisymm (Delimited.field_length_le p)
        (Nat.le_of_not_lt ends))
    have free : slash ∉ p := fun member => Delimited.field_free p (same.symm ▸ member)
    have behind : p.dropWhile (· ≠ slash) = [] := by
      have both := List.takeWhile_append_dropWhile (p := (· ≠ slash)) (l := p)
      exact List.append_cancel_left ((both.trans same.symm).trans (List.append_nil _).symm)
    have front : p.takeWhile (· ≠ slash) = p := same
    rw [behind,front,components,List.splitOn_eq_singleton free]
    simp [nonempty,components]

theorem descend_eq (laid : im.Laid b) (enough : im.block.length ≤ rounds) {p : List Byte} {more : Nat}
    (member : n ∈ im.nodes) (free : 0 ∉ p) (long : p.length < more) :
    b.descend rounds more (BitVec.ofNat 32 n.start) p = some (handle (Node.descendant n (components p))) := by
  induction more generalizing n p with
  | zero => exact absurd long (Nat.not_lt_zero _)
  | succ more ih =>
    by_cases empty : p = []
    · rw [Blob.descend,if_pos empty,empty]
      rfl
    · have comp : 0 ∉ p.takeWhile (· ≠ slash) := fun inside => free ((List.takeWhile_prefix _).subset inside)
      have rest : (p.dropWhile (· ≠ slash)).tail.length < more ∧ 0 ∉ (p.dropWhile (· ≠ slash)).tail := by
        have suffix := List.dropWhile_suffix (l := p) (· ≠ slash)
        have shorter := suffix.length_le
        have positive := List.length_pos_of_ne_nil empty
        rw [List.length_tail]
        exact ⟨by omega,fun inside => free (suffix.subset (List.mem_of_mem_tail inside))⟩
      rw [Blob.descend,if_neg empty,findChildNode_eq laid member comp enough,components_cons empty,
        Node.descendant,List.foldlM_cons]
      cases found : Node.child n (p.takeWhile (· ≠ slash)) with
      | none => rfl
      | some c =>
        have below := Node.child_mem member found
        have start : ¬(handle (some c)).slt 0 = true := Bool.eq_false_iff.mp ((laid.node below).1.nonneg laid)
        dsimp only
        rw [if_neg start]
        exact ih below rest.2 rest.1

theorem skipNops_eq (laid : im.Laid b) (k more : Nat) {f : Forest Name Leaf}
    (standing : Nested.Standing width (There im b) o (behindNops k f).tokens)
    (opens : b.word (BitVec.ofNat 32 (o + 4 * k)) ≠ fdtNop) (long : k < more) :
    b.skipNops more (BitVec.ofNat 32 o) = some (BitVec.ofNat 32 (o + 4 * k)) := by
  induction k generalizing o more with
  | zero =>
    obtain ⟨more,rfl⟩ : ∃ m, more = m + 1 := ⟨more - 1,by omega⟩
    exact if_neg opens
  | succ k ih =>
    obtain ⟨more,rfl⟩ : ∃ m, more = m + 1 := ⟨more - 1,by omega⟩
    obtain ⟨here,later⟩ := standing
    have word : b.word (BitVec.ofNat 32 o) = fdtNop := here.word laid
    have behind : o + 4 * (k + 1) = o + 4 + 4 * k := by omega
    have next : BitVec.ofNat 32 o + 4 = BitVec.ofNat 32 (o + 4) := (BitVec.ofNat_add o 4).symm
    rw [behind] at opens ⊢
    rw [Blob.skipNops,if_pos word,next]
    exact ih more later opens (by omega)

theorem rootNode_eq (laid : im.Laid b) (enough : im.block.length ≤ rounds) :
    b.rootNode rounds = some (some (BitVec.ofNat 32 im.root.start)) := by
  have word : b.word (BitVec.ofNat 32 im.root.start) = fdtBeginNode := (laid.node im.root_mem).1.word laid
  have start : im.root.start = 0 + 4 * im.nops := (Nat.zero_add _).symm
  have inside := (laid.node im.root_mem).1.fits
  have wide := four_le_width (.opening im.root.label)
  have skipped := skipNops_eq laid im.nops rounds laid.standing (by rw [← start,word]; decide) (by omega)
  rw [← start] at skipped
  have zero : (0 : BitVec 32) = BitVec.ofNat 32 0 := rfl
  rw [Blob.rootNode,zero,skipped,Option.map_some,if_pos word]

/-- `tm_fdt_path` finds the node that a path names. -/
theorem tmFdtPath_eq (laid : im.Laid b) {p : List Byte} (free : 0 ∉ p) (enough : im.block.length ≤ rounds)
    (long : p.length < rounds) :
    b.tmFdtPath rounds (slash :: p) = some (handle (Node.descendant im.root (components p))) := by
  rw [Blob.tmFdtPath,laid.check,if_neg (Bool.false_ne_true ·.symm),List.head?_cons,if_neg fun other =>
    other rfl,rootNode_eq laid enough]
  exact descend_eq laid enough im.root_mem free long

/-- What `tm_fdt_prop` answers at a token. -/
def propVisit (b : Blob) (name : List Byte) (o : Nat) (d : Int) : Token → Option (Option Blob.Value)
  | .opening _ => none
  | .closing => if d = 1 then some none else none
  | .leaf .nop => none
  | .leaf (.prop p) =>
    if d = 1 then
      if p.name = name then some (some (b.structBase + o + 12,BitVec.ofNat 32 p.value.length)) else none
    else some none

theorem There.propTurn (laid : im.Laid b) (free : 0 ∉ name) (enough : im.block.length ≤ rounds)
    (there : There im b o t) :
    b.propTurn rounds name (BitVec.ofNat 32 o,d) =
      some ((propVisit b name o d t).elim (.inl (BitVec.ofNat 32 (o + width t),d + t.turn)) .inr) := by
  have start : ¬(BitVec.ofNat 32 o).slt 0 = true := Bool.eq_false_iff.mp (there.nonneg laid)
  have next := there.step laid enough
  rw [Blob.propTurn]
  dsimp only
  rw [if_neg start,next]
  match t with
  | .opening a =>
    have word : b.word (BitVec.ofNat 32 o) = fdtBeginNode := there.word laid
    rw [word,if_neg fun both => absurd both.1 (by decide),if_pos rfl]
    rfl
  | .closing =>
    have word : b.word (BitVec.ofNat 32 o) = fdtEndNode := there.word laid
    rw [word,if_neg fun both => absurd both.1 (by decide),if_neg (by decide),if_pos rfl,propVisit]
    by_cases last : d = 1
    · rw [if_pos (by omega),if_pos last]
      rfl
    · rw [if_neg (by omega),if_neg last]
      rfl
  | .leaf .nop =>
    have word : b.word (BitVec.ofNat 32 o) = fdtNop := there.word laid
    have four : BitVec.ofNat 32 o + 4 = BitVec.ofNat 32 (o + 4) := (BitVec.ofNat_add o 4).symm
    rw [word,if_neg fun both => absurd both.1 (by decide),if_neg (by decide),if_neg (by decide),if_pos rfl,four,
      Nested.Token.turn,Int.add_zero]
    rfl
  | .leaf (.prop p) =>
    have word : b.word (BitVec.ofNat 32 o) = fdtProp := there.word laid
    obtain ⟨length,place,-⟩ := there.prop laid
    have named := sEq_has (there.named p rfl) p.named free
    rw [word,length,place,propVisit,there.addr laid,Nested.Token.turn,Int.add_zero]
    by_cases here : d = 1
    · rw [if_pos ⟨rfl,here⟩,if_pos here]
      by_cases found : p.name = name
      · rw [if_pos (named.mpr found),if_pos found]
        rfl
      · rw [if_neg (mt named.mp found),if_neg found]
        rfl
    · rw [if_neg fun both => here both.2,if_neg (by decide),if_neg (by decide),if_neg (by decide),if_neg here]
      rfl

/-- Where `tm_fdt_prop` says that a value is. -/
def Blob.valueOf (b : Blob) (q : Nat × Property) : Blob.Value :=
    (b.structBase + q.1 + 12,BitVec.ofNat 32 q.2.value.length)

theorem findSome?_property (b : Blob) (name : List Byte) (ls : List (Nat × Leaf)) :
    (ls.findSome? fun l => propVisit b name l.1 1 (.leaf l.2)).getD none =
      ((ls.filterMap fun l => l.2.property?.map (l.1,·)).find? fun q => q.2.name = name).map b.valueOf := by
  induction ls with
  | nil => rfl
  | cons l ls ih =>
    obtain ⟨o,l⟩ := l
    cases l with
    | nop =>
      rw [List.findSome?_cons,List.filterMap_cons]
      exact ih
    | prop p =>
      have kept : ((o,Leaf.prop p) :: ls).filterMap (fun l => l.2.property?.map (l.1,·)) =
          (o,p) :: ls.filterMap fun l => l.2.property?.map (l.1,·) := rfl
      rw [List.findSome?_cons,kept,List.find?_cons,propVisit,if_pos rfl]
      by_cases found : p.name = name
      · rw [if_pos found]
        simp only [found,decide_true]
        rfl
      · simp only [found]
        exact ih

/-- `tm_fdt_prop` finds the first property of a name, unless a child with properties stands in front of it. -/
theorem tmFdtProp_eq (laid : im.Laid b) (member : n ∈ im.nodes) (free : 0 ∉ name)
    (enough : im.block.length ≤ rounds) :
    b.tmFdtProp rounds (BitVec.ofNat 32 n.start) name = some ((Node.property n name).map b.valueOf) := by
  obtain ⟨opening,contents⟩ := laid.node member
  have first : (Nested.walk width (propVisit b name) n.inner.tokens (n.body width) 1).getD none =
    (Node.property n name).map b.valueOf := by
    rw [Nested.walk_visible (fun o l => propVisit b name o 1 (.leaf l)) fun l => l.property?.isSome]
    · exact findSome?_property b name _
    · intro o e a _
      rfl
    · intro o e deep
      exact if_neg (by omega)
    · intro o l
      rfl
    · intro o e l deep
      cases l with
      | nop => rfl
      | prop p => exact if_neg (by omega)
  have answer : Nested.walk width (propVisit b name) (n.inner.tokens ++ [.closing]) (n.body width) 1 =
      some ((Node.property n name).map b.valueOf) := by
    rw [Nested.walk_closing (r := none) fun o => by rw [propVisit,if_pos rfl],first]
  have start : (BitVec.ofNat 32 n.start).slt 0 = false := opening.nonneg laid
  rw [Blob.tmFdtProp,if_neg (by rw [laid.check,start]; decide),opening.step laid enough]
  exact Nested.loop_walk (fun o d => (BitVec.ofNat 32 o,d)) (fun _ _ _ there => there.propTurn laid free enough)
    contents answer
    (Nat.le_trans (Nat.le_of_succ_le (im.length_le_block member)) enough)

theorem has_valueOf (laid : im.Laid b) (member : n ∈ im.nodes) {q : Nat × Property}
    (found : Node.property n name = some q) :
    q.2.name = name ∧ b.Has (b.valueOf q).1 q.2.value ∧ (b.valueOf q).2.toNat = q.2.value.length ∧
      q.2.value.length < im.block.length := by
  have called : q.2.name = name := by
    have named : (Node.properties n).find? (fun q => q.2.name = name) = some q := found
    simpa using List.find?_some named
  obtain ⟨l,seen,same⟩ := List.mem_filterMap.mp (List.mem_of_find?_eq_some found)
  obtain ⟨o,l⟩ := l
  cases l with
  | nop => cases same
  | prop p =>
    obtain rfl := Option.some.inj same
    have there := ((Nested.standing_append.mp (laid.node member).2).1).visible seen
    obtain ⟨-,-,value,small⟩ := there.prop laid
    rw [there.addr laid] at value
    have inside := there.fits
    have grows := le_upTo4 p.value.length
    simp only [width] at inside
    refine ⟨called,value,?_,show p.value.length < im.block.length by omega⟩
    rw [Blob.valueOf,BitVec.toNat_ofNat]
    exact Nat.mod_eq_of_lt (show p.value.length < 2 ^ 32 by omega)

theorem mem_at {pre : List Byte} {c : Byte} (has : b.Has x (pre ++ c :: bs)) : b.mem (x + pre.length) = c :=
  (Blob.has_append.mp has).2.1

theorem nulFrom_eq {len : BitVec 32} {pre : List Byte} {more : Nat} (has : b.Has x (pre ++ s ++ 0 :: bs))
    (free : 0 ∉ s) (whole : len.toNat = (pre ++ s ++ 0 :: bs).length) (enough : s.length < more) :
    b.nulFrom x len more (BitVec.ofNat 32 pre.length) = some (BitVec.ofNat 32 (pre ++ s).length) := by
  have bound := len.isLt
  rw [List.length_append,List.length_append,List.length_cons] at whole
  induction s generalizing pre more with
  | nil =>
    obtain ⟨more,rfl⟩ : ∃ m, more = m + 1 := ⟨more - 1,by rw [List.length_nil] at enough; omega⟩
    rw [List.append_nil] at has ⊢
    have nul := mem_at has
    refine if_neg fun both => both.2 ?_
    rw [BitVec.toNat_ofNat,Nat.mod_eq_of_lt (by omega)]
    exact nul
  | cons c s ih =>
    rw [List.length_cons] at enough whole
    obtain ⟨more,rfl⟩ : ∃ m, more = m + 1 := ⟨more - 1,by omega⟩
    have shape : pre ++ c :: s = pre ++ [c] ++ s := by simp
    have size : (pre ++ [c]).length = pre.length + 1 := List.length_append
    have cell := has
    rw [List.append_assoc,List.cons_append] at cell
    have nonzero : b.mem (x + pre.length) ≠ 0 := by
      rw [mem_at cell]
      exact fun zero => free (List.mem_cons.mpr (.inl zero.symm))
    have inside : (BitVec.ofNat 32 pre.length).toNat = pre.length := by
      rw [BitVec.toNat_ofNat]
      exact Nat.mod_eq_of_lt (by omega)
    have next : BitVec.ofNat 32 pre.length + 1 = BitVec.ofNat 32 (pre ++ [c]).length := by
      rw [size]
      exact (BitVec.ofNat_add _ 1).symm
    rw [shape] at has ⊢
    rw [Blob.nulFrom,if_pos ⟨by rw [BitVec.lt_def,inside]; omega,by rw [inside]; exact nonzero⟩,next]
    exact ih has (fun member => free (List.mem_cons_of_mem _ member)) (by rw [size]; omega) (by omega)

theorem lists_eq {v : Blob.Value} {pre : List Byte} {ss : List (List Byte)} {more : Nat}
    (has : b.Has v.1 (pre ++ Delimited.pack 0 ss))
    (free : ∀ s ∈ ss, 0 ∉ s) (free' : 0 ∉ s) (whole : v.2.toNat = (pre ++ Delimited.pack 0 ss).length)
    (enough : v.2.toNat ≤ rounds) (long : ss.length < more) :
    b.lists s v rounds more (BitVec.ofNat 32 pre.length) = some (decide (s ∈ ss)) := by
  have bound := v.2.isLt
  induction ss generalizing pre more with
  | nil =>
    obtain ⟨more,rfl⟩ : ∃ m, more = m + 1 := ⟨more - 1,by rw [List.length_nil] at long; omega⟩
    rw [Delimited.pack_nil,List.append_nil] at whole
    have inside : (BitVec.ofNat 32 pre.length).toNat = pre.length := by
      rw [BitVec.toNat_ofNat]
      exact Nat.mod_eq_of_lt (by omega)
    have ended : ¬BitVec.ofNat 32 pre.length < v.2 := by
      rw [BitVec.lt_def,inside]
      omega
    rw [Blob.lists,if_neg ended]
    rfl
  | cons r ss ih =>
    rw [List.length_cons] at long
    obtain ⟨more,rfl⟩ : ∃ m, more = m + 1 := ⟨more - 1,by omega⟩
    rw [Delimited.pack_cons] at has whole
    have sizes := whole
    rw [List.length_append,List.length_append,List.length_cons] at sizes
    have inside : (BitVec.ofNat 32 pre.length).toNat = pre.length := by
      rw [BitVec.toNat_ofNat]
      exact Nat.mod_eq_of_lt (by omega)
    have under : BitVec.ofNat 32 pre.length < v.2 := by
      rw [BitVec.lt_def,inside]
      omega
    have here : b.Has (v.1 + pre.length) (r ++ [0]) := by
      have tail := (Blob.has_append.mp has).2
      rw [show r ++ 0 :: Delimited.pack 0 ss = r ++ [0] ++ Delimited.pack 0 ss from by simp] at tail
      exact (Blob.has_append.mp tail).1
    have same := sEq_has here (free r List.mem_cons_self) free'
    rw [Blob.lists,if_pos under,inside]
    by_cases found : r = s
    · rw [if_pos (same.mpr found),found]
      simp
    · rw [← List.append_assoc] at has whole
      have room : r.length < rounds := by omega
      have skipped := nulFrom_eq has (free r List.mem_cons_self) whole room
      have size : (pre ++ r ++ [0]).length = (pre ++ r).length + 1 := List.length_append
      have next : BitVec.ofNat 32 (pre ++ r).length + 1 = BitVec.ofNat 32 (pre ++ r ++ [0]).length := by
        rw [size]
        exact (BitVec.ofNat_add _ 1).symm
      have shape : pre ++ r ++ 0 :: Delimited.pack 0 ss = pre ++ r ++ [0] ++ Delimited.pack 0 ss := by simp
      rw [shape] at has whole
      have other : decide (s ∈ r :: ss) = decide (s ∈ ss) := by
        rw [decide_eq_decide,List.mem_cons]
        exact or_iff_right (Ne.symm found)
      rw [if_neg (mt same.mp found),skipped]
      dsimp only
      rw [next,other]
      exact ih has (fun t member => free t (List.mem_cons_of_mem _ member)) whole (by omega)

theorem probe_eq (laid : im.Laid b) (member : n ∈ im.nodes) (free : 0 ∉ s) (enough : im.block.length ≤ rounds) :
    b.probe rounds s (BitVec.ofNat 32 n.start) = some (decide (Node.compatibleWith n s)) := by
  have named : 0 ∉ ascii "compatible" := by decide
  rw [Blob.probe,tmFdtProp_eq laid member named enough]
  cases found : Node.property n (ascii "compatible") with
  | none =>
    have other : ¬Node.compatibleWith n s := by
      rintro ⟨q,member,-⟩
      rw [found] at member
      cases member
    simp [other]
  | some q =>
    obtain ⟨called,has,whole,short⟩ := has_valueOf laid member found
    have packed : Delimited.pack 0 q.2.strings = q.2.value := Components.pack_splitOn (.inr (q.2.worded called))
    have words : ∀ r ∈ q.2.strings, 0 ∉ r := fun r inside => Components.splitOn_free (List.dropLast_subset _ inside)
    have means : Node.compatibleWith n s ↔ s ∈ q.2.strings := by
      constructor
      · rintro ⟨q',member,inside⟩
        rw [found] at member
        obtain rfl := Option.some.inj member
        exact inside
      · exact fun inside => ⟨q,found,inside⟩
    have fewer : q.2.strings.length ≤ q.2.value.length := by
      rw [← packed]
      exact Delimited.length_le_pack _
    rw [← packed] at has whole
    rw [Option.map_some]
    dsimp only
    have listed : b.lists s (b.valueOf q) rounds rounds (BitVec.ofNat 32 ([] : List Byte).length) =
      some (decide (s ∈ q.2.strings)) :=
      lists_eq has words free whole (by rw [whole,packed]; omega) (by omega)
    rw [decide_eq_decide.mpr means]
    exact listed

/-- What `tm_fdt_compatible` answers at a token. -/
def compatVisit (b : Blob) (rounds : Nat) (compat : List Byte) (o : Nat) (d : Int) : Token → Option (BitVec 32)
  | .opening _ => if b.probe rounds compat (BitVec.ofNat 32 o) = some true then some (BitVec.ofNat 32 o) else none
  | .closing => if d = 1 then some (-1) else none
  | .leaf _ => none

def ThereIn (im : Image) (b : Blob) (o : Nat) (t : Token) : Prop :=
  There im b o t ∧ ∀ a, t = .opening a → ∃ n ∈ im.nodes, n.start = o

theorem ThereIn.compatTurn (laid : im.Laid b) (free : 0 ∉ s) (enough : im.block.length ≤ rounds)
    (both : ThereIn im b o t) :
    b.compatTurn rounds s (BitVec.ofNat 32 o,d) =
      some ((compatVisit b rounds s o d t).elim (.inl (BitVec.ofNat 32 (o + width t),d + t.turn)) .inr) := by
  obtain ⟨there,opened⟩ := both
  have start : ¬(BitVec.ofNat 32 o).slt 0 = true := Bool.eq_false_iff.mp (there.nonneg laid)
  have next := there.step laid enough
  rw [Blob.compatTurn]
  dsimp only
  rw [if_neg start,next]
  match t with
  | .opening a =>
    have word : b.word (BitVec.ofNat 32 o) = fdtBeginNode := there.word laid
    obtain ⟨n,member,rfl⟩ := opened a rfl
    have probed := probe_eq laid member free enough
    rw [if_pos word,probed,compatVisit,probed]
    by_cases found : Node.compatibleWith n s
    · rw [decide_eq_true found,if_pos rfl]
      rfl
    · rw [decide_eq_false found,if_neg (by decide)]
      rfl
  | .closing =>
    have word : b.word (BitVec.ofNat 32 o) = fdtEndNode := there.word laid
    rw [word,if_neg (by decide),if_pos rfl,compatVisit,Option.map_some]
    by_cases last : d = 1
    · rw [if_pos (by omega),if_pos last]
      rfl
    · rw [if_neg (by omega),if_neg last]
      rfl
  | .leaf .nop =>
    have word : b.word (BitVec.ofNat 32 o) = fdtNop := there.word laid
    have four : BitVec.ofNat 32 o + 4 = BitVec.ofNat 32 (o + 4) := (BitVec.ofNat_add o 4).symm
    rw [word,if_neg (by decide),if_neg (by decide),if_neg (by decide),if_pos rfl,four,Nested.Token.turn,
      Int.add_zero]
    rfl
  | .leaf (.prop p) =>
    have word : b.word (BitVec.ofNat 32 o) = fdtProp := there.word laid
    rw [word,if_neg (by decide),if_neg (by decide),if_pos rfl,Nested.Token.turn,Int.add_zero]
    rfl

theorem findSome?_probe (laid : im.Laid b) (free : 0 ∉ s) (enough : im.block.length ≤ rounds) {ns : List Node}
    (members : ∀ n ∈ ns, n ∈ im.nodes) :
    (ns.findSome? fun n => compatVisit b rounds s n.start 0 (.opening n.label)) =
      (ns.find? fun n => Node.compatibleWith n s).map fun n => BitVec.ofNat 32 n.start := by
  induction ns with
  | nil => rfl
  | cons n ns ih =>
    rw [List.findSome?_cons,List.find?_cons,ih fun m member => members m (List.mem_cons_of_mem _ member),
      compatVisit,probe_eq laid (members n List.mem_cons_self) free enough]
    by_cases found : Node.compatibleWith n s
    · simp [found]
    · simp [found]

/-- `tm_fdt_compatible` finds the first node that lists a string, each node before the ones inside. -/
theorem tmFdtCompatible_eq (laid : im.Laid b) (free : 0 ∉ s) (enough : im.block.length ≤ rounds) :
    b.tmFdtCompatible rounds s = some (handle (im.nodes.find? fun n => Node.compatibleWith n s)) := by
  have standing : Nested.Standing width (ThereIn im b) im.root.start im.root.tokens :=
    (laid.standing.and (Nested.standing_openings 0 im.forest)).group im.root_mem
  have inner : Nested.walk width (compatVisit b rounds s) im.inner.tokens (Group.body width im.root) 1 =
      (Nested.groups width (Group.body width im.root) im.inner).findSome? fun n =>
        compatVisit b rounds s n.start 0 (.opening n.label) := by
    refine Nested.walk_groups (fun o a => compatVisit b rounds s o 0 (.opening a)) ?_ ?_ ?_ _ 1 (Int.le_refl 1) _
    · intro o e a _
      rfl
    · intro o e deep
      exact if_neg (by omega)
    · intro o e l _
      rfl
  have answer : Nested.walk width (compatVisit b rounds s) im.root.tokens im.root.start 0 =
      some (handle (im.nodes.find? fun n => Node.compatibleWith n s)) := by
    have contents : Nested.walk width (compatVisit b rounds s) (im.inner.tokens ++ [.closing])
      (Group.body width im.root) 1 =
        some ((Nested.walk width (compatVisit b rounds s) im.inner.tokens (Group.body width im.root) 1).getD
          (-1)) :=
      Nested.walk_closing (fun o => by rw [compatVisit,if_pos rfl]) (Group.body width im.root) im.inner
    have first : Nested.walk width (compatVisit b rounds s) im.root.tokens im.root.start 0 =
        (compatVisit b rounds s im.root.start 0 (.opening im.root.label)).or
          (Nested.walk width (compatVisit b rounds s) (im.inner.tokens ++ [.closing])
            (Group.body width im.root) 1) := rfl
    rw [handle,← findSome?_probe laid free enough fun n member => member,im.nodes_eq,List.findSome?_cons,first,
      contents,inner]
    cases compatVisit b rounds s im.root.start 0 (.opening im.root.label) with
    | none => rfl
    | some v => rfl
  rw [Blob.tmFdtCompatible,laid.check,if_neg (Bool.false_ne_true ·.symm),rootNode_eq laid enough]
  exact Nested.loop_walk (fun o d => (BitVec.ofNat 32 o,d))
    (fun _ _ _ there => there.compatTurn laid free enough) standing answer
    (Nat.le_trans (im.length_le_block im.root_mem) enough)

end Qsoe.Sys
