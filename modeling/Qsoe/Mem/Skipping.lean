import Qsoe.Lib.Traced
import Qsoe.Mem.Machine

/-! The skip loop of `devmap_carve` in machine words. Each turn makes a throwaway child of the largest size that is
left and that the position is aligned to; the loop ends exactly at the offset of the region, and the kernel's own
watermark with it. -/
namespace Qsoe.Mem

/-- `ctz_ul`; the loop goes on for ever where it has no result. -/
def ctzUl : Nat → Addr → Nat → Option Nat
  | 0, _, _ => none
  | rounds + 1, x, n => if x &&& 1 = 0 then ctzUl rounds (x >>> 1) (n + 1) else some n

/-- `fls_ul` -/
def flsUl : Nat → Addr → Nat → Option Nat
  | 0, _, _ => none
  | rounds + 1, x, n => if 1 < x then flsUl rounds (x >>> 1) (n + 1) else some n

/-- `chunk_sb` at the position `advanced`, where position 0 has the alignment of the untyped. -/
def chunkSb (rounds utSizebits : Nat) (target advanced : Addr) : Option Nat :=
  (flsUl rounds (target - advanced) 0).bind fun chunk =>
    (if advanced = 0 then some utSizebits else ctzUl rounds advanced 0).map fun align =>
      if align < chunk then align else chunk

/-- A retype that the loop issues, at the position it has come to. -/
structure Chunk where
  pos : Addr
  bits : Nat
  deriving DecidableEq, Repr

/-- The loop from its `i`-th turn on: the position it ends at, `false` where it gives up, and the
retypes it issues. -/
def skipLoop (rounds utSizebits : Nat) (target : Addr) (k : Nat → RetypeKernel) : Nat → Nat → Addr →
    Option (Traced Chunk (Addr × Bool))
  | 0, _, _ => none
  | turns + 1, i, advanced =>
    if advanced < target then
      (chunkSb rounds utSizebits target advanced).bind fun bits =>
        if (k i).slot = 0 then some ⟨(advanced,false),[]⟩
        else if (k i).granted then
          (skipLoop rounds utSizebits target k turns (i + 1) (advanced + 1#64 <<< bits)).map fun rest =>
            ⟨rest.value,⟨advanced,bits⟩ :: rest.reads⟩
        else some ⟨(advanced,false),[⟨advanced,bits⟩]⟩
    else some ⟨(advanced,true),[]⟩

def Chained : Nat → List Chunk → Prop
  | _, [] => True
  | start, c :: cs => c.pos.toNat = start ∧ Chained (start + 2 ^ c.bits) cs

/-- Where the retypes end. -/
def reached : Nat → List Chunk → Nat
  | start, [] => start
  | start, c :: cs => reached (start + 2 ^ c.bits) cs

/-- What a skip to `target` does on the way, as long as the kernel lets it. -/
structure Skips (start target : Addr) (out : Traced Chunk (Addr × Bool)) : Prop where
  chained : Chained start.toNat out.reads
  aligned : ∀ c ∈ out.reads, 2 ^ c.bits ∣ c.pos.toNat
  within : ∀ c ∈ out.reads, c.pos.toNat + 2 ^ c.bits ≤ target.toNat
  landed : out.value.2 = true → out.value.1 = target ∧ reached start.toNat out.reads = target.toNat

variable {x a h o : Addr} {rounds turns n b i : Nat} {k : Nat → RetypeKernel} {out : Traced Chunk (Addr × Bool)}
    {u : Untyped} {cs : List Chunk}

theorem half_toNat (x : Addr) : (x >>> 1).toNat = x.toNat / 2 := by
  rw [BitVec.toNat_ushiftRight,Nat.shiftRight_succ,Nat.shiftRight_zero]

theorem even_iff : x &&& 1 = 0 ↔ x.toNat % 2 = 0 := by
  have one : (1 : Addr).toNat = 1 := rfl
  rw [← BitVec.toNat_inj,BitVec.toNat_and,one,Nat.and_one_is_mod]
  exact Iff.rfl

theorem two_pow_dvd {x k : Nat} (low : ∀ j < k, x.testBit j = false) : 2 ^ k ∣ x := by
  refine Nat.dvd_of_mod_eq_zero (Nat.eq_of_testBit_eq fun j => ?_)
  rw [Nat.testBit_mod_two_pow,Nat.zero_testBit]
  by_cases below : j < k
  · rw [low j below,Bool.and_false]
  · rw [decide_eq_false below,Bool.false_and]

theorem ctz_eq {x k : Nat} (few : k < 64) (bit : x.testBit k = true) (low : ∀ j < k, x.testBit j = false) :
    ctz x = k := by
  have first : (List.range 64).find? (x.testBit ·) = some k := by
    rw [List.find?_range_eq_some]
    exact ⟨bit,List.mem_range.mpr few,fun j below => by rw [low j below]; rfl⟩
  rw [ctz,first,Option.getD_some]

/-- `ctz_ul` ends for a number that is not 0, and counts the zeros below its lowest bit. -/
theorem ctzUl_some (nonzero : x ≠ 0) (enough : x.toNat < 2 ^ rounds) :
    ∃ j, ctzUl rounds x n = some (n + j) ∧ x.toNat.testBit j = true ∧
      ∀ l < j, x.toNat.testBit l = false := by
  have positive : x.toNat ≠ 0 := fun zero => nonzero (BitVec.eq_of_toNat_eq zero)
  induction rounds generalizing x n with
  | zero => omega
  | succ rounds ih =>
    rw [ctzUl]
    by_cases even : x &&& 1 = 0
    · rw [if_pos even]
      have rest := even_iff.mp even
      have half := half_toNat x
      have positive' : (x >>> 1).toNat ≠ 0 := by omega
      obtain ⟨j,counted,bit,low⟩ := ih (n := n + 1) (fun zero => positive' (congrArg BitVec.toNat zero))
        (by rw [half]; omega) positive'
      rw [half] at bit low
      refine ⟨j + 1,?_,?_,?_⟩
      · rw [counted,Nat.add_assoc,Nat.add_comm 1 j]
      · rw [Nat.testBit_succ,bit]
      · intro l below
        cases l with
        | zero =>
          rw [Nat.testBit_zero,rest]
          rfl
        | succ l =>
          rw [Nat.testBit_succ]
          exact low l (by omega)
    · rw [if_neg even]
      have odd : x.toNat % 2 = 1 := by
        have not := mt even_iff.mpr even
        omega
      refine ⟨0,rfl,?_,fun l below => absurd below (Nat.not_lt_zero l)⟩
      rw [Nat.testBit_zero,odd]
      rfl

theorem ctzUl_eq (nonzero : x ≠ 0) (enough : 64 ≤ rounds) :
    ctzUl rounds x 0 = some (ctz x.toNat) ∧ 2 ^ ctz x.toNat ∣ x.toNat := by
  have wide : x.toNat < 2 ^ rounds := Nat.lt_of_lt_of_le x.isLt (Nat.pow_le_pow_right (by omega) enough)
  obtain ⟨j,counted,bit,low⟩ := ctzUl_some (n := 0) nonzero wide
  have few : j < 64 := by
    by_contra far
    have nothing := Nat.testBit_lt_two_pow (Nat.lt_of_lt_of_le x.isLt
      (Nat.pow_le_pow_right (by omega) (Nat.le_of_not_lt far)))
    rw [nothing] at bit
    cases bit
  rw [ctz_eq few bit low,counted,Nat.zero_add]
  exact ⟨rfl,two_pow_dvd low⟩

theorem flsUl_some (enough : x.toNat < 2 ^ (rounds + 1)) : flsUl (rounds + 1) x n = some (n + x.toNat.log2) := by
  induction rounds generalizing x n with
  | zero =>
    have small : ¬1 < x := by
      rw [BitVec.lt_def]
      have one : (1 : Addr).toNat = 1 := rfl
      omega
    rw [flsUl,if_neg small,Nat.log2_def,if_neg (by omega),Nat.add_zero]
  | succ rounds ih =>
    have one : (1 : Addr).toNat = 1 := rfl
    have half := half_toNat x
    rw [flsUl]
    by_cases more : 1 < x
    · rw [if_pos more,ih (by rw [half]; omega),half]
      rw [BitVec.lt_def,one] at more
      rw [Nat.log2_def x.toNat,if_pos (by omega),Nat.add_assoc,Nat.add_comm 1]
    · rw [if_neg more]
      rw [BitVec.lt_def,one] at more
      rw [Nat.log2_def,if_neg (by omega),Nat.add_zero]

theorem flsUl_eq (enough : 64 ≤ rounds) : flsUl rounds x 0 = some x.toNat.log2 := by
  obtain ⟨rounds,rfl⟩ := Nat.exists_eq_add_of_le' (Nat.le_trans (by omega : 1 ≤ 64) enough)
  have wide := Nat.lt_of_lt_of_le x.isLt (Nat.pow_le_pow_right (by omega : 0 < 2) enough)
  rw [flsUl_some wide,Nat.zero_add]

theorem chunkBits_fits {o a : Nat} (b : Nat) (less : a < o) : a + 2 ^ chunkBits b o a ≤ o := by
  have log := Nat.log2_self_le (n := o - a) (by omega)
  have small : 2 ^ chunkBits b o a ≤ 2 ^ (o - a).log2 := Nat.pow_le_pow_right (by omega) (Nat.min_le_left _ _)
  omega

theorem chunkSb_eq (enough : 64 ≤ rounds) (less : a < o) :
    chunkSb rounds b o a = some (chunkBits b o.toNat a.toNat) ∧ 2 ^ chunkBits b o.toNat a.toNat ∣ a.toNat := by
  have rest : (o - a).toNat = o.toNat - a.toNat := BitVec.toNat_sub_of_le (BitVec.le_of_lt less)
  have least (p q : Nat) : (if q < p then q else p) = min p q := by
    split <;> omega
  rw [chunkSb,flsUl_eq enough,Option.bind_some,rest,chunkBits]
  by_cases zero : a = 0
  · have start : a.toNat = 0 := congrArg BitVec.toNat zero
    rw [if_pos zero,if_pos start,Option.map_some,least,start]
    exact ⟨rfl,Nat.dvd_zero _⟩
  · have start : a.toNat ≠ 0 := fun nothing => zero (BitVec.eq_of_toNat_eq nothing)
    obtain ⟨counted,divides⟩ := ctzUl_eq zero enough
    rw [if_neg zero,if_neg start,counted,Option.map_some,least]
    exact ⟨rfl,Nat.dvd_trans (Nat.pow_dvd_pow 2 (Nat.min_le_right _ _)) divides⟩

theorem advance_toNat {bits : Nat} (fits : a.toNat + 2 ^ bits ≤ o.toNat) :
    (a + 1#64 <<< bits).toNat = a.toNat + 2 ^ bits := by
  have room := o.isLt
  have shifted : (1#64 <<< bits).toNat = 2 ^ bits := by
    have one : (1#64).toNat = 1 := rfl
    rw [BitVec.toNat_shiftLeft,one,Nat.one_shiftLeft,Nat.mod_eq_of_lt (by omega)]
  rw [BitVec.toNat_add,shifted,Nat.mod_eq_of_lt (by omega)]

theorem stays (done : ¬a < o) (le : a ≤ o) : a = o := BitVec.le_antisymm le (BitVec.not_lt.mp done)

theorem Skips.stay (a : Addr) : Skips a a ⟨(a,true),[]⟩ where
  chained := trivial
  aligned := fun _ member => absurd member List.not_mem_nil
  within := fun _ member => absurd member List.not_mem_nil
  landed := fun _ => ⟨rfl,rfl⟩

theorem Skips.stop {pos : Addr} : Skips a o ⟨(pos,false),[]⟩ where
  chained := trivial
  aligned := fun _ member => absurd member List.not_mem_nil
  within := fun _ member => absurd member List.not_mem_nil
  landed := fun success => absurd success Bool.false_ne_true

theorem Skips.turn {next : Addr} {bits : Nat} (divides : 2 ^ bits ∣ a.toNat) (fits : a.toNat + 2 ^ bits ≤ o.toNat)
    (follows : next.toNat = a.toNat + 2 ^ bits) (rest : Skips next o out) :
      Skips a o ⟨out.value,⟨a,bits⟩ :: out.reads⟩ where
  chained := ⟨rfl,follows ▸ rest.chained⟩
  aligned := fun _ member => (List.mem_cons.mp member).elim (fun first => first ▸ divides) (rest.aligned _)
  within := fun _ member => (List.mem_cons.mp member).elim (fun first => first ▸ fits) (rest.within _)
  landed := fun success => by
    obtain ⟨there,arrives⟩ := rest.landed success
    rw [follows] at arrives
    exact ⟨there,arrives⟩

theorem skipLoop_turn (b : Nat) (k : Nat → RetypeKernel) (i turns : Nat) (enough : 64 ≤ rounds) (less : a < o) :
    skipLoop rounds b o k (turns + 1) i a =
    if (k i).slot = 0 then some ⟨(a,false),[]⟩
    else if (k i).granted then
      (skipLoop rounds b o k turns (i + 1) (a + 1#64 <<< chunkBits b o.toNat a.toNat)).map fun rest =>
        ⟨rest.value,⟨a,chunkBits b o.toNat a.toNat⟩ :: rest.reads⟩
    else some ⟨(a,false),[⟨a,chunkBits b o.toNat a.toNat⟩]⟩ := by
  rw [skipLoop,if_pos less,(chunkSb_eq enough less).1,Option.bind_some]

/-- The loop ends, whatever the kernel answers: the position grows in each turn and never gets past the target. -/
theorem skipLoop_skips (b : Nat) (k : Nat → RetypeKernel) (i : Nat) (le : a ≤ o) :
    ∃ out, (∀ rounds ≥ 64, ∀ turns > o.toNat - a.toNat, skipLoop rounds b o k turns i a = some out) ∧
      Skips a o out ∧
      ((∀ j, (k j).slot ≠ 0 ∧ (k j).granted = true) → out.value.2 = true ∧ out.reads.map Chunk.bits =
        skipChunks b o.toNat a.toNat) := by
  induction left : o.toNat - a.toNat using Nat.strongRecOn generalizing a i with
  | _ n ih =>
    subst left
    by_cases less : a < o
    · have below : a.toNat < o.toNat := less
      have fits := chunkBits_fits b below
      have follows := advance_toNat fits
      have divides := (chunkSb_eq (b := b) (Nat.le_refl 64) less).2
      have turned (rounds : Nat) (enough : rounds ≥ 64) (turns : Nat) :=
        skipLoop_turn b k i turns enough less
      by_cases nothing : (k i).slot = 0
      · refine ⟨⟨(a,false),[]⟩,fun rounds enough turns more => ?_,.stop,fun all => absurd nothing (all i).1⟩
        obtain ⟨turns,rfl⟩ := Nat.exists_eq_succ_of_ne_zero (by omega : turns ≠ 0)
        rw [turned rounds enough,if_pos nothing]
      · by_cases granted : (k i).granted = true
        · have le' : a + 1#64 <<< chunkBits b o.toNat a.toNat ≤ o := by
            rw [BitVec.le_def,follows]
            exact fits
          have positive := Nat.two_pow_pos (chunkBits b o.toNat a.toNat)
          obtain ⟨rest,ends,skips,whole⟩ := ih _ (by rw [follows]; omega) (i + 1) le' rfl
          refine ⟨⟨rest.value,⟨a,chunkBits b o.toNat a.toNat⟩ :: rest.reads⟩,fun rounds enough turns more => ?_,
            skips.turn divides fits follows,fun all => ?_⟩
          · obtain ⟨turns,rfl⟩ := Nat.exists_eq_succ_of_ne_zero (by omega : turns ≠ 0)
            rw [turned rounds enough,if_neg nothing,if_pos granted,ends rounds enough turns (by rw [follows]; omega)]
            rfl
          · obtain ⟨success,same⟩ := whole all
            refine ⟨success,?_⟩
            rw [List.map_cons,same,follows,skipChunks.eq_def b o.toNat a.toNat,if_pos below]
        · refine ⟨⟨(a,false),[⟨a,chunkBits b o.toNat a.toNat⟩]⟩,fun rounds enough turns more => ?_,
            Skips.stop.turn divides fits follows,fun all => absurd (all i).2 granted⟩
          obtain ⟨turns,rfl⟩ := Nat.exists_eq_succ_of_ne_zero (by omega : turns ≠ 0)
          rw [turned rounds enough,if_neg nothing,if_neg granted]
    · obtain rfl := stays less le
      refine ⟨⟨(a,true),[]⟩,fun rounds _ turns more => ?_,.stay a,fun _ => ⟨rfl,?_⟩⟩
      · obtain ⟨turns,rfl⟩ := Nat.exists_eq_succ_of_ne_zero (by omega : turns ≠ 0)
        rw [skipLoop,if_neg less]
      · rw [skipChunks,if_neg (Nat.lt_irrefl _)]
        rfl

/-- Retypes at aligned positions, each where the last one ended, move the kernel's own watermark as far
as the loop's. -/
theorem Chained.carve (chained : Chained u.watermark cs) (aligned : ∀ c ∈ cs, 2 ^ c.bits ∣ c.pos.toNat)
    (within : ∀ c ∈ cs, c.pos.toNat + 2 ^ c.bits ≤ u.size) (fresh : u.children = 0 → u.watermark = 0) :
    ∃ v, cs.foldlM (fun u c => u.retype (2 ^ c.bits)) u = some v ∧ v.watermark = reached u.watermark cs := by
  induction cs generalizing u with
  | nil => exact ⟨u,rfl,rfl⟩
  | cons c cs ih =>
    obtain ⟨first,rest⟩ := chained
    have divides := aligned c List.mem_cons_self
    have fits := within c List.mem_cons_self
    rw [first] at divides fits
    have made := Untyped.retype_of_dvd (Nat.two_pow_pos c.bits) divides fresh fits
    obtain ⟨v,run,mark⟩ := @ih { u with watermark := u.watermark + 2 ^ c.bits, children := u.children + 1 } rest
      (fun d member => aligned d (List.mem_cons_of_mem _ member))
        (fun d member => within d (List.mem_cons_of_mem _ member))
      (fun nothing => absurd nothing (Nat.succ_ne_zero _))
    refine ⟨v,?_,mark⟩
    rw [List.foldlM_cons,made]
    exact run

/-- From the mark `h` of an untyped of size `2 ^ b` the loop ends at the offset `o`: the retypes are
aligned, stay below `o` and follow each other. -/
theorem skip_exact (b : Nat) (le : h ≤ o) (inside : o.toNat ≤ 2 ^ b) (k : Nat → RetypeKernel) :
    ∃ out, (∀ rounds ≥ 64, ∀ turns > o.toNat - h.toNat, skipLoop rounds b o k turns 0 h = some out) ∧
      Skips h o out ∧
      ((∀ j, (k j).slot ≠ 0 ∧ (k j).granted = true) → out.value = (o,true) ∧
        ∀ u : Untyped, u.size = 2 ^ b → u.watermark = h.toNat → (u.children = 0 → h = 0) →
          ∃ v, out.reads.foldlM (fun u c => u.retype (2 ^ c.bits)) u = some v ∧ v.watermark = o.toNat) := by
  obtain ⟨out,ends,skips,whole⟩ := skipLoop_skips b k 0 le
  refine ⟨out,ends,skips,fun all => ?_⟩
  have success := (whole all).1
  obtain ⟨there,arrives⟩ := skips.landed success
  refine ⟨Prod.ext there success,fun u size mark fresh => ?_⟩
  have chained := skips.chained
  rw [← mark] at chained arrives
  obtain ⟨v,run,final⟩ := chained.carve skips.aligned
    (fun c member => by rw [size]; exact Nat.le_trans (skips.within c member) inside)
    (fun nothing => by rw [mark,fresh nothing]; rfl)
  exact ⟨v,run,final.trans arrives⟩

/-- A skip of 0x3000 bytes from 0x1000 in an untyped of 64 KiB. -/
theorem skip_exact_pages :
    ∃ out, skipLoop 64 16 0x4000 (fun _ => ⟨1,true⟩) 0x3001 0 0x1000 = some out ∧ out.value = (0x4000,true) := by
  obtain ⟨out,ends,-,whole⟩ := skip_exact (h := 0x1000) (o := 0x4000) 16 (by decide) (by decide) fun _ => ⟨1,true⟩
  exact ⟨out,ends 64 (Nat.le_refl 64) 0x3001 (by decide),(whole fun _ => ⟨by decide,rfl⟩).1⟩

end Qsoe.Mem
