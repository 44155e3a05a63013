import Qsoe.Lib.Cells
import Qsoe.Lib.Components
import Qsoe.Lib.Words
import Mathlib.Data.List.Induction

/-! How `open` makes a path canonical, in the buffer that holds it. The output grows behind the input that has
been read, with a separator behind each component that hides what the input had there. -/
namespace Qsoe.Libc

open Cells
open Words (Byte)
open Components (push kept canon slashed)

def slash : Byte := 0x2f

def dot : Byte := 0x2e

/-- A byte that was written: where, and which byte of the input is the next to be read. -/
structure Store where
  cell : Nat
  next : Nat
  deriving DecidableEq, Repr

/-- The buffer, the output and the input cursor; `stores` is history. -/
structure Cursors where
  buf : Nat → Byte
  o : Nat
  i : Nat
  stores : List Store

/-- `buf[o++] = c`. -/
def Cursors.put (s : Cursors) (c : Byte) (next : Nat) : Cursors :=
  { s with buf := Function.update s.buf s.o c, o := s.o + 1, stores := s.stores ++ [⟨s.o,next⟩] }

/-- Where the component at `i` ends that has so many bytes at most. -/
def scan (buf : Nat → Byte) : Nat → Nat → Nat
  | 0, i => i
  | left + 1, i => if buf i = slash then i else scan buf left (i + 1)

/-- Back to the separator before `o`. -/
def unwind (buf : Nat → Byte) : Nat → Nat
  | 0 => 0
  | o + 1 => if 1 < o + 1 ∧ buf o ≠ slash then unwind buf o else o + 1

def copy (comp len : Nat) (s : Cursors) : Cursors :=
  (List.range len).foldl (fun s k => s.put (s.buf (comp + k)) (comp + k + 1)) s

def component (inLen : Nat) (s : Cursors) (i : Nat) : Cursors :=
  let len := i - s.i
  if len = 0 then s
  else if len = 1 ∧ s.buf s.i = dot then s
  else if len = 2 ∧ s.buf s.i = dot ∧ s.buf (s.i + 1) = dot then
    if 1 < s.o then { s with o := unwind s.buf (s.o - 1) } else s
  else (copy s.i len s).put slash (min (i + 1) inLen)

def turn (inLen : Nat) (s : Cursors) : Cursors :=
  let i := scan s.buf (inLen - s.i) s.i
  let t := component inLen s i
  { t with i := if i < inLen ∧ t.buf i = slash then i + 1 else i }

def walk (inLen : Nat) : Nat → Cursors → Option Cursors
  | 0, _ => none
  | rounds + 1, s => if s.i < inLen then walk inLen rounds (turn inLen s) else some s

/-- The buffer, the length of what it holds and the bytes that were written. -/
structure Canonical where
  buf : Nat → Byte
  outLen : Nat
  stores : List Store

/-- The last separator goes, but not that of the root, and a NUL ends the path. -/
def finish (inLen : Nat) (s : Cursors) : Canonical :=
  let o := if 1 < s.o ∧ s.buf (s.o - 1) = slash then s.o - 1 else s.o
  ⟨Function.update s.buf o 0,o,s.stores ++ [⟨o,inLen⟩]⟩

/-- `canon_inplace`: `-1` is the inner `none`. The cursors stay below `in_len + 2`. -/
def canonInplace (rounds : Nat) (buf : Nat → Byte) (inLen : Nat) : Option (Option Canonical) :=
  if inLen = 0 ∨ buf 0 ≠ slash then some none
  else
    let s := Cursors.put ⟨buf,0,0,[]⟩ slash 1
    (walk inLen rounds { s with i := s.i + 1 }).map fun s => some (finish inLen s)

/-- A write that hides nothing that has yet to be read, in the buffer and one cell behind it. -/
def Store.Lawful (inLen : Nat) (w : Store) : Prop := w.cell ≤ inLen ∧ (w.cell < w.next ∨ w.next = inLen)

variable {buf p : Nat → Byte} {inLen a n o : Nat} {s t : Cursors}

theorem scan_spec (buf : Nat → Byte) (n i : Nat) :
    i ≤ scan buf n i ∧ scan buf n i ≤ i + n ∧ slash ∉ row buf i (scan buf n i - i) ∧
      (scan buf n i < i + n → buf (scan buf n i) = slash) := by
  induction n generalizing i with
  | zero =>
    rw [scan,Nat.sub_self]
    exact ⟨Nat.le_refl i,Nat.le_refl i,List.not_mem_nil,fun less => absurd less (Nat.lt_irrefl i)⟩
  | succ n ih =>
    rw [scan]
    split
    · rename_i here
      rw [Nat.sub_self]
      exact ⟨Nat.le_refl i,Nat.le_add_right ..,List.not_mem_nil,fun _ => here⟩
    · rename_i other
      obtain ⟨low,high,free,stop⟩ := ih (i + 1)
      refine ⟨by omega,by omega,?_,fun less => stop (by omega)⟩
      have split : scan buf n (i + 1) - i = scan buf n (i + 1) - (i + 1) + 1 := by omega
      rw [split,row_succ,List.mem_cons,not_or]
      exact ⟨fun same => other same.symm,free⟩

theorem unwind_spec {before c : List Byte} (text : row buf 0 o = before ++ [slash] ++ c) (free : slash ∉ c) :
    unwind buf o = before.length + 1 := by
  induction c using List.reverseRecOn generalizing o with
  | nil =>
    have size := congrArg List.length text
    simp only [length_row,List.append_nil,List.length_append,List.length_singleton] at size
    obtain rfl := size
    rw [List.append_nil,row_snoc,Nat.zero_add] at text
    have last : buf before.length = slash := List.singleton_inj.mp (List.append_inj text (length_row ..)).2
    rw [unwind,if_neg fun back => back.2 last]
  | append_singleton c x ih =>
    have size := congrArg List.length text
    simp only [length_row,List.length_append,List.length_singleton] at size
    obtain ⟨m,rfl⟩ : ∃ m, o = m + 1 := ⟨o - 1,by omega⟩
    rw [← List.append_assoc,row_snoc,Nat.zero_add] at text
    obtain ⟨rest,last⟩ := List.append_inj' text rfl
    have other : buf m ≠ slash := by
      rintro same
      apply free
      rw [← same,List.singleton_inj.mp last]
      exact List.mem_append_right c List.mem_cons_self
    rw [unwind,if_pos ⟨by omega,other⟩]
    exact ih rest fun member => free (List.mem_append_left [x] member)

theorem copy_spec (behind : s.o ≤ comp) (len : Nat) :
    (copy comp len s).o = s.o + len ∧ (copy comp len s).i = s.i ∧
      (∀ x, (copy comp len s).buf x = if s.o ≤ x ∧ x < s.o + len then s.buf (comp + (x - s.o)) else s.buf x) ∧
      (copy comp len s).stores = s.stores ++ (List.range len).map fun k => ⟨s.o + k,comp + k + 1⟩ := by
  induction len with
  | zero =>
    refine ⟨rfl,rfl,fun x => ?_,(List.append_nil _).symm⟩
    rw [if_neg (by omega)]
    rfl
  | succ len ih =>
    obtain ⟨at_o,at_i,cells,stores⟩ := ih
    have step : copy comp (len + 1) s = (copy comp len s).put ((copy comp len s).buf (comp + len))
      (comp + len + 1) := by
      rw [copy,List.range_succ,List.foldl_append]
      rfl
    rw [step,Cursors.put]
    refine ⟨by rw [at_o]; rfl,at_i,fun x => ?_,?_⟩
    · dsimp only
      rw [at_o,cells (comp + len),if_neg (by omega)]
      rcases eq_or_ne x (s.o + len) with rfl | other
      · rw [Function.update_self,if_pos (by omega),Nat.add_sub_cancel_left]
      · rw [Function.update_of_ne other,cells]
        by_cases inside : s.o ≤ x ∧ x < s.o + len
        · rw [if_pos inside,if_pos (by omega)]
        · rw [if_neg inside,if_neg (by omega)]
    · rw [stores,at_o,List.append_assoc,List.range_succ,List.map_append]
      rfl

theorem copy_text (behind : s.o ≤ comp) (len : Nat) :
    row (copy comp len s).buf 0 (s.o + len) = row s.buf 0 s.o ++ row s.buf comp len := by
  obtain ⟨-,-,cells,-⟩ := copy_spec behind len
  rw [row_add,Nat.zero_add]
  congr 1
  · refine row_congr fun x _ front => ?_
    rw [cells,if_neg (by omega)]
  · rw [row_eq_map,row_eq_map]
    refine List.map_congr_left fun k member => ?_
    have small := List.mem_range.mp member
    rw [cells,if_pos (by omega),Nat.add_sub_cancel_left]

theorem unwind_slashed {ks : List (List Byte)} {c : List Byte} (text : row buf 0 o = slashed slash (ks ++ [c]))
    (free : slash ∉ c) :
    1 < o ∧ row buf 0 (unwind buf (o - 1)) = slashed slash ks ∧ unwind buf (o - 1) ≤ o := by
  have size := congrArg List.length text
  rw [length_row] at size
  have long : 1 < o := size ▸ Components.one_lt_length_slashed.mpr
    (List.append_ne_nil_of_right_ne_nil ks (List.cons_ne_nil c []))
  rw [Components.slashed_snoc,← List.append_assoc] at text
  obtain ⟨before,ends⟩ := Components.slashed_ends slash ks
  have short : row buf 0 (o - 1) = before ++ [slash] ++ c := by
    have last : o = o - 1 + 1 := by omega
    rw [last,row_snoc] at text
    rw [← ends]
    exact (List.append_inj' text rfl).1
  have back := unwind_spec short free
  have count : before.length + 1 = (before ++ [slash]).length := by rw [List.length_append,List.length_singleton]
  have front := (row_append short).1
  rw [← count,← back,← ends] at front
  refine ⟨long,front,?_⟩
  have whole := congrArg List.length short
  rw [length_row,List.length_append,← count] at whole
  omega

theorem row_dot (buf : Nat → Byte) (a n : Nat) : row buf a n = [dot] ↔ n = 1 ∧ buf a = dot := by
  constructor
  · intro same
    obtain rfl : n = 1 := by rw [← length_row buf a n,same,List.length_singleton]
    exact ⟨rfl,List.singleton_inj.mp same⟩
  · rintro ⟨rfl,same⟩
    rw [row_succ,same]
    rfl

theorem row_dots (buf : Nat → Byte) (a n : Nat) :
    row buf a n = [dot,dot] ↔ n = 2 ∧ buf a = dot ∧ buf (a + 1) = dot := by
  constructor
  · intro same
    obtain rfl : n = 2 := by rw [← length_row buf a n,same]; rfl
    obtain ⟨first,rest⟩ := List.cons_eq_cons.mp same
    exact ⟨rfl,first,List.singleton_inj.mp rest⟩
  · rintro ⟨rfl,first,second⟩
    rw [row_succ,row_succ,first,second]
    rfl

theorem component_eq (inLen : Nat) (s : Cursors) (j : Nat) :
    component inLen s j =
      if row s.buf s.i (j - s.i) = [] ∨ row s.buf s.i (j - s.i) = [dot] then s
      else if row s.buf s.i (j - s.i) = [dot,dot] then
        if 1 < s.o then { s with o := unwind s.buf (s.o - 1) } else s
      else (copy s.i (j - s.i) s).put slash (min (j + 1) inLen) := by
  have nothing : row s.buf s.i (j - s.i) = [] ↔ j - s.i = 0 := by
    rw [← List.length_eq_zero_iff,length_row]
  unfold component
  dsimp only
  by_cases empty : j - s.i = 0
  · rw [if_pos empty,if_pos (.inl (nothing.mpr empty))]
  · rw [if_neg empty]
    by_cases one : j - s.i = 1 ∧ s.buf s.i = dot
    · rw [if_pos one,if_pos (.inr ((row_dot ..).mpr one))]
    · rw [if_neg one,if_neg (not_or.mpr ⟨fun is => empty (nothing.mp is),fun is => one ((row_dot ..).mp is)⟩)]
      by_cases two : j - s.i = 2 ∧ s.buf s.i = dot ∧ s.buf (s.i + 1) = dot
      · rw [if_pos two,if_pos ((row_dots ..).mpr two)]
      · rw [if_neg two,if_neg fun is => two ((row_dots ..).mp is)]

/-- Behind the first `i` bytes of an input `p`: what has been kept of it stands in front, and the rest
is as it was. -/
structure Midway (p : Nat → Byte) (inLen : Nat) (s : Cursors) (ks : List (List Byte)) : Prop where
  text : row s.buf 0 s.o = slashed slash ks
  free : ∀ c ∈ ks, slash ∉ c
  ahead : ∀ x, s.i ≤ x → x ≠ inLen → s.buf x = p x
  within : s.i ≤ inLen
  behind : s.o ≤ s.i ∨ s.i = inLen ∧ s.o ≤ inLen + 1
  stores : ∀ w ∈ s.stores, w.Lawful inLen
  rest : ((row p s.i (inLen - s.i)).splitOn slash).foldl (push dot) ks = kept dot ((row p 0 inLen).splitOn slash)

variable {ks : List (List Byte)} {j : Nat}

theorem component_spec (text : row s.buf 0 s.o = slashed slash ks) (free : ∀ c ∈ ks, slash ∉ c) (behind : s.o ≤ s.i)
    (forth : s.i ≤ j) (within : j ≤ inLen) :
    let t := component inLen s j
    row t.buf 0 t.o = slashed slash (push dot ks (row s.buf s.i (j - s.i))) ∧ t.o ≤ j + 1 ∧
      (∀ x, j ≤ x → t.buf x = s.buf x ∨ x = j ∧ t.buf x = slash) ∧
      ((∀ w ∈ s.stores, w.Lawful inLen) → ∀ w ∈ t.stores, w.Lawful inLen) := by
  intro t
  show row t.buf 0 t.o = _ ∧ _
  have turned : t = _ := component_eq inLen s j
  rw [push]
  by_cases dropped : row s.buf s.i (j - s.i) = [] ∨ row s.buf s.i (j - s.i) = [dot]
  · rw [if_pos dropped] at turned ⊢
    rw [turned]
    exact ⟨text,by omega,fun _ _ => .inl rfl,id⟩
  · rw [if_neg dropped] at turned ⊢
    by_cases popped : row s.buf s.i (j - s.i) = [dot,dot]
    · rw [if_pos popped] at turned ⊢
      rcases List.eq_nil_or_concat' ks with rfl | ⟨ks,c,rfl⟩
      · have one : s.o = 1 := by
          rw [← length_row s.buf 0 s.o,text]
          rfl
        rw [turned,if_neg (by omega)]
        exact ⟨text,by omega,fun _ _ => .inl rfl,id⟩
      · obtain ⟨long,kept,back⟩ := unwind_slashed text (free c (List.mem_append_right ks List.mem_cons_self))
        rw [if_pos long] at turned
        rw [turned,List.dropLast_concat]
        exact ⟨kept,by dsimp only; omega,fun _ _ => .inl rfl,id⟩
    · obtain ⟨at_o,-,cells,stores⟩ := copy_spec behind (j - s.i)
      rw [if_neg popped] at turned ⊢
      rw [turned,Cursors.put,Components.slashed_snoc]
      dsimp only
      rw [at_o]
      refine ⟨?_,by omega,fun x far => ?_,fun lawful w member => ?_⟩
      · rw [row_snoc,Nat.zero_add,Function.update_self,← List.append_assoc,← text,← copy_text behind]
        congr 1
        refine row_congr fun x _ front => ?_
        rw [Function.update_of_ne (by omega)]
      · rcases eq_or_ne x (s.o + (j - s.i)) with rfl | other
        · exact .inr ⟨by omega,Function.update_self ..⟩
        · rw [Function.update_of_ne other,cells,if_neg (by omega)]
          exact .inl rfl
      · rw [stores] at member
        rcases List.mem_append.mp member with before | last
        · rcases List.mem_append.mp before with old | new
          · exact lawful w old
          · obtain ⟨k,inside,rfl⟩ := List.mem_map.mp new
            have small := List.mem_range.mp inside
            exact ⟨by dsimp only; omega,.inl (by dsimp only; omega)⟩
        · obtain rfl := List.mem_singleton.mp last
          exact ⟨by dsimp only; omega,by dsimp only; omega⟩

theorem free_push (free : ∀ c ∈ ks, slash ∉ c) (last : slash ∉ d) : ∀ c ∈ push dot ks d, slash ∉ c := by
  intro c member
  rcases Components.mem_push member with old | ⟨rfl,-⟩
  · exact free c old
  · exact last

/-- A turn takes one component of the input to the stack. -/
theorem Midway.turn (mid : Midway p inLen s ks) (more : s.i < inLen) :
    s.i < (turn inLen s).i ∧ ∃ ks', Midway p inLen (turn inLen s) ks' := by
  have behind : s.o ≤ s.i := by
    rcases mid.behind with behind | ⟨ended,-⟩
    · exact behind
    · omega
  obtain ⟨forth,within,free,stop⟩ := scan_spec s.buf (inLen - s.i) s.i
  unfold Libc.turn
  dsimp only
  generalize scan s.buf (inLen - s.i) s.i = j at forth within free stop
  have reach : j ≤ inLen := by omega
  obtain ⟨text,room,cells,stores⟩ := component_spec mid.text mid.free behind forth reach
  have same : row s.buf s.i (j - s.i) = row p s.i (j - s.i) :=
    row_congr fun x low high => mid.ahead x low (by omega)
  have split : row p s.i (inLen - s.i) = row p s.i (j - s.i) ++ row p j (inLen - j) := by
    have sum : inLen - s.i = j - s.i + (inLen - j) := by omega
    rw [sum,row_add,Nat.add_sub_cancel' forth]
  have rest := mid.rest
  have all := free_push mid.free free
  rw [same] at text free all
  rw [split] at rest
  have later : ∀ x, j ≤ x → x ≠ inLen → (component inLen s j).buf x = p x := by
    intro x far other
    rcases cells x far with kept | ⟨rfl,hidden⟩
    · rw [kept,mid.ahead x (by omega) other]
    · rw [hidden,← mid.ahead x (by omega) other,stop (by omega)]
  rcases Nat.lt_or_eq_of_le reach with inside | rfl
  · have separator : p j = slash := by rw [← mid.ahead j forth (by omega),stop (by omega)]
    have here : (component inLen s j).buf j = slash := (later j (Nat.le_refl j) (by omega)).trans separator
    have tail : row p j (inLen - j) = slash :: row p (j + 1) (inLen - (j + 1)) := by
      have one : inLen - j = inLen - (j + 1) + 1 := by omega
      rw [one,row_succ,separator]
    rw [if_pos ⟨inside,here⟩]
    rw [tail,List.splitOn_append_cons_self_of_not_mem free,List.foldl_cons] at rest
    refine ⟨Nat.lt_succ_of_le forth,_,text,all,fun x far other => later x (Nat.le_of_succ_le far) other,inside,
      .inl room,stores mid.stores,rest⟩
  · rw [if_neg fun both => absurd both.1 (Nat.lt_irrefl j)]
    rw [Nat.sub_self] at rest
    have nothing : row p j 0 = [] := rfl
    rw [nothing,List.append_nil,List.splitOn_eq_singleton free] at rest
    refine ⟨more,_,text,all,fun x far other => later x far other,Nat.le_refl j,.inr ⟨rfl,room⟩,stores mid.stores,?_⟩
    dsimp only
    rw [Nat.sub_self,nothing,List.splitOn_nil,List.foldl_cons,Components.push_nil]
    exact rest

theorem Midway.walk (mid : Midway p inLen s ks) (rounds : Nat) (enough : inLen - s.i < rounds) :
    ∃ t ks', walk inLen rounds s = some t ∧ Midway p inLen t ks' ∧ t.i = inLen := by
  induction rounds generalizing s ks with
  | zero => exact absurd enough (Nat.not_lt_zero _)
  | succ rounds ih =>
    rw [Libc.walk]
    split
    · rename_i more
      obtain ⟨onward,ks',next⟩ := mid.turn more
      exact ih next (by omega)
    · exact ⟨s,ks,rfl,mid,Nat.le_antisymm mid.within (by omega)⟩

theorem row_nul (buf : Nat → Byte) (n : Nat) : row (Function.update buf n 0) 0 n = row buf 0 n :=
  row_congr fun x _ front => Function.update_of_ne (by omega) ..

theorem finish_spec (text : row s.buf 0 s.o = slashed slash ks) (inLen : Nat) :
    let out := finish inLen s
    row out.buf 0 out.outLen = slash :: [slash].intercalate ks ∧ out.outLen = (if ks = [] then s.o else s.o - 1) ∧
      out.buf = Function.update s.buf out.outLen 0 ∧ out.stores = s.stores ++ [⟨out.outLen,inLen⟩] := by
  intro out
  have size := congrArg List.length text
  rw [length_row] at size
  by_cases nothing : ks = []
  · subst nothing
    have one : s.o = 1 := size
    have same : (if 1 < s.o ∧ s.buf (s.o - 1) = slash then s.o - 1 else s.o) = s.o := if_neg (by omega)
    have ends : out = ⟨Function.update s.buf s.o 0,s.o,s.stores ++ [⟨s.o,inLen⟩]⟩ := by
      show finish inLen s = _
      rw [finish,same]
    rw [ends,if_pos rfl]
    exact ⟨(row_nul ..).trans text,rfl,rfl,rfl⟩
  · have long : 1 < s.o := size ▸ Components.one_lt_length_slashed.mpr nothing
    rw [Components.slashed_eq nothing] at text
    have last : s.o = s.o - 1 + 1 := by omega
    rw [last,row_snoc,Nat.zero_add] at text
    obtain ⟨front,back⟩ := List.append_inj' text rfl
    have same : (if 1 < s.o ∧ s.buf (s.o - 1) = slash then s.o - 1 else s.o) = s.o - 1 :=
      if_pos ⟨long,List.singleton_inj.mp back⟩
    have ends : out = ⟨Function.update s.buf (s.o - 1) 0,s.o - 1,s.stores ++ [⟨s.o - 1,inLen⟩]⟩ := by
      show finish inLen s = _
      rw [finish,same]
    rw [ends,if_neg nothing]
    exact ⟨(row_nul ..).trans front,rfl,rfl,rfl⟩

structure Canonical.Right (p : Nat → Byte) (inLen : Nat) (out : Canonical) : Prop where
  text : row out.buf 0 out.outLen = canon slash dot (row p 0 inLen)
  nul : out.buf out.outLen = 0
  short : out.outLen ≤ inLen
  stores : ∀ w ∈ out.stores, w.Lawful inLen
  beyond : ∀ x, inLen < x → out.buf x = p x

theorem Midway.finish (mid : Midway p inLen s ks) (ended : s.i = inLen) (positive : 0 < inLen) :
    (finish inLen s).Right p inLen := by
  obtain ⟨text,size,buf,stores⟩ := finish_spec mid.text inLen
  have all := mid.rest
  have nothing : row p inLen 0 = [] := rfl
  rw [ended,Nat.sub_self,nothing,List.splitOn_nil,List.foldl_cons,Components.push_nil,List.foldl_nil] at all
  have count := congrArg List.length mid.text
  rw [length_row] at count
  have short : (Libc.finish inLen s).outLen ≤ inLen := by
    rw [size]
    split
    · rename_i root
      subst root
      exact count ▸ positive
    · rcases mid.behind with behind | ⟨-,room⟩
      · omega
      · omega
  refine ⟨by rw [text,all]; rfl,by rw [buf,Function.update_self],short,fun w member => ?_,fun x far => ?_⟩
  · rw [stores] at member
    rcases List.mem_append.mp member with old | last
    · exact mid.stores w old
    · obtain rfl := List.mem_singleton.mp last
      exact ⟨short,.inr rfl⟩
  · rw [buf,Function.update_of_ne (by omega)]
    exact mid.ahead x (by omega) (by omega)

theorem midway_start (positive : 0 < inLen) (absolute : p 0 = slash) :
    Midway p inLen { Cursors.put ⟨p,0,0,[]⟩ slash 1 with i := 1 } [] := by
  have first : row p 0 inLen = [] ++ slash :: row p 1 (inLen - 1) := by
    obtain ⟨n,rfl⟩ : ∃ n, inLen = n + 1 := ⟨inLen - 1,by omega⟩
    rw [row_succ,absolute]
    rfl
  refine ⟨?_,fun c nothing => absurd nothing List.not_mem_nil,
    fun x far _ => Function.update_of_ne (by dsimp only at far ⊢; omega) ..,positive,
    .inl (Nat.le_refl 1),fun w member => ?_,?_⟩
  · rfl
  · obtain rfl := List.mem_singleton.mp member
    exact ⟨Nat.zero_le _,.inl Nat.zero_lt_one⟩
  · rw [first,List.splitOn_append_cons_self_of_not_mem List.not_mem_nil]
    rfl

theorem canonInplace_right (positive : 0 < inLen) (absolute : p 0 = slash) :
    ∃ out, canonInplace (inLen + 1) p inLen = some (some out) ∧ out.Right p inLen := by
  obtain ⟨t,ks,walked,mid,ended⟩ := (midway_start positive absolute).walk (inLen + 1) (by dsimp only; omega)
  refine ⟨finish inLen t,?_,mid.finish ended positive⟩
  have fine : ¬(inLen = 0 ∨ p 0 ≠ slash) := by
    rintro (nothing | other)
    · omega
    · exact other absolute
  unfold canonInplace
  rw [if_neg fine]
  dsimp only [Cursors.put] at walked ⊢
  rw [walked]
  rfl

/-- The canonical path in place of an absolute one: no write hides a byte that has yet to be read or goes behind the
terminator, and a second pass changes nothing. -/
theorem canon_in_place (p : Nat → Byte) (inLen : Nat) (positive : 0 < inLen) (absolute : p 0 = slash) :
    ∃ rounds out, canonInplace rounds p inLen = some (some out) ∧
      row out.buf 0 out.outLen = canon slash dot (row p 0 inLen) ∧ out.buf out.outLen = 0 ∧ out.outLen ≤ inLen ∧
      (∀ w ∈ out.stores, w.cell ≤ inLen ∧ (w.cell < w.next ∨ w.next = inLen)) ∧ (∀ x, inLen < x → out.buf x = p x) ∧
      ∃ rounds again, canonInplace rounds out.buf out.outLen = some (some again) ∧
        row again.buf 0 again.outLen = row out.buf 0 out.outLen := by
  obtain ⟨out,first,right⟩ := canonInplace_right positive absolute
  have size := congrArg List.length right.text
  rw [length_row,canon,List.length_cons] at size
  have long : 0 < out.outLen := by omega
  have root : out.buf 0 = slash := by
    obtain ⟨n,same⟩ : ∃ n, out.outLen = n + 1 := ⟨out.outLen - 1,by omega⟩
    have text := right.text
    rw [same,row_succ,canon] at text
    exact (List.cons_eq_cons.mp text).1
  obtain ⟨again,second,twice⟩ := canonInplace_right long root
  refine ⟨_,out,first,right.text,right.nul,right.short,right.stores,right.beyond,_,again,second,?_⟩
  rw [twice.text,right.text,Components.canon_canon]

/-- `/a/../b/.`. -/
def dotted (x : Nat) : Byte := [0x2f,0x61,0x2f,0x2e,0x2e,0x2f,0x62,0x2f,0x2e].getD x 0

theorem canon_in_place_dotted :
    ∃ rounds out, canonInplace rounds dotted 9 = Option.some (Option.some out) ∧
      row out.buf 0 out.outLen = canon slash dot (row dotted 0 9) ∧ out.buf out.outLen = 0 ∧ out.outLen ≤ 9 ∧
      (∀ w ∈ out.stores, w.cell ≤ 9 ∧ (w.cell < w.next ∨ w.next = 9)) ∧ (∀ x, 9 < x → out.buf x = dotted x) ∧
      ∃ rounds again, canonInplace rounds out.buf out.outLen = Option.some (Option.some again) ∧
        row again.buf 0 again.outLen = row out.buf 0 out.outLen :=
  canon_in_place dotted 9 (by decide) rfl

example : canon slash dot (row dotted 0 9) = [0x2f,0x62] := by decide +kernel

end Qsoe.Libc
