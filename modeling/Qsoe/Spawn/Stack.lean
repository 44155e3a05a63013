import Mathlib.Data.List.Forall2
import Qsoe.Lib.Align
import Qsoe.Lib.Words
import Qsoe.Spawn.Args

/-! The initial stack of a program: strings, auxiliary vector, environment and arguments are laid
out in the top page of the stack while taskman has it mapped, and the child reads them at its
own addresses. -/
namespace Qsoe.Spawn

open Qsoe.Path (Byte)
open Delimited (pack unpack)
open Words (bytesOf wordsOf push)

/-- The bytes of the frames. While a frame is mapped in taskman's scratch window they are addressed
from the window's start; what lies behind the frame's end is not the frame's. -/
abbrev Frames := Nat → Word → Byte

/-- What a frame holds. -/
def Frames.page (m : Frames) (frame : Nat) : List Byte := Memory.load m frame 0 pageBytes

/-- `qmemset` of the whole window. -/
def Frames.clear (m : Frames) (frame : Nat) : Frames := Memory.store m frame 0 (List.replicate pageBytes 0)

/-- A NUL-terminated string somewhere in taskman's part of an Sv39 address space. -/
structure CString where
  bytes : List Byte
  free : (0 : Byte) ∉ bytes
  short : bytes.length < 2 ^ 38

/-- `struct aux_pair`. -/
structure AuxPair where
  type : Word
  val : Word
  deriving DecidableEq, Repr

/-- `CHILD_STACK_TOP` and `AT_NULL_`. -/
def childStackTop : Word := 0x1FB000
def atNull : Word := 0

def childPage : Word := childStackTop - BitVec.ofNat 64 pageBytes

/-- `qstrlen(s) + 1`. -/
def CString.size (s : CString) : Word := BitVec.ofNat 64 s.bytes.length + 1

def strsBytes (ss : List CString) : Word := ss.foldl (fun sum s => sum + s.size) 0

def belowBytes (argc envc auxc : Nat) : Word :=
  8 + 8 * BitVec.ofNat 64 (argc + 1) + 8 * BitVec.ofNat 64 (envc + 1) + 16 * BitVec.ofNat 64 (auxc + 1)

def totalAligned (total : Word) : Word := (total + 15) &&& ~~~15

/-- The page, `cur` and `cur_child`. -/
structure Cursor where
  mem : Frames
  cur : Word
  child : Word

def Cursor.put (frame : Nat) (c : Cursor) (s : CString) : Cursor where
  mem := Memory.store c.mem frame c.cur (s.bytes ++ [0])
  cur := c.cur + s.size
  child := c.child + s.size

def Cursor.copy (frame : Nat) : Cursor → List CString → Cursor × List Word
  | c, [] => (c,[])
  | c, s :: rest =>
    ((Cursor.copy frame (c.put frame s) rest).1,c.child :: (Cursor.copy frame (c.put frame s) rest).2)

/-- The words below the strings, from `*--p = 0` for the terminator's value down to `argc`. -/
def pushVectors (frame : Nat) (argv envp : List Word) (auxv : List AuxPair) (s : Frames × Word) : Frames × Word :=
  let s := push frame (push frame s 0) atNull
  let s := auxv.reverse.foldl (fun s e => push frame (push frame s e.val) e.type) s
  let s := push frame s 0
  let s := envp.reverse.foldl (push frame) s
  let s := push frame s 0
  let s := argv.reverse.foldl (push frame) s
  push frame s (BitVec.ofNat 64 argv.length)

/-- `build_initial_stack`. `maps` and `unmaps` say whether `scratch_map` and `scratch_unmap` succeed;
`none` is a write behind `child_argv` or `child_envp`. -/
def buildInitialStack (maps unmaps : Bool) (m : Frames) (frame : Nat) (argv envp : List CString)
    (auxv : List AuxPair) :
    Option (Frames × Word) :=
  let below := belowBytes argv.length envp.length auxv.length
  let total := totalAligned (strsBytes (argv ++ envp) + below)
  let strs := total - below
  if BitVec.ofNat 64 pageBytes < total then some (m,0)
  else if maps = false then some (m,0)
  else if maxStrings < argv.length ∨ maxStrings < envp.length then none
  else
    let args := Cursor.copy frame ⟨m.clear frame,BitVec.ofNat 64 pageBytes - strs,childStackTop - strs⟩ argv
    let env := Cursor.copy frame args.1 envp
    let built := pushVectors frame args.2 env.2 auxv (env.1.mem,BitVec.ofNat 64 pageBytes - strs)
    some (built.1,if unmaps then childStackTop - total else 0)

structure StackImage where
  argc : Nat
  argv : List (List Byte)
  envp : List (List Byte)
  auxv : List AuxPair
  deriving DecidableEq, Repr

def wordsAt (page : List Byte) (a : Word) : List Word := wordsOf (page.drop (a - childPage).toNat)

def pointee (page : List Byte) (a : Word) : List Byte := stringAt page (a - childPage).toNat

/-- The auxiliary vector up to `AT_NULL`. -/
def readAuxv : List Word → Option (List AuxPair)
  | type :: val :: rest => if type = atNull then some [] else (readAuxv rest).map (⟨type,val⟩ :: ·)
  | _ => none

/-- A reader of the initial stack by the System V ABI: `argc`, that many pointers and a null, pointers
up to a null, and the auxiliary vector. -/
def readStack (page : List Byte) (sp : Word) : Option StackImage :=
  match wordsAt page sp with
  | [] => none
  | argc :: words =>
    match unpack 0 2 words with
    | some ([args,env],aux) =>
      if args.length = argc.toNat
      then (readAuxv aux).map fun auxv => ⟨args.length,args.map (pointee page),env.map (pointee page),auxv⟩
      else none
    | _ => none

variable {m : Frames} {frame off : Nat} {a child : Word} {ss : List CString} {bs : List Byte}
    {page rest : List Byte}

/-- `argc`, `argv` and a null, `envp` and a null, the auxiliary vector and `AT_NULL`. -/
def vectorWords (args env : List Word) (auxv : List AuxPair) : List Word :=
  BitVec.ofNat 64 args.length :: (pack 0 [args,env] ++ auxv.flatMap (fun e => [e.type,e.val]) ++ [atNull,0])

def pointers (child : Word) : List CString → List Word
  | [] => []
  | s :: rest => child :: pointers (child + s.size) rest

def stringBytes (ss : List CString) : Nat := packedSize (ss.map CString.bytes)

/-- What the image needs of the page. -/
def imageBytes (argv envp : List CString) (auxv : List AuxPair) : Nat :=
  stringBytes (argv ++ envp) + 8 * (5 + argv.length + envp.length + 2 * auxv.length)

theorem CString.size_toNat (s : CString) : s.size.toNat = s.bytes.length + 1 := by
  have short := s.short
  have one : (1 : Word).toNat = 1 := rfl
  rw [size,BitVec.toNat_add,BitVec.toNat_ofNat,one]
  omega

@[simp] theorem stringBytes_cons (s : CString) (ss : List CString) :
    stringBytes (s :: ss) = s.bytes.length + 1 + stringBytes ss :=
  packedSize_cons ..

theorem length_strings (ss : List CString) : (pack (0 : Byte) (ss.map CString.bytes)).length = stringBytes ss :=
    length_pack _

theorem stringBytes_append (ss ts : List CString) : stringBytes (ss ++ ts) = stringBytes ss + stringBytes ts := by
  induction ss with
  | nil => simp [stringBytes]
  | cons s ss ih =>
    rw [List.cons_append,stringBytes_cons,stringBytes_cons,ih]
    omega

theorem stringBytes_le (ss : List CString) : stringBytes ss ≤ ss.length * 2 ^ 38 := by
  induction ss with
  | nil => exact Nat.zero_le _
  | cons s ss ih =>
    have short := s.short
    rw [stringBytes_cons,List.length_cons]
    omega

theorem foldl_size (ss : List CString) (sum : Word) (fits : sum.toNat + stringBytes ss < 2 ^ 64) :
    (ss.foldl (fun sum s => sum + s.size) sum).toNat = sum.toNat + stringBytes ss := by
  induction ss generalizing sum with
  | nil => rfl
  | cons s ss ih =>
    rw [stringBytes_cons] at fits
    have next : (sum + s.size).toNat = sum.toNat + (s.bytes.length + 1) := by
      rw [BitVec.toNat_add,s.size_toNat,Nat.mod_eq_of_lt (by omega)]
    rw [List.foldl_cons,ih _ (by omega),next,stringBytes_cons]
    omega

theorem length_vectorWords (args env : List Word) (auxv : List AuxPair) :
    (vectorWords args env auxv).length = 5 + args.length + env.length + 2 * auxv.length := by
  have pairs : (auxv.flatMap fun e => [e.type,e.val]).length = 2 * auxv.length := by
    induction auxv with
    | nil => rfl
    | cons e auxv ih =>
      rw [List.flatMap_cons,List.length_append,ih,List.length_cons,List.length_cons,List.length_cons,
        List.length_nil]
      omega
  simp only [vectorWords,Delimited.pack_cons,Delimited.pack_nil,List.length_cons,List.length_append,
    List.length_nil,pairs]
  omega

theorem pushVectors_eq (args env : List Word) (auxv : List AuxPair) (s : Frames × Word) :
    pushVectors frame args env auxv s = (vectorWords args env auxv).reverse.foldl (push frame) s := by
  have pairs : ∀ s : Frames × Word, auxv.reverse.foldl (fun s e => push frame (push frame s e.val) e.type) s =
      (auxv.flatMap fun e => [e.type,e.val]).reverse.foldl (push frame) s := by
    induction auxv with
    | nil => exact fun _ => rfl
    | cons e auxv ih =>
      intro s
      rw [List.reverse_cons,List.foldl_append,ih,List.flatMap_cons,List.reverse_append,List.foldl_append]
      rfl
  rw [pushVectors,pairs]
  simp [vectorWords,List.foldl_append]

theorem length_pointers (child : Word) (ss : List CString) : (pointers child ss).length = ss.length := by
  induction ss generalizing child with
  | nil => rfl
  | cons s ss ih => rw [pointers,List.length_cons,ih,List.length_cons]

theorem copy_eq (frame : Nat) (child : Word) (bs : List Byte) (ss : List CString)
    (fits : bs.length + stringBytes ss ≤ 2 ^ 64) :
    Cursor.copy frame ⟨Memory.store m frame a bs,a + BitVec.ofNat 64 bs.length,child⟩ ss =
      (⟨Memory.store m frame a (bs ++ pack 0 (ss.map CString.bytes)),
        a + BitVec.ofNat 64 (bs.length + stringBytes ss),
        child + BitVec.ofNat 64 (stringBytes ss)⟩,pointers child ss) := by
  induction ss generalizing bs child with
  | nil => simp [Cursor.copy,pointers,stringBytes]
  | cons s ss ih =>
    rw [stringBytes_cons] at fits
    have size : s.size = BitVec.ofNat 64 (s.bytes.length + 1) := (BitVec.ofNat_add ..).symm
    have long : (bs ++ (s.bytes ++ [0])).length = bs.length + (s.bytes.length + 1) := by simp
    have put : Cursor.put frame ⟨Memory.store m frame a bs,a + BitVec.ofNat 64 bs.length,child⟩ s =
        ⟨Memory.store m frame a (bs ++ (s.bytes ++ [0])),a + BitVec.ofNat 64 (bs ++ (s.bytes ++ [0])).length,
          child + s.size⟩ := by
      have behind : a + BitVec.ofNat 64 bs.length + s.size =
        a + BitVec.ofNat 64 (bs ++ (s.bytes ++ [0])).length := by
        rw [long,size,BitVec.ofNat_add bs.length,BitVec.add_assoc]
      rw [Memory.store_append _ _ _ _ _ (by rw [← List.length_append,long]; omega),← behind]
      rfl
    rw [Cursor.copy,put,ih _ _ (by rw [long]; omega),long]
    simp only [List.map_cons,Delimited.pack_cons,List.append_assoc,pointers,stringBytes_cons,size,BitVec.add_assoc,
      ← BitVec.ofNat_add,Nat.add_assoc,List.cons_append,List.nil_append]

theorem copy_both (frame : Nat) (child : Word) (argv envp : List CString)
    (fits : stringBytes argv + stringBytes envp ≤ 2 ^ 64) :
    (Cursor.copy frame ⟨m,a,child⟩ argv).2 = pointers child argv ∧
    (Cursor.copy frame (Cursor.copy frame ⟨m,a,child⟩ argv).1 envp).2 =
      pointers (child + BitVec.ofNat 64 (stringBytes argv)) envp ∧
    (Cursor.copy frame (Cursor.copy frame ⟨m,a,child⟩ argv).1 envp).1.mem =
      Memory.store m frame a (pack 0 ((argv ++ envp).map CString.bytes)) := by
  have first := copy_eq (m := m) (a := a) frame child [] argv
    (by rw [List.length_nil]; omega)
  rw [List.length_nil,BitVec.add_zero,Memory.store_nil,List.nil_append,Nat.zero_add] at first
  have second := copy_eq (m := m) (a := a) frame (child + BitVec.ofNat 64 (stringBytes argv))
    (pack 0 (argv.map CString.bytes)) envp (by rw [length_strings]; exact fits)
  rw [length_strings] at second
  rw [first]
  dsimp only
  rw [second,List.map_append,Delimited.pack_append]
  exact ⟨rfl,rfl,rfl⟩

/-- The pointer shows the string, which stands behind `low` and ends in the stack. -/
def Points (page : List Byte) (low : Nat) (a : Word) (s : CString) : Prop :=
  pointee page a = s.bytes ∧ low ≤ a.toNat ∧ a.toNat + s.bytes.length + 1 ≤ childStackTop.toNat

/-- A program that starts at `sp` finds these arguments, this environment and this auxiliary vector,
with the strings behind the words. -/
structure Decodes (page : List Byte) (sp : Word) (argv envp : List CString) (auxv : List AuxPair) : Prop where
  aligned : sp.toNat % 16 = 0
  inside : childPage.toNat ≤ sp.toNat ∧ sp.toNat < childStackTop.toNat
  laid : ∃ args env rest, wordsAt page sp = vectorWords args env auxv ++ rest ∧
    List.Forall₂ (Points page (sp.toNat + 8 * (vectorWords args env auxv).length)) args argv ∧
    List.Forall₂ (Points page (sp.toNat + 8 * (vectorWords args env auxv).length)) env envp
  read : readStack page sp = some ⟨argv.length,argv.map CString.bytes,envp.map CString.bytes,auxv.takeWhile
    (·.type ≠ atNull)⟩

theorem childPage_toNat : childPage.toNat = 0x1FA000 := rfl

theorem childStackTop_toNat : childStackTop.toNat = 0x1FB000 := rfl

theorem page_store (frame off : Nat) (bs : List Byte) (fits : off + bs.length ≤ pageBytes) :
    ∃ rest, (Frames.page (Memory.store m frame (BitVec.ofNat 64 off) bs) frame).drop off = bs ++ rest := by
  have split := Memory.load_append (Memory.store m frame (BitVec.ofNat 64 off) bs) frame 0 off (pageBytes - off)
  rw [Nat.add_sub_cancel' (by omega)] at split
  have start : (0 : Word) + BitVec.ofNat 64 off = BitVec.ofNat 64 off := BitVec.zero_add _
  have size := pageBytes_eq
  refine ⟨(Memory.load m frame (BitVec.ofNat 64 off) (pageBytes - off)).drop bs.length,?_⟩
  rw [Frames.page,split,List.drop_left' (Memory.length_load ..),start,
    Memory.load_store_drop _ _ _ (by omega) (by omega)]

theorem points_pointers (start : child.toNat = childPage.toNat + off) (fits : off + stringBytes ss ≤ pageBytes)
    (low : n ≤ child.toNat) (there : page.drop off = pack 0 (ss.map CString.bytes) ++ rest) :
    List.Forall₂ (Points page n) (pointers child ss) ss := by
  have bottom := childPage_toNat
  have top := childStackTop_toNat
  have size := pageBytes_eq
  induction ss generalizing child off with
  | nil => exact .nil
  | cons s ss ih =>
    rw [stringBytes_cons] at fits
    rw [List.map_cons,Delimited.pack_cons,List.append_assoc,List.cons_append] at there
    have distance : (child - childPage).toNat = off := by
      rw [BitVec.toNat_sub_of_le (by rw [BitVec.le_def]; omega)]
      omega
    have found : pointee page child = s.bytes := by
      rw [pointee,distance,stringAt,there,Delimited.field_append s.free]
    have next : (child + s.size).toNat = childPage.toNat + (off + (s.bytes.length + 1)) := by
      rw [BitVec.toNat_add,s.size_toNat,Nat.mod_eq_of_lt (by omega)]
      omega
    have behind : page.drop (off + (s.bytes.length + 1)) = pack 0 (ss.map CString.bytes) ++ rest := by
      rw [← List.drop_drop,there,← List.drop_drop,List.drop_left]
      rfl
    exact .cons ⟨found,low,by omega⟩ (ih next (by omega) (by omega) behind)

theorem map_pointee {ptrs : List Word} (points : List.Forall₂ (Points page n) ptrs ss) :
    ptrs.map (pointee page) = ss.map CString.bytes := by
  induction points with
  | nil => rfl
  | cons first _ ih => rw [List.map_cons,List.map_cons,first.1,ih]

theorem points_nonzero {ptrs : List Word} (points : List.Forall₂ (Points page n) ptrs ss) (positive : 0 < n) :
    (0 : Word) ∉ ptrs := by
  induction points with
  | nil => exact List.not_mem_nil
  | cons first _ ih =>
    intro member
    rcases List.mem_cons.mp member with null | later
    · have low := first.2.1
      rw [← null] at low
      exact absurd low (Nat.not_le.mpr positive)
    · exact ih later

theorem readAuxv_entries (auxv : List AuxPair) (v : Word) (rest : List Word) :
    readAuxv (auxv.flatMap (fun e => [e.type,e.val]) ++ atNull :: v :: rest) =
      some (auxv.takeWhile (·.type ≠ atNull)) := by
  induction auxv with
  | nil => simp [readAuxv]
  | cons e auxv ih =>
    rw [List.flatMap_cons,List.append_assoc]
    simp only [List.cons_append,List.nil_append,readAuxv]
    by_cases last : e.type = atNull
    · rw [if_pos last,List.takeWhile_cons_of_neg (by simpa using last)]
    · rw [if_neg last,ih,List.takeWhile_cons_of_pos (by simpa using last)]
      rfl

theorem readStack_laid {args env words : List Word} {argv envp : List CString} {auxv : List AuxPair} {sp : Word}
    (laid : wordsAt page sp = vectorWords args env auxv ++ words)
    (argPoints : List.Forall₂ (Points page n) args argv) (envPoints : List.Forall₂ (Points page n) env envp)
    (positive : 0 < n) (few : argv.length ≤ maxStrings) :
    readStack page sp =
      some ⟨argv.length,argv.map CString.bytes,envp.map CString.bytes,auxv.takeWhile (·.type ≠ atNull)⟩ := by
  have count := argPoints.length_eq
  have argc : args.length = (BitVec.ofNat 64 args.length).toNat := by
    rw [BitVec.toNat_ofNat,Nat.mod_eq_of_lt (by rw [maxStrings] at few; omega)]
  have free : ∀ s ∈ [args,env], (0 : Word) ∉ s := by
    intro s member
    rcases List.mem_pair.mp member with rfl | rfl
    · exact points_nonzero argPoints positive
    · exact points_nonzero envPoints positive
  have unpacked := Delimited.unpack_pack free (auxv.flatMap (fun e => [e.type,e.val]) ++ [atNull,0] ++ words)
  rw [readStack,laid,vectorWords,List.cons_append]
  dsimp only
  rw [List.append_assoc,List.append_assoc,← List.append_assoc _ [atNull,0],show 2 =
    [args,env].length from rfl,unpacked]
  dsimp only
  rw [if_pos argc,List.append_assoc,List.cons_append,List.cons_append,List.nil_append,readAuxv_entries,
    Option.map_some,map_pointee argPoints,map_pointee envPoints,count]

variable {m' : Frames} {argv envp : List CString} {auxv : List AuxPair} {maps unmaps : Bool}

theorem strsBytes_toNat (few : ss.length ≤ 2 * maxStrings) : (strsBytes ss).toNat = stringBytes ss := by
  have bound := stringBytes_le ss
  have zero : (0 : Word).toNat = 0 := rfl
  rw [maxStrings] at few
  rw [strsBytes,foldl_size ss 0 (by omega),zero,Nat.zero_add]

theorem belowBytes_toNat {argc envc auxc : Nat} (args : argc ≤ maxStrings) (env : envc ≤ maxStrings)
    (aux : auxc ≤ 8) :
    (belowBytes argc envc auxc).toNat = 8 * (5 + argc + envc + 2 * auxc) := by
  have eight : (8 : Word).toNat = 8 := rfl
  have sixteen : (16 : Word).toNat = 16 := rfl
  rw [maxStrings] at args env
  simp only [belowBytes,BitVec.toNat_add,BitVec.toNat_mul,BitVec.toNat_ofNat,eight,sixteen]
  omega

theorem totalAligned_toNat {total : Word} (fits : total.toNat + 15 < 2 ^ 64) :
    (totalAligned total).toNat = (total.toNat + 15) / 2 ^ 4 * 2 ^ 4 := by
  have fifteen : (15 : Word).toNat = 15 := rfl
  rw [totalAligned,Align.toNat_and_not (total + 15) 15 (k := 4) rfl,BitVec.toNat_add,fifteen,Nat.mod_eq_of_lt fits]

/-- The parts of the layout as `build_initial_stack` computes them. -/
theorem layout_toNat (args : argv.length ≤ maxStrings) (env : envp.length ≤ maxStrings) (aux : auxv.length ≤ 8) :
    (totalAligned (strsBytes (argv ++ envp) + belowBytes argv.length envp.length auxv.length)).toNat =
      (imageBytes argv envp auxv + 15) / 2 ^ 4 * 2 ^ 4 := by
  have below := belowBytes_toNat args env aux
  have strs : (strsBytes (argv ++ envp)).toNat = stringBytes (argv ++ envp) :=
    strsBytes_toNat (by rw [List.length_append]; omega)
  have bound := stringBytes_le (argv ++ envp)
  rw [List.length_append] at bound
  rw [maxStrings] at args env
  have sum : (strsBytes (argv ++ envp) + belowBytes argv.length envp.length auxv.length).toNat =
    imageBytes argv envp auxv := by
    rw [BitVec.toNat_add,strs,below,imageBytes,Nat.mod_eq_of_lt (by omega)]
  rw [totalAligned_toNat (by rw [sum,imageBytes]; omega),sum]

theorem build_image (frame : Nat) (unmaps : Bool) (args : argv.length ≤ maxStrings)
    (env : envp.length ≤ maxStrings) (aux : auxv.length ≤ 8) (fits : imageBytes argv envp auxv ≤ pageBytes) :
    ∃ total strs : Word, total.toNat = (imageBytes argv envp auxv + 15) / 2 ^ 4 * 2 ^ 4 ∧
      strs.toNat + 8 * (5 + argv.length + envp.length + 2 * auxv.length) = total.toNat ∧
      buildInitialStack true unmaps m frame argv envp auxv =
        some (Memory.store (m.clear frame) frame (BitVec.ofNat 64 (pageBytes - total.toNat))
          ((vectorWords (pointers (childStackTop - strs) argv)
            (pointers (childStackTop - strs + BitVec.ofNat 64 (stringBytes argv)) envp) auxv).flatMap bytesOf ++
            pack 0 ((argv ++ envp).map CString.bytes)),if unmaps then childStackTop - total else 0) := by
  have whole := layout_toNat args env aux
  have below := belowBytes_toNat args env aux
  have size := pageBytes_eq
  have strings := stringBytes_append argv envp
  generalize total_eq :
    totalAligned (strsBytes (argv ++ envp) + belowBytes argv.length envp.length auxv.length) = total at whole
  generalize below_eq : belowBytes argv.length envp.length auxv.length = below' at below
  rw [imageBytes] at fits
  have split : (total - below').toNat + 8 * (5 + argv.length + envp.length + 2 * auxv.length) = total.toNat := by
    rw [BitVec.toNat_sub_of_le (by rw [BitVec.le_def,whole,below,imageBytes]; omega),below]
    rw [whole,imageBytes]
    omega
  refine ⟨total,total - below',whole,split,?_⟩
  rw [imageBytes] at whole
  have room : ¬BitVec.ofNat 64 pageBytes < total := by
    rw [BitVec.lt_def,whole,size]
    simp only [BitVec.toNat_ofNat]
    omega
  have blank : ∀ a, m.clear frame = Memory.store (m.clear frame) frame a [] := fun a => (Memory.store_nil ..).symm
  rw [buildInitialStack]
  dsimp only
  rw [total_eq,below_eq,if_neg room,if_neg (by decide : ¬true = false),if_neg (by omega)]
  obtain ⟨argPtrs,envPtrs,mem⟩ := copy_both (m := m.clear frame) (a := BitVec.ofNat 64 pageBytes - (total - below'))
    frame (childStackTop - (total - below')) argv envp (by omega)
  have words := length_vectorWords (pointers (childStackTop - (total - below')) argv)
    (pointers (childStackTop - (total - below') + BitVec.ofNat 64 (stringBytes argv)) envp) auxv
  rw [length_pointers,length_pointers] at words
  have front : BitVec.ofNat 64 pageBytes - (total - below') -
      BitVec.ofNat 64 (8 * (5 + argv.length + envp.length + 2 * auxv.length)) =
        BitVec.ofNat 64 (pageBytes - total.toNat) := by
    have rest : total - below' + BitVec.ofNat 64 (8 * (5 + argv.length + envp.length + 2 * auxv.length)) =
      total := by
      rw [← below,BitVec.ofNat_toNat,BitVec.setWidth_eq,BitVec.sub_add_cancel]
    have small : (BitVec.ofNat 64 pageBytes - total).toNat = pageBytes - total.toNat := by
      rw [BitVec.toNat_sub_of_le (BitVec.not_lt.mp room),BitVec.toNat_ofNat,Nat.mod_eq_of_lt (by omega)]
    rw [← small,BitVec.ofNat_toNat,BitVec.setWidth_eq,BitVec.sub_sub,rest]
  rw [argPtrs,envPtrs,mem,pushVectors_eq,Words.foldl_push,List.length_reverse,List.reverse_reverse,words,front]

theorem decodes_image {total strs : Word} (few : argv.length ≤ maxStrings) (positive : 0 < total.toNat)
    (fits : total.toNat ≤ pageBytes)
    (aligned : total.toNat % 16 = 0) (room : imageBytes argv envp auxv ≤ total.toNat)
    (split : strs.toNat + 8 * (5 + argv.length + envp.length + 2 * auxv.length) = total.toNat)
    (built : m' = Memory.store m frame (BitVec.ofNat 64 (pageBytes - total.toNat))
      ((vectorWords (pointers (childStackTop - strs) argv)
        (pointers (childStackTop - strs + BitVec.ofNat 64 (stringBytes argv)) envp) auxv).flatMap bytesOf ++
        pack 0 ((argv ++ envp).map CString.bytes))) :
    Decodes (Frames.page m' frame) (childStackTop - total) argv envp auxv := by
  have size := pageBytes_eq
  have bottom := childPage_toNat
  have top := childStackTop_toNat
  rw [imageBytes,stringBytes_append] at room
  have words := length_vectorWords (pointers (childStackTop - strs) argv)
    (pointers (childStackTop - strs + BitVec.ofNat 64 (stringBytes argv)) envp) auxv
  rw [length_pointers,length_pointers] at words
  generalize args_eq : pointers (childStackTop - strs) argv = args at *
  generalize env_eq : pointers (childStackTop - strs + BitVec.ofNat 64 (stringBytes argv)) envp = env at *
  obtain ⟨rest,there⟩ := page_store (m := m) frame (pageBytes - total.toNat)
    ((vectorWords args env auxv).flatMap bytesOf ++ pack 0 ((argv ++ envp).map CString.bytes)) (by
      have strings : packedSize ((argv ++ envp).map CString.bytes) = stringBytes argv + stringBytes envp :=
        stringBytes_append argv envp
      rw [List.length_append,Words.length_flatMap,words,length_pack,strings]
      omega)
  rw [← built,List.append_assoc,List.map_append,Delimited.pack_append,List.append_assoc] at there
  generalize m'.page frame = page at there ⊢
  have sp : (childStackTop - total).toNat = 0x1FB000 - total.toNat := by
    rw [BitVec.toNat_sub_of_le (by rw [BitVec.le_def]; omega),top]
  have start : (childStackTop - total - childPage).toNat = pageBytes - total.toNat := by
    rw [BitVec.toNat_sub_of_le (by rw [BitVec.le_def]; omega)]
    omega
  have child : (childStackTop - strs).toNat = childPage.toNat + (pageBytes - strs.toNat) := by
    rw [BitVec.toNat_sub_of_le (by rw [BitVec.le_def]; omega)]
    omega
  have laid : wordsAt page (childStackTop - total) = vectorWords args env auxv ++
      wordsOf (pack 0 (argv.map CString.bytes) ++ (pack 0 (envp.map CString.bytes) ++ rest)) := by
    rw [wordsAt,start,there,Words.wordsOf_append]
  have strings : page.drop (pageBytes - strs.toNat) =
      pack 0 (argv.map CString.bytes) ++ (pack 0 (envp.map CString.bytes) ++ rest) := by
    rw [show pageBytes - strs.toNat = pageBytes - total.toNat + 8 * (vectorWords args env auxv).length
      from by omega,
      ← List.drop_drop,there,List.drop_left' (Words.length_flatMap _)]
  have more : page.drop (pageBytes - strs.toNat + stringBytes argv) = pack 0 (envp.map CString.bytes) ++ rest := by
    rw [← List.drop_drop,strings,List.drop_left' (length_strings argv)]
  have argPoints : List.Forall₂ (Points page
    ((childStackTop - total).toNat + 8 * (vectorWords args env auxv).length)) args argv := by
    have points := points_pointers (n := (childStackTop - total).toNat + 8 * (vectorWords args env auxv).length)
      child
      (by omega) (by omega) strings
    rwa [args_eq] at points
  have envPoints : List.Forall₂ (Points page
    ((childStackTop - total).toNat + 8 * (vectorWords args env auxv).length)) env envp := by
    have next : (childStackTop - strs + BitVec.ofNat 64 (stringBytes argv)).toNat =
        childPage.toNat + (pageBytes - strs.toNat + stringBytes argv) := by
      rw [BitVec.toNat_add,child,BitVec.toNat_ofNat]
      omega
    have points := points_pointers (n := (childStackTop - total).toNat + 8 * (vectorWords args env auxv).length)
      next
      (by omega) (by omega) more
    rwa [env_eq] at points
  exact ⟨by omega,by omega,⟨args,env,_,laid,argPoints,envPoints⟩,readStack_laid laid argPoints envPoints
    (by omega) few⟩

theorem build_refused (args : argv.length ≤ maxStrings) (env : envp.length ≤ maxStrings) (aux : auxv.length ≤ 8)
    (refused : pageBytes < imageBytes argv envp auxv ∨ maps = false) :
    buildInitialStack maps unmaps m frame argv envp auxv = some (m,0) := by
  have whole := layout_toNat args env aux
  rw [buildInitialStack]
  dsimp only
  by_cases fits : BitVec.ofNat 64 pageBytes < totalAligned
    (strsBytes (argv ++ envp) + belowBytes argv.length envp.length auxv.length)
  · rw [if_pos fits]
  · rcases refused with big | refused
    · rw [BitVec.lt_def,whole,pageBytes_eq,BitVec.toNat_ofNat] at fits
      rw [pageBytes_eq] at big
      omega
    · rw [if_neg fits,if_pos refused]

/-- Whatever fits the page and is not refused by the kernel is what the program finds on its stack. -/
theorem initial_stack_decodes (maps unmaps : Bool) (m : Frames) (frame : Nat) (argv envp : List CString)
    (auxv : List AuxPair) (args : argv.length ≤ 16) (env : envp.length ≤ 16) (aux : auxv.length ≤ 8) :
    ∃ m' sp, buildInitialStack maps unmaps m frame argv envp auxv = some (m',sp) ∧
      (sp = 0 ↔ 4096 < imageBytes argv envp auxv ∨ maps = false ∨ unmaps = false) ∧
      (sp ≠ 0 → Decodes (m'.page frame) sp argv envp auxv) := by
  have size := pageBytes_eq
  by_cases refused : pageBytes < imageBytes argv envp auxv ∨ maps = false
  · refine ⟨m,0,build_refused args env aux refused,iff_of_true rfl ?_,fun nonempty => absurd rfl nonempty⟩
    rcases refused with big | refused
    · exact .inl big
    · exact .inr (.inl refused)
  · rw [not_or,Nat.not_lt,Bool.not_eq_false] at refused
    obtain ⟨fits,rfl⟩ := refused
    obtain ⟨total,strs,whole,split,built⟩ := build_image (m := m) frame unmaps args env aux fits
    have needs : 40 ≤ imageBytes argv envp auxv := by
      rw [imageBytes]
      omega
    refine ⟨_,_,built,?_,fun nonempty => ?_⟩
    · cases unmaps with
      | false => simp
      | true =>
        have below : (childStackTop - total).toNat = childStackTop.toNat - total.toNat :=
          BitVec.toNat_sub_of_le (by rw [BitVec.le_def,childStackTop_toNat]; omega)
        have nonzero : childStackTop - total ≠ 0 := by
          intro null
          rw [null,childStackTop_toNat] at below
          have zero : (0 : Word).toNat = 0 := rfl
          omega
        rw [if_pos rfl,iff_false_left nonzero]
        simp
        omega
    · cases unmaps with
      | false => exact absurd rfl nonempty
      | true => exact decodes_image args (by omega) (by omega) (by omega) (by omega) split rfl

/-- The arguments of a shell that is started without an environment. -/
def shellName : CString := ⟨[0x71,0x73,0x68],by decide,by decide⟩

theorem initial_stack_decodes_shell :
    ∃ m' sp, buildInitialStack true true (fun _ _ => 0xff) 7 [shellName,shellName] [] [⟨6,0x1000⟩] =
      some (m',sp) ∧ sp ≠ 0 ∧
      Decodes (m'.page 7) sp [shellName,shellName] [] [⟨6,0x1000⟩] := by
  obtain ⟨m',sp,built,zero,decodes⟩ := initial_stack_decodes true true (fun _ _ => 0xff) 7 [shellName,shellName]
    [] [⟨6,0x1000⟩]
    (by decide) (by decide) (by decide)
  have nonzero : sp ≠ 0 := by
    rw [ne_eq,zero]
    decide
  exact ⟨m',sp,built,nonzero,decodes nonzero⟩

end Qsoe.Spawn
