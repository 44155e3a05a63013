import Mathlib.Algebra.GroupWithZero.Nat
import Mathlib.Data.List.Infix
import Qsoe.Spawn.Create

/-! `posix_spawn`: path, arguments and environment are packed into a page, whose address goes to
taskman, and taskman copies the page and takes the strings apart again. Lengths and offsets are
C `unsigned`s. -/
namespace Qsoe.Spawn

open Qsoe.Path (Byte)
open Delimited (field pack unpack)

/-- `SPAWN_PAGE_BYTES`. -/
def pageBytes : Nat := 4096

/-- What becomes of the page; after `overrun` bytes behind its end are written. A string of
`2 ^ 32` bytes is one whose end `qstrlen` does not find. -/
inductive Packed where
  | endless
  | tooBig
  | overrun
  | blob (bytes : List Byte)
  deriving DecidableEq, Repr

/-- `pack_str` behind what is packed already. -/
def packStr (packed s : List Byte) : Packed :=
  if 2 ^ 32 ≤ s.length then .endless
  else if pageBytes < (BitVec.ofNat 32 packed.length + BitVec.ofNat 32 s.length + 1).toNat then .tooBig
  else if pageBytes < packed.length + s.length + 1 then .overrun
  else .blob (packed ++ s ++ [0])

def packStrs : List (List Byte) → List Byte → Packed
  | [], packed => .blob packed
  | s :: rest, packed =>
    match packStr packed s with
    | .blob more => packStrs rest more
    | failed => failed

inductive SpawnErrno where
  | einval | e2big | enomem | esrch
  deriving DecidableEq, Repr

inductive Spawning where
  | refused (e : SpawnErrno)
  | endless
  | overrun
  | request (sent : Registers) (page : List Byte)
  deriving DecidableEq, Repr

/-- `posix_spawn` up to its request; `page` is the address `__mmap` gives. -/
def posixSpawn (page : Option Word) (path : List Byte) (argv envp : List (List Byte)) : Spawning :=
  if path = [] then .refused .einval
  else if maxStrings < argv.length ∨ maxStrings < envp.length then .refused .e2big
  else match page with
    | none => .refused .enomem
    | some address =>
      match packStrs (path :: argv ++ envp) [] with
      | .endless => .endless
      | .tooBig => .refused .e2big
      | .overrun => .overrun
      | .blob bytes =>
        .request ⟨address,BitVec.ofNat 64 bytes.length,BitVec.ofNat 64 argv.length,BitVec.ofNat 64 envp.length⟩
          bytes

/-- The loops of `TM_REQ_SPAWN` over `argv` and `envp`: every string has to end in the text. -/
def takeStrings (buffer : List Byte) (len : Nat) : Nat → Nat → Option (List (List Byte) × Nat)
  | 0, off => some ([],off)
  | n + 1, off =>
    let stop := off + (stringAt (buffer.take len) off).length
    if len ≤ off ∨ len ≤ stop then none
    else (takeStrings buffer len n (stop + 1)).map fun read => (stringAt buffer off :: read.1,read.2)

/-- `TM_REQ_SPAWN` up to `tm_process_create_by_name`. `known` is the lookup of the caller, `frame` what
`tm_spawn_read_args` reads at the address it is given, or its error; `stale` is what `s_args_buf` held. -/
def readSpawn (r : Registers) (known : Bool) (frame : Word → Except SpawnErrno (List Byte)) (stale : List Byte) :
    Except SpawnErrno Creation :=
  let len := (r.mr1.setWidth 32).toNat
  let argc := (r.mr2.setWidth 32).toInt
  let envc := (r.mr3.setWidth 32).toInt
  if countOk argc = false ∨ countOk envc = false ∨ len = 0 ∨ pageBytes < len then .error .einval
  else if known = false then .error .esrch
  else
    match frame r.mr0 with
    | .error e => .error e
    | .ok page =>
      let buffer := page.take len ++ stale.drop len
      let plen := (stringAt (buffer.take len) 0).length
      if plen = 0 ∨ len ≤ plen then .error .einval
      else match takeStrings buffer len argc.toNat (plen + 1) with
        | none => .error .einval
        | some (argv,off) =>
          match takeStrings buffer len envc.toNat off with
          | none => .error .einval
          | some (envp,_) => .ok ⟨stringAt buffer 0,plen,argc.toNat,argv,envc.toNat,envp⟩

/-- The bytes of the strings with their NULs. -/
def packedSize (ss : List (List Byte)) : Nat := (ss.map fun s => s.length + 1).sum

/-- The string with which the page is first too small does not take the size to `2 ^ 32`. -/
def Counted (ss : List (List Byte)) : Prop :=
  ∃ before s after, ss = before ++ s :: after ∧ packedSize before ≤ pageBytes ∧
    pageBytes < packedSize before + s.length + 1 ∧ packedSize before + s.length + 1 < 2 ^ 32

variable {ss : List (List Byte)} {packed s : List Byte}

theorem pageBytes_eq : pageBytes = 4096 := rfl

@[simp] theorem packedSize_nil : packedSize [] = 0 := rfl

@[simp] theorem packedSize_cons (s : List Byte) (ss : List (List Byte)) :
    packedSize (s :: ss) = s.length + 1 + packedSize ss := by
  simp [packedSize]

theorem length_pack (ss : List (List Byte)) : (pack 0 ss).length = packedSize ss := Delimited.length_pack ss

/-- The check of `pack_str` sees the size without its multiples of `2 ^ 32`. -/
theorem packStr_sum (short : packed.length ≤ pageBytes) (fits : s.length < 2 ^ 32) :
    pageBytes < (BitVec.ofNat 32 packed.length + BitVec.ofNat 32 s.length + 1).toNat ↔
      pageBytes < packed.length + s.length + 1 ∧ packed.length + s.length + 1 < 2 ^ 32 := by
  have one : (1 : BitVec 32).toNat = 1 := rfl
  rw [BitVec.toNat_add,BitVec.toNat_add,BitVec.toNat_ofNat,BitVec.toNat_ofNat,one]
  rw [pageBytes_eq] at *
  omega

theorem packStr_fits (fits : packed.length + s.length + 1 ≤ pageBytes) :
    packStr packed s = .blob (packed ++ s ++ [0]) := by
  have small : s.length < 2 ^ 32 := by
    rw [pageBytes_eq] at fits
    omega
  have sum := packStr_sum (by omega : packed.length ≤ pageBytes) small
  rw [packStr,if_neg (by omega),if_neg (by rw [sum]; omega),if_neg (by omega)]

theorem packStrs_fits (ss : List (List Byte)) (fits : packed.length + packedSize ss ≤ pageBytes) :
    packStrs ss packed = .blob (packed ++ pack 0 ss) := by
  induction ss generalizing packed with
  | nil => simp [packStrs]
  | cons s rest ih =>
    rw [packedSize_cons] at fits
    rw [packStrs,packStr_fits (by omega)]
    dsimp only
    rw [ih (by simp only [List.length_append,List.length_cons,List.length_nil]; omega)]
    simp [Delimited.pack_cons]

/-- Packing is refused exactly where the page is first too small for a size below `2 ^ 32`. -/
theorem packStrs_tooBig (ss : List (List Byte)) (short : packed.length ≤ pageBytes) :
    packStrs ss packed = .tooBig ↔ ∃ before s after, ss = before ++ s :: after ∧
      packed.length + packedSize before ≤ pageBytes ∧
      pageBytes < packed.length + packedSize before + s.length + 1 ∧
      packed.length + packedSize before + s.length + 1 < 2 ^ 32 := by
  induction ss generalizing packed with
  | nil => simp [packStrs]
  | cons s rest ih =>
    by_cases fits : packed.length + s.length + 1 ≤ pageBytes
    · have longer : (packed ++ s ++ [0]).length = packed.length + s.length + 1 := by
        simp only [List.length_append,List.length_cons,List.length_nil]
      rw [packStrs,packStr_fits fits]
      dsimp only
      rw [ih (by omega),longer]
      constructor
      · rintro ⟨before,t,after,rfl,low,high,below⟩
        refine ⟨s :: before,t,after,rfl,?_⟩
        rw [packedSize_cons]
        omega
      · rintro ⟨before,t,after,same,low,high,below⟩
        cases before with
        | nil =>
          obtain ⟨rfl,-⟩ := List.cons.inj same
          simp only [packedSize_nil,Nat.add_zero] at high
          omega
        | cons first others =>
          obtain ⟨rfl,rfl⟩ := List.cons.inj same
          refine ⟨others,t,after,rfl,?_⟩
          rw [packedSize_cons] at low high below
          omega
    · have only : (∃ before t after, s :: rest = before ++ t :: after ∧
        packed.length + packedSize before ≤ pageBytes ∧
          pageBytes < packed.length + packedSize before + t.length + 1 ∧
          packed.length + packedSize before + t.length + 1 < 2 ^ 32) ↔ packed.length + s.length + 1 < 2 ^ 32 := by
        constructor
        · rintro ⟨before,t,after,same,low,high,below⟩
          cases before with
          | nil =>
            obtain ⟨rfl,-⟩ := List.cons.inj same
            simpa using below
          | cons first others =>
            obtain ⟨rfl,-⟩ := List.cons.inj same
            rw [packedSize_cons] at low
            omega
        · intro below
          exact ⟨[],s,rest,rfl,by simpa using short,by rw [packedSize_nil]; omega,by simpa using below⟩
      rw [only,packStrs,packStr]
      by_cases endless : 2 ^ 32 ≤ s.length
      · rw [if_pos endless]
        exact iff_of_false nofun (by omega)
      · rw [if_neg endless]
        have sum := packStr_sum short (Nat.lt_of_not_le endless)
        by_cases below : packed.length + s.length + 1 < 2 ^ 32
        · rw [if_pos (sum.mpr ⟨by omega,below⟩)]
          exact iff_of_true rfl below
        · rw [if_neg (fun seen => below (sum.mp seen).2),if_pos (by omega)]
          exact iff_of_false nofun below

theorem counted_iff (ss : List (List Byte)) : Counted ss ↔ packStrs ss [] = .tooBig := by
  rw [packStrs_tooBig ss (Nat.zero_le _)]
  simp only [List.length_nil,Nat.zero_add,Counted]

variable {buffer : List Byte} {len off n : Nat}

theorem stringAt_take (buffer : List Byte)
    (ends : (stringAt (buffer.take len) off).length < ((buffer.take len).drop off).length) :
    stringAt buffer off = stringAt (buffer.take len) off :=
  Delimited.field_of_prefix ((List.take_prefix len buffer).drop off) ends

/-- The loops read the fields of the text behind the offset. -/
theorem takeStrings_unpack (buffer : List Byte) (whole : len ≤ buffer.length) (off n : Nat) (inside : off ≤ len) :
    takeStrings buffer len n off =
      (unpack 0 n ((buffer.take len).drop off)).map fun read => (read.1,len - read.2.length) := by
  induction n generalizing off with
  | zero =>
    rw [takeStrings,unpack,Option.map_some,List.length_drop,List.length_take,Nat.min_eq_left whole]
    rw [Nat.sub_sub_self inside]
  | succ n ih =>
    have length : ((buffer.take len).drop off).length = len - off := by
      rw [List.length_drop,List.length_take,Nat.min_eq_left whole]
    have bound := Delimited.field_length_le (z := 0) ((buffer.take len).drop off)
    have same : stringAt (buffer.take len) off = field 0 ((buffer.take len).drop off) := rfl
    rw [takeStrings,unpack]
    by_cases ends : off + (stringAt (buffer.take len) off).length < len
    · have string : stringAt buffer off = stringAt (buffer.take len) off :=
        stringAt_take buffer (by rw [length]; omega)
      have more : (stringAt (buffer.take len) off).length < ((buffer.take len).drop off).length := by omega
      rw [if_neg (by omega),string,ih _ (by omega),← same,List.drop_eq_getElem_cons more,List.drop_drop,
        Option.map_map,Option.map_map]
      rfl
    · have ended : ((buffer.take len).drop off).drop (stringAt (buffer.take len) off).length = [] :=
        List.drop_of_length_le (by omega)
      rw [if_pos (by omega),← same,ended]
      rfl

theorem takeStrings_pack (whole : len ≤ buffer.length) (front : buffer.take len = packed ++ pack 0 ss ++ rest)
    (free : ∀ s ∈ ss, (0 : Byte) ∉ s) :
    takeStrings buffer len ss.length packed.length = some (ss,len - rest.length) := by
  have length := congrArg List.length front
  rw [List.length_take,Nat.min_eq_left whole,List.length_append,List.length_append] at length
  rw [takeStrings_unpack buffer whole packed.length ss.length (by omega),front,List.append_assoc,List.drop_left,
    Delimited.unpack_pack free]
  rfl

/-- The request for these strings, read by taskman from the page and whatever lies around it,
names them again; strings that the page is too small for are refused. -/
structure RoundTrip (page : Word) (path : List Byte) (argv envp : List (List Byte)) : Prop where
  back : packedSize (path :: argv ++ envp) ≤ pageBytes → ∃ sent blob,
    posixSpawn (some page) path argv envp = .request sent blob ∧ ∀ old frame rest stale,
      frame page = .ok (blob ++ rest) → readSpawn (deliver sent 4 old) true frame stale =
        .ok ⟨path,path.length,argv.length,argv,envp.length,envp⟩
  refused : pageBytes < packedSize (path :: argv ++ envp) → posixSpawn (some page) path argv envp = .refused .e2big

/-- A small number survives the way through a word to an `unsigned` or an `int`. -/
theorem word_small (small : n < 2 ^ 31) : ((BitVec.ofNat 64 n).setWidth 32).toNat = n := by
  simp only [BitVec.toNat_setWidth,BitVec.toNat_ofNat]
  omega

theorem word_count (few : n ≤ maxStrings) : ((BitVec.ofNat 64 n).setWidth 32).toInt = n := by
  have bound : n ≤ 16 := few
  have small := word_small (by omega : n < 2 ^ 31)
  rw [BitVec.toInt_eq_toNat_cond,small,if_pos (by omega)]

theorem countOk_small (few : n ≤ maxStrings) : countOk n = true := by
  simp only [countOk,Bool.and_eq_true,decide_eq_true_eq]
  exact ⟨Int.natCast_nonneg n,Int.ofNat_le.mpr few⟩

variable {path : List Byte} {argv envp : List (List Byte)}

/-- The packed strings behind anything that was in the buffer. -/
theorem readSpawn_pack (page : Word) (named : path ≠ []) (args : argv.length ≤ maxStrings)
    (env : envp.length ≤ maxStrings)
    (free : ∀ s ∈ path :: argv ++ envp, (0 : Byte) ∉ s) (fits : packedSize (path :: argv ++ envp) ≤ pageBytes)
    (shown : frame page = .ok (pack 0 (path :: argv ++ envp) ++ rest)) :
    readSpawn ⟨page,BitVec.ofNat 64 (pack 0 (path :: argv ++ envp)).length,BitVec.ofNat 64 argv.length,
      BitVec.ofNat 64 envp.length⟩ true frame stale =
      .ok ⟨path,path.length,argv.length,argv,envp.length,envp⟩ := by
  have whole : pack (0 : Byte) (path :: argv ++ envp) = path ++ 0 :: (pack 0 argv ++ pack 0 envp) := by
    rw [List.cons_append,Delimited.pack_cons,Delimited.pack_append]
  have size := length_pack (path :: argv ++ envp)
  rw [← size] at fits
  generalize text : pack (0 : Byte) (path :: argv ++ envp) = blob at *
  have long : blob.length = path.length + 1 + ((pack (0 : Byte) argv).length + (pack (0 : Byte) envp).length) := by
    rw [whole]
    simp only [List.length_append,List.length_cons]
    omega
  have positive : 0 < path.length := List.length_pos_iff.mpr named
  have len : ((BitVec.ofNat 64 blob.length).setWidth 32).toNat = blob.length :=
    word_small (by rw [pageBytes_eq] at fits; omega)
  have copied : (blob ++ rest).take blob.length = blob := List.take_left
  have kept : (blob ++ stale.drop blob.length).take blob.length = blob := List.take_left
  have room : blob.length ≤ (blob ++ stale.drop blob.length).length := by
    rw [List.length_append]
    omega
  have front (tail : List Byte) : stringAt (blob ++ tail) 0 = path := by
    rw [stringAt,List.drop_zero,whole,List.append_assoc,List.cons_append]
    exact Delimited.field_append (free path (by simp)) _
  have alone : stringAt blob 0 = path := by
    rw [← List.append_nil blob]
    exact front []
  have first : (blob ++ stale.drop blob.length).take blob.length = (path ++ [0]) ++ pack 0 argv ++ pack 0 envp := by
    rw [kept,whole]
    simp
  have second : (blob ++ stale.drop blob.length).take blob.length =
      (path ++ 0 :: pack 0 argv) ++ pack 0 envp ++ [] := by
    rw [kept,whole]
    simp
  have arguments := takeStrings_pack room first fun s member => free s (by simp [member])
  have environment := takeStrings_pack room second fun s member => free s (by simp [member])
  rw [List.length_append,List.length_cons,List.length_nil] at arguments
  rw [List.length_append,List.length_cons,List.length_nil,Nat.sub_zero] at environment
  have middle : blob.length - (pack (0 : Byte) envp).length = path.length +
    ((pack (0 : Byte) argv).length + 1) := by
    omega
  have taken : ¬ (true = false ∨ true = false ∨ blob.length = 0 ∨ pageBytes < blob.length) := by
    simp only [Bool.true_eq_false,false_or]
    omega
  rw [readSpawn]
  dsimp only
  rw [word_count args,word_count env,len,countOk_small args,countOk_small env,if_neg taken,if_neg (by decide),shown]
  dsimp only
  rw [copied,kept,alone,if_neg (by omega),Int.toNat_natCast,Int.toNat_natCast,arguments]
  dsimp only
  rw [middle,environment,front]

/-- The arguments of `posix_spawn` reach taskman unchanged or are refused exactly if no string
takes the size from below the page to `2 ^ 32`. -/
theorem roundTrip_iff (page : Word) (named : path ≠ []) (args : argv.length ≤ maxStrings)
    (env : envp.length ≤ maxStrings) (free : ∀ s ∈ path :: argv ++ envp, (0 : Byte) ∉ s) :
    RoundTrip page path argv envp ↔
      (pageBytes < packedSize (path :: argv ++ envp) → Counted (path :: argv ++ envp)) := by
  have start : posixSpawn (some page) path argv envp = match packStrs (path :: argv ++ envp) [] with
      | .endless => .endless
      | .tooBig => .refused .e2big
      | .overrun => .overrun
      | .blob bytes =>
        .request ⟨page,BitVec.ofNat 64 bytes.length,BitVec.ofNat 64 argv.length,BitVec.ofNat 64 envp.length⟩
          bytes := by
    rw [posixSpawn,if_neg named,if_neg (by omega)]
  have refusal : posixSpawn (some page) path argv envp = .refused .e2big ↔ Counted (path :: argv ++ envp) := by
    rw [counted_iff,start]
    cases packStrs (path :: argv ++ envp) [] <;> simp
  constructor
  · exact fun trip large => refusal.mp (trip.refused large)
  · intro counted
    refine ⟨fun fits => ?_,fun large => refusal.mpr (counted large)⟩
    have packs : packStrs (path :: argv ++ envp) [] = .blob ([] ++ pack 0 (path :: argv ++ envp)) :=
      packStrs_fits (path :: argv ++ envp) (by simpa using fits)
    rw [List.nil_append] at packs
    rw [packs] at start
    refine ⟨_,_,start,fun old frame rest stale shown => ?_⟩
    exact readSpawn_pack page named args env free fits shown

/-- A string that takes the size to `2 ^ 32` is copied over the end of the page. -/
theorem packStr_wraps (short : packed.length ≤ pageBytes) (fits : s.length < 2 ^ 32)
    (wraps : 2 ^ 32 ≤ packed.length + s.length + 1) : packStr packed s = .overrun := by
  have sum := packStr_sum short fits
  rw [packStr,if_neg (by omega),if_neg (by rw [sum]; omega)]
  rw [pageBytes_eq] at *
  exact if_pos (by omega)

theorem posixSpawn_wraps (s : List Byte) (length : s.length = 2 ^ 32 - 6) :
    posixSpawn (some 0x2000000) initPath [s] [] = .overrun := by
  have first : packStr [] initPath = .blob (initPath ++ [0]) := rfl
  have second : packStr (initPath ++ [0]) s = .overrun :=
    packStr_wraps (by decide) (by rw [length]; decide) (by rw [length]; decide)
  rw [posixSpawn,if_neg (by decide),if_neg (by simp [maxStrings]),List.cons_append,packStrs,first]
  dsimp only
  rw [List.cons_append,packStrs,second]

/-- `init` with an argument of `2 ^ 32 - 6` letters: the size with the path is exactly `2 ^ 32`. -/
theorem posixSpawn_overruns :
    posixSpawn (some 0x2000000) initPath [List.replicate (2 ^ 32 - 6) 0x61] [] = .overrun ∧
      pageBytes < packedSize (initPath :: [List.replicate (2 ^ 32 - 6) 0x61] ++ []) ∧
      (0 : Byte) ∉ List.replicate (2 ^ 32 - 6) (0x61 : Byte) := by
  refine ⟨posixSpawn_wraps _ List.length_replicate,?_,?_⟩
  · rw [List.append_nil,packedSize_cons,packedSize_cons,packedSize_nil,List.length_replicate]
    decide
  · intro member
    have letter := List.eq_of_mem_replicate member
    exact absurd letter (by decide)

theorem exists_overflow (large : pageBytes < base + packedSize ss) (short : base ≤ pageBytes) :
    ∃ before s after, ss = before ++ s :: after ∧ base + packedSize before ≤ pageBytes ∧
      pageBytes < base + packedSize before + s.length + 1 := by
  induction ss generalizing base with
  | nil => exact absurd large (Nat.not_lt.mpr short)
  | cons s rest ih =>
    by_cases fits : base + (s.length + 1) ≤ pageBytes
    · rw [packedSize_cons,← Nat.add_assoc] at large
      obtain ⟨before,t,after,rfl,low,high⟩ := ih large fits
      refine ⟨s :: before,t,after,rfl,?_,?_⟩
      · rw [packedSize_cons]
        omega
      · rw [packedSize_cons]
        omega
    · exact ⟨[],s,rest,rfl,short,by rw [packedSize_nil]; omega⟩

theorem packedSize_append (ss ts : List (List Byte)) : packedSize (ss ++ ts) = packedSize ss + packedSize ts := by
  simp [packedSize]

theorem counted_of_lt (held : packedSize ss < 2 ^ 32) (large : pageBytes < packedSize ss) : Counted ss := by
  obtain ⟨before,s,after,rfl,low,high⟩ :=
    exists_overflow (by rwa [Nat.zero_add] : pageBytes < 0 + packedSize ss) (Nat.zero_le _)
  rw [packedSize_append,packedSize_cons] at held
  exact ⟨before,s,after,rfl,by omega,by omega,by omega⟩

/-- The arguments of `posix_spawn` reach taskman unchanged or are refused. `held` is no check of the
code: the strings lie in the memory of the process, which taskman's tables let hold a small part of `2 ^
32` bytes. -/
theorem posixSpawn_roundTrip (page : Word) (path : List Byte) (argv envp : List (List Byte)) (named : path ≠ [])
    (args : argv.length ≤ maxStrings) (env : envp.length ≤ maxStrings)
    (free : ∀ s ∈ path :: argv ++ envp, (0 : Byte) ∉ s) (held : packedSize (path :: argv ++ envp) < 2 ^ 32) :
    RoundTrip page path argv envp :=
  (roundTrip_iff page named args env free).mpr (counted_of_lt held)

theorem posixSpawn_roundTrip_small : RoundTrip 0x2000000 initPath [initPath,[]] [] :=
  posixSpawn_roundTrip 0x2000000 initPath [initPath,[]] [] (by decide) (by decide) (by decide)
    (by decide) (by decide)

end Qsoe.Spawn
