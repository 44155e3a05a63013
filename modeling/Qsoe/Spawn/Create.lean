import Qsoe.Path.Cpio
import Qsoe.Lib.Delimited

/-! Starting a program by name: what `ProcessCreate` of libc sends and how taskman reads it. The
kernel carries the words that the length of a message covers; the other registers of the
receiver keep what they held. -/
namespace Qsoe.Spawn

open Qsoe.Path (Byte)
open Delimited (field)

abbrev Word := BitVec 64

structure Registers where
  mr0 : Word
  mr1 : Word
  mr2 : Word
  mr3 : Word
  deriving DecidableEq, Repr

/-- A message of `length` words reaches a receiver whose registers held `old`. -/
def deliver (sent : Registers) (length : Nat) (old : Registers) : Registers where
  mr0 := if 0 < length then sent.mr0 else old.mr0
  mr1 := if 1 < length then sent.mr1 else old.mr1
  mr2 := if 2 < length then sent.mr2 else old.mr2
  mr3 := if 3 < length then sent.mr3 else old.mr3

/-- What reaches `tm_process_create_by_name`. -/
structure Creation where
  path : List Byte
  pathLen : Nat
  argc : Nat
  argv : List (List Byte)
  envc : Nat
  envp : List (List Byte)
  deriving DecidableEq, Repr

/-- `SPAWN_MAX_ARGC`, `SPAWN_MAX_ENVC` and the handlers' own arrays. -/
def maxStrings : Nat := 16

/-- An `int` count of strings that the handlers take. -/
def countOk (count : Int) : Bool := 0 ≤ count && count ≤ maxStrings

/-- `process_create_with_args`: the address of the path and its length, two words; `argv` and
`envp` are not sent. -/
def processCreate (address : Word) (path : List Byte) : Registers × Nat :=
  (⟨address,(BitVec.ofNat 32 path.length).setWidth 64,0,0⟩,2)

/-- `s_staging`. -/
def stagingSize : Nat := 1024

def stringAt (buffer : List Byte) (off : Nat) : List Byte := field 0 (buffer.drop off)

/-- Behind the string at `off` and its NUL, or behind the end of the text. -/
def skip (buffer : List Byte) (total off : Nat) : Nat := off + (stringAt (buffer.take total) off).length + 1

/-- The loops over `argv` and `envp`: the strings, and the offset they end at. -/
def readStrings (buffer : List Byte) (total : Nat) : Nat → Nat → Option (List (List Byte) × Nat)
  | 0, off => some ([],off)
  | n + 1, off =>
    if total ≤ off then none
    else (readStrings buffer total n (skip buffer total off)).map fun read => (stringAt buffer off :: read.1,read.2)

/-- `TM_REQ_PROCESS_CREATE`: `payload` are the bytes from `msg[4]` on and `staging` what the
static buffer held; `none` is `EINVAL`. -/
def readCreate (r : Registers) (payload : Nat → Byte) (staging : List Byte) : Option Creation :=
  let argc := (r.mr0.setWidth 32).toInt
  let envc := (r.mr1.setWidth 32).toInt
  let plen := (r.mr2.setWidth 32).toNat
  let total := (r.mr3.setWidth 32).toNat
  if countOk argc = false ∨ countOk envc = false ∨ plen = 0 ∨ 64 ≤ plen ∨ stagingSize < total then none
  else
    let filled := (List.range total).map payload ++ staging.drop total
    match readStrings filled total argc.toNat (plen + 1) with
    | none => none
    | some (argv,off) =>
      match readStrings filled total envc.toNat off with
      | none => none
      | some (envp,_) => some ⟨stringAt filled 0,plen,argc.toNat,argv,envc.toNat,envp⟩

theorem readCreate_envc (read : readCreate r payload staging = some c) :
    c.envc = (r.mr1.setWidth 32).toInt.toNat := by
  unfold readCreate at read
  dsimp only at read
  split at read
  · cases read
  · split at read
    · cases read
    · split at read
      · cases read
      · obtain rfl := Option.some.inj read
        rfl

theorem sent_length (address : Word) (path : List Byte) (old : Registers) (short : path.length ≤ 63) :
    ((deliver (processCreate address path).1 (processCreate address path).2 old).mr1.setWidth 32).toInt.toNat =
      path.length := by
  have small : (BitVec.ofNat 32 path.length).toNat = path.length := by
    rw [BitVec.toNat_ofNat]
    omega
  have back : ((BitVec.ofNat 32 path.length).setWidth 64).setWidth 32 = BitVec.ofNat 32 path.length := by
    apply BitVec.eq_of_toNat_eq
    simp only [BitVec.toNat_setWidth,small]
    omega
  show (((BitVec.ofNat 32 path.length).setWidth 64).setWidth 32).toInt.toNat = path.length
  rw [back,BitVec.toInt_eq_toNat_cond,small,if_pos (by omega)]
  exact Int.toNat_natCast _

/-- No path is created as `ProcessCreate` names it: the handler reads the length of the path as the
number of environment strings. -/
theorem processCreate_never (address : Word) (path : List Byte) (old : Registers) (payload : Nat → Byte)
    (staging : List Byte) (nonempty : path ≠ []) (short : path.length ≤ 63) :
    readCreate (deliver (processCreate address path).1 (processCreate address path).2 old) payload staging ≠
      some ⟨path,path.length,1,[path],0,[]⟩ := by
  intro read
  have envc := readCreate_envc read
  rw [sent_length address path old short] at envc
  exact nonempty (List.length_eq_zero_iff.mp envc.symm)

/-- `init`, at an ordinary address. -/
def initPath : List Byte := [0x69,0x6e,0x69,0x74]

theorem processCreate_never_init :
    readCreate (deliver (processCreate 0x10000 initPath).1 (processCreate 0x10000 initPath).2 ⟨0,0,0,0⟩)
      (fun _ => 0) [] ≠
      some ⟨initPath,initPath.length,1,[initPath],0,[]⟩ :=
  processCreate_never 0x10000 initPath ⟨0,0,0,0⟩ (fun _ => 0) [] (by decide) (by decide)

/-- The address is no count of arguments. -/
theorem processCreate_refused :
    readCreate (deliver (processCreate 0x10000 initPath).1 (processCreate 0x10000 initPath).2 ⟨0,0,0,0⟩)
      (fun _ => 0) [] =
      none := by
  decide

end Qsoe.Spawn
