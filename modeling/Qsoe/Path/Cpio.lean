import Mathlib.Algebra.Group.Nat.Defs
import Qsoe.Lib.Cells

/-! The walk of `cpiofs.c` over the embedded userland archive. Addresses are natural numbers:
nothing here comes near the end of the address space, since the archive lies in its lower half
and a header field has at most 32 bits. -/
namespace Qsoe.Path

open Cells

abbrev Byte := BitVec 8

/-- `/`. -/
def slash : Byte := 0x2f

/-- What stands before the first NUL. -/
def cstr (bytes : List Byte) : List Byte := bytes.takeWhile (· ≠ 0)

/-- The blob given to `tm_set_userland_cpio`, in taskman's memory; `entries` are the names that
`cpio_get_entry` of libcpio lists. -/
structure Archive where
  start : Nat
  len : Nat
  mem : Nat → Byte
  entries : List (List Byte)
  placed : 0 < start
  low : start + len ≤ 2 ^ 38

def alignUp (n a : Nat) : Nat := (n + a - 1) / a * a

/-- `sizeof(struct cpio_header)` and the offsets of the fields that are read. -/
def headerSize : Nat := 110
def modeOffset : Nat := 14
def filesizeOffset : Nat := 54
def namesizeOffset : Nat := 94

/-- The magic number `070701` and the name of the last entry. -/
def magic : List Byte := [0x30,0x37,0x30,0x37,0x30,0x31]
def trailer : List Byte := [0x54,0x52,0x41,0x49,0x4c,0x45,0x52,0x21]

/-- Other characters count as zero. -/
def hexDigit (c : Byte) : Nat :=
  if 0x30 ≤ c ∧ c ≤ 0x39 then (c - 0x30).toNat
  else if 0x61 ≤ c ∧ c ≤ 0x66 then (c - 0x61).toNat + 10
  else if 0x41 ≤ c ∧ c ≤ 0x46 then (c - 0x41).toNat + 10
  else 0

structure Entry where
  data : Nat
  size : Nat
  mode : Nat
  deriving DecidableEq, Repr

def Entry.isLink (e : Entry) : Bool := e.mode &&& 0o170000 == 0o120000

namespace Archive

variable (a : Archive)

def stop : Nat := a.start + a.len

/-- `tm_cpio_hex8`. -/
def hex8 (p : Nat) : Nat := (row a.mem p 8).foldl (fun v c => 16 * v + hexDigit c) 0

/-- The comparison loop from position `i` on; the name of an entry ends at its size. -/
def named (fname namesize : Nat) : Nat → List Byte → Bool
  | i, [] => (if i < namesize then a.mem (fname + i) else 0) == 0
  | i, b :: rest =>
    (if i < namesize then a.mem (fname + i) else 0) == b && (b == 0 || named fname namesize (i + 1) rest)

/-- `tm_cpio_scan` from the header at `p` on. Every entry takes at least a header, so `a.len`
rounds are enough. -/
def scanFrom (name : List Byte) : Nat → Nat → Option Entry
  | 0, _ => none
  | rounds + 1, p =>
    if a.stop - p < headerSize then none
    else if row a.mem p 6 ≠ magic then none
    else
      let fname := p + headerSize
      let namesize := a.hex8 (p + namesizeOffset)
      if 11 ≤ namesize ∧ row a.mem fname 8 = trailer then none
      else
        let data := alignUp (fname + namesize) 4
        let size := a.hex8 (p + filesizeOffset)
        let next := alignUp (data + size) 4
        if a.stop < next then none
        else if a.named fname namesize 0 name then some ⟨data,size,a.hex8 (p + modeOffset)⟩
        else scanFrom name rounds next

def scan (name : List Byte) : Option Entry := a.scanFrom name (a.len + 1) a.start

/-- The name up to its last slash. -/
def parent (name : List Byte) : List Byte := (name.reverse.dropWhile (· ≠ slash)).reverse

/-- Where a link points; relative targets are joined to the directory of the link. -/
def target (name : List Byte) (e : Entry) : List Byte :=
  let text := row a.mem e.data e.size
  if text.head? = some slash then text.tail else parent name ++ text

/-- `tm_cpio_lookup`: one link is followed. -/
def lookup (name : List Byte) : Option (Nat × Nat) :=
  match a.scan name with
  | none => none
  | some e =>
    if e.isLink = false then some (e.data,e.size)
    else if e.size = 0 ∨ 128 ≤ e.size then none
    else if 127 < (a.target name e).length then none
    else match a.scan (a.target name e) with
      | none => none
      | some file => if file.isLink then none else some (file.data,file.size)

/-- `cpiofs_is_subdir`. -/
def isSubdir (name : List Byte) : Bool := a.entries.any fun e => (name ++ [slash]).isPrefixOf e

def Holds (data size : Nat) : Prop := a.start ≤ data ∧ data + size ≤ a.stop ∧ size < 2 ^ 32

variable {a}

theorem hexDigit_lt (c : Byte) : hexDigit c < 16 := by
  unfold hexDigit
  split
  · bv_omega
  · split
    · bv_omega
    · split
      · bv_omega
      · decide

theorem hexFold_lt (digits : List Byte) (v n : Nat) (small : v < 16 ^ n) :
    digits.foldl (fun v c => 16 * v + hexDigit c) v < 16 ^ (n + digits.length) := by
  induction digits generalizing v n with
  | nil => exact small
  | cons c rest ih =>
    have digit := hexDigit_lt c
    have grown : 16 * v + hexDigit c < 16 ^ (n + 1) := by
      rw [Nat.pow_succ]
      omega
    have later := ih (16 * v + hexDigit c) (n + 1) grown
    rw [List.length_cons,show n + (rest.length + 1) = n + 1 + rest.length from by omega]
    exact later

theorem hex8_lt (p : Nat) : a.hex8 p < 2 ^ 32 := by
  have bound := hexFold_lt (row a.mem p 8) 0 0 (by decide)
  have length : (row a.mem p 8).length = 8 := length_row ..
  rw [length] at bound
  exact bound

theorem le_alignUp (n : Nat) : n ≤ alignUp n 4 := by
  unfold alignUp
  omega

theorem scanFrom_holds (found : a.scanFrom name rounds p = some e) (after : a.start ≤ p) :
    a.Holds e.data e.size := by
  induction rounds generalizing p with
  | zero => cases found
  | succ rounds ih =>
    have first := le_alignUp (p + headerSize + a.hex8 (p + namesizeOffset))
    have second := le_alignUp (alignUp (p + headerSize + a.hex8 (p + namesizeOffset)) 4 +
      a.hex8 (p + filesizeOffset))
    rw [scanFrom] at found
    split at found
    · cases found
    · split at found
      · cases found
      · dsimp only at found
        split at found
        · cases found
        · split at found
          · cases found
          · rename_i inside
            split at found
            · obtain rfl := Option.some.inj found
              refine ⟨?_,?_,hex8_lt _⟩
              · show a.start ≤ alignUp _ 4
                omega
              · show alignUp _ 4 + a.hex8 _ ≤ a.stop
                omega
            · exact ih found (by omega)

theorem scan_holds (found : a.scan name = some e) : a.Holds e.data e.size :=
  scanFrom_holds found (Nat.le_refl _)

theorem lookup_holds (found : a.lookup name = some (data,size)) : a.Holds data size := by
  unfold lookup at found
  split at found
  · cases found
  · rename_i e scanned
    split at found
    · obtain ⟨rfl,rfl⟩ : _ = data ∧ _ = size := by simpa using found
      exact scan_holds scanned
    · split at found
      · cases found
      · split at found
        · cases found
        · split at found
          · cases found
          · rename_i file scanned'
            split at found
            · cases found
            · obtain ⟨rfl,rfl⟩ : _ = data ∧ _ = size := by simpa using found
              exact scan_holds scanned'

end Archive

end Qsoe.Path
