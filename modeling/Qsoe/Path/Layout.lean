import Qsoe.Path.Cpio
import Qsoe.Lib.Delimited

/-! Archives as `cpio` writes them, and what the walk of `cpiofs.c` finds in them. Every entry
starts on a four-byte boundary of memory, as the archive does, so its padding depends on its
own lengths only. -/
namespace Qsoe.Path

open Cells

def trailerName : List Byte := trailer ++ [0x21,0x21]

/-- An entry to be written. `ino`, `middle`, `late` and `check` are the header fields that nobody reads. -/
structure File where
  name : List Byte
  mode : BitVec 32
  content : List Byte
  ino : List Byte
  middle : List Byte
  late : List Byte
  check : List Byte
  nulFree : (0 : Byte) ∉ name
  named : name.length + 1 < 2 ^ 32
  small : content.length < 2 ^ 32
  notTrailer : ¬ trailer <+: name
  fields : ino.length = 8 ∧ middle.length = 32 ∧ late.length = 32 ∧ check.length = 8

/-- A way to write hexadecimal digits: either case of the letters will do. -/
structure Digits where
  digit : Nat → Byte
  reads : ∀ d < 16, hexDigit (digit d) = d

/-- `n` in `k` digits. -/
def Digits.text (w : Digits) : Nat → Nat → List Byte
  | 0, _ => []
  | k + 1, n => w.text k (n / 16) ++ [w.digit (n % 16)]

def padding (n : Nat) : List Byte := List.replicate (alignUp n 4 - n) 0

namespace File

variable (w : Digits) (f : File)

def header : List Byte :=
  magic ++ (f.ino ++ (w.text 8 f.mode.toNat ++ (f.middle ++ (w.text 8 f.content.length ++
    (f.late ++ (w.text 8 (f.name.length + 1) ++ f.check))))))

def contentAt : Nat := alignUp (headerSize + (f.name.length + 1)) 4
def extent : Nat := alignUp (f.contentAt + f.content.length) 4

def written : List Byte :=
  f.header w ++ (f.name ++ 0 :: (padding (headerSize + (f.name.length + 1)) ++
    (f.content ++ padding (f.contentAt + f.content.length))))

def isLink : Bool := f.mode.toNat &&& 0o170000 == 0o120000

end File

def trailerHeader (w : Digits) (ino mode middle late check : List Byte) : List Byte :=
  magic ++ (ino ++ (mode ++ (middle ++ (w.text 8 0 ++ (late ++ (w.text 8 11 ++ check))))))

/-- The entries one after the other, the trailer, and anything behind it. -/
def Written (w : Digits) (files : List File) (bytes : List Byte) : Prop :=
  ∃ ino mode middle late check rest, ino.length = 8 ∧ mode.length = 8 ∧ middle.length = 32 ∧ late.length = 32 ∧
    check.length = 8 ∧ bytes = files.flatMap (File.written w) ++
      (trailerHeader w ino mode middle late check ++ (trailerName ++ 0 :: rest))

variable {w : Digits} {f : File}

@[simp] theorem length_text (w : Digits) (k n : Nat) : (w.text k n).length = k := by
  induction k generalizing n with
  | zero => rfl
  | succ k ih => rw [Digits.text,List.length_append,ih,List.length_singleton]

theorem fold_text (w : Digits) (k n : Nat) :
    (w.text k n).foldl (fun v c => 16 * v + hexDigit c) 0 = n % 16 ^ k := by
  induction k generalizing n with
  | zero => simp [Digits.text,Nat.mod_one]
  | succ k ih =>
    have digit := w.reads (n % 16) (Nat.mod_lt _ (by decide))
    rw [Digits.text,List.foldl_append,ih,List.foldl_cons,List.foldl_nil,digit,Nat.pow_succ',Nat.mod_mul]
    omega

def lowerDigit (d : Nat) : Byte := if d < 10 then BitVec.ofNat 8 (0x30 + d) else BitVec.ofNat 8 (0x57 + d)

def lower : Digits where
  digit := lowerDigit
  reads d small := by
    have all : ∀ d : Fin 16, hexDigit (lowerDigit d) = d := by decide
    exact all ⟨d,small⟩

theorem length_padding (n : Nat) : n + (padding n).length = alignUp n 4 := by
  have grows := Archive.le_alignUp n
  rw [padding,List.length_replicate]
  omega

theorem length_header (w : Digits) (f : File) : (f.header w).length = headerSize := by
  obtain ⟨ino,middle,late,check⟩ := f.fields
  simp only [File.header,List.length_append,length_text,ino,middle,late,check]
  rfl

theorem length_written (w : Digits) (f : File) : (f.written w).length = f.extent := by
  have name := length_padding (headerSize + (f.name.length + 1))
  have content := length_padding (f.contentAt + f.content.length)
  simp only [File.written,List.length_append,List.length_cons,length_header]
  unfold File.extent
  unfold File.contentAt at content ⊢
  omega

theorem alignUp_add (aligned : p % 4 = 0) (n : Nat) : alignUp (p + n) 4 = p + alignUp n 4 := by
  unfold alignUp
  omega

namespace Archive

variable {a : Archive} {p m n : Nat} {xs ys zs : List Byte}

theorem hex8_text (there : row a.mem p 8 = w.text 8 v) (fits : v < 2 ^ 32) : a.hex8 p = v := by
  rw [hex8,there,fold_text]
  exact Nat.mod_eq_of_lt fits

/-- The header fields that are read, and what stands behind a header. -/
theorem bytes_header {f1 f2 f3 f4 f5 f6 f7 rest : List Byte}
    (there : row a.mem p n = magic ++ (f1 ++ (f2 ++ (f3 ++ (f4 ++ (f5 ++ (f6 ++ (f7 ++ rest))))))))
    (l1 : f1.length = 8) (l2 : f2.length = 8) (l3 : f3.length = 32) (l4 : f4.length = 8) (l5 : f5.length = 32)
    (l6 : f6.length = 8) (l7 : f7.length = 8) :
    row a.mem p 6 = magic ∧ row a.mem (p + modeOffset) 8 = f2 ∧ row a.mem (p + filesizeOffset) 8 = f4 ∧
      row a.mem (p + namesizeOffset) 8 = f6 ∧ row a.mem (p + headerSize) (n - headerSize) = rest ∧
        headerSize ≤ n := by
  have l0 : magic.length = 6 := rfl
  have length := congrArg List.length there
  simp only [length_row,List.length_append,l0,l1,l2,l3,l4,l5,l6,l7] at length
  obtain ⟨first,t0⟩ := row_append there
  obtain ⟨-,t1⟩ := row_append t0
  obtain ⟨mode,t2⟩ := row_append t1
  obtain ⟨-,t3⟩ := row_append t2
  obtain ⟨size,t4⟩ := row_append t3
  obtain ⟨-,t5⟩ := row_append t4
  obtain ⟨names,t6⟩ := row_append t5
  obtain ⟨-,t7⟩ := row_append t6
  simp only [l0,l1,l2,l3,l4,l5,l6,l7,Nat.add_assoc,Nat.sub_sub,Nat.reduceAdd] at first mode size names t7
  exact ⟨first,mode,size,names,t7,by unfold headerSize; omega⟩

structure Entered (a : Archive) (p n : Nat) (f : File) (rest : List Byte) : Prop where
  magic : row a.mem p 6 = magic
  mode : a.hex8 (p + modeOffset) = f.mode.toNat
  size : a.hex8 (p + filesizeOffset) = f.content.length
  namesize : a.hex8 (p + namesizeOffset) = f.name.length + 1
  name : row a.mem (p + headerSize) (f.name.length + 1) = f.name ++ [0]
  data : alignUp (p + headerSize + (f.name.length + 1)) 4 = p + f.contentAt
  content : row a.mem (p + f.contentAt) f.content.length = f.content
  next : alignUp (p + f.contentAt + f.content.length) 4 = p + f.extent
  rest : row a.mem (p + f.extent) (n - f.extent) = rest
  inside : f.extent ≤ n
  header : headerSize ≤ n

theorem entered (there : row a.mem p n = f.written w ++ rest) (aligned : p % 4 = 0) : Entered a p n f rest := by
  obtain ⟨ino,middle,late,check⟩ := f.fields
  have length := congrArg List.length there
  rw [length_row,List.length_append,length_written] at length
  simp only [File.written,File.header,List.append_assoc,List.cons_append] at there
  obtain ⟨first,mode,size,names,body,header⟩ := bytes_header there ino (length_text ..) middle (length_text ..) late
    (length_text ..) check
  have name : row a.mem (p + headerSize) (n - headerSize) = (f.name ++ [0]) ++
      (padding (headerSize + (f.name.length + 1)) ++
        (f.content ++ (padding (f.contentAt + f.content.length) ++ rest))) := by
    rw [body]
    simp
  obtain ⟨named,t1⟩ := row_append name
  obtain ⟨-,t2⟩ := row_append t1
  obtain ⟨content,t3⟩ := row_append t2
  obtain ⟨-,t4⟩ := row_append t3
  have gap := length_padding (headerSize + (f.name.length + 1))
  have gap' := length_padding (f.contentAt + f.content.length)
  have start : p + headerSize + (f.name ++ [0]).length + (padding (headerSize + (f.name.length + 1))).length =
      p + f.contentAt := by
    rw [List.length_append,List.length_singleton]
    unfold File.contentAt
    omega
  have stop : p + f.contentAt + f.content.length + (padding (f.contentAt + f.content.length)).length =
    p + f.extent := by
    unfold File.extent
    omega
  rw [start] at content t3 t4
  rw [stop] at t4
  rw [List.length_append,List.length_singleton] at named
  refine ⟨first,hex8_text mode f.mode.isLt,hex8_text size f.small,hex8_text names f.named,named,?_,content,?_,?_,
    by omega,header⟩
  · rw [Nat.add_assoc]
    exact alignUp_add aligned _
  · rw [Nat.add_assoc]
    exact alignUp_add aligned _
  · have left := congrArg List.length t4
    rw [length_row] at left
    rw [← left] at length
    have same : n - f.extent = rest.length := by omega
    rw [same,← left]
    exact t4

end Archive

end Qsoe.Path
