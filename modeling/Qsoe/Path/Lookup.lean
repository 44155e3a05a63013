import Qsoe.Path.Layout

/-! `tm_cpio_scan` and `tm_cpio_lookup` on an archive that was written from a list of files: they give
back the file of a name, and follow one link to it. -/
namespace Qsoe.Path

open Cells

/-- The file of a name that is written first. -/
def fileNamed (files : List File) (name : List Byte) : Option File := files.find? fun f => f.name = name

/-- Where the content of a link at `name` points. -/
def linkText (name text : List Byte) : List Byte :=
    if text.head? = some slash then text.tail else Archive.parent name ++ text

/-- A target of 128 bytes or more is not followed, and no link behind a link; a NUL ends a target. -/
def resolved (files : List File) (name : List Byte) : Option File :=
  match fileNamed files name with
  | none => none
  | some f =>
    if f.isLink = false then some f
    else if f.content = [] ∨ 128 ≤ f.content.length then none
    else if 127 < (linkText name f.content).length then none
    else (fileNamed files (cstr (linkText name f.content))).filter fun g => !g.isLink

namespace Archive

variable {a : Archive} {w : Digits} {f : File} {files : List File} {p n rounds : Nat} {s name rest : List Byte}

/-- What the scan answers about a file. -/
def Answers (a : Archive) (found : Option Entry) : Option File → Prop
  | none => found = none
  | some f =>
    ∃ e, found = some e ∧ e.size = f.content.length ∧ e.mode = f.mode.toNat ∧ row a.mem e.data e.size = f.content

/-- What the lookup answers about a file. -/
def Delivers (a : Archive) (found : Option (Nat × Nat)) : Option File → Prop
  | none => found = none
  | some f => ∃ data, found = some (data,f.content.length) ∧ row a.mem data f.content.length = f.content

theorem mem_of_row {i : Nat} (there : row a.mem p n = s) (less : i < n) : some (a.mem (p + i)) = s[i]? := by
  rw [← there,row_eq_map,List.getElem?_map,List.getElem?_range less]
  rfl

theorem named_from {i : Nat} (there : row a.mem p (s.length + 1) = s ++ [0]) (free : 0 ∉ s) (free' : 0 ∉ name)
    (inside : i ≤ s.length) :
    a.named p (s.length + 1) i name = true ↔ s.drop i = name := by
  have char : i < s.length + 1 := by omega
  have cell := mem_of_row there char
  induction name generalizing i with
  | nil =>
    rw [named,if_pos char,beq_iff_eq]
    rcases Nat.lt_or_ge i s.length with less | past
    · rw [List.getElem?_append_left less,List.getElem?_eq_getElem less] at cell
      have other : a.mem (p + i) ≠ 0 := fun zero => free (zero ▸ Option.some.inj cell ▸ List.getElem_mem less)
      have longer : s.drop i ≠ [] := by
        rw [ne_eq,List.drop_eq_nil_iff]
        omega
      exact iff_of_false other longer
    · have last : i = s.length := by omega
      rw [last,List.getElem?_concat_length] at cell
      rw [last]
      exact iff_of_true (Option.some.inj cell) List.drop_length
  | cons c name ih =>
    have nonzero : c ≠ 0 := fun zero => free' (zero ▸ List.mem_cons_self)
    have ordinary : (c == 0) = false := beq_eq_false_iff_ne.mpr nonzero
    rw [named,if_pos char,ordinary,Bool.false_or,Bool.and_eq_true,beq_iff_eq]
    rcases Nat.lt_or_ge i s.length with less | past
    · rw [List.getElem?_append_left less,List.getElem?_eq_getElem less] at cell
      have later : a.named p (s.length + 1) (i + 1) name = true ↔ s.drop (i + 1) = name :=
        ih (fun member => free' (List.mem_cons_of_mem c member)) less (by omega) (mem_of_row there (by omega))
      rw [later,Option.some.inj cell,List.drop_eq_getElem_cons less,List.cons.injEq]
    · have last : i = s.length := by omega
      rw [last,List.getElem?_concat_length] at cell
      rw [last,Option.some.inj cell,List.drop_length]
      exact iff_of_false (fun both => nonzero both.1.symm) (List.cons_ne_nil c name).symm

theorem named_cstr (fname namesize i : Nat) (name : List Byte) :
    a.named fname namesize i (cstr name) = a.named fname namesize i name := by
  induction name generalizing i with
  | nil => rfl
  | cons c name ih =>
    by_cases zero : c = 0
    · have cut : cstr (c :: name) = [] := List.takeWhile_cons_of_neg (by simp [zero])
      rw [cut,named,named,zero]
      simp
    · have kept : cstr (c :: name) = c :: cstr name := List.takeWhile_cons_of_pos (by simpa using zero)
      rw [kept,named,named,ih]

theorem scan_cstr (a : Archive) (name : List Byte) : a.scan (cstr name) = a.scan name := by
  have same : ∀ rounds p, a.scanFrom (cstr name) rounds p = a.scanFrom name rounds p := by
    intro rounds
    induction rounds with
    | zero => exact fun p => rfl
    | succ rounds ih =>
      intro p
      simp only [scanFrom,named_cstr,ih]
  exact same _ _

/-- No entry but the last has the name of the trailer. -/
theorem Entered.ordinary (here : Entered a p n f rest) : ¬row a.mem (p + headerSize) 8 = trailer := by
  intro same
  have length : trailer.length = 8 := rfl
  rcases Nat.lt_or_ge f.name.length 8 with short | long
  · have cell := mem_of_row here.name (show f.name.length < f.name.length + 1 by omega)
    have cell' := mem_of_row same short
    rw [List.getElem?_concat_length] at cell
    rw [cell] at cell'
    have member : (0 : Byte) ∈ trailer := List.mem_of_getElem? cell'.symm
    exact absurd member (by decide)
  · have front : f.name <+: f.name ++ [0] := List.prefix_append _ _
    have split := row_add a.mem (p + headerSize) 8 (f.name.length + 1 - 8)
    rw [Nat.add_sub_cancel' (by omega),here.name,same] at split
    have begins : trailer <+: f.name ++ [0] := ⟨_,split.symm⟩
    exact f.notTrailer (List.prefix_of_prefix_length_le begins front (by omega))

theorem scanFrom_entered (here : Entered a p (a.stop - p) f rest) (free : 0 ∉ name) :
    a.scanFrom name (rounds + 1) p =
      if f.name = name then some ⟨p + f.contentAt,f.content.length,f.mode.toNat⟩ else a.scanFrom name rounds
        (p + f.extent) := by
  have header := here.header
  have inside := here.inside
  have known := here.magic
  have room : ¬a.stop < p + f.extent := by
    have width : headerSize = 110 := rfl
    omega
  have named := named_from here.name f.nulFree free (Nat.zero_le _)
  rw [List.drop_zero] at named
  simp only [scanFrom]
  rw [if_neg (Nat.not_lt_of_le header),if_neg (not_not.mpr known),here.namesize,here.size,here.mode,
    here.data,here.next,if_neg fun both => here.ordinary both.2,if_neg room]
  by_cases same : f.name = name
  · rw [if_pos (named.mpr same),if_pos same]
  · rw [if_neg (mt named.mp same),if_neg same]

theorem scanFrom_trailer {ino mode middle late check : List Byte} (l1 : ino.length = 8) (l2 : mode.length = 8)
    (l3 : middle.length = 32) (l5 : late.length = 32) (l7 : check.length = 8)
    (there : row a.mem p n = trailerHeader w ino mode middle late check ++ (trailerName ++ 0 :: rest)) :
    a.scanFrom name rounds p = none := by
  cases rounds with
  | zero => rfl
  | succ rounds =>
    have shape := there
    simp only [trailerHeader,List.append_assoc] at shape
    obtain ⟨known,-,-,names,behind,-⟩ := bytes_header shape l1 l2 l3 (length_text ..) l5 (length_text ..) l7
    have namesize : a.hex8 (p + namesizeOffset) = 11 := hex8_text names (by decide)
    rw [trailerName,List.append_assoc] at behind
    have ends : row a.mem (p + headerSize) 8 = trailer := (row_append behind).1
    simp only [scanFrom]
    split
    · rfl
    · rw [if_neg (not_not.mpr known),namesize,if_pos ⟨Nat.le_refl 11,ends⟩]

theorem scanFrom_written (there : row a.mem p (a.stop - p) = files.flatMap (File.written w) ++ rest)
    (aligned : p % 4 = 0) (free : 0 ∉ name)
    (enough : files.length < rounds) (last : ∀ q rounds, row a.mem q (a.stop - q) = rest →
      a.scanFrom name rounds q = none) :
    a.Answers (a.scanFrom name rounds p) (fileNamed files name) := by
  induction files generalizing p rounds with
  | nil => exact last p rounds there
  | cons f files ih =>
    obtain ⟨rounds,rfl⟩ : ∃ m, rounds = m + 1 := ⟨rounds - 1,by omega⟩
    rw [List.flatMap_cons,List.append_assoc] at there
    have here := entered there aligned
    rw [scanFrom_entered here free,fileNamed,List.find?_cons]
    by_cases same : f.name = name
    · rw [if_pos same,decide_eq_true same]
      exact ⟨_,rfl,rfl,rfl,here.content⟩
    · rw [if_neg same,decide_eq_false same]
      have next := here.rest
      rw [Nat.sub_sub] at next
      have whole : f.extent % 4 = 0 := by
        unfold File.extent alignUp
        omega
      exact ih next (by omega) (by rw [List.length_cons] at enough; omega)

theorem scan_written (start : a.start % 4 = 0) (written : Written w files (row a.mem a.start a.len))
    (free : 0 ∉ name) :
    a.Answers (a.scan name) (fileNamed files name) := by
  obtain ⟨ino,mode,middle,late,check,rest,l1,l2,l3,l5,l7,whole⟩ := written
  have size : a.stop - a.start = a.len := by
    unfold stop
    omega
  have long : files.length ≤ (files.flatMap (File.written w)).length := by
    clear whole
    induction files with
    | nil => exact Nat.le_refl 0
    | cons f files ih =>
      have nonzero : f.extent ≠ 0 := by
        unfold File.extent File.contentAt alignUp headerSize
        omega
      rw [List.flatMap_cons,List.length_append,List.length_cons,length_written]
      omega
  have total := congrArg List.length whole
  rw [length_row,List.length_append] at total
  rw [← size] at whole
  exact scanFrom_written whole start free (by omega) fun q rounds there =>
    scanFrom_trailer l1 l2 l3 l5 l7 there

theorem cstr_free (bytes : List Byte) : 0 ∉ cstr bytes := by
  intro member
  simpa using List.mem_takeWhile_imp member

theorem isLink_eq {e : Entry} (mode : e.mode = f.mode.toNat) : e.isLink =
    f.isLink := by rw [Entry.isLink,mode,File.isLink]

theorem lookup_written (start : a.start % 4 = 0) (written : Written w files (row a.mem a.start a.len))
    (free : 0 ∉ name) :
    a.Delivers (a.lookup name) (resolved files name) := by
  have first := scan_written start written free
  rw [resolved]
  cases named : fileNamed files name with
  | none =>
    rw [named] at first
    rw [lookup,show a.scan name = none from first]
    rfl
  | some f =>
    rw [named] at first
    obtain ⟨e,found,size,mode,content⟩ := first
    have link := isLink_eq mode
    have target : a.target name e = linkText name f.content := by rw [Archive.target,content,linkText]
    have empty : e.size = 0 ∨ 128 ≤ e.size ↔
      f.content = [] ∨ 128 ≤ f.content.length := by rw [size,List.length_eq_zero_iff]
    rw [lookup,found]
    dsimp only
    rw [link,target]
    by_cases plain : f.isLink = false
    · rw [if_pos plain,if_pos plain]
      exact ⟨e.data,by rw [size],size ▸ content⟩
    · rw [if_neg plain,if_neg plain]
      by_cases refused : f.content = [] ∨ 128 ≤ f.content.length
      · rw [if_pos (empty.mpr refused),if_pos refused]
        rfl
      · rw [if_neg (mt empty.mp refused),if_neg refused]
        by_cases long : 127 < (linkText name f.content).length
        · rw [if_pos long,if_pos long]
          rfl
        · have second := scan_written start written (cstr_free (linkText name f.content))
          rw [scan_cstr] at second
          rw [if_neg long,if_neg long]
          cases behind : fileNamed files (cstr (linkText name f.content)) with
          | none =>
            rw [behind] at second
            rw [show a.scan (linkText name f.content) = none from second]
            rfl
          | some g =>
            rw [behind] at second
            obtain ⟨e',found',size',mode',content'⟩ := second
            have last := isLink_eq mode'
            rw [found',Option.filter_some]
            dsimp only
            rw [last]
            cases g.isLink with
            | true => rfl
            | false => exact ⟨e'.data,by rw [size']; rfl,size' ▸ content'⟩

/-- Lookup inverts writing: scans give back every file with its size, mode and content, and lookups the
file behind at most one link. -/
theorem archive_lookup (start : a.start % 4 = 0) (written : Written w files (row a.mem a.start a.len))
    (free : 0 ∉ name) :
    a.Answers (a.scan name) (fileNamed files name) ∧ a.Delivers (a.lookup name) (resolved files name) :=
  ⟨scan_written start written free,lookup_written start written free⟩

def plainFile (name content : List Byte) (mode : BitVec 32) (nulFree : 0 ∉ name) (named : name.length + 1 < 2 ^ 32)
    (small : content.length < 2 ^ 32) (notTrailer : ¬trailer <+: name) : File where
  name := name
  mode := mode
  content := content
  ino := List.replicate 8 0x30
  middle := List.replicate 32 0x30
  late := List.replicate 32 0x30
  check := List.replicate 8 0x30
  nulFree := nulFree
  named := named
  small := small
  notTrailer := notTrailer
  fields := ⟨rfl,rfl,rfl,rfl⟩

/-- `b/s`, and a link `s` to it. -/
def twoFiles : List File :=
  [plainFile [0x62,slash,0x73] [1,2] 0o100755 (by decide) (by decide) (by decide) (by decide),
    plainFile [0x73] [slash,0x62,slash,0x73] 0o120777 (by decide) (by decide) (by decide) (by decide)]

def twoBytes : List Byte :=
  twoFiles.flatMap (File.written lower) ++ (trailerHeader lower (List.replicate 8 0x30) (List.replicate 8 0x30)
    (List.replicate 32 0x30)
    (List.replicate 32 0x30) (List.replicate 8 0x30) ++ (trailerName ++ 0 :: []))

def twoArchive : Archive where
  start := 8192
  len := 357
  mem x := twoBytes.getD (x - 8192) 0
  entries := twoFiles.map File.name
  placed := by decide
  low := by decide

theorem length_twoBytes : twoBytes.length = 357 := by decide +kernel

theorem twoArchive_row : row twoArchive.mem twoArchive.start twoArchive.len = twoBytes := by
  unfold twoArchive
  simp only [← length_twoBytes]
  exact row_getD twoBytes 0 8192

theorem twoBytes_written : Written lower twoFiles twoBytes := by
  refine ⟨List.replicate 8 0x30,List.replicate 8 0x30,List.replicate 32 0x30,List.replicate 32 0x30,
    List.replicate 8 0x30,[],List.length_replicate,List.length_replicate,List.length_replicate,
    List.length_replicate,List.length_replicate,?_⟩
  unfold twoBytes
  rfl

theorem archive_lookup_two : twoArchive.Answers (twoArchive.scan [0x73]) (fileNamed twoFiles [0x73]) ∧
    twoArchive.Delivers (twoArchive.lookup [0x73]) (resolved twoFiles [0x73]) := by
  have written := twoBytes_written
  rw [← twoArchive_row] at written
  exact archive_lookup (by decide) written (by decide)

end Archive

end Qsoe.Path
