import Qsoe.Lib.Traced
import Qsoe.Path.Cpio

/-! The bytes that the walk over the archive reads. The marker of the last entry is looked for before the
bounds of the entry are known, so a blob that breaks off inside the marker is read past its end. -/
namespace Qsoe.Path.Archive

open Cells

variable (a : Archive)

def read (x : Nat) : Traced Nat Byte := Traced.read a.mem x

/-- `tm_cpio_hex8`. -/
def readHex8 (p : Nat) : Traced Nat Nat :=
  (List.range 8).foldlM (fun v i => do
    let c ← a.read (p + i)
    pure (16 * v + hexDigit c)) 0

def agrees (p : Nat) : List Byte → Traced Nat Bool
  | [] => pure true
  | b :: rest => do
    let c ← a.read p
    if c = b then agrees (p + 1) rest else pure false

/-- `TRAILER!!!`, of which eight characters are compared. -/
def readTrailer (fname namesize : Nat) : Traced Nat Bool :=
    if 11 ≤ namesize then a.agrees fname trailer else pure false

def readName (fname namesize i : Nat) : Traced Nat Byte := if i < namesize then a.read (fname + i) else pure 0

/-- The comparison loop from position `i` on. -/
def compares (fname namesize : Nat) : Nat → List Byte → Traced Nat Bool
  | i, [] => do
    let c ← a.readName fname namesize i
    pure (c == 0)
  | i, b :: rest => do
    let c ← a.readName fname namesize i
    if c = b then if b = 0 then pure true else compares fname namesize (i + 1) rest else pure false

/-- One round of the loop in `tm_cpio_scan`: the next header, or the answer. -/
def scanStep (name : List Byte) (p : Nat) : Traced Nat (Nat ⊕ Option Entry) :=
  if a.stop - p < headerSize then pure (.inr none)
  else do
    if (← a.agrees p magic) = false then pure (.inr none)
    else
      let mode ← a.readHex8 (p + modeOffset)
      let size ← a.readHex8 (p + filesizeOffset)
      let namesize ← a.readHex8 (p + namesizeOffset)
      let fname := p + headerSize
      if (← a.readTrailer fname namesize) then pure (.inr none)
      else
        let data := alignUp (fname + namesize) 4
        let next := alignUp (data + size) 4
        if a.stop < next then pure (.inr none)
        else if (← a.compares fname namesize 0 name) then pure (.inr (some ⟨data,size,mode⟩))
        else pure (.inl next)

/-- `tm_cpio_scan`, up to as many rounds as the blob has bytes. -/
def scanRun (name : List Byte) : Option (Traced Nat (Option Entry)) :=
  Traced.loop (a.scanStep name) (a.len + 1) a.start

def Inside (x : Nat) : Prop := a.start ≤ x ∧ x < a.stop

/-- The scan ends, reads only the blob, and answers an entry of the blob. -/
def ScanSafe (name : List Byte) : Prop :=
  ∃ out, a.scanRun name = some out ∧ out.Within a.Inside ∧
    ∀ e, out.value = some e → a.start ≤ e.data ∧ e.data + e.size ≤ a.stop

variable {a}

@[simp] theorem value_agrees (p : Nat) (text : List Byte) :
    (a.agrees p text).value = (row a.mem p text.length == text) := by
  induction text generalizing p with
  | nil => rfl
  | cons b rest ih =>
    rw [agrees,List.length_cons,row_succ]
    by_cases same : a.mem p = b
    · simp [read,same,ih]
    · simp [read,same]

@[simp] theorem value_readHex8 (p : Nat) : (a.readHex8 p).value = a.hex8 p := by
  have fold : ∀ (is : List Nat) (v : Nat), ((is.foldlM (fun v i => do
      let c ← a.read (p + i)
      pure (16 * v + hexDigit c)) v : Traced Nat Nat)).value =
        (is.map fun i => a.mem (p + i)).foldl (fun v c => 16 * v + hexDigit c) v := by
    intro is
    induction is with
    | nil => exact fun v => rfl
    | cons i is ih => exact fun v => ih _
  exact fold _ 0

@[simp] theorem value_readTrailer (fname namesize : Nat) :
    (a.readTrailer fname namesize).value = decide (11 ≤ namesize ∧ row a.mem fname 8 = trailer) := by
  unfold readTrailer
  split
  · rename_i long
    rw [value_agrees]
    simp [long,trailer,beq_eq_decide]
  · rename_i short
    simp [short]

@[simp] theorem value_readName (fname namesize i : Nat) :
    (a.readName fname namesize i).value = if i < namesize then a.mem (fname + i) else 0 := by
  unfold readName
  split <;> rfl

@[simp] theorem value_compares (fname namesize i : Nat) (name : List Byte) :
    (a.compares fname namesize i name).value = a.named fname namesize i name := by
  induction name generalizing i with
  | nil =>
    rw [compares,Traced.value_bind,value_readName]
    rfl
  | cons b rest ih =>
    rw [compares,named,Traced.value_bind,value_readName]
    generalize (if i < namesize then a.mem (fname + i) else 0) = c
    by_cases same : c = b
    · rw [if_pos same]
      by_cases zero : b = 0
      · rw [if_pos zero]
        simp [same,zero]
      · rw [if_neg zero,ih,beq_eq_false_iff_ne.mpr zero,beq_iff_eq.mpr same]
        rfl
    · rw [if_neg same,beq_eq_false_iff_ne.mpr same]
      rfl

def nextHeader (a : Archive) (p : Nat) : Nat :=
  alignUp (alignUp (p + headerSize + a.hex8 (p + namesizeOffset)) 4 + a.hex8 (p + filesizeOffset)) 4

theorem value_scanStep (name : List Byte) (p : Nat) : (a.scanStep name p).value =
    if a.stop - p < headerSize then .inr none
    else if row a.mem p 6 ≠ magic then .inr none
    else if 11 ≤ a.hex8 (p + namesizeOffset) ∧ row a.mem (p + headerSize) 8 = trailer then .inr none
    else if a.stop < a.nextHeader p then .inr none
    else if a.named (p + headerSize) (a.hex8 (p + namesizeOffset)) 0 name then
      .inr (some ⟨alignUp (p + headerSize + a.hex8 (p + namesizeOffset)) 4,a.hex8 (p + filesizeOffset),
        a.hex8 (p + modeOffset)⟩)
    else .inl (a.nextHeader p) := by
  rw [scanStep]
  split
  · rfl
  · have length : magic.length = 6 := rfl
    simp only [Traced.value_bind,value_agrees,length,beq_eq_false_iff_ne]
    by_cases known : row a.mem p 6 ≠ magic
    · rw [if_pos known,if_pos known]
      rfl
    · rw [if_neg known,if_neg known]
      simp only [Traced.value_bind,value_readHex8,value_readTrailer,decide_eq_true_eq]
      by_cases last : 11 ≤ a.hex8 (p + namesizeOffset) ∧ row a.mem (p + headerSize) 8 = trailer
      · rw [if_pos last,if_pos last]
        rfl
      · rw [if_neg last,if_neg last]
        unfold nextHeader
        split
        · rfl
        · rw [Traced.value_bind,value_compares]
          split <;> rfl

theorem agrees_within (P : Nat → Prop) (p : Nat) (text : List Byte) :
    (a.agrees p text).Within P ↔ ∀ n < text.length, row a.mem p n = text.take n → P (p + n) := by
  induction text generalizing p with
  | nil => exact ⟨fun _ n less => absurd less (Nat.not_lt_zero n),fun _ => Traced.within_pure true⟩
  | cons b rest ih =>
    rw [agrees,Traced.within_bind]
    have first : (a.read p).Within P ↔ P p := Traced.within_read a.mem p
    have here : (a.read p).value = a.mem p := rfl
    rw [first,here]
    by_cases same : a.mem p = b
    · rw [if_pos same,ih]
      constructor
      · rintro ⟨head,tail⟩ n less agree
        cases n with
        | zero => exact head
        | succ n =>
          rw [row_succ,List.take_succ_cons] at agree
          rw [show p + (n + 1) = p + 1 + n from by omega]
          exact tail n (Nat.lt_of_succ_lt_succ less) (List.cons.inj agree).2
      · intro all
        refine ⟨all 0 (Nat.succ_pos _) rfl,fun n less agree => ?_⟩
        rw [show p + 1 + n = p + (n + 1) from by omega]
        refine all (n + 1) (Nat.succ_lt_succ less) ?_
        rw [row_succ,List.take_succ_cons,same,agree]
    · rw [if_neg same]
      constructor
      · rintro ⟨head,-⟩ n less agree
        cases n with
        | zero => exact head
        | succ n =>
          rw [row_succ,List.take_succ_cons] at agree
          exact absurd (List.cons.inj agree).1 same
      · exact fun all => ⟨all 0 (Nat.succ_pos _) rfl,Traced.within_pure false⟩

theorem readHex8_within (P : Nat → Prop) (p : Nat) (digits : ∀ i < 8, P (p + i)) : (a.readHex8 p).Within P := by
  have fold : ∀ (is : List Nat) (v : Nat), (∀ i ∈ is, P (p + i)) → ((is.foldlM (fun v i => do
      let c ← a.read (p + i)
      pure (16 * v + hexDigit c)) v : Traced Nat Nat)).Within P := by
    intro is
    induction is with
    | nil => exact fun v _ => Traced.within_pure v
    | cons i is ih =>
      intro v all
      rw [List.foldlM_cons,Traced.within_bind,Traced.within_bind]
      refine ⟨⟨(Traced.within_read a.mem _).mpr (all i List.mem_cons_self),Traced.within_pure _⟩,?_⟩
      exact ih _ fun j member => all j (List.mem_cons_of_mem _ member)
  exact fold _ 0 fun i member => digits i (List.mem_range.mp member)

theorem readName_within (P : Nat → Prop) (fname namesize i : Nat) (chars : ∀ j < namesize, P (fname + j)) :
    (a.readName fname namesize i).Within P := by
  unfold readName
  split
  · rename_i less
    exact (Traced.within_read a.mem _).mpr (chars i less)
  · exact Traced.within_pure 0

theorem compares_within (P : Nat → Prop) (fname namesize i : Nat) (name : List Byte)
    (chars : ∀ j < namesize, P (fname + j)) :
    (a.compares fname namesize i name).Within P := by
  induction name generalizing i with
  | nil =>
    rw [compares,Traced.within_bind]
    exact ⟨readName_within P fname namesize i chars,Traced.within_pure _⟩
  | cons b rest ih =>
    rw [compares,Traced.within_bind]
    refine ⟨readName_within P fname namesize i chars,?_⟩
    split
    · split
      · exact Traced.within_pure true
      · exact ih (i + 1)
    · exact Traced.within_pure false

/-- The blob breaks off inside what may be the marker. -/
structure Clipped (a : Archive) (p : Nat) : Prop where
  header : headerSize ≤ a.stop - p
  known : row a.mem p 6 = magic
  long : 11 ≤ a.hex8 (p + namesizeOffset)
  broken : ∃ n < 8, p + headerSize + n = a.stop ∧ row a.mem (p + headerSize) n = trailer.take n

theorem readTrailer_within (after : a.start ≤ p) (header : headerSize ≤ a.stop - p)
    (known : row a.mem p 6 = magic) :
    (a.readTrailer (p + headerSize) (a.hex8 (p + namesizeOffset))).Within a.Inside ↔ ¬a.Clipped p := by
  have size : headerSize = 110 := rfl
  unfold readTrailer
  split
  · rename_i long
    rw [agrees_within]
    constructor
    · rintro all ⟨-,-,-,n,less,stop,agree⟩
      have inside := (all n less agree).2
      omega
    · intro whole n less agree
      refine ⟨by omega,?_⟩
      by_contra past
      -- the bytes in front of the end agree too
      have cut : a.stop - (p + headerSize) ≤ n := by omega
      refine whole ⟨header,known,long,a.stop - (p + headerSize),Nat.lt_of_le_of_lt cut less,by omega,?_⟩
      have front := congrArg (List.take (a.stop - (p + headerSize))) agree
      rw [List.take_take,Nat.min_eq_left cut] at front
      rw [← front]
      rw [row_eq_map,row_eq_map,← List.map_take,List.take_range,Nat.min_eq_left cut]
  · rename_i short
    exact ⟨fun _ clipped => short clipped.long,fun _ => Traced.within_pure false⟩

theorem scanStep_within (name : List Byte) (after : a.start ≤ p) :
    (a.scanStep name p).Within a.Inside ↔ ¬a.Clipped p := by
  rw [scanStep]
  split
  · rename_i short
    refine ⟨fun _ clipped => ?_,fun _ => Traced.within_pure _⟩
    have header := clipped.header
    omega
  · rename_i room
    have size : headerSize = 110 := rfl
    have field : ∀ offset, offset ≤ 102 → ∀ i < 8, a.Inside (p + offset + i) := fun offset low i less =>
      ⟨by omega,by omega⟩
    have start : (a.agrees p magic).Within a.Inside :=
      (agrees_within _ p magic).mpr fun n less _ => ⟨by omega,by
        have length : magic.length = 6 := rfl
        omega⟩
    have length : magic.length = 6 := rfl
    simp only [Traced.within_bind,value_agrees,length,beq_eq_false_iff_ne,start,true_and]
    split
    · rename_i other
      exact ⟨fun _ clipped => other clipped.known,fun _ => Traced.within_pure _⟩
    · rename_i known
      have fields : ∀ offset, offset ≤ 102 → (a.readHex8 (p + offset)).Within a.Inside :=
        fun offset low => readHex8_within a.Inside (p + offset) (field offset low)
      simp only [Traced.within_bind,value_readHex8,fields modeOffset (by decide),fields filesizeOffset (by decide),
        fields namesizeOffset (by decide),true_and,readTrailer_within after (Nat.not_lt.mp room) (not_not.mp known)]
      refine and_iff_left_of_imp fun _ => ?_
      split
      · exact Traced.within_pure _
      · split
        · exact Traced.within_pure _
        · rename_i fits
          have first := le_alignUp (p + headerSize + a.hex8 (p + namesizeOffset))
          have second := le_alignUp (alignUp (p + headerSize + a.hex8 (p + namesizeOffset)) 4 + a.hex8
            (p + filesizeOffset))
          rw [Traced.within_bind]
          refine ⟨compares_within _ _ _ 0 name fun j less => ⟨by omega,by omega⟩,?_⟩
          split <;> exact Traced.within_pure _

/-- An entry that is there as a whole and is not the last. -/
structure Whole (a : Archive) (p : Nat) : Prop where
  header : headerSize ≤ a.stop - p
  known : row a.mem p 6 = magic
  inner : ¬(11 ≤ a.hex8 (p + namesizeOffset) ∧ row a.mem (p + headerSize) 8 = trailer)
  fits : a.nextHeader p ≤ a.stop

/-- The headers that a search for `name` passes: those behind whole entries of other names. -/
inductive Passes (a : Archive) (name : List Byte) : Nat → Prop where
  | first : Passes a name a.start
  | next : Passes a name p → a.Whole p → a.named (p + headerSize) (a.hex8 (p + namesizeOffset)) 0 name = false →
      Passes a name (a.nextHeader p)

theorem scanStep_inl : (a.scanStep name p).value = .inl q ↔
    a.Whole p ∧ a.named (p + headerSize) (a.hex8 (p + namesizeOffset)) 0 name = false ∧ q = a.nextHeader p := by
  rw [value_scanStep]
  constructor
  · intro taken
    split at taken
    · cases taken
    · rename_i room
      split at taken
      · cases taken
      · rename_i known
        split at taken
        · cases taken
        · rename_i inner
          split at taken
          · cases taken
          · rename_i fits
            split at taken
            · cases taken
            · rename_i other
              exact ⟨⟨Nat.not_lt.mp room,not_not.mp known,inner,Nat.not_lt.mp fits⟩,Bool.not_eq_true _ ▸ other,
                (Sum.inl.inj taken).symm⟩
  · rintro ⟨whole,other,rfl⟩
    rw [if_neg (Nat.not_lt.mpr whole.header),if_neg (not_not.mpr whole.known),if_neg whole.inner,
      if_neg (Nat.not_lt.mpr whole.fits),other]
    rfl

theorem reaches_iff : Traced.Reaches (a.scanStep name) a.start p ↔ a.Passes name p := by
  constructor
  · intro reached
    induction reached with
    | start => exact .first
    | next _ taken ih =>
      obtain ⟨whole,other,rfl⟩ := scanStep_inl.mp taken
      exact .next ih whole other
  · intro passed
    induction passed with
    | first => exact .start
    | next _ whole other ih => exact .next ih (scanStep_inl.mpr ⟨whole,other,rfl⟩)

theorem lt_nextHeader (a : Archive) (p : Nat) : p + headerSize ≤ a.nextHeader p := by
  have first := le_alignUp (p + headerSize + a.hex8 (p + namesizeOffset))
  have second := le_alignUp (alignUp (p + headerSize + a.hex8 (p + namesizeOffset)) 4 + a.hex8 (p + filesizeOffset))
  unfold nextHeader
  omega

theorem Passes.after (passed : a.Passes name p) : a.start ≤ p := by
  induction passed with
  | first => exact Nat.le_refl _
  | @next p _ _ _ ih =>
    have further := lt_nextHeader a p
    omega

theorem scanRun_halts (a : Archive) (name : List Byte) : ∃ out, a.scanRun name = some out := by
  refine Traced.loop_halts _ _ (fun p => a.stop - p) (fun p _ q taken => ?_) ?_
  · obtain ⟨whole,-,rfl⟩ := scanStep_inl.mp taken
    have further := lt_nextHeader a p
    have room := whole.header
    have size : headerSize = 110 := rfl
    omega
  · unfold stop
    omega

theorem scanFrom_succ (name : List Byte) (rounds p : Nat) :
    a.scanFrom name (rounds + 1) p = (a.scanStep name p).value.elim (a.scanFrom name rounds) id := by
  rw [value_scanStep,scanFrom]
  unfold nextHeader
  dsimp only
  split
  · rfl
  · split
    · rfl
    · split
      · rfl
      · split
        · rfl
        · split <;> rfl

theorem loop_scanFrom (run : Traced.loop (a.scanStep name) rounds p = some out) :
    out.value = a.scanFrom name rounds p := by
  induction rounds generalizing p out with
  | zero => cases run
  | succ rounds ih =>
    rw [Traced.loop] at run
    rw [scanFrom_succ]
    cases turn : (a.scanStep name p).value with
    | inr answer =>
      rw [turn] at run
      obtain rfl := Option.some.inj run
      rfl
    | inl q =>
      rw [turn] at run
      obtain ⟨rest,later,rfl⟩ := Option.map_eq_some_iff.mp run
      have same := ih later
      exact same

/-- The scan is safe exactly if the walk comes to no place where the blob breaks off inside the marker. -/
theorem scan_safe (a : Archive) (name : List Byte) : a.ScanSafe name ↔ ∀ p, a.Passes name p → ¬a.Clipped p := by
  obtain ⟨out,run⟩ := scanRun_halts a name
  have reads : out.Within a.Inside ↔ ∀ p, a.Passes name p → ¬a.Clipped p := by
    refine (Traced.loop_within run).trans (forall_congr' fun p => ?_)
    rw [reaches_iff]
    exact forall_congr' fun passed => scanStep_within name passed.after
  constructor
  · rintro ⟨out',run',within,-⟩
    obtain rfl := Option.some.inj (run.symm.trans run')
    exact reads.mp within
  · intro whole
    refine ⟨out,run,reads.mpr whole,fun e found => ?_⟩
    obtain ⟨low,high,-⟩ := scan_holds ((loop_scanFrom run).symm.trans found)
    exact ⟨low,high⟩

/-- A blob of one header, with a name of eleven bytes that is not there. -/
def headerOnly : Archive where
  start := 4096
  len := 110
  mem x := (magic ++ List.replicate 94 0x30 ++ [0x30,0x62] ++ List.replicate 8 0x30)[x - 4096]?.getD 0
  entries := []
  placed := by decide
  low := by decide

/-- The first character of the name is read behind the blob. -/
theorem scan_reads_past : ¬headerOnly.ScanSafe [] := by
  rintro ⟨out,run,within,-⟩
  have clipped : headerOnly.Clipped 4096 := by
    refine ⟨by decide,by decide +kernel,by decide +kernel,0,by decide,by decide,rfl⟩
  have first := (Traced.loop_within run).mp within 4096 .start
  exact (scanStep_within [] (Nat.le_refl _)).mp first clipped

end Qsoe.Path.Archive
