import Qsoe.Lib.Records
import Qsoe.Lib.Traced
import Qsoe.Lib.Words
import Qsoe.Rsrc.Database

/-! The tag list of `syscfg.c` and its three readers. Each reader goes from header to header with a loop of its
own; on a list that was emitted they all come to the headers of the accepted records, in order. -/
namespace Qsoe.Sys

open Words (Byte)

/-- What `<qsoe/syscfg.h>` and `<sys/rsrcdbmgr.h>` define: `TM_SYSCFG_MAX`, the tags that are looked for, the flags
of a window and the class of memory. -/
structure Consts where
  max : BitVec 32
  memory : BitVec 16
  pciWindow : BitVec 16
  windowMem : BitVec 32
  windowPrefetch : BitVec 32
  memoryClass : Nat

/-- `TM_SYSCFG_TAG_END`. -/
def tagEnd : BitVec 16 := 0

/-- `s_blob` up to `s_blob_len`, and `s_blob_ready`. -/
structure Syscfg where
  blob : List Byte
  ready : Bool

def low (v : BitVec 16) : Byte := v.setWidth 8

def high (v : BitVec 16) : Byte := (v >>> 8).setWidth 8

abbrev Record := BitVec 16 × List Byte

def tagFormat : Records.Format (BitVec 16) Byte where
  width := 4
  header id n := [low id,high id,low (BitVec.ofNat 16 n),high (BitVec.ofNat 16 n)]
  length_header _ _ := rfl

/-- `emit` -/
def emit (max : BitVec 32) (blob : List Byte) (r : Record) : List Byte × Bool :=
  if max < BitVec.ofNat 32 blob.length + 4 + BitVec.ofNat 32 r.2.length then (blob,false)
  else (blob ++ Records.cells tagFormat r,true)

/-- The calls of `emit` and its helpers. -/
inductive Emission where
  | plain (id : BitVec 16) (payload : List Byte)
  | u32 (id : BitVec 16) (v : BitVec 32)
  | u64 (id : BitVec 16) (v : BitVec 64)
  | asciz (id : BitVec 16) (s : List Byte)

/-- What is emitted; a string gets its NUL, and an empty one is left out. -/
def Emission.record : Emission → Option Record
  | .plain id payload => some (id,payload)
  | .u32 id v => some (id,(Words.bytesOf (v.setWidth 64)).take 4)
  | .u64 id v => some (id,Words.bytesOf v)
  | .asciz id s => if s.length = 0 then none else some (id,s ++ [0])

def Emission.send (max : BitVec 32) (blob : List Byte) (e : Emission) : List Byte × Bool :=
  match e.record with
  | none => (blob,true)
  | some r => emit max blob r

/-- The emissions one after the other, whether they are accepted or not. -/
def build (max : BitVec 32) (blob : List Byte) (es : List Emission) : List Byte :=
    es.foldl (fun b e => (e.send max b).1) blob

structure Header where
  off : BitVec 32
  id : BitVec 16
  len : BitVec 16
  deriving DecidableEq, Repr

def byteAt (bp : List Byte) (off : BitVec 32) : Byte := bp.getD off.toNat 0

def headerAt (bp : List Byte) (off : BitVec 32) : Traced (BitVec 32) Header :=
  ⟨⟨off,byteAt bp (off + 1) ++ byteAt bp off,byteAt bp (off + 3) ++ byteAt bp (off + 2)⟩,[off]⟩

variable {σ ρ : Type}

def walkStep (bp : List Byte) (visit : σ → Header → σ ⊕ ρ) (done : σ → ρ) (s : BitVec 32 × σ) :
    Traced (BitVec 32) ((BitVec 32 × σ) ⊕ ρ) :=
  if s.1 + 4 ≤ BitVec.ofNat 32 bp.length then do
    let h ← headerAt bp s.1
    pure (if h.id = tagEnd then .inr (done s.2) else (visit s.2 h).map
      (fun t => (s.1 + (4 + h.len.setWidth 32),t)) id)
  else pure (.inr (done s.2))

def walk (rounds : Nat) (bp : List Byte) (visit : σ → Header → σ ⊕ ρ) (done : σ → ρ) (s : σ) :
    Option (Traced (BitVec 32) ρ) :=
  Traced.loop (walkStep bp visit done) rounds (0,s)

def findVisit (tagId : BitVec 32) (_ : Unit) (h : Header) : Unit ⊕ Option (BitVec 32 × BitVec 16) :=
  if h.id.setWidth 32 = tagId then .inr (some (h.off + 4,h.len)) else .inl ()

/-- `tm_syscfg_find`: where the payload starts and its length. -/
def tmSyscfgFind (rounds : Nat) (c : Syscfg) (tagId : BitVec 32) :
    Option (Traced (BitVec 32) (Option (BitVec 32 × BitVec 16))) :=
  if c.ready then walk rounds c.blob (findVisit tagId) (fun _ => none) () else some (pure none)

/-- `rd64` and `rd32` -/
def rd64 (b : List Byte) (off : Nat) : BitVec 64 := Words.wordOf (Records.slice b off 8)

def rd32 (b : List Byte) (off : Nat) : BitVec 32 := (Words.wordOf (Records.slice b off 4)).setWidth 32

/-- The bytes behind a header. -/
def payload (bp : List Byte) (h : Header) : List Byte := Records.slice bp (h.off + 4).toNat h.len.toNat

/-- A record of the database for a memory range; no database stands for a list walk that does not end. -/
def seedMemory (k : Rsrc.Consts) (cls : Nat) (db : Rsrc.Database) (bytes : List Byte) :
    Rsrc.Database ⊕ Option Rsrc.Database :=
  match db.poolAlloc with
  | none => .inr (some db)
  | some (db',e) =>
    match (db'.setEntry e ⟨rd64 bytes 0,rd64 bytes 0 + rd64 bytes 8 - 1,0,cls,0⟩).listInsert k e with
    | none => .inr none
    | some db'' => .inl db''

def seedVisit (c : Consts) (k : Rsrc.Consts) (bp : List Byte) (db : Rsrc.Database) (h : Header) :
    Rsrc.Database ⊕ Option Rsrc.Database :=
  if h.id = c.memory ∧ h.len = 16 then seedMemory k c.memoryClass db (payload bp h) else .inl db

/-- `tm_rsrc_seed_from_syscfg` -/
def tmRsrcSeedFromSyscfg (rounds : Nat) (c : Consts) (k : Rsrc.Consts) (cfg : Syscfg) (db : Rsrc.Database) :
    Option (Traced (BitVec 32) (Option Rsrc.Database)) :=
  if cfg.ready then walk rounds cfg.blob (seedVisit c k cfg.blob) some db else some (pure (some db))

/-- `mmio_cpu_base`, `mmio_pci_base` and `mmio_size`. -/
structure Window where
  cpuBase : BitVec 64
  pciBase : BitVec 64
  size : BitVec 64
  deriving DecidableEq, Repr

def windowIn (c : Consts) (w : List Byte) : Option Window :=
  if rd32 w 24 &&& c.windowMem ≠ 0 ∧ rd32 w 24 &&& c.windowPrefetch = 0 then some
    ⟨rd64 w 0,rd64 w 8,rd64 w 16⟩ else none

def windowVisit (c : Consts) (bp : List Byte) (_ : Unit) (h : Header) : Unit ⊕ Option Window :=
  if h.id = c.pciWindow ∧ 28 ≤ h.len then
    match windowIn c (payload bp h) with
    | some w => .inr (some w)
    | none => .inl ()
  else .inl ()

/-- The walk of `tm_sysmap_build` over the windows. -/
def sysmapWindow (rounds : Nat) (c : Consts) (cfg : Syscfg) : Option (Traced (BitVec 32) (Option Window)) :=
  if cfg.ready then walk rounds cfg.blob (windowVisit c cfg.blob) (fun _ => none) () else some (pure none)

/-- The records that found room, in order. -/
def accepted (max : BitVec 32) (blob : List Byte) : List Emission → List Record
  | [] => []
  | e :: es =>
    match e.record with
    | none => accepted max blob es
    | some r => if (emit max blob r).2 then r :: accepted max (emit max blob r).1 es else accepted max blob es

/-- The headers of records in a row, from an offset on. -/
def headers (off : Nat) (rs : List Record) : List Header :=
  (Records.placed tagFormat off rs).map fun r => ⟨BitVec.ofNat 32 r.1,r.2.1,BitVec.ofNat 16 r.2.2.length⟩

/-- Visits headers in order up to an answer; behind the last one stands the header that ends the list. -/
def visitAll (visit : σ → Header → σ ⊕ ρ) (done : σ → ρ) (last : BitVec 32) : List Header → σ → Traced (BitVec 32) ρ
  | [], s => ⟨done s,[last]⟩
  | h :: hs, s =>
    match visit s h with
    | .inr a => ⟨a,[h.off]⟩
    | .inl t => ⟨(visitAll visit done last hs t).value,h.off :: (visitAll visit done last hs t).reads⟩

variable {max : BitVec 32} {blob bp before rest : List Byte} {es : List Emission} {r : Record} {rs : List Record}
  {visit : σ → Header → σ ⊕ ρ} {done : σ → ρ} {s : σ} {h : Header}

/-- What a list of emissions asks of each. -/
def Emission.Proper (e : Emission) : Prop := ∀ r ∈ e.record, r.1 ≠ tagEnd ∧ r.2.length < 2 ^ 31

instance (e : Emission) : Decidable e.Proper :=
    inferInstanceAs (Decidable (∀ r ∈ e.record, r.1 ≠ tagEnd ∧ r.2.length < 2 ^ 31))

/-- A record is accepted where it ends within the capacity. -/
theorem emit_accepts (small : max.toNat < 65536) (fits : blob.length ≤ max.toNat) (short : r.2.length < 2 ^ 31) :
    (emit max blob r).2 = true ↔ blob.length + 4 + r.2.length ≤ max.toNat := by
  have sum : (BitVec.ofNat 32 blob.length + 4 + BitVec.ofNat 32 r.2.length : BitVec 32).toNat =
    blob.length + 4 + r.2.length := by
    have four : (4 : BitVec 32).toNat = 4 := rfl
    simp only [BitVec.toNat_add,BitVec.toNat_ofNat,four]
    omega
  unfold emit
  split
  · rename_i full
    rw [BitVec.lt_def,sum] at full
    exact iff_of_false Bool.false_ne_true (Nat.not_le_of_lt full)
  · rename_i room
    rw [BitVec.lt_def,sum] at room
    exact iff_of_true rfl (Nat.le_of_not_lt room)

theorem emit_eq (max : BitVec 32) (blob : List Byte) (r : Record) :
    (emit max blob r).1 = if (emit max blob r).2 then blob ++ Records.cells tagFormat r else blob := by
  unfold emit
  split
  · rfl
  · rfl

theorem emit_length (small : max.toNat < 65536) (fits : blob.length ≤ max.toNat) (short : r.2.length < 2 ^ 31) :
    (emit max blob r).1.length ≤ max.toNat := by
  rw [emit_eq]
  split
  · rename_i taken
    have room := (emit_accepts small fits short).mp taken
    rw [List.length_append,Records.length_cells]
    have width : tagFormat.width = 4 := rfl
    omega
  · exact fits

theorem build_cons (max : BitVec 32) (blob : List Byte) (e : Emission) (es : List Emission) :
    build max blob (e :: es) = build max (e.send max blob).1 es := rfl

theorem build_eq (small : max.toNat < 65536) (fits : blob.length ≤ max.toNat) (proper : ∀ e ∈ es, e.Proper) :
    build max blob es = blob ++ Records.pack tagFormat (accepted max blob es) ∧
      (build max blob es).length ≤ max.toNat := by
  induction es generalizing blob with
  | nil => exact ⟨(List.append_nil blob).symm,fits⟩
  | cons e es ih =>
    have others : ∀ e ∈ es, e.Proper := fun e member => proper e (List.mem_cons_of_mem _ member)
    rw [build_cons,Emission.send,accepted]
    cases asked : e.record with
    | none => exact ih fits others
    | some r =>
      have short := (proper e List.mem_cons_self r asked).2
      obtain ⟨same,inside⟩ := ih (emit_length small fits short) others
      dsimp only
      refine ⟨?_,inside⟩
      rw [same]
      have value := emit_eq max blob r
      by_cases taken : (emit max blob r).2 = true
      · rw [if_pos taken] at value ⊢
        rw [Records.pack_cons,← List.append_assoc,← value]
      · rw [if_neg taken] at value ⊢
        rw [value]

theorem accepted_proper (small : max.toNat < 65536) (fits : blob.length ≤ max.toNat) (proper : ∀ e ∈ es, e.Proper)
    (member : r ∈ accepted max blob es) : r.1 ≠ tagEnd ∧ r.2.length < 65536 := by
  induction es generalizing blob with
  | nil => cases member
  | cons e es ih =>
    have others : ∀ e ∈ es, e.Proper := fun e member => proper e (List.mem_cons_of_mem _ member)
    rw [accepted] at member
    cases asked : e.record with
    | none =>
      rw [asked] at member
      exact ih fits others member
    | some q =>
      rw [asked] at member
      dsimp only at member
      obtain ⟨tag,short⟩ := proper e List.mem_cons_self q asked
      split at member
      · rename_i taken
        rcases List.mem_cons.mp member with rfl | later
        · have room := (emit_accepts small fits short).mp taken
          exact ⟨tag,by omega⟩
        · exact ih (emit_length small fits short) others later
      · exact ih fits others member

theorem half_bytes (v : BitVec 16) : high v ++ low v = v := by
  apply BitVec.eq_of_toNat_eq
  rw [BitVec.toNat_append]
  have bound := v.isLt
  simp only [high,low,BitVec.toNat_setWidth,BitVec.toNat_ushiftRight,Nat.shiftRight_eq_div_pow]
  rw [← Nat.shiftLeft_add_eq_or_of_lt (Nat.mod_lt _ (by omega)),Nat.shiftLeft_eq]
  omega

theorem byteAt_header (i : Nat) (less : i < 4)
    (short : (before ++ (Records.cells tagFormat r ++ rest)).length < 65536) :
    byteAt (before ++ (Records.cells tagFormat r ++ rest)) (BitVec.ofNat 32 before.length + BitVec.ofNat 32 i) =
      (tagFormat.header r.1 r.2.length).getD i 0 := by
  have found := (Records.slice_record (f := tagFormat) before rest r).1
  have width : tagFormat.width = 4 := rfl
  have at' := Records.slice_getElem? (n := tagFormat.width) (before ++ (Records.cells tagFormat r ++ rest))
    before.length i (by omega)
  have size : before.length < 65536 := by
    rw [List.length_append] at short
    omega
  have index : (BitVec.ofNat 32 before.length + BitVec.ofNat 32 i : BitVec 32).toNat = before.length + i := by
    rw [← BitVec.ofNat_add,BitVec.toNat_ofNat]
    omega
  rw [found] at at'
  rw [byteAt,index,List.getD_eq_getElem?_getD,List.getD_eq_getElem?_getD,at']

theorem headerAt_record (short : (before ++ (Records.cells tagFormat r ++ rest)).length < 65536) :
    headerAt (before ++ (Records.cells tagFormat r ++ rest)) (BitVec.ofNat 32 before.length) =
      ⟨⟨BitVec.ofNat 32 before.length,r.1,BitVec.ofNat 16 r.2.length⟩,[BitVec.ofNat 32 before.length]⟩ := by
  have zero := byteAt_header 0 (by omega) short
  have one := byteAt_header 1 (by omega) short
  have two := byteAt_header 2 (by omega) short
  have three := byteAt_header 3 (by omega) short
  have start : BitVec.ofNat 32 before.length + BitVec.ofNat 32 0 = BitVec.ofNat 32 before.length :=
    BitVec.add_zero _
  rw [start] at zero
  rw [headerAt,zero]
  show (⟨⟨_,byteAt _ (BitVec.ofNat 32 before.length + BitVec.ofNat 32 1) ++ _,
    byteAt _ (BitVec.ofNat 32 before.length + BitVec.ofNat 32 3) ++
      byteAt _ (BitVec.ofNat 32 before.length + BitVec.ofNat 32 2)⟩,_⟩ : Traced _ Header) = _
  rw [one,two,three]
  show (⟨⟨_,high r.1 ++ low r.1,high (BitVec.ofNat 16 r.2.length) ++ low (BitVec.ofNat 16 r.2.length)⟩,_⟩ :
    Traced _ Header) = _
  rw [half_bytes,half_bytes]

theorem walkStep_record (visit : σ → Header → σ ⊕ ρ) (done : σ → ρ) (before rest : List Byte)
    (short : (before ++ (Records.cells tagFormat r ++ rest)).length < 65536) :
    walkStep (before ++ (Records.cells tagFormat r ++ rest)) visit done (BitVec.ofNat 32 before.length,s) =
      ⟨if r.1 = tagEnd then .inr (done s)
        else (visit s ⟨BitVec.ofNat 32 before.length,r.1,BitVec.ofNat 16 r.2.length⟩).map
          (fun t => (BitVec.ofNat 32 (before.length + 4 + r.2.length),t)) id,[BitVec.ofNat 32 before.length]⟩ := by
  have total := short
  rw [List.length_append,List.length_append,Records.length_cells] at total
  have width : tagFormat.width = 4 := rfl
  have inside : BitVec.ofNat 32 before.length + 4 ≤
      BitVec.ofNat 32 (before ++ (Records.cells tagFormat r ++ rest)).length := by
    have four : (4 : BitVec 32).toNat = 4 := rfl
    rw [BitVec.le_def,BitVec.toNat_add,BitVec.toNat_ofNat,BitVec.toNat_ofNat,four,List.length_append,
      List.length_append,Records.length_cells]
    omega
  have next : BitVec.ofNat 32 before.length + (4 + (BitVec.ofNat 16 r.2.length).setWidth 32) =
    BitVec.ofNat 32 (before.length + 4 + r.2.length) := by
    apply BitVec.eq_of_toNat_eq
    have four : (4 : BitVec 32).toNat = 4 := rfl
    simp only [BitVec.toNat_add,BitVec.toNat_ofNat,BitVec.toNat_setWidth,four]
    omega
  rw [walkStep,if_pos inside,headerAt_record short]
  show (⟨if r.1 = tagEnd then _ else (visit s _).map
    (fun t => (BitVec.ofNat 32 before.length + (4 + (BitVec.ofNat 16 r.2.length).setWidth 32),t)) id,
    [BitVec.ofNat 32 before.length] ++ []⟩ : Traced _ _) = _
  rw [next,List.append_nil]

/-- A walk over records in a row, behind which the end stands. -/
theorem walk_visits (visit : σ → Header → σ ⊕ ρ) (done : σ → ρ) (before : List Byte)
    (short : (before ++ (Records.pack tagFormat rs ++ Records.cells tagFormat (tagEnd,[]))).length < 65536)
    (tags : ∀ r ∈ rs, r.1 ≠ tagEnd) :
    ∃ rounds, Traced.loop (walkStep (before ++ (Records.pack tagFormat rs ++ Records.cells tagFormat
      (tagEnd,[]))) visit done) rounds
      (BitVec.ofNat 32 before.length,s) =
      some (visitAll visit done (BitVec.ofNat 32 (before.length + (Records.pack tagFormat rs).length))
        (headers before.length rs) s) := by
  induction rs generalizing before s with
  | nil =>
    refine ⟨1,?_⟩
    have turn := walkStep_record (s := s) (r := (tagEnd,[])) visit done before []
    rw [List.append_nil] at turn
    rw [Records.pack_nil,List.nil_append] at short ⊢
    rw [Traced.loop,turn short]
    dsimp only
    rw [if_pos rfl]
    rfl
  | cons r rs ih =>
    have packed : before ++ (Records.pack tagFormat (r :: rs) ++ Records.cells tagFormat (tagEnd,[])) =
        before ++ (Records.cells tagFormat r ++ (Records.pack tagFormat rs ++ Records.cells tagFormat
          (tagEnd,[]))) := by
      rw [Records.pack_cons,List.append_assoc]
    have size : (before ++ Records.cells tagFormat r).length = before.length + 4 + r.2.length := by
      rw [List.length_append,Records.length_cells,Nat.add_assoc]
      rfl
    rw [packed] at short ⊢
    have turn := walkStep_record (s := s) visit done before _ short
    rw [if_neg (tags r List.mem_cons_self)] at turn
    have others : ∀ r ∈ rs, r.1 ≠ tagEnd := fun r member => tags r (List.mem_cons_of_mem _ member)
    have listed : headers before.length (r :: rs) =
        ⟨BitVec.ofNat 32 before.length,r.1,BitVec.ofNat 16 r.2.length⟩ :: headers
          (before.length + 4 + r.2.length) rs := rfl
    rw [listed,visitAll]
    cases visited : visit s ⟨BitVec.ofNat 32 before.length,r.1,BitVec.ofNat 16 r.2.length⟩ with
    | inr a =>
      rw [visited] at turn
      refine ⟨1,?_⟩
      rw [Traced.loop,turn]
      rfl
    | inl t =>
      rw [visited] at turn
      rw [← List.append_assoc before] at short
      obtain ⟨rounds,run⟩ := ih (s := t) (before ++ Records.cells tagFormat r) short others
      rw [size,List.append_assoc] at run
      refine ⟨rounds + 1,?_⟩
      rw [Traced.loop,turn]
      dsimp only [Sum.map_inl]
      rw [run,Option.map_some,Records.pack_cons,List.length_append,Records.length_cells]
      have last : before.length + 4 + r.2.length + (Records.pack tagFormat rs).length =
          before.length + (tagFormat.width + r.2.length + (Records.pack tagFormat rs).length) := by
        have width : tagFormat.width = 4 := rfl
        omega
      rw [last]
      rfl

theorem find_visitAll (tagId last : BitVec 32) (o : Nat) (rs : List Record) :
    (visitAll (findVisit tagId) (fun _ => none) last (headers o rs) ()).value =
      ((Records.placed tagFormat o rs).find? fun r => r.2.1.setWidth 32 = tagId).map
        fun r => (BitVec.ofNat 32 r.1 + 4,BitVec.ofNat 16 r.2.2.length) := by
  induction rs generalizing o with
  | nil => rfl
  | cons r rs ih =>
    have listed : headers o (r :: rs) = ⟨BitVec.ofNat 32 o,r.1,BitVec.ofNat 16 r.2.length⟩ :: headers
      (o + tagFormat.width + r.2.length) rs := rfl
    rw [listed,visitAll,Records.placed,List.find?_cons,findVisit]
    by_cases this : r.1.setWidth 32 = tagId
    · simp [this]
    · simp only [this]
      exact ih _

theorem payload_placed {o : Nat} (short : (Records.pack tagFormat rs ++ rest).length < 65536)
    (member : (o,r) ∈ Records.placed tagFormat 0 rs) :
    Records.slice (Records.pack tagFormat rs ++ rest) (BitVec.ofNat 32 o + 4).toNat
      (BitVec.ofNat 16 r.2.length).toNat = r.2 := by
  have stop := Records.placed_end member
  have found := (Records.slice_placed (f := tagFormat) [] rest member).2
  rw [List.length_append] at short
  have width : tagFormat.width = 4 := rfl
  have four : (4 : BitVec 32).toNat = 4 := rfl
  have start : (BitVec.ofNat 32 o + 4).toNat = o + tagFormat.width := by
    rw [BitVec.toNat_add,BitVec.toNat_ofNat,four]
    omega
  have count : (BitVec.ofNat 16 r.2.length).toNat = r.2.length := by
    rw [BitVec.toNat_ofNat]
    omega
  rw [start,count]
  exact found

/-- A list of tags with a room for its end decodes to the first accepted record of each tag, and its three readers
come to the headers of the accepted records one after the other. -/
theorem syscfg_records (c : Consts) (es : List Emission) (small : c.max.toNat < 65536) (proper : ∀ e ∈ es, e.Proper)
    (room : (emit c.max (build c.max [] es) (tagEnd,[])).2 = true) :
    let cfg : Syscfg := ⟨(emit c.max (build c.max [] es) (tagEnd,[])).1,true⟩
    let rs := accepted c.max [] es
    let last := BitVec.ofNat 32 (build c.max [] es).length
    (∀ tagId, ∃ rounds out, tmSyscfgFind rounds cfg tagId = some out ∧
      out.value.map (fun at' => Records.slice cfg.blob at'.1.toNat at'.2.toNat) =
        (rs.find? fun r => r.1.setWidth 32 = tagId).map Prod.snd ∧
      out = visitAll (findVisit tagId) (fun _ => none) last (headers 0 rs) ()) ∧
    (∀ k db, ∃ rounds, tmRsrcSeedFromSyscfg rounds c k cfg db =
      some (visitAll (seedVisit c k cfg.blob) some last (headers 0 rs) db)) ∧
    (∃ rounds, sysmapWindow rounds c cfg = some (visitAll (windowVisit c cfg.blob) (fun _ => none) last
      (headers 0 rs) ())) ∧
    (headers 0 rs).map (payload cfg.blob) = rs.map Prod.snd := by
  intro cfg rs last
  have empty : ([] : List Byte).length ≤ c.max.toNat := Nat.zero_le _
  obtain ⟨built,fits⟩ := build_eq small empty proper
  have sentinel : (emit c.max (build c.max [] es) (tagEnd,[])).1 = build c.max [] es ++ Records.cells tagFormat
    (tagEnd,[]) := by
    rw [emit_eq,if_pos room]
  have content : cfg.blob = Records.pack tagFormat rs ++ Records.cells tagFormat (tagEnd,[]) := by
    show (emit c.max (build c.max [] es) (tagEnd,[])).1 = _
    rw [sentinel,built,List.nil_append]
  have size : cfg.blob.length ≤ c.max.toNat := emit_length small fits (Nat.two_pow_pos 31)
  have short : (Records.pack tagFormat rs ++ Records.cells tagFormat (tagEnd,[])).length < 65536 := by
    rw [← content]
    omega
  have tags : ∀ r ∈ rs, r.1 ≠ tagEnd := fun r member => (accepted_proper small empty proper member).1
  have position : last = BitVec.ofNat 32 (Records.pack tagFormat rs).length :=
    congrArg (fun b => BitVec.ofNat 32 (List.length b)) built
  have walks : ∀ {σ ρ : Type} (visit : σ → Header → σ ⊕ ρ) (done : σ → ρ) (s : σ),
      ∃ rounds, walk rounds cfg.blob visit done s = some (visitAll visit done last (headers 0 rs) s) := by
    intro σ ρ visit done s
    have run := walk_visits (s := s) visit done [] short tags
    rw [content,position]
    simpa [walk] using run
  refine ⟨fun tagId => ?_,fun k db => walks _ _ db,walks _ _ (),?_⟩
  · obtain ⟨rounds,run⟩ := walks (findVisit tagId) (fun _ => none) ()
    refine ⟨rounds,_,run,?_,rfl⟩
    rw [find_visitAll,Option.map_map]
    have names := Records.map_placed (f := tagFormat) rs 0
    have same : rs.find? (fun r => r.1.setWidth 32 = tagId) =
        ((Records.placed tagFormat 0 rs).find? fun r => r.2.1.setWidth 32 = tagId).map Prod.snd := by
      conv => lhs; rw [← names,List.find?_map]
      rfl
    rw [same,Option.map_map]
    refine Option.map_congr fun r found => ?_
    rw [content]
    exact payload_placed short (List.mem_of_find?_eq_some found)
  · rw [headers,List.map_map]
    conv => rhs; rw [← Records.map_placed (f := tagFormat) rs 0,List.map_map]
    refine List.map_congr_left fun r member => ?_
    rw [content]
    exact payload_placed short member

def smallConsts : Consts := ⟨64,7,9,1,2,1⟩

/-- The second emission finds no room, and the last is not the first of its tag. -/
def threeTags : List Emission := [.u32 1 10,.plain 2 (List.replicate 70 0),.asciz 3 [0x61],.u32 1 11]

theorem syscfg_records_small :
    let cfg : Syscfg := ⟨(emit 64 (build 64 [] threeTags) (tagEnd,[])).1,true⟩
    ∃ rounds out, tmSyscfgFind rounds cfg 1 = some out ∧
      out.value.map (fun at' => Records.slice cfg.blob at'.1.toNat at'.2.toNat) = some [10,0,0,0] := by
  have readers := syscfg_records smallConsts threeTags (by decide) (by decide) (by decide)
  obtain ⟨rounds,out,run,value,-⟩ := readers.1 1
  have first : ((accepted 64 [] threeTags).find? fun r => r.1.setWidth 32 = (1 : BitVec 32)).map Prod.snd =
    some [10,0,0,0] := by decide
  exact ⟨rounds,out,run,value.trans first⟩

end Qsoe.Sys
