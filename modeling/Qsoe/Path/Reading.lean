import Qsoe.Path.Confined
import Qsoe.Lib.Reader

/-! A file of cpiofs as its reader sees it. The second context word of the connection packs the
position below the size; every read and seek takes it apart and packs it again. -/
namespace Qsoe.Path

open Cells Taskman

variable {cfg : Config} {a : Archive} {s : Server cfg} {badge : Word}

/-- What is asked of an open file, `tm_cpiofs_read` or `tm_cpiofs_lseek`. -/
inductive FileCall where
  | read (want : BitVec 32)
  | lseek (whence : BitVec 32) (offset : Word)
  deriving DecidableEq, Repr

inductive Answer where
  | bytes (chunk : List Byte)
  | pos (pos : Nat)
  | error (e : Failure)
  deriving DecidableEq, Repr

def Archive.copied (a : Archive) : Payload → List Byte
  | .archive addresses => addresses.map fun x => a.mem x.toNat
  | .text .. => []
  | .device => []

namespace Server

def call (a : Archive) (s : Server cfg) (badge : Word) : FileCall → Server cfg × Answer
  | .read want =>
    match s.cpiofsRead badge want with
    | (t,.ok payload) => (t,.bytes (a.copied payload))
    | (t,.error e) => (t,.error e)
  | .lseek whence offset =>
    match s.cpiofsLseek badge whence offset with
    | (t,.ok pos) => (t,.pos pos.toNat)
    | (t,.error e) => (t,.error e)

/-- The state after calls, each on a badge of its own. -/
def after (a : Archive) : Server cfg → List (Word × FileCall) → Server cfg
  | s, [] => s
  | s, (b,c) :: calls => (s.call a b c).1.after a calls

/-- What the calls on `badge` are answered. -/
def answers (a : Archive) (badge : Word) : Server cfg → List (Word × FileCall) → List Answer
  | _, [] => []
  | s, (b,c) :: calls =>
    let rest := answers a badge (s.call a b c).1 calls
    if b = badge then (s.call a b c).2 :: rest else rest

end Server

/-- `SEEK_SET`, `SEEK_CUR` and `SEEK_END`. -/
def FileCall.origin (r : Reader Byte) (whence : BitVec 32) : Option Nat :=
  if whence = 0 then some 0
  else if whence = 1 then some r.pos
  else if whence = 2 then some r.content.length
  else none

def FileCall.sought (r : Reader Byte) (whence : BitVec 32) (offset : Word) : Option (Reader Byte) :=
  (FileCall.origin r whence).bind fun origin => r.seek (2 ^ 32) (origin + offset.toInt)

def FileCall.on (r : Reader Byte) : FileCall → Reader Byte × Answer
  | .read want => (r.read (min want.toNat maxChunk),.bytes (r.chunk (min want.toNat maxChunk)))
  | .lseek whence offset =>
    match FileCall.sought r whence offset with
    | some t => (t,.pos t.pos)
    | none => (r,.error (.of .einval))

def readerAfter (r : Reader Byte) : List FileCall → Reader Byte
  | [] => r
  | c :: calls => readerAfter (c.on r).1 calls

def readerAnswers (r : Reader Byte) : List FileCall → List Answer
  | [] => []
  | c :: calls => (c.on r).2 :: readerAnswers (c.on r).1 calls

/-- The calls of a sequence that go to `badge`. -/
def callsOn (badge : Word) (calls : List (Word × FileCall)) : List FileCall :=
  (calls.filter fun call => call.1 = badge).map Prod.snd

theorem toNat_pack (size pos : Word) (fits : size.toNat < 2 ^ 32) :
    (pack size pos).toNat = size.toNat * 2 ^ 32 + pos.toNat % 2 ^ 32 := by
  have low : (position pos).toNat < 2 ^ 32 := by
    rw [toNat_position]
    omega
  have high : (size <<< 32).toNat = size.toNat * 2 ^ 32 := by
    rw [BitVec.toNat_shiftLeft,Nat.shiftLeft_eq]
    omega
  rw [pack,BitVec.toNat_or,high,Nat.or_comm,← Nat.shiftLeft_eq,← Nat.shiftLeft_add_eq_or_of_lt low,Nat.shiftLeft_eq,
    toNat_position]

/-- The connection stands for the file at `data`, read up to `pos`. -/
structure Presents (a : Archive) (s : Server cfg) (badge : Word) (data size pos : Nat) : Prop where
  words : ∃ packed, s.reg.connectionGetCtx badge = .ok (BitVec.ofNat 64 data,packed) ∧
    packed.toNat = size * 2 ^ 32 + pos
  holds : a.Holds data size
  below : pos < 2 ^ 32

variable {data size pos : Nat}

theorem setCtx_getCtx (there : s.reg.connectionGetCtx badge = .ok d) (c : Word × Word) :
    ∃ t, s.setCtx badge c = (t,.ok ()) ∧ t.reg.connectionGetCtx badge = .ok c := by
  unfold State.connectionGetCtx at there
  cases found : s.reg.connectionFindByBadge badge with
  | none =>
    rw [found] at there
    cases there
  | some hit =>
    refine ⟨{ s with reg := s.reg.setCtx hit.1 c },?_,?_⟩
    · unfold Server.setCtx State.connectionSetCtx
      rw [found]
    · have same : (s.reg.setCtx hit.1 c).connectionFindByBadge badge = some hit := found
      unfold State.connectionGetCtx
      rw [same]
      simp [State.setCtx]

theorem setCtx_getCtx_other (other : b ≠ badge) (c : Word × Word) :
    (s.setCtx b c).1.reg.connectionGetCtx badge = s.reg.connectionGetCtx badge := by
  rcases Server.setCtx_cases s b c with ⟨e,failed⟩ | ⟨j,r,found,written⟩
  · rw [failed]
  · rw [written]
    have same : (s.reg.setCtx j c).connectionFindByBadge badge = s.reg.connectionFindByBadge badge := rfl
    unfold State.connectionGetCtx
    rw [same]
    cases hit : s.reg.connectionFindByBadge badge with
    | none => rfl
    | some other' =>
      obtain ⟨used,carries⟩ := Slab.find_some found
      obtain ⟨used',carries'⟩ := Slab.find_some (i := other'.1) (a := other'.2) hit
      have apart : other'.1 ≠ j := by
        intro same
        rw [same,used] at used'
        obtain rfl := Option.some.inj used'
        simp only [beq_iff_eq] at carries carries'
        exact other (carries.symm.trans carries')
      simp [State.setCtx,apart]

theorem copied_addresses (a : Archive) (data off : Nat) (base : Word) (count : Nat) (same : base.toNat = data + off)
    (low : data + off + count ≤ 2 ^ 64) :
    a.copied (.archive (addressesFrom base count)) = row a.mem (data + off) count := by
  unfold Archive.copied addressesFrom
  dsimp only
  rw [row_eq_map,List.map_map]
  apply List.map_congr_left
  intro i range
  have bound := List.mem_range.mp range
  have place : (base + BitVec.ofNat 64 i).toNat = data + off + i := by
    rw [BitVec.toNat_add,BitVec.toNat_ofNat,same]
    omega
  simp only [Function.comp_apply,place]

namespace Presents

theorem address (shown : Presents a s badge data size pos) :
    BitVec.ofNat 64 data ≠ 0 ∧ (BitVec.ofNat 64 data).toNat = data := by
  have inside := shown.holds
  have placed := a.placed
  have low := a.low
  have stop : a.stop = a.start + a.len := rfl
  have same : (BitVec.ofNat 64 data).toNat = data := by
    rw [BitVec.toNat_ofNat]
    unfold Archive.Holds at inside
    omega
  refine ⟨?_,same⟩
  intro zero
  rw [zero] at same
  unfold Archive.Holds at inside
  change 0 = data at same
  omega

theorem read (shown : Presents a s badge data size pos) (want : BitVec 32) :
    (s.call a badge (.read want)).2 = ((FileCall.read want).on ⟨row a.mem data size,pos⟩).2 ∧
      Presents a (s.call a badge (.read want)).1 badge data size
        ((FileCall.read want).on ⟨row a.mem data size,pos⟩).1.pos := by
  obtain ⟨packed,there,parts⟩ := shown.words
  obtain ⟨nonzero,address⟩ := shown.address
  have below := shown.below
  obtain ⟨-,inside,small⟩ := shown.holds
  have low := a.low
  have stop : a.stop = a.start + a.len := rfl
  have off : (position packed).toNat = pos := by
    rw [toNat_position]
    omega
  have length : (fileSize packed).toNat = size := by
    rw [toNat_fileSize]
    omega
  have chunk : (Reader.mk (row a.mem data size) pos).chunk (min want.toNat maxChunk) =
      row a.mem (data + pos) (min (min want.toNat maxChunk) (size - pos)) := take_drop_row ..
  unfold FileCall.on Server.call Server.cpiofsRead
  dsimp only [Reader.read]
  rw [chunk,length_row,there]
  dsimp only
  rw [if_neg nonzero]
  by_cases ended : fileSize packed ≤ position packed
  · -- at the end the words stay
    rw [if_pos ended]
    rw [BitVec.le_def,off,length] at ended
    rw [Nat.sub_eq_zero_of_le ended,Nat.min_zero]
    exact ⟨rfl,⟨packed,there,parts⟩,shown.holds,below⟩
  · rw [if_neg ended]
    rw [BitVec.le_def,off,length] at ended
    have ahead : (fileSize packed - position packed).toNat = size - pos := by
      rw [BitVec.toNat_sub_of_le (by rw [BitVec.le_def]; omega),off,length]
    rw [ahead]
    generalize count : min (min want.toNat maxChunk) (size - pos) = n
    have fits : n ≤ size - pos := count ▸ Nat.min_le_right ..
    have moved : (position packed + BitVec.ofNat 64 n).toNat = pos + n := by
      rw [BitVec.toNat_add,BitVec.toNat_ofNat,off]
      omega
    obtain ⟨t,written,next⟩ := setCtx_getCtx there
      (BitVec.ofNat 64 data,pack (fileSize packed) (position packed + BitVec.ofNat 64 n))
    rw [written]
    dsimp only
    have base : (BitVec.ofNat 64 data + position packed).toNat = data + pos := by
      rw [BitVec.toNat_add,address,off]
      omega
    rw [copied_addresses a data pos _ n base (by omega)]
    refine ⟨rfl,⟨_,next,?_⟩,shown.holds,by omega⟩
    rw [toNat_pack _ _ (by omega),length,moved,Nat.mod_eq_of_lt (by omega)]

theorem toInt_add (base offset : Word) (small : base.toNat < 2 ^ 32) :
    (0 ≤ (base.toNat : Int) + offset.toInt ∧ (base.toNat : Int) + offset.toInt < (2 ^ 32 : Nat) ↔
      ¬((base + offset).toInt < 0 ∨ 0xffffffff < (base + offset).toNat)) ∧
      (0 ≤ (base.toNat : Int) + offset.toInt → (base.toNat : Int) + offset.toInt < (2 ^ 32 : Nat) →
        ((base.toNat : Int) + offset.toInt).toNat = (base + offset).toNat) := by
  have first := base.isLt
  have second := offset.isLt
  rw [BitVec.toInt_eq_toNat_cond,BitVec.toInt_eq_toNat_cond,BitVec.toNat_add]
  constructor
  · split <;> split <;> omega
  · split <;> omega

theorem lseek (shown : Presents a s badge data size pos) (whence : BitVec 32) (offset : Word) :
    (s.call a badge (.lseek whence offset)).2 = ((FileCall.lseek whence offset).on ⟨row a.mem data size,pos⟩).2 ∧
      Presents a (s.call a badge (.lseek whence offset)).1 badge data size
        ((FileCall.lseek whence offset).on ⟨row a.mem data size,pos⟩).1.pos := by
  obtain ⟨packed,there,parts⟩ := shown.words
  obtain ⟨placed,-⟩ := shown.address
  have below := shown.below
  obtain ⟨-,-,small⟩ := shown.holds
  have off : (position packed).toNat = pos := by
    rw [toNat_position]
    omega
  have length : (fileSize packed).toNat = size := by
    rw [toNat_fileSize]
    omega
  have targets : seekTo whence offset (position packed) (fileSize packed) =
      (FileCall.origin ⟨row a.mem data size,pos⟩ whence).map fun origin => BitVec.ofNat 64 origin + offset := by
    have first : BitVec.ofNat 64 pos = position packed := by rw [← off,BitVec.ofNat_toNat,BitVec.setWidth_eq]
    have last : BitVec.ofNat 64 size = fileSize packed := by rw [← length,BitVec.ofNat_toNat,BitVec.setWidth_eq]
    unfold seekTo FileCall.origin
    split
    · simp
    · split
      · simp [first]
      · split
        · simp [length_row,last]
        · rfl
  have origins : ∀ origin, FileCall.origin ⟨row a.mem data size,pos⟩ whence = some origin → origin < 2 ^ 32 := by
    intro origin from'
    unfold FileCall.origin at from'
    rw [length_row] at from'
    split at from'
    · obtain rfl := Option.some.inj from'
      decide
    · split at from'
      · obtain rfl := Option.some.inj from'
        exact below
      · split at from'
        · obtain rfl := Option.some.inj from'
          exact small
        · cases from'
  unfold FileCall.on FileCall.sought Server.call Server.cpiofsLseek
  dsimp only
  rw [there]
  dsimp only
  rw [if_neg placed,targets]
  cases from' : FileCall.origin ⟨row a.mem data size,pos⟩ whence with
  | none => exact ⟨rfl,⟨packed,there,parts⟩,shown.holds,below⟩
  | some origin =>
    have near := origins origin from'
    have base : (BitVec.ofNat 64 origin).toNat = origin := by
      rw [BitVec.toNat_ofNat]
      omega
    obtain ⟨range,same⟩ := toInt_add (BitVec.ofNat 64 origin) offset (by omega)
    rw [base] at range same
    simp only [Option.map_some,Option.bind_some,Reader.seek]
    by_cases inside : 0 ≤ (origin : Int) + offset.toInt ∧ (origin : Int) + offset.toInt < (2 ^ 32 : Nat)
    · rw [if_pos inside,if_neg (range.mp inside)]
      obtain ⟨t,written,next⟩ := setCtx_getCtx there
        (BitVec.ofNat 64 data,pack (fileSize packed) (BitVec.ofNat 64 origin + offset))
      rw [written]
      dsimp only
      have target := same inside.1 inside.2
      rw [target]
      have fits : (BitVec.ofNat 64 origin + offset).toNat < 2 ^ 32 := by omega
      refine ⟨rfl,⟨_,next,?_⟩,shown.holds,fits⟩
      rw [toNat_pack _ _ (by omega),length,Nat.mod_eq_of_lt fits]
    · rw [if_neg inside,if_pos (not_not.mp (fun h => inside (range.mpr h)))]
      exact ⟨rfl,⟨packed,there,parts⟩,shown.holds,below⟩

end Presents

theorem call_presents (shown : Presents a s badge data size pos) (c : FileCall) :
    (s.call a badge c).2 = (c.on ⟨row a.mem data size,pos⟩).2 ∧
      Presents a (s.call a badge c).1 badge data size (c.on ⟨row a.mem data size,pos⟩).1.pos := by
  cases c with
  | read want => exact shown.read want
  | lseek whence offset => exact shown.lseek whence offset

theorem FileCall.on_content (c : FileCall) (r : Reader Byte) : (c.on r).1.content = r.content := by
  cases c with
  | read want => rfl
  | lseek whence offset =>
    unfold FileCall.on FileCall.sought
    dsimp only
    cases FileCall.origin r whence with
    | none => rfl
    | some origin =>
      simp only [Option.bind_some,Reader.seek]
      split
      · rename_i sought
        split at sought
        · obtain rfl := Option.some.inj sought
          rfl
        · cases sought
      · rfl

theorem call_words (a : Archive) (s : Server cfg) (b : Word) (c : FileCall) :
    (s.call a b c).1 = s ∨ ∃ d, (s.call a b c).1 = (s.setCtx b d).1 := by
  cases c with
  | read want =>
    unfold Server.call
    dsimp only
    have moved : (s.cpiofsRead b want).1 = s ∨ ∃ d, (s.cpiofsRead b want).1 = (s.setCtx b d).1 := by
      unfold Server.cpiofsRead
      split
      · exact .inl rfl
      · split
        · exact .inl rfl
        · dsimp only
          split
          · exact .inl rfl
          · right
            split <;> (rename_i written; exact ⟨_,congrArg Prod.fst written.symm⟩)
    split <;> (rename_i answered; rw [answered] at moved; exact moved)
  | lseek whence offset =>
    unfold Server.call
    dsimp only
    have moved : (s.cpiofsLseek b whence offset).1 = s ∨ ∃ d, (s.cpiofsLseek b whence offset).1 =
      (s.setCtx b d).1 := by
      unfold Server.cpiofsLseek
      split
      · exact .inl rfl
      · split
        · exact .inl rfl
        · split
          · exact .inl rfl
          · split
            · exact .inl rfl
            · right
              split <;> (rename_i written; exact ⟨_,congrArg Prod.fst written.symm⟩)
    split <;> (rename_i answered; rw [answered] at moved; exact moved)

theorem Presents.other (shown : Presents a s badge data size pos) (other : b ≠ badge) (c : FileCall) :
    Presents a (s.call a b c).1 badge data size pos := by
  obtain ⟨packed,there,parts⟩ := shown.words
  refine ⟨⟨packed,?_,parts⟩,shown.holds,shown.below⟩
  rcases call_words a s b c with same | ⟨d,written⟩
  · rw [same]
    exact there
  · rw [written,setCtx_getCtx_other other]
    exact there

theorem on_reader (r : Reader Byte) (c : FileCall) : (c.on r).1 = ⟨r.content,(c.on r).1.pos⟩ := by
  rw [← c.on_content r]

/-- Whatever other badges are asked in between, the file is answered as the reader is. -/
theorem Presents.run (shown : Presents a s badge data size pos) (calls : List (Word × FileCall)) :
    s.answers a badge calls = readerAnswers ⟨row a.mem data size,pos⟩ (callsOn badge calls) ∧
      Presents a (s.after a calls) badge data size
        (readerAfter ⟨row a.mem data size,pos⟩ (callsOn badge calls)).pos := by
  induction calls generalizing s pos with
  | nil => exact ⟨rfl,shown⟩
  | cons call calls ih =>
    obtain ⟨b,c⟩ := call
    rw [Server.answers,Server.after]
    by_cases here : b = badge
    · subst here
      obtain ⟨answer,next⟩ := call_presents shown c
      obtain ⟨answers,last⟩ := ih next
      have head : callsOn b ((b,c) :: calls) = c :: callsOn b calls := by simp [callsOn]
      rw [head,readerAnswers,readerAfter,if_pos rfl,answer,answers,on_reader]
      exact ⟨rfl,last⟩
    · obtain ⟨answers,last⟩ := ih (shown.other here c)
      have skip : callsOn badge ((b,c) :: calls) = callsOn badge calls := by simp [callsOn,here]
      rw [skip,if_neg here]
      exact ⟨answers,last⟩

theorem readerAfter_content (r : Reader Byte) (calls : List FileCall) :
    (readerAfter r calls).content = r.content := by
  induction calls generalizing r with
  | nil => rfl
  | cons c calls ih => exact (ih (c.on r).1).trans (c.on_content r)

/-- What reads on `badge` return one after the other. -/
def Server.chunks (a : Archive) (s : Server cfg) (badge : Word) (wants : List (BitVec 32)) : List (List Byte) :=
  (s.answers a badge (wants.map fun want => (badge,.read want))).map fun
    | .bytes chunk => chunk
    | .pos _ => []
    | .error _ => []

theorem Presents.chunks (shown : Presents a s badge data size pos) (wants : List (BitVec 32)) :
    s.chunks a badge wants =
      (Reader.mk (row a.mem data size) pos).chunks (wants.map fun want => min want.toNat maxChunk) := by
  unfold Server.chunks
  rw [(shown.run _).1]
  have all : callsOn badge (wants.map fun want => (badge,FileCall.read want)) = wants.map FileCall.read := by
    simp [callsOn,List.filter_map,Function.comp_def]
  rw [all]
  clear all
  generalize Reader.mk (row a.mem data size) pos = r
  induction wants generalizing r with
  | nil => rfl
  | cons want wants ih =>
    rw [List.map_cons,List.map_cons,readerAnswers,List.map_cons,Reader.chunks,← ih]
    rfl

/-- Reads that ask for something return what is ahead, and a list of enough of them comes to the end. -/
structure Drains (a : Archive) (s : Server cfg) (badge : Word) (rest : List Byte) : Prop where
  exact : ∀ wants : List (BitVec 32), (∀ want ∈ wants, want ≠ 0) → [] ∈ s.chunks a badge wants →
    (s.chunks a badge wants).flatten = rest
  ends : ∀ wants : List (BitVec 32), (∀ want ∈ wants, want ≠ 0) → rest.length < wants.length →
    [] ∈ s.chunks a badge wants

theorem Presents.drains (shown : Presents a s badge data size pos) :
    Drains a s badge (Reader.mk (row a.mem data size) pos).rest := by
  have asks : ∀ wants : List (BitVec 32), (∀ want ∈ wants, want ≠ 0) →
      ∀ n ∈ wants.map (fun want => min want.toNat maxChunk), 0 < n := by
    intro wants whole n member
    obtain ⟨want,there,rfl⟩ := List.mem_map.mp member
    have nonzero : want.toNat ≠ 0 := fun zero => whole want there (BitVec.eq_of_toNat_eq zero)
    have room : 0 < maxChunk := by decide
    omega
  constructor
  · intro wants whole ended
    rw [shown.chunks] at ended ⊢
    exact Reader.chunks_flatten (asks wants whole) ended
  · intro wants whole enough
    rw [shown.chunks]
    exact Reader.chunks_end (asks wants whole) (by rwa [List.length_map])

theorem cpiofsOpen_presents (live : (s.reg.connectionFindByBadge badge).isSome = true) {rest : List Byte}
    (named : (cstr rest).dropWhile (· = slash) ≠ [])
    (file : a.lookup ((cstr rest).dropWhile (· = slash)) = some (data,size)) :
    ∃ t, s.cpiofsOpen a rest badge = (t,.ok ()) ∧ Presents a t badge data size 0 := by
  have holds := Archive.lookup_holds file
  obtain ⟨-,-,small⟩ := id holds
  obtain ⟨hit,found⟩ := Option.isSome_iff_exists.mp live
  have there : s.reg.connectionGetCtx badge = .ok (s.reg.ctx hit.1) := by
    unfold State.connectionGetCtx
    rw [found]
  obtain ⟨t,written,next⟩ := setCtx_getCtx there (BitVec.ofNat 64 data,BitVec.ofNat 64 size <<< 32)
  refine ⟨t,?_,⟨_,next,?_⟩,holds,by decide⟩
  · unfold Server.cpiofsOpen
    dsimp only
    rw [if_neg named,file]
    dsimp only
    rw [if_neg (by omega),written]
  · rw [BitVec.toNat_shiftLeft,Nat.shiftLeft_eq,BitVec.toNat_ofNat]
    omega

/-- An open file answers every sequence of reads and seeks as its bytes and a position do, and reads until
nothing comes return what is ahead of the position. Rows that share the badge share the position. -/
theorem file_reads (a : Archive) (s : Server cfg) (j : Fin cfg.connections) (r : Row cfg)
    (there : s.reg.rows j = some r)
    (rest : List Byte) (data size : Nat) (named : (cstr rest).dropWhile (· = slash) ≠ [])
    (file : a.lookup ((cstr rest).dropWhile (· = slash)) = some (data,size)) (calls : List (Word × FileCall)) :
    ∃ t, s.cpiofsOpen a rest r.badge = (t,.ok ()) ∧
      t.answers a r.badge calls = readerAnswers ⟨row a.mem data size,0⟩ (callsOn r.badge calls) ∧
      Drains a (t.after a calls) r.badge (readerAfter ⟨row a.mem data size,0⟩ (callsOn r.badge calls)).rest := by
  obtain ⟨i,q,found⟩ := Slab.find_of_used (fun q : Row cfg => q.badge == r.badge) there (by simp)
  have live : (s.reg.connectionFindByBadge r.badge).isSome = true := by
    unfold State.connectionFindByBadge
    rw [found]
    rfl
  obtain ⟨t,opened,shown⟩ := cpiofsOpen_presents live named file
  obtain ⟨answers,last⟩ := shown.run calls
  refine ⟨t,opened,answers,?_⟩
  have whole : Reader.mk (row a.mem data size) (readerAfter ⟨row a.mem data size,0⟩ (callsOn r.badge calls)).pos =
      readerAfter ⟨row a.mem data size,0⟩ (callsOn r.badge calls) :=
    congrArg (fun content => Reader.mk content _) (readerAfter_content ⟨row a.mem data size,0⟩ _).symm
  rw [← whole]
  exact last.drains

/-- The last byte of the file is sought and read, and then its end. -/
theorem file_reads_last : ∃ r t, smallServer.reg.rows ⟨2,by decide⟩ = some r ∧
    smallServer.cpiofsOpen smallArchive [0x61] r.badge = (t,.ok ()) ∧
    t.answers smallArchive r.badge [(r.badge,.lseek 2 (-1)),(r.badge,.read 10),(r.badge,.read 10)] =
      [.pos 1,.bytes [0x69],.bytes []] := by
  have used : (smallServer.reg.rows ⟨2,by decide⟩).isSome = true := by decide +kernel
  obtain ⟨r,there⟩ := Option.isSome_iff_exists.mp used
  obtain ⟨t,opened,answers,-⟩ := file_reads smallArchive smallServer ⟨2,by decide⟩ r there [0x61] 4208 2 (by decide)
    (by decide +kernel) [(r.badge,.lseek 2 (-1)),(r.badge,.read 10),(r.badge,.read 10)]
  refine ⟨r,t,there,opened,?_⟩
  rw [answers]
  simp only [callsOn,List.filter_cons,decide_true,if_true,List.filter_nil,List.map_cons,List.map_nil]
  decide +kernel

end Qsoe.Path
