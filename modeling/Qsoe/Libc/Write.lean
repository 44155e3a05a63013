import Qsoe.Lib.Traced
import Qsoe.Lib.Words

/-! `write` against any server: the bytes go out in chunks, and after each the pointer, the rest and the total
move by what the server says it took. Addresses are distances from the start of the buffer. -/
namespace Qsoe.Libc

open Words (Word Byte span span_add length_span take_span)

/-- `QSOE_IO_MAX_CHUNK` and `EBADF`. -/
def maxChunk : Nat := 928

def ebadf : BitVec 32 := 9

/-- The label and the first register of a reply. -/
structure Reply where
  label : Word
  mr0 : Word
  deriving DecidableEq, Repr

/-- The bytes of a request, each with its place in the buffer, and the reply to it. -/
structure Transfer where
  sent : List (Word × Byte)
  reply : Reply

structure Progress where
  p : Word
  count : Word
  total : Word
  log : List Transfer

/-- The total that `write` returns, or nothing for -1, what it sets `qsoe_errno` to, and its requests. -/
structure Written where
  value : Option Word
  errno : Option (BitVec 32)
  log : List Transfer

/-- `write_chunk`: its result and the transfer. -/
def writeChunk (buf : Word → Byte) (reply : Reply) (p : Word) (n : BitVec 32) : Traced Word (Word × Transfer) := do
  let sent ← Traced.readAll (fun x => (x,buf x)) (span p (min n.toNat maxChunk))
  pure (if reply.label ≠ 0 then -1 else reply.mr0,⟨sent,reply⟩)

/-- One turn of the loop of `write`. The comparison that stops it is one of 32 bits. -/
def writeStep (buf : Word → Byte) (replies : Nat → Reply) (s : Progress) : Traced Word (Progress ⊕ Written) :=
  if s.count = 0 then pure (.inr ⟨some s.total,none,s.log⟩)
  else do
    let chunk : BitVec 32 := if BitVec.ofNat 64 maxChunk < s.count then BitVec.ofNat 32 maxChunk else
      s.count.setWidth 32
    let reply := replies s.log.length
    let out ← writeChunk buf reply s.p chunk
    pure (
      if out.1.slt 0 then .inr ⟨if s.total = 0 then none else some s.total,if reply.label ≠ 0 then some
        (reply.label.setWidth 32) else none,s.log ++ [out.2]⟩
      else if out.1.setWidth 32 < chunk then .inr ⟨some (s.total + out.1),none,s.log ++ [out.2]⟩
      else .inl ⟨s.p + out.1,s.count - out.1,s.total + out.1,s.log ++ [out.2]⟩)

/-- `write` on the slot of a descriptor, for so many requests at most. -/
def write (rounds : Nat) (slot : Word) (buf : Word → Byte) (count : Word) (replies : Nat → Reply) :
    Option (Traced Word Written) :=
  if slot = 0 then some (pure ⟨none,some ebadf,[]⟩)
  else Traced.loop (writeStep buf replies) rounds ⟨0,count,0,[]⟩

/-- How many bytes the server says it took; a count that is negative as a `long` counts as an error. -/
def Reply.taken (r : Reply) : Option Word := if r.label ≠ 0 ∨ r.mr0.slt 0 then none else some r.mr0

def Transfer.acked (t : Transfer) : List (Word × Byte) :=
  match t.reply.taken with
  | none => []
  | some n => t.sent.take n.toNat

/-- The first `n` bytes of the buffer in order, each with its place. -/
def firstBytes (buf : Word → Byte) (n : Nat) : List (Word × Byte) := (span 0 n).map fun x => (x,buf x)

/-- Nothing was taken and the result is -1, or the result counts what was taken: the first bytes of the buffer. -/
def Written.Right (buf : Word → Byte) (count : Word) (r : Written) : Prop :=
  match r.value with
  | none => r.log.flatMap Transfer.acked = []
  | some total => total ≤ count ∧ r.log.flatMap Transfer.acked = firstBytes buf total.toNat

/-- `write` ends, reads only the buffer, and returns what is right. -/
def WriteSafe (slot : Word) (buf : Word → Byte) (count : Word) (replies : Nat → Reply) : Prop :=
  ∃ rounds out, write rounds slot buf count replies = some out ∧ out.Within (· < count) ∧ out.value.Right buf count

/-- No reply that is waited for says that more was taken than had been sent: a request is made after
full chunks only. -/
def Honest (count : Word) (replies : Nat → Reply) : Prop :=
  ∀ k, maxChunk * k < count.toNat → (∀ i < k, (replies i).taken = some (BitVec.ofNat 64 maxChunk)) →
    ∀ n, (replies k).taken = some n → n.toNat ≤ min maxChunk (count.toNat - maxChunk * k)

variable {buf : Word → Byte} {count slot n : Word} {replies : Nat → Reply} {s t : Progress} {d k : Nat}

theorem firstBytes_add (buf : Word → Byte) (m n : Nat) :
    firstBytes buf (m + n) = firstBytes buf m ++ (span (BitVec.ofNat 64 m) n).map fun x => (x,buf x) := by
  have zero : (0 : Word) + BitVec.ofNat 64 m = BitVec.ofNat 64 m := BitVec.zero_add _
  rw [firstBytes,span_add,List.map_append,zero]
  rfl

@[simp] theorem length_firstBytes (buf : Word → Byte) (n : Nat) : (firstBytes buf n).length = n := by
  rw [firstBytes,List.length_map,length_span]

def Progress.size (s : Progress) : Nat := min maxChunk s.count.toNat

def Progress.request (s : Progress) (buf : Word → Byte) (reply : Reply) : Transfer :=
    ⟨(span s.p s.size).map fun x => (x,buf x),reply⟩

theorem writeStep_value (buf : Word → Byte) (replies : Nat → Reply) (more : s.count ≠ 0) :
    (writeStep buf replies s).reads = span s.p s.size ∧
    (writeStep buf replies s).value =
      match (replies s.log.length).taken with
      | none => .inr ⟨if s.total = 0 then none else some s.total,
          if (replies s.log.length).label ≠ 0 then some ((replies s.log.length).label.setWidth 32) else none,
          s.log ++ [s.request buf (replies s.log.length)]⟩
      | some n =>
        if n.setWidth 32 < BitVec.ofNat 32 s.size then .inr
          ⟨some (s.total + n),none,s.log ++ [s.request buf (replies s.log.length)]⟩
          else .inl ⟨s.p + n,s.count - n,s.total + n,s.log ++ [s.request buf (replies s.log.length)]⟩ := by
  have chunk : (if BitVec.ofNat 64 maxChunk < s.count then BitVec.ofNat 32 maxChunk else s.count.setWidth 32) =
    BitVec.ofNat 32 s.size := by
    have bound := s.count.isLt
    apply BitVec.eq_of_toNat_eq
    split
    · rename_i long
      rw [BitVec.lt_def,BitVec.toNat_ofNat] at long
      rw [Progress.size]
      rw [maxChunk] at *
      congr 2
      omega
    · rename_i short
      rw [BitVec.lt_def,BitVec.toNat_ofNat] at short
      rw [Progress.size,BitVec.toNat_setWidth,BitVec.toNat_ofNat]
      rw [maxChunk] at *
      omega
  have fits : min (BitVec.ofNat 32 s.size).toNat maxChunk = s.size := by
    rw [Progress.size,BitVec.toNat_ofNat]
    rw [maxChunk] at *
    omega
  rw [writeStep,if_neg more,chunk]
  simp only [Traced.reads_bind,Traced.value_bind,Traced.reads_pure,Traced.value_pure,List.append_nil,writeChunk,
    Traced.readAll,fits]
  refine ⟨trivial,?_⟩
  generalize replies s.log.length = reply 
  by_cases error : reply.label ≠ 0
  · have nothing : reply.taken = none := if_pos (.inl error)
    have minus : (-1 : Word).slt 0 = true := by decide
    have rc : (if reply.label ≠ 0 then -1 else reply.mr0) = -1 := if_pos error
    rw [nothing,rc]
    exact if_pos minus
  · have rc : (if reply.label ≠ 0 then -1 else reply.mr0) = reply.mr0 := if_neg error
    rw [rc]
    by_cases negative : reply.mr0.slt 0 = true
    · have nothing : reply.taken = none := if_pos (.inr negative)
      rw [nothing]
      exact if_pos negative
    · have took : reply.taken = some reply.mr0 := if_neg (not_or.mpr ⟨error,negative⟩)
      rw [took]
      exact if_neg negative

theorem take_request (buf : Word → Byte) (reply : Reply) {m : Nat} (le : m ≤ s.size) :
    (s.request buf reply).sent.take m = (span s.p m).map fun x => (x,buf x) := by
  rw [Progress.request,← List.map_take,take_span s.p le]

theorem acked_request (buf : Word → Byte) {reply : Reply} (took : reply.taken = some n) (le : n.toNat ≤ s.size) :
    (s.request buf reply).acked = (span s.p n.toNat).map fun x => (x,buf x) := by
  have same : (s.request buf reply).reply.taken = some n := took
  rw [Transfer.acked,same]
  exact take_request buf reply le

theorem acked_refused (buf : Word → Byte) {reply : Reply} (nothing : reply.taken = none) :
    (s.request buf reply).acked = [] := by
  have same : (s.request buf reply).reply.taken = none := nothing
  rw [Transfer.acked,same]

theorem flatMap_log (log : List Transfer) (t : Transfer) :
    (log ++ [t]).flatMap Transfer.acked = log.flatMap Transfer.acked ++ t.acked := by
  rw [List.flatMap_append,List.flatMap_singleton]

/-- The first `d` bytes have been sent and taken. -/
structure Good (buf : Word → Byte) (count : Word) (d : Nat) (s : Progress) : Prop where
  within : d ≤ count.toNat
  p : s.p = BitVec.ofNat 64 d
  rest : s.count.toNat = count.toNat - d
  total : s.total = BitVec.ofNat 64 d
  acked : s.log.flatMap Transfer.acked = firstBytes buf d

theorem Good.start (buf : Word → Byte) (count : Word) : Good buf count 0 ⟨0,count,0,[]⟩ :=
    ⟨Nat.zero_le _,rfl,rfl,rfl,rfl⟩

theorem Good.size (good : Good buf count d s) : s.size = min maxChunk (count.toNat - d) := by
  rw [Progress.size,good.rest]

theorem Good.took (good : Good buf count d s) {reply : Reply} (took : reply.taken = some n)
    (le : n.toNat ≤ s.size) :
    s.total + n = BitVec.ofNat 64 (d + n.toNat) ∧
    (s.log ++ [s.request buf reply]).flatMap Transfer.acked = firstBytes buf (d + n.toNat) := by
  constructor
  · rw [good.total,BitVec.ofNat_add,BitVec.ofNat_toNat,BitVec.setWidth_eq]
  · rw [flatMap_log,good.acked,acked_request buf took le,good.p,firstBytes_add]

theorem Good.next (good : Good buf count d s) {reply : Reply} (took : reply.taken = some n)
    (le : n.toNat ≤ s.size) :
    Good buf count (d + n.toNat) ⟨s.p + n,s.count - n,s.total + n,s.log ++ [s.request buf reply]⟩ := by
  obtain ⟨total,acked⟩ := good.took took le
  have size := good.size
  have inside := good.within
  have rest := good.rest
  refine ⟨by omega,?_,?_,total,acked⟩
  · rw [good.p,BitVec.ofNat_add,BitVec.ofNat_toNat,BitVec.setWidth_eq]
  · show (s.count - n).toNat = _
    rw [BitVec.toNat_sub_of_le (by rw [BitVec.le_def]; omega)]
    omega

theorem Good.more (good : Good buf count d s) (less : d < count.toNat) : s.count ≠ 0 := by
  intro nothing
  have rest := good.rest
  rw [nothing] at rest
  have zero : (0 : Word).toNat = 0 := rfl
  omega

theorem Good.reads_within (good : Good buf count d s) : (writeStep buf replies s).Within (· < count) := by
  by_cases nothing : s.count = 0
  · rw [writeStep,if_pos nothing]
    exact Traced.within_pure _
  · have size := good.size
    have inside := good.within
    intro x member
    rw [(writeStep_value buf replies nothing).1] at member
    obtain ⟨i,below,rfl⟩ := List.mem_map.mp member
    have less := List.mem_range.mp below
    have bound := count.isLt
    rw [good.p,← BitVec.ofNat_add,BitVec.lt_def,BitVec.toNat_ofNat]
    omega

theorem short_iff (le : n.toNat ≤ s.size) : n.setWidth 32 < BitVec.ofNat 32 s.size ↔ n.toNat < s.size := by
  have chunk : s.size ≤ maxChunk := Nat.min_le_left ..
  rw [maxChunk] at chunk
  rw [BitVec.lt_def,BitVec.toNat_setWidth,BitVec.toNat_ofNat]
  omega

structure Ahead (buf : Word → Byte) (count : Word) (replies : Nat → Reply) (d : Nat) (s : Progress) : Prop where
  good : Good buf count d s
  full : d < count.toNat → d = maxChunk * s.log.length ∧ ∀ i < s.log.length, (replies i).taken =
    some (BitVec.ofNat 64 maxChunk)

theorem Ahead.honest (ahead : Ahead buf count replies d s) (honest : Honest count replies) (more : s.count ≠ 0)
    (took : (replies s.log.length).taken = some n) : n.toNat ≤ s.size := by
  have rest := ahead.good.rest
  have nonzero : s.count.toNat ≠ 0 := fun zero => more (BitVec.eq_of_toNat_eq zero)
  obtain ⟨done,earlier⟩ := ahead.full (by omega)
  have le := honest s.log.length (by omega) earlier n took
  rw [ahead.good.size,done]
  exact le

theorem Ahead.next (ahead : Ahead buf count replies d s) (took : (replies s.log.length).taken = some n)
    (full : n.toNat = s.size) (less : d < count.toNat) :
    Ahead buf count replies (d + n.toNat)
      ⟨s.p + n,s.count - n,s.total + n,s.log ++ [s.request buf (replies s.log.length)]⟩ := by
  obtain ⟨done,earlier⟩ := ahead.full less
  have size := ahead.good.size
  refine ⟨ahead.good.next took (by omega),fun further => ?_⟩
  have whole : n.toNat = maxChunk := by omega
  have value : n = BitVec.ofNat 64 maxChunk := by
    rw [← whole,BitVec.ofNat_toNat,BitVec.setWidth_eq]
  rw [List.length_append,List.length_singleton,whole,Nat.mul_succ,← done]
  refine ⟨rfl,fun i below => ?_⟩
  rcases Nat.eq_or_lt_of_le (Nat.le_of_lt_succ below) with rfl | before
  · rw [took,value]
  · exact earlier i before

/-- What a turn does where the server takes no more than it was sent. -/
theorem Ahead.turn (ahead : Ahead buf count replies d s) (honest : Honest count replies) :
    (∃ r, (writeStep buf replies s).value = .inr r ∧ r.Right buf count) ∨
    ∃ t e, (writeStep buf replies s).value = .inl t ∧ Ahead buf count replies e t ∧ d < e := by
  have good := ahead.good
  have bound := count.isLt
  by_cases vacant : s.count = 0
  · left
    have rest := good.rest
    rw [vacant] at rest
    have zero : (0 : Word).toNat = 0 := rfl
    have all : d = count.toNat := by
      have inside := good.within
      omega
    refine ⟨⟨some s.total,none,s.log⟩,?_,?_,?_⟩
    · rw [writeStep,if_pos vacant]
      rfl
    · rw [good.total,all,BitVec.ofNat_toNat,BitVec.setWidth_eq]
      exact BitVec.le_refl count
    · rw [good.total,BitVec.toNat_ofNat,Nat.mod_eq_of_lt (by omega)]
      exact good.acked
  · have value := (writeStep_value buf replies vacant).2
    have inside := good.within
    have rest := good.rest
    cases took : (replies s.log.length).taken with
    | none =>
      rw [took] at value
      left
      refine ⟨_,value,?_⟩
      have same : (s.log ++ [s.request buf (replies s.log.length)]).flatMap Transfer.acked = firstBytes buf d := by
        rw [flatMap_log,good.acked,acked_refused buf took,List.append_nil]
      by_cases nothing : s.total = 0
      · rw [if_pos nothing,Written.Right]
        rw [good.total] at nothing
        have empty : d = 0 := by
          have number := congrArg BitVec.toNat nothing
          rw [BitVec.toNat_ofNat] at number
          have zero : (0 : Word).toNat = 0 := rfl
          omega
        rw [empty] at same
        exact same
      · rw [if_neg nothing,Written.Right]
        dsimp only
        rw [same,good.total,BitVec.le_def,BitVec.toNat_ofNat,Nat.mod_eq_of_lt (by omega)]
        exact ⟨inside,rfl⟩
    | some n =>
      rw [took] at value
      have le := ahead.honest honest vacant took
      have size := good.size
      have less : d < count.toNat := by
        have nonzero : s.count.toNat ≠ 0 := fun zero => vacant (BitVec.eq_of_toNat_eq zero)
        omega
      obtain ⟨total,acked⟩ := good.took took le
      by_cases short : n.toNat < s.size
      · left
        dsimp only at value
        rw [if_pos ((short_iff le).mpr short)] at value
        refine ⟨_,value,?_⟩
        rw [Written.Right]
        dsimp only
        rw [total,acked,BitVec.le_def,BitVec.toNat_ofNat,Nat.mod_eq_of_lt (by omega)]
        exact ⟨by omega,rfl⟩
      · right
        dsimp only at value
        rw [if_neg (mt (short_iff le).mp short)] at value
        have chunk : 0 < maxChunk := by decide
        exact ⟨_,_,value,ahead.next took (by omega) less,by omega⟩

/-- Against an honest server `write` does what it should. -/
theorem safe_of_honest (honest : Honest count replies) : WriteSafe slot buf count replies := by
  by_cases unbound : slot = 0
  · refine ⟨0,_,if_pos unbound,Traced.within_pure _,rfl⟩
  · have initial : Ahead buf count replies 0 ⟨0,count,0,[]⟩ :=
      ⟨Good.start buf count,fun _ => ⟨rfl,fun i below => absurd below (Nat.not_lt_zero i)⟩⟩
    have invariant : ∀ t, Traced.Reaches (writeStep buf replies) ⟨0,count,0,[]⟩ t →
      ∃ d, Ahead buf count replies d t := by
      intro t reached
      refine reached.invariant (fun t => ∃ d, Ahead buf count replies d t) ⟨0,initial⟩ ?_
      rintro t u ⟨d,ahead⟩ turn
      rcases ahead.turn honest with ⟨r,answer,-⟩ | ⟨v,e,goes,next,-⟩
      · cases turn.symm.trans answer
      · obtain rfl := Sum.inl.inj (turn.symm.trans goes)
        exact ⟨e,next⟩
    obtain ⟨out,run⟩ := Traced.loop_halts (writeStep buf replies) ⟨0,count,0,[]⟩
      (fun t => t.count.toNat) (fun t reached u turn => by
        obtain ⟨d,ahead⟩ := invariant t reached
        rcases ahead.turn honest with ⟨r,answer,-⟩ | ⟨v,e,goes,next,more⟩
        · cases turn.symm.trans answer
        · obtain rfl := Sum.inl.inj (turn.symm.trans goes)
          have before := ahead.good.rest
          have after := next.good.rest
          have inside := next.good.within
          omega) (Nat.lt_succ_self _)
    refine ⟨_,out,(if_neg unbound).trans run,?_,?_⟩
    · refine (Traced.loop_within run).mpr fun t reached => ?_
      obtain ⟨d,ahead⟩ := invariant t reached
      exact ahead.good.reads_within
    · obtain ⟨t,reached,answer⟩ := Traced.loop_answer run
      obtain ⟨d,ahead⟩ := invariant t reached
      rcases ahead.turn honest with ⟨r,same,right⟩ | ⟨v,e,goes,-⟩
      · obtain rfl := Sum.inr.inj (answer.symm.trans same)
        exact right
      · cases answer.symm.trans goes

theorem taken_small {reply : Reply} (took : reply.taken = some n) : n.toNat < 2 ^ 63 := by
  unfold Reply.taken at took
  split at took
  · cases took
  · rename_i fine
    obtain rfl := Option.some.inj took
    by_contra large
    have bound := reply.mr0.isLt
    refine fine (.inr ?_)
    rw [BitVec.slt_iff_toInt_lt,BitVec.toInt_eq_toNat_cond,if_neg (by omega)]
    show _ < (0 : Int)
    omega

theorem full_reaches (buf : Word → Byte) (inside : maxChunk * k ≤ count.toNat)
    (earlier : ∀ i < k, (replies i).taken = some (BitVec.ofNat 64 maxChunk)) :
    ∃ s, Traced.Reaches (writeStep buf replies) ⟨0,count,0,[]⟩ s ∧ s.log.length = k ∧
      Good buf count (maxChunk * k) s := by
  induction k with
  | zero => exact ⟨_,.start,rfl,Good.start buf count⟩
  | succ k ih =>
    have chunk : maxChunk = 928 := rfl
    rw [Nat.mul_succ] at inside ⊢
    obtain ⟨s,reached,turns,good⟩ := ih (by omega) fun i less => earlier i (Nat.lt_succ_of_lt less)
    have size := good.size
    have took := earlier k (Nat.lt_succ_self k)
    rw [← turns] at took
    have whole : (BitVec.ofNat 64 maxChunk).toNat = s.size := by
      rw [BitVec.toNat_ofNat]
      omega
    have value := (writeStep_value buf replies (good.more (by omega))).2
    rw [took] at value
    dsimp only at value
    rw [if_neg (mt (short_iff (Nat.le_of_eq whole)).mp (by omega))] at value
    have next := good.next took (Nat.le_of_eq whole)
    rw [whole,size,show min maxChunk (count.toNat - maxChunk * k) = maxChunk from by omega] at next
    refine ⟨_,.next reached value,?_,next⟩
    rw [List.length_append,List.length_singleton,turns]

def Skewed (buf : Word → Byte) (d : Nat) (v : Word) (s : Progress) : Prop :=
  s.p = v ∧ s.total = v ∧ s.log.flatMap Transfer.acked = firstBytes buf d ∨
  ∃ x rest, s.log.flatMap Transfer.acked = firstBytes buf d ++ (v,x) :: rest

def Written.Wrong (buf : Word → Byte) (d : Nat) (v : Word) (r : Written) : Prop :=
  (r.value = none ∨ r.value = some v) ∧ r.log.flatMap Transfer.acked = firstBytes buf d ∨
  ∃ x rest, r.log.flatMap Transfer.acked = firstBytes buf d ++ (v,x) :: rest

theorem Written.Wrong.not_right {r : Written} {v : Word} (wrong : r.Wrong buf d v) (positive : 0 < d)
    (small : d < 2 ^ 64) (other : v ≠ BitVec.ofNat 64 d) : ¬r.Right buf count := by
  intro right
  rw [Written.Right] at right
  rcases wrong with ⟨value,acked⟩ | ⟨x,rest,acked⟩
  · rw [acked] at right
    rcases value with nothing | total
    · rw [nothing] at right
      have empty := congrArg List.length right
      rw [length_firstBytes] at empty
      exact absurd empty (Nat.ne_of_gt positive)
    · rw [total] at right
      have same := congrArg List.length right.2
      rw [length_firstBytes,length_firstBytes] at same
      refine other (BitVec.eq_of_toNat_eq ?_)
      rw [BitVec.toNat_ofNat,Nat.mod_eq_of_lt small,same]
  · rw [acked] at right
    split at right
    · exact List.append_ne_nil_of_right_ne_nil _ (List.cons_ne_nil _ _) right
    · rename_i total _
      have there := congrArg (fun l : List (Word × Byte) => l[d]?) right.2
      have long := congrArg List.length right.2
      rw [List.length_append,length_firstBytes,length_firstBytes,List.length_cons] at long
      rw [List.getElem?_append_right (Nat.le_of_eq (length_firstBytes buf d)),length_firstBytes,Nat.sub_self,
        List.getElem?_cons_zero] at there
      rw [firstBytes,span,List.map_map,List.getElem?_map,List.getElem?_range (by omega)] at there
      have place := congrArg Prod.fst (Option.some.inj there)
      exact other (place.trans (BitVec.zero_add _))

theorem size_pos (more : s.count ≠ 0) : 0 < s.size := by
  have nonzero : s.count.toNat ≠ 0 := fun zero => more (BitVec.eq_of_toNat_eq zero)
  have chunk : maxChunk = 928 := rfl
  rw [Progress.size]
  omega

theorem acked_head (buf : Word → Byte) {reply : Reply} (more : s.count ≠ 0) (took : reply.taken = some n)
    (nonzero : n.toNat ≠ 0) :
    ∃ rest, (s.request buf reply).acked = (s.p,buf s.p) :: rest := by
  have same : (s.request buf reply).reply.taken = some n := took
  obtain ⟨size,sized⟩ := Nat.exists_eq_add_of_le (size_pos more)
  obtain ⟨count,counted⟩ := Nat.exists_eq_succ_of_ne_zero nonzero
  have first : span s.p 1 = [s.p] := congrArg (fun x => [x]) (BitVec.add_zero s.p)
  have sent : (s.request buf reply).sent = (s.p,buf s.p) :: (span (s.p + BitVec.ofNat 64 1) size).map fun x =>
    (x,buf x) := by
    rw [Progress.request,sized,span_add,first]
    rfl
  rw [Transfer.acked,same]
  dsimp only
  rw [sent,counted,List.take_succ_cons]
  exact ⟨_,rfl⟩

theorem acked_more {log : List Transfer} {v : Word} (t : Transfer)
    (later : ∃ x rest, log.flatMap Transfer.acked = firstBytes buf d ++ (v,x) :: rest) :
    ∃ x rest, (log ++ [t]).flatMap Transfer.acked = firstBytes buf d ++ (v,x) :: rest := by
  obtain ⟨x,rest,acked⟩ := later
  refine ⟨x,rest ++ t.acked,?_⟩
  rw [flatMap_log,acked,List.append_assoc,List.cons_append]

/-- Whatever the server answers, a skewed state stays skewed or ends wrong. -/
theorem Skewed.turn {v : Word} (skewed : Skewed buf d v s) :
    (∀ r, (writeStep buf replies s).value = .inr r → r.Wrong buf d v) ∧
    ∀ t, (writeStep buf replies s).value = .inl t → Skewed buf d v t := by
  by_cases vacant : s.count = 0
  · have value : (writeStep buf replies s).value = .inr ⟨some s.total,none,s.log⟩ := by
      rw [writeStep,if_pos vacant]
      rfl
    refine ⟨fun r answer => ?_,fun t turn => by cases value.symm.trans turn⟩
    obtain rfl := Sum.inr.inj (value.symm.trans answer)
    rcases skewed with ⟨-,total,acked⟩ | later
    · exact .inl ⟨.inr (congrArg some total),acked⟩
    · exact .inr later
  · have value := (writeStep_value buf replies vacant).2
    cases took : (replies s.log.length).taken with
    | none =>
      rw [took] at value
      refine ⟨fun r answer => ?_,fun t turn => by cases value.symm.trans turn⟩
      obtain rfl := Sum.inr.inj (value.symm.trans answer)
      rcases skewed with ⟨-,total,acked⟩ | later
      · refine .inl ⟨?_,?_⟩
        · dsimp only
          split
          · exact .inl rfl
          · exact .inr (congrArg some total)
        · rw [flatMap_log,acked,acked_refused buf took,List.append_nil]
      · exact .inr (acked_more _ later)
    | some n =>
      rw [took] at value
      dsimp only at value
      by_cases nothing : n.toNat = 0
      · have zero : n = 0 := BitVec.eq_of_toNat_eq nothing
        have positive := size_pos vacant
        rw [if_pos ((short_iff (by omega)).mpr (by omega))] at value
        refine ⟨fun r answer => ?_,fun t turn => by cases value.symm.trans turn⟩
        obtain rfl := Sum.inr.inj (value.symm.trans answer)
        rcases skewed with ⟨-,total,acked⟩ | later
        · have sum : s.total + n = v := by
            rw [total,zero]
            exact BitVec.add_zero v
          refine .inl ⟨.inr (congrArg some sum),?_⟩
          rw [flatMap_log,acked,acked_request buf took (by omega),nothing]
          exact List.append_nil _
        · exact .inr (acked_more _ later)
      · have later : ∃ x rest, (s.log ++ [s.request buf (replies s.log.length)]).flatMap Transfer.acked =
            firstBytes buf d ++ (v,x) :: rest := by
          rcases skewed with ⟨p,-,acked⟩ | later
          · obtain ⟨rest,first⟩ := acked_head buf vacant took nothing
            refine ⟨buf s.p,rest,?_⟩
            rw [flatMap_log,acked,first,p]
          · exact acked_more _ later
        by_cases short : n.setWidth 32 < BitVec.ofNat 32 s.size
        · rw [if_pos short] at value
          refine ⟨fun r answer => ?_,fun t turn => by cases value.symm.trans turn⟩
          obtain rfl := Sum.inr.inj (value.symm.trans answer)
          exact .inr later
        · rw [if_neg short] at value
          refine ⟨fun r answer => (by cases value.symm.trans answer),fun t turn => ?_⟩
          obtain rfl := Sum.inl.inj (value.symm.trans turn)
          exact .inr later

theorem honest_of_safe (bound : slot ≠ 0) (safe : WriteSafe slot buf count replies) : Honest count replies := by
  obtain ⟨rounds,out,run,-,right⟩ := safe
  rw [write,if_neg bound] at run
  intro k inside earlier n took
  by_contra much
  have top := count.isLt
  have chunk : maxChunk = 928 := rfl
  obtain ⟨s,reached,turns,good⟩ := full_reaches buf (Nat.le_of_lt inside) earlier
  rw [← turns] at took
  have size := good.size
  have more := good.more inside
  have value := (writeStep_value buf replies more).2
  have small := taken_small took
  have same : (s.request buf (replies s.log.length)).reply.taken = some n := took
  have whole : (s.request buf (replies s.log.length)).acked = (span s.p s.size).map fun x => (x,buf x) := by
    rw [Transfer.acked,same]
    refine List.take_of_length_le ?_
    rw [Progress.request,List.length_map,length_span]
    omega
  have acked : (s.log ++ [s.request buf (replies s.log.length)]).flatMap Transfer.acked = firstBytes buf
    (maxChunk * k + s.size) := by
    rw [flatMap_log,good.acked,whole,good.p,firstBytes_add]
  have total : s.total + n = BitVec.ofNat 64 (maxChunk * k + n.toNat) := by
    rw [good.total,BitVec.ofNat_add,BitVec.ofNat_toNat,BitVec.setWidth_eq]
  have pointer : s.p + n = BitVec.ofNat 64 (maxChunk * k + n.toNat) := by
    rw [good.p,BitVec.ofNat_add,BitVec.ofNat_toNat,BitVec.setWidth_eq]
  have other : BitVec.ofNat 64 (maxChunk * k + n.toNat) ≠ BitVec.ofNat 64 (maxChunk * k + s.size) := by
    intro equal
    have numbers := congrArg BitVec.toNat equal
    rw [BitVec.toNat_ofNat,BitVec.toNat_ofNat] at numbers
    omega
  have positive := size_pos more
  obtain ⟨rest,rounds',later,final⟩ := Traced.loop_from_reaches run reached
  obtain ⟨u,further,answer⟩ := Traced.loop_answer later
  rw [took] at value
  dsimp only at value
  have wrong : out.value.Wrong buf (maxChunk * k + s.size) (BitVec.ofNat 64 (maxChunk * k + n.toNat)) := by
    rw [← final]
    rcases further.cases_head with rfl | ⟨t,turn,rest'⟩
    · by_cases short : n.setWidth 32 < BitVec.ofNat 32 u.size
      · rw [if_pos short] at value
        obtain same := Sum.inr.inj (value.symm.trans answer)
        rw [← same]
        exact .inl ⟨.inr (congrArg some total),acked⟩
      · rw [if_neg short] at value
        cases value.symm.trans answer
    · by_cases short : n.setWidth 32 < BitVec.ofNat 32 s.size
      · rw [if_pos short] at value
        cases value.symm.trans turn
      · rw [if_neg short] at value
        obtain rfl := Sum.inl.inj (value.symm.trans turn)
        have start : Skewed buf (maxChunk * k + s.size) (BitVec.ofNat 64 (maxChunk * k + n.toNat))
            ⟨s.p + n,s.count - n,s.total + n,s.log ++ [s.request buf (replies s.log.length)]⟩ :=
              .inl ⟨pointer,total,acked⟩
        have skewed := rest'.invariant (Skewed buf (maxChunk * k + s.size)
          (BitVec.ofNat 64 (maxChunk * k + n.toNat))) start
          fun t u skewed turn => skewed.turn.2 u turn
        exact skewed.turn.1 _ answer
  exact wrong.not_right (by omega) (by omega) other right

/-- On a bound descriptor `write` ends, stays in the buffer and counts what was taken exactly where no reply
that it waits for says more was taken than had been sent. -/
theorem write_safe_iff (slot : Word) (buf : Word → Byte) (count : Word) (replies : Nat → Reply) :
    WriteSafe slot buf count replies ↔ slot = 0 ∨ Honest count replies := by
  constructor
  · intro safe
    by_cases unbound : slot = 0
    · exact .inl unbound
    · exact .inr (honest_of_safe unbound safe)
  · rintro (rfl | honest)
    · exact ⟨0,_,if_pos rfl,Traced.within_pure _,rfl⟩
    · exact safe_of_honest honest

/-- Says of one byte that two were taken. -/
def boastful (_ : Nat) : Reply := ⟨0,2⟩

/-- For a buffer of one byte it returns 4, and byte 2 is read. -/
theorem write_boastful :
    ∃ out, write 2 5 (fun _ => 0x71) 1 boastful = some out ∧ out.value.value = some 4 ∧ 2 ∈ out.reads := by
  have ran : (write 2 5 (fun _ => 0x71) 1 boastful).map (fun out => (out.value.value,decide (2 ∈ out.reads))) =
    some (some 4,true) := by
    decide +kernel
  obtain ⟨out,run,both⟩ := Option.map_eq_some_iff.mp ran
  obtain ⟨value,read⟩ := Prod.mk.inj both
  exact ⟨out,run,value,of_decide_eq_true read⟩

end Qsoe.Libc
