import Mathlib.Algebra.GroupWithZero.Nat
import Qsoe.Msg.Transfer

/-! `msg_sendv_core`: the send parts are gathered in a staging buffer of the size of a message
and the reply is scattered over the receive parts. A part stands for the bytes of an `iov_t`,
whose length the code narrows to 32 bits. -/
namespace Qsoe.Msg

open Qsoe.Taskman (Pid Word)

abbrev Part := List Byte

/-- `(unsigned)iov_len`. -/
def narrowed (part : Part) : BitVec 32 := BitVec.ofNat 32 part.length

/-- What becomes of the staging buffer; after `overrun` bytes behind its end are written. -/
inductive Staged where
  | tooBig
  | overrun
  | image (bytes : List Byte)
  deriving DecidableEq, Repr

/-- The gather loop with what it has staged. `slen + n` is a sum of two `unsigned`s. -/
def gather : List Part → List Byte → Staged
  | [], staged => .image staged
  | part :: rest, staged =>
    let n := narrowed part
    if msgMaxBytes < (BitVec.ofNat 32 staged.length + n).toNat then .tooBig
    else if msgMaxBytes < staged.length + n.toNat then .overrun
    else gather rest (staged ++ part.take n.toNat)

inductive VectorErrno where
  | ebadf | e2big | einval
  deriving DecidableEq, Repr

inductive Issued where
  | refused (e : VectorErrno)
  | overrun
  | call (m : Message)
  deriving DecidableEq, Repr

/-- `msg_sendv_core` up to its system call; slot 0 is no connection. -/
def sendvCall (slot : Nat) (siov : List Part) : Issued :=
  if slot = 0 then .refused .ebadf
  else match gather siov [] with
    | .tooBig => .refused .e2big
    | .overrun => .overrun
    | .image bytes =>
      if bytes.length < 8 then .refused .einval
      else .call (.regs (BitVec.ofNat 32 (leNat (bytes.take 8))) (packBytes (bytes.drop 8)))

def scatter : List Part → List Byte → List Part
  | [], _ => []
  | part :: rest, left =>
    let n := min (narrowed part).toNat left.length
    (left.take n ++ part.drop n) :: scatter rest (left.drop n)

def sendvReply (riov : List Part) (reply : List Byte) : List Part := scatter riov (reply.take msgMaxBytes)

/-- Some `MsgSend` of the concatenated parts, into a buffer of the size of the receive parts,
makes the same call. -/
def SameCall (slot : Nat) (siov riov : List Part) : Prop :=
  ∃ a smsg rmsg, a.smsg = some smsg ∧ a.rmsg = some rmsg ∧ a.sbytes = siov.flatten.length ∧
    a.rbytes = riov.flatten.length ∧ ∀ ipc mem client, Memory.load mem client smsg a.sbytes = siov.flatten →
      sendvCall slot siov = .call (msgSend a ipc mem client)

/-- The receive parts together begin with the reply, or as much of it as there is room for. -/
def Scattered (riov : List Part) (reply : List Byte) : Prop :=
  (sendvReply riov reply).flatten =
    (reply.take msgMaxBytes).take riov.flatten.length ++ riov.flatten.drop (reply.take msgMaxBytes).length

/-- What a vector send should do. -/
structure Flat (slot : Nat) (siov riov : List Part) : Prop where
  same : 8 ≤ siov.flatten.length → siov.flatten.length ≤ msgMaxBytes →
    SameCall slot siov riov ∧ ∀ reply, Scattered riov reply
  refused : msgMaxBytes < siov.flatten.length → sendvCall slot siov = .refused .e2big
  inside : sendvCall slot siov ≠ .overrun

/-- The bytes the code takes the parts for. -/
def lowSum (parts : List Part) : Nat := (parts.map fun part => part.length % 2 ^ 32).sum

/-- The narrowed lengths first pass the size of a message at a part with which their sum stays
below `2 ^ 32`. -/
def Caught (siov : List Part) : Prop :=
  ∃ before part after, siov = before ++ part :: after ∧ lowSum before ≤ msgMaxBytes ∧
    msgMaxBytes < lowSum before + part.length % 2 ^ 32 ∧ lowSum before + part.length % 2 ^ 32 < 2 ^ 32

variable {slot : Nat} {siov riov : List Part} {staged : List Byte}

theorem narrowed_toNat (part : Part) : (narrowed part).toNat = part.length % 2 ^ 32 := BitVec.toNat_ofNat ..

theorem msgMaxBytes_eq : msgMaxBytes = 960 := rfl

theorem staged_sum (short : staged.length ≤ msgMaxBytes) (part : Part) :
    msgMaxBytes < (BitVec.ofNat 32 staged.length + narrowed part).toNat ↔
      msgMaxBytes < staged.length + part.length % 2 ^ 32 ∧ staged.length + part.length % 2 ^ 32 < 2 ^ 32 := by
  rw [BitVec.toNat_add,BitVec.toNat_ofNat,narrowed_toNat]
  rw [msgMaxBytes_eq] at *
  omega

theorem gather_fits (siov : List Part) (fits : staged.length + siov.flatten.length ≤ msgMaxBytes) :
    gather siov staged = .image (staged ++ siov.flatten) := by
  induction siov generalizing staged with
  | nil => simp [gather]
  | cons part rest ih =>
    rw [List.flatten_cons,List.length_append] at fits
    have small : part.length % 2 ^ 32 = part.length := by
      rw [msgMaxBytes_eq] at fits
      omega
    have sum := staged_sum (by omega : staged.length ≤ msgMaxBytes) part
    rw [small] at sum
    rw [gather,if_neg (by rw [sum]; omega),narrowed_toNat,small,if_neg (by omega),List.take_length]
    rw [ih (by rw [List.length_append]; omega),List.flatten_cons,List.append_assoc]

@[simp] theorem lowSum_nil : lowSum [] = 0 := rfl

@[simp] theorem lowSum_cons (part : Part) (rest : List Part) :
    lowSum (part :: rest) = part.length % 2 ^ 32 + lowSum rest := by
  simp [lowSum]

theorem gather_tooBig (siov : List Part) (short : staged.length ≤ msgMaxBytes) :
    gather siov staged = .tooBig ↔ ∃ before part after, siov = before ++ part :: after ∧
      staged.length + lowSum before ≤ msgMaxBytes ∧
      msgMaxBytes < staged.length + lowSum before + part.length % 2 ^ 32 ∧
      staged.length + lowSum before + part.length % 2 ^ 32 < 2 ^ 32 := by
  induction siov generalizing staged with
  | nil => simp [gather]
  | cons part rest ih =>
    have sum := staged_sum short part
    rw [gather]
    split
    · rename_i beyond
      refine ⟨fun _ => ⟨[],part,rest,rfl,?_⟩,fun _ => rfl⟩
      simpa [short] using sum.mp beyond
    · rename_i passes
      rw [sum] at passes
      split
      · rename_i beyond
        rw [narrowed_toNat] at beyond
        refine ⟨nofun,?_⟩
        rintro ⟨before,q,after,same,low,high,below⟩
        cases before with
        | nil =>
          obtain ⟨rfl,-⟩ := List.cons.inj same
          simp only [lowSum_nil,Nat.add_zero] at high below
          exact absurd ⟨high,below⟩ passes
        | cons first others =>
          obtain ⟨rfl,-⟩ := List.cons.inj same
          rw [lowSum_cons] at low
          omega
      · rename_i within
        rw [narrowed_toNat] at within
        have taken : (part.take (narrowed part).toNat).length = part.length % 2 ^ 32 := by
          rw [List.length_take,narrowed_toNat]
          exact Nat.min_eq_left (Nat.mod_le _ _)
        have longer : (staged ++ part.take (narrowed part).toNat).length =
          staged.length + part.length % 2 ^ 32 := by
          rw [List.length_append,taken]
        rw [ih (by omega),longer]
        constructor
        · rintro ⟨before,q,after,rfl,low,high,below⟩
          refine ⟨part :: before,q,after,rfl,?_⟩
          rw [lowSum_cons]
          omega
        · rintro ⟨before,q,after,same,low,high,below⟩
          cases before with
          | nil =>
            obtain ⟨rfl,-⟩ := List.cons.inj same
            simp only [lowSum_nil,Nat.add_zero] at high
            omega
          | cons first others =>
            obtain ⟨rfl,rfl⟩ := List.cons.inj same
            refine ⟨others,q,after,rfl,?_⟩
            rw [lowSum_cons] at low high below
            omega

theorem caught_iff (siov : List Part) : Caught siov ↔ gather siov [] = .tooBig := by
  rw [gather_tooBig siov (Nat.zero_le _)]
  simp only [List.length_nil,Nat.zero_add,Caught]

theorem scatter_flatten (riov : List Part) (left : List Byte) (few : riov.flatten.length ≤ msgMaxBytes) :
    (scatter riov left).flatten = left.take riov.flatten.length ++ riov.flatten.drop left.length := by
  induction riov generalizing left with
  | nil => simp [scatter]
  | cons part rest ih =>
    rw [List.flatten_cons,List.length_append] at few
    have small : (narrowed part).toNat = part.length := by
      rw [narrowed_toNat]
      rw [msgMaxBytes_eq] at few
      omega
    rw [scatter,List.flatten_cons,small,ih _ (by omega),List.flatten_cons,List.length_append]
    rcases Nat.le_total part.length left.length with enough | short
    · have used : part.drop left.length = [] := List.drop_of_length_le enough
      rw [Nat.min_eq_left enough,List.drop_length,List.append_nil,List.length_drop,List.take_add,List.append_assoc,
        List.drop_append,used,List.nil_append]
    · have all : left.take (part.length + rest.flatten.length) = left := List.take_of_length_le (by omega)
      rw [Nat.min_eq_right short,List.take_length,List.drop_length,List.take_nil,List.nil_append,List.length_nil,
        List.drop_zero,all,List.append_assoc,List.drop_append_of_le_length short]

theorem scattered (few : riov.flatten.length ≤ msgMaxBytes) (reply : List Byte) : Scattered riov reply :=
  scatter_flatten riov _ few

/-- Parts that fit in a message are sent as `MsgSend` sends them in registers. -/
theorem sendvCall_regs (known : slot ≠ 0) (long : 8 ≤ siov.flatten.length)
    (fits : siov.flatten.length ≤ msgMaxBytes) :
    sendvCall slot siov = .call (.regs (BitVec.ofNat 32 (leNat (siov.flatten.take 8)))
      (packBytes (siov.flatten.drop 8))) := by
  have gathered : gather siov [] = .image siov.flatten := by
    rw [gather_fits siov (by simpa using fits),List.nil_append]
  rw [sendvCall,if_neg known,gathered]
  dsimp only
  rw [if_neg (by omega)]

theorem load_head (mem : Pid → Word → Byte) (client : Pid) (smsg : Word) (long : 8 ≤ n) :
    Memory.load mem client smsg 8 = (Memory.load mem client smsg n).take 8 := by
  rw [Memory.take_load,Nat.min_eq_left long]

theorem load_body (mem : Pid → Word → Byte) (client : Pid) (smsg : Word) (long : 8 ≤ n) :
    Memory.load mem client (smsg + 8) (n - 8) = (Memory.load mem client smsg n).drop 8 := by
  have parts := Memory.load_append mem client smsg 8 (n - 8)
  rw [Nat.add_sub_cancel' long] at parts
  rw [parts,List.drop_left' (Memory.length_load ..)]
  rfl

theorem sameCall_iff (known : slot ≠ 0) (long : 8 ≤ siov.flatten.length)
    (fits : siov.flatten.length ≤ msgMaxBytes) :
    SameCall slot siov riov ↔ riov.flatten.length ≤ msgMaxBytes := by
  have issued := sendvCall_regs known long fits
  rw [msgMaxBytes_eq] at fits
  constructor
  · rintro ⟨a,smsg,rmsg,own,into,sbytes,rbytes,all⟩
    by_contra large
    have bulky : a.bulk = true := by
      simp only [SendArgs.bulk,own,into,rbytes,Option.isSome_some,Bool.and_true,decide_eq_true_eq]
      exact .inr (Nat.lt_of_not_le large)
    have holds : Memory.load (Memory.store (fun _ _ => 0) (1 : Pid) smsg siov.flatten) 1 smsg a.sbytes =
      siov.flatten := by
      rw [sbytes,Memory.load_store _ _ _ (by omega) _ (le_refl _),List.take_length]
    have same := all ⟨0,[]⟩ _ _ holds
    rw [issued,msgSend,own] at same
    dsimp only at same
    rw [if_pos bulky] at same
    cases Issued.call.inj same
  · intro small
    rw [msgMaxBytes_eq] at small
    obtain ⟨a,own,into,sbytes,rbytes⟩ : ∃ a : SendArgs, a.smsg = some 0 ∧ a.rmsg = some 0 ∧
        a.sbytes = siov.flatten.length ∧ a.rbytes = riov.flatten.length :=
      ⟨⟨some 0,_,some 0,_,by omega⟩,rfl,rfl,rfl,rfl⟩
    refine ⟨a,0,0,own,into,sbytes,rbytes,fun ipc mem client holds => ?_⟩
    have inline : a.bulk = false := by
      simp only [SendArgs.bulk,own,into,sbytes,rbytes,Option.isSome_some,Bool.and_true,decide_eq_false_iff_not,
        msgMaxBytes_eq]
      omega
    rw [sbytes] at holds
    rw [issued,msgSend,own]
    dsimp only
    rw [if_neg (by rw [inline]; decide),load_head mem client 0 long,sbytes,load_body mem client 0 long,holds]

theorem sendvCall_e2big (known : slot ≠ 0) : sendvCall slot siov = .refused .e2big ↔ Caught siov := by
  rw [caught_iff,sendvCall,if_neg known]
  cases gathered : gather siov [] with
  | tooBig => simp
  | overrun => simp
  | image bytes =>
    dsimp only
    split <;> simp

/-- A vector send is a flat send exactly if, with a request that fits in a message, the receive parts
fit in one as well, and with one that does not, the narrowed lengths show it. -/
theorem sendv_flat (slot : Nat) (siov riov : List Part) (known : slot ≠ 0) :
    Flat slot siov riov ↔
      (8 ≤ siov.flatten.length → siov.flatten.length ≤ msgMaxBytes → riov.flatten.length ≤ msgMaxBytes) ∧
        (msgMaxBytes < siov.flatten.length → Caught siov) := by
  constructor
  · intro flat
    refine ⟨fun long fits => ?_,fun large => ?_⟩
    · exact (sameCall_iff known long fits).mp (flat.same long fits).1
    · exact (sendvCall_e2big known).mp (flat.refused large)
  · rintro ⟨room,caught⟩
    refine ⟨fun long fits => ?_,fun large => ?_,?_⟩
    · exact ⟨(sameCall_iff known long fits).mpr (room long fits),scattered (room long fits)⟩
    · exact (sendvCall_e2big known).mpr (caught large)
    · rcases Nat.lt_or_ge msgMaxBytes siov.flatten.length with large | fits
      · rw [(sendvCall_e2big known).mpr (caught large)]
        simp
      · rw [sendvCall,if_neg known,gather_fits siov (by simpa using fits)]
        dsimp only
        split <;> simp

theorem sendv_flat_small :
    Flat 1 [[1,0,0],[0,0,0,0,0],[7]] [[0,0],[0]] :=
  (sendv_flat 1 [[1,0,0],[0,0,0,0,0],[7]] [[0,0],[0]] (by decide)).mpr
    ⟨fun _ _ => by decide,fun large => absurd large (by decide)⟩

theorem gather_wraps (p q : Part) (eight : p.length = 8) (wraps : q.length = 2 ^ 32 - 8) :
    gather [p,q] [] = .overrun := by
  have low : (narrowed p).toNat = 8 := by
    rw [narrowed_toNat,eight]
    rfl
  have high : (narrowed q).toNat = 2 ^ 32 - 8 := by
    rw [narrowed_toNat,wraps]
    rfl
  have whole : p.take (narrowed p).toNat = p := by rw [low,← eight,List.take_length]
  have empty : ([] : List Byte).length ≤ msgMaxBytes := Nat.zero_le _
  have short : p.length ≤ msgMaxBytes := by
    rw [eight]
    decide
  have first := staged_sum empty p
  have second := staged_sum short q
  rw [eight,List.length_nil,msgMaxBytes_eq] at first
  rw [wraps,eight,msgMaxBytes_eq] at second
  rw [gather,if_neg (by rw [msgMaxBytes_eq,List.length_nil,first]; omega),low,
    if_neg (by decide),← low,whole,List.nil_append]
  rw [gather,if_neg (by rw [msgMaxBytes_eq,eight,second]; omega),high,eight]
  exact if_pos (by decide)

/-- A type word and a part of `2 ^ 32 - 8` bytes, whose sum is 0. -/
theorem sendv_overruns :
    sendvCall 1 [List.replicate 8 0,List.replicate (2 ^ 32 - 8) 0] = .overrun ∧
      ¬ Flat 1 [List.replicate 8 0,List.replicate (2 ^ 32 - 8) 0] [] := by
  have gathered : gather [List.replicate 8 0,List.replicate (2 ^ 32 - 8) 0] [] = .overrun :=
    gather_wraps _ _ List.length_replicate List.length_replicate
  have beyond : sendvCall 1 [List.replicate 8 0,List.replicate (2 ^ 32 - 8) 0] = .overrun := by
    rw [sendvCall,if_neg (by decide),gathered]
  exact ⟨beyond,fun flat => flat.inside beyond⟩

end Qsoe.Msg
