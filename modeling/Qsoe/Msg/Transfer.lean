import Qsoe.Msg.Machine
import Qsoe.Msg.Space

/-! The bytes of a message and of its answer. `MsgSend` puts a small message into message
registers, its first word in the label, and of a large one a descriptor whose bytes taskman
copies when the server receives and replies. A buffer that is NULL or the IPC buffer itself is
`none`; sizes are C ints, and a negative one is refused. -/
namespace Qsoe.Msg

open Qsoe.Taskman (Pid Word)

/-- `QSOE_MSG_MAX_BYTES`, which is also `QSOE_MSG_INLINE_MAX`, `QSOE_MSG_BULK_LABEL` and
`QSOE_RCVID_PID_MASK`. -/
def msgMaxBytes : Nat := 960
def bulkLabel : BitVec 32 := 0x40000000
def rcvidPidMask : BitVec 32 := 0x3fffffff

def leNat : List Byte → Nat
  | [] => 0
  | b :: rest => b.toNat + 256 * leNat rest

def leBytes : Nat → Nat → List Byte
  | 0, _ => []
  | k + 1, n => BitVec.ofNat 8 n :: leBytes k (n / 256)

theorem leBytes_leNat (bs : List Byte) : leBytes bs.length (leNat bs) = bs := by
  induction bs with
  | nil => rfl
  | cons b rest ih =>
    have low := b.isLt
    rw [List.length_cons,leBytes,leNat]
    have high : (b.toNat + 256 * leNat rest) / 256 = leNat rest := by omega
    have first : BitVec.ofNat 8 (b.toNat + 256 * leNat rest) = b := by
      apply BitVec.eq_of_toNat_eq
      rw [BitVec.toNat_ofNat]
      omega
    rw [high,first,ih]

@[simp] theorem length_leBytes (k n : Nat) : (leBytes k n).length = k := by
  induction k generalizing n with
  | zero => rfl
  | succ k ih => rw [leBytes,List.length_cons,ih]

/-- `qsoe_ipcbuf` of a thread. -/
structure Ipc where
  tag : Word
  msg : List Byte

/-- A message in the kernel: its label and the bytes of its message registers, or the four
words of a descriptor. -/
inductive Message where
  | regs (label : BitVec 32) (bytes : List Byte)
  | bulk (sbuf sbytes rbuf rbytes : Word)
  deriving DecidableEq, Repr

structure SendArgs where
  smsg : Option Word
  sbytes : Nat
  rmsg : Option Word
  rbytes : Nat
  sizes : sbytes < 2 ^ 31 ∧ rbytes < 2 ^ 31

/-- The bytes of the registers `n` bytes of payload take. -/
def regBytes (n : Nat) : Nat := 8 * ((min n msgMaxBytes + 7) / 8)

/-- `pack_bytes`: what does not fit is cut off, and the last word is filled up with zeros. -/
def packBytes (bs : List Byte) : List Byte :=
  bs.take msgMaxBytes ++ List.replicate (regBytes bs.length - min bs.length msgMaxBytes) 0

/-- Either direction exceeds the message registers, and both buffers are the caller's own. -/
def SendArgs.bulk (a : SendArgs) : Bool :=
  decide (msgMaxBytes < a.sbytes ∨ msgMaxBytes < a.rbytes) && a.smsg.isSome && a.rmsg.isSome

def msgSend (a : SendArgs) (ipc : Ipc) (mem : Pid → Word → Byte) (client : Pid) : Message :=
  match a.smsg with
  | none => .regs (ipc.tag.setWidth 32) (ipc.msg.take (regBytes a.sbytes))
  | some smsg =>
    if a.bulk then .bulk smsg (BitVec.ofNat 64 a.sbytes) (a.rmsg.getD 0) (BitVec.ofNat 64 a.rbytes)
    else .regs (BitVec.ofNat 32 (leNat (Memory.load mem client smsg 8)))
      (packBytes (Memory.load mem client (smsg + 8) (a.sbytes - 8)))

/-- Word `k` of the message registers. -/
def mr (bytes : List Byte) (k : Nat) : Word := BitVec.ofNat 64 (leNat ((bytes.drop (8 * k)).take 8))

/-- The badge as `MsgReceive` passes it on, a `pid_t`, and as `MsgReply` takes it out of an rcvid. -/
def pullKey (badge : Word) : Word := (badge.setWidth 32).signExtend 64
def pushKey (rcvid : BitVec 32) : Word := (rcvid &&& rcvidPidMask).setWidth 64

namespace Space

def receiveBulk (sp : Space) (names : Names) (granted : Word → Bool) (server : Pid) (badge : Word)
    (msg : Option Word) (bytes : Nat) (sbuf sbytes rbuf rbytes : Word) : Space × Except XferErrno (BitVec 32) :=
  let want := if BitVec.ofNat 64 bytes < sbytes then BitVec.ofNat 64 bytes else sbytes
  if msg.isSome ∧ want ≠ 0 then
    match sp.msgXfer names granted server (.pull (pullKey badge) sbuf (msg.getD 0) want rbuf rbytes) with
    | (failed,.error e) => (failed,.error e)
    | (pulled,.ok _) => (pulled,.ok (rcvidBulk ||| badge.setWidth 32))
  else
    ((sp.msgXfer names granted server (.pull (pullKey badge) sbuf (msg.getD 0) 0 rbuf rbytes)).1,
      .ok (rcvidBulk ||| badge.setWidth 32))

/-- `MsgReceive` once a message is in. The type word is written whatever `bytes` is. -/
def msgReceive (sp : Space) (names : Names) (granted : Word → Bool) (server : Pid) (badge : Word)
    (msg : Option Word) (bytes : Nat) : Message → Space × Except XferErrno (BitVec 32)
  | .bulk sbuf sbytes rbuf rbytes => sp.receiveBulk names granted server badge msg bytes sbuf sbytes rbuf rbytes
  | .regs label body =>
    if label &&& bulkLabel ≠ 0 then
      sp.receiveBulk names granted server badge msg bytes (mr body 0) (mr body 1) (mr body 2) (mr body 3)
    else match msg with
      | none => (sp,.ok (badge.setWidth 32))
      | some dst =>
        let text := leBytes 8 label.toNat ++ body.take (min (bytes - 8) msgMaxBytes)
        ({ sp with mem := Memory.store sp.mem server dst text },.ok (badge.setWidth 32))

end Space

/-- What `qsoe_sys_send` sends through which reply object. -/
structure Reply where
  slot : Nat
  label : BitVec 32
  bytes : List Byte
  deriving DecidableEq, Repr

/-- `MsgReply`; a payload of a bulk reply is pushed first. -/
def Space.msgReply (sp : Space) (names : Names) (granted : Word → Bool) (server : Pid) (ipc : Ipc)
    (rcvid status : BitVec 32) (msg : Option Word) (bytes : Nat) : Space × Except XferErrno Reply :=
  if rcvid &&& rcvidBulk ≠ 0 then
    if msg.isSome ∧ bytes ≠ 0 then
      match sp.msgXfer names granted server (.push (pushKey rcvid) (msg.getD 0) (BitVec.ofNat 64 bytes)) with
      | (failed,.error e) => (failed,.error e)
      | (pushed,.ok _) => (pushed,.ok ⟨capReply,status,[]⟩)
    else ((sp.msgXfer names granted server (.push (pushKey rcvid) 0 0)).1,.ok ⟨capReply,status,[]⟩)
  else
    let body := match msg with
      | some src => packBytes (Memory.load sp.mem server src bytes)
      | none => ipc.msg.take (regBytes bytes)
    if rcvid &&& rcvidSaved ≠ 0 then (sp,.ok ⟨(rcvid &&& ~~~rcvidSaved).toNat,status,body⟩)
    else (sp,.ok ⟨capReply,status,body⟩)

/-- `MsgSend` after the answer: the client's memory. The label is the status it returns. -/
def SendArgs.unpack (a : SendArgs) (client : Pid) (mem : Pid → Word → Byte) (reply : Reply) : Pid → Word → Byte :=
  if a.bulk then mem
  else match a.rmsg with
    | none => mem
    | some rmsg => Memory.store mem client rmsg (reply.bytes.take (min a.rbytes msgMaxBytes))

/-- A buffer was filled with `data`, up to the zeros of the last word. -/
def Filled (before after data : List Byte) : Prop :=
  ∃ pad, pad < 8 ∧ data.length + pad ≤ before.length ∧
    after = data ++ List.replicate pad 0 ++ before.drop (data.length + pad)

/-- The connection a message goes over, and what taskman takes each badge for. -/
structure Line where
  client : Pid
  server : Pid
  badge : Word
  clientOf : Word → Pid

/-- A request from `smsg` arrives whole in any buffer it fits into, and whatever of the answer
fits arrives in the reply buffer; between the two everything but the pending replies may change. -/
def Whole (line : Line) (a : SendArgs) (smsg : Word) : Prop :=
  ∀ (sp : Space) (known : Pid → Bool) (granted : Word → Bool) (ipc : Ipc) (msg : Word) (bytes : Nat),
    a.sbytes ≤ bytes → bytes < 2 ^ 31 → Memory.Apart line.client smsg a.sbytes line.server msg bytes →
    leNat (Memory.load sp.mem line.client smsg 8) < 2 ^ 30 → ∀ sp' rcvid,
    sp.msgReceive ⟨known,line.clientOf⟩ granted line.server line.badge (some msg) bytes
      (msgSend a ipc sp.mem line.client) = (sp',.ok rcvid) →
    Filled (Memory.load sp.mem line.server msg bytes) (Memory.load sp'.mem line.server msg bytes)
      (Memory.load sp.mem line.client smsg a.sbytes) ∧
    ∀ (later : Space) (known : Pid → Bool) (granted : Word → Bool) (ipc : Ipc) (status : BitVec 32) (answer : Word)
      (len : Nat) (rmsg : Word), later.pending = sp'.pending → len < 2 ^ 31 → a.rmsg = some rmsg →
      Memory.Apart line.server answer len line.client rmsg a.rbytes → ∀ sp'' reply,
      later.msgReply ⟨known,line.clientOf⟩ granted line.server ipc rcvid status (some answer) len =
        (sp'',.ok reply) →
      reply.slot = capReply →
      reply.label = status ∧ Filled (Memory.load later.mem line.client rmsg a.rbytes)
        (Memory.load (a.unpack line.client sp''.mem reply) line.client rmsg a.rbytes)
        ((Memory.load later.mem line.server answer len).take a.rbytes)

/-- In registers the request fits, and its rcvid is not taken for one of a bulk message; as a
descriptor, taskman takes the badge for the sender, when it is asked to copy at all. -/
def Carried (line : Line) (a : SendArgs) : Prop :=
  if a.bulk then
    bulkMax < a.sbytes ∨ line.clientOf (pullKey line.badge) = 0 ∨
      line.clientOf (pullKey line.badge) = line.client ∧ (a.rbytes = 0 ∨
        line.clientOf (pushKey (line.badge.setWidth 32)) = 0 ∨
        line.clientOf (pushKey (line.badge.setWidth 32)) = line.client)
  else
    a.sbytes ≤ msgMaxBytes + 8 ∧ (line.badge.setWidth 32 &&& rcvidBulk = 0 ∨ a.rmsg = none ∨ a.rbytes = 0 ∨
      line.clientOf (pushKey (line.badge.setWidth 32)) = 0)

variable {a : SendArgs} {line : Line} {sp sp' later : Space} {names : Names} {known : Pid → Bool}
    {granted : Word → Bool} {ipc : Ipc}
  {client server : Pid} {badge smsg msg rmsg answer src dst rbuf rbytes len' r : Word}
    {rcvid status : BitVec 32} {bytes len pad cap n : Nat} {reply : Reply} {result : Except XferErrno Word}
  {i : Fin bulkPendingMax}

theorem packBytes_take (bs : List Byte) (small : cap ≤ msgMaxBytes) : ∃ pad, pad < 8 ∧
    (bs.take cap).length + pad ≤ cap ∧
    (packBytes bs).take cap = bs.take cap ++ List.replicate pad 0 := by
  by_cases short : bs.length ≤ cap
  · have whole : bs.take msgMaxBytes = bs := List.take_of_length_le (by omega)
    have all : bs.take cap = bs := List.take_of_length_le short
    have one : min bs.length msgMaxBytes = bs.length := Nat.min_eq_left (by omega)
    refine ⟨min (cap - bs.length) (regBytes bs.length - bs.length),?_,?_,?_⟩
    · unfold regBytes
      rw [one]
      omega
    · rw [all]
      omega
    · rw [packBytes,whole,all,one,List.take_append,all,List.take_replicate]
  · refine ⟨0,by omega,?_,?_⟩
    · rw [List.length_take]
      omega
    · rw [packBytes,List.take_append_of_le_length,List.take_take,Nat.min_eq_left small,List.replicate_zero,
        List.append_nil]
      rw [List.length_take]
      omega

theorem filled_store (m : Pid → Word → Byte) (p : Pid) (at' : Word) (data : List Byte) (few : pad < 8)
    (short : data.length + pad ≤ n) (fits : n ≤ 2 ^ 64) :
    Filled (Memory.load m p at' n)
      (Memory.load (Memory.store m p at' (data ++ List.replicate pad 0)) p at' n) data := by
  refine ⟨pad,few,by rwa [Memory.length_load],?_⟩
  rw [Memory.load_store_drop _ _ _ fits (by simpa using short),List.length_append,List.length_replicate]

theorem type_bits (below : n < 2 ^ 30) : BitVec.ofNat 32 n &&& bulkLabel = 0 := by
  apply BitVec.eq_of_getLsbD_eq
  intro k small
  have label : bulkLabel.getLsbD k = decide (k = 30) := by
    have table : ∀ k < 32, bulkLabel.getLsbD k = decide (k = 30) := by decide
    exact table k small
  rw [BitVec.getLsbD_and,label,BitVec.getLsbD_ofNat]
  rcases eq_or_ne k 30 with rfl | other
  · rw [Nat.testBit_lt_two_pow below]
    simp
  · simp [other]

theorem receive_regs (names : Names) (granted : Word → Bool) (server : Pid) (badge msg : Word) (ipc : Ipc)
    (own : a.smsg = some smsg) (inline : a.bulk = false) (long : 8 ≤ a.sbytes) (fits : a.sbytes ≤ msgMaxBytes + 8)
    (roomy : a.sbytes ≤ bytes) (int : bytes < 2 ^ 31) (typed : leNat (Memory.load sp.mem client smsg 8) < 2 ^ 30) :
    ∃ sp', sp.msgReceive names granted server badge (some msg) bytes (msgSend a ipc sp.mem client) =
      (sp',.ok (badge.setWidth 32)) ∧ sp'.pending = sp.pending ∧
      Filled (Memory.load sp.mem server msg bytes) (Memory.load sp'.mem server msg bytes)
        (Memory.load sp.mem client smsg a.sbytes) := by
  have plain := type_bits typed
  have label : (BitVec.ofNat 32 (leNat (Memory.load sp.mem client smsg 8))).toNat =
      leNat (Memory.load sp.mem client smsg 8) := by
    rw [BitVec.toNat_ofNat]
    omega
  have head : leBytes 8 (leNat (Memory.load sp.mem client smsg 8)) = Memory.load sp.mem client smsg 8 := by
    have whole := leBytes_leNat (Memory.load sp.mem client smsg 8)
    rwa [Memory.length_load] at whole
  obtain ⟨pad,few,short,body⟩ := packBytes_take (Memory.load sp.mem client (smsg + 8) (a.sbytes - 8))
    (Nat.min_le_right (bytes - 8) msgMaxBytes)
  rw [Memory.take_load,Memory.length_load] at short
  rw [Memory.take_load] at body
  have cut : min (min (bytes - 8) msgMaxBytes) (a.sbytes - 8) = a.sbytes - 8 := by omega
  rw [cut] at short body
  have sent : Memory.load sp.mem client smsg a.sbytes =
      Memory.load sp.mem client smsg 8 ++ Memory.load sp.mem client (smsg + 8) (a.sbytes - 8) := by
    have split := Memory.load_append sp.mem client smsg 8 (a.sbytes - 8)
    rwa [Nat.add_sub_cancel' long] at split
  refine ⟨{ sp with
      mem := Memory.store sp.mem server msg (Memory.load sp.mem client smsg a.sbytes ++ List.replicate pad 0) },
    ?_,rfl,?_⟩
  · simp only [msgSend,own,inline,Bool.false_eq_true,if_false,Space.msgReceive,plain,ne_eq,not_true_eq_false,
      label,head,body,sent,List.append_assoc]
  · apply filled_store _ _ _ _ few
    · rw [Memory.length_load]
      omega
    · omega

theorem size_toNat (int : n < 2 ^ 31) : (BitVec.ofNat 64 n).toNat = n := by
  rw [BitVec.toNat_ofNat]
  omega

/-- A descriptor is received as one PULL of the whole request. -/
theorem receive_desc (ipc : Ipc) (client : Pid) (own : a.smsg = some smsg) (desc : a.bulk = true)
    (long : 8 ≤ a.sbytes) (roomy : a.sbytes ≤ bytes) (int : bytes < 2 ^ 31)
    (pulled : sp.msgXfer names granted server (.pull (pullKey badge) smsg msg (BitVec.ofNat 64 a.sbytes)
      (a.rmsg.getD 0) (BitVec.ofNat 64 a.rbytes)) = (sp',result)) :
    sp.msgReceive names granted server badge (some msg) bytes (msgSend a ipc sp.mem client) =
      (sp',result.map fun _ => rcvidBulk ||| badge.setWidth 32) := by
  have want : ¬ BitVec.ofNat 64 bytes < BitVec.ofNat 64 a.sbytes := by
    rw [BitVec.lt_def,size_toNat int,size_toNat a.sizes.1]
    omega
  have some_bytes : BitVec.ofNat 64 a.sbytes ≠ 0 := by
    intro empty
    have nothing := congrArg BitVec.toNat empty
    rw [size_toNat a.sizes.1] at nothing
    simp at nothing
    omega
  simp only [msgSend,own,desc,if_true,Space.msgReceive,Space.receiveBulk,want,if_false,Option.isSome_some,
    Option.getD_some,ne_eq,some_bytes,not_false_eq_true,true_and,pulled]
  cases result with
  | error e => rfl
  | ok r => rfl

theorem pull_ok (done : sp.msgXfer names granted server (.pull badge src dst len' rbuf rbytes) = (sp',.ok r)) :
    names.client badge ≠ 0 ∧ ∃ copied i, sp.bulkCopy granted (names.client badge) src server dst len' =
      (copied,.ok r) ∧
      copied.pendingSlot (names.client badge) = some i ∧
      sp' = { copied with pending := Slab.put copied.pending i ⟨names.client badge,rbuf,rbytes⟩ } := by
  simp only [Space.msgXfer] at done
  split at done
  · simp at done
  · rename_i named
    refine ⟨named,?_⟩
    unfold Space.msgXferPull at done
    split at done
    · simp at done
    · split at done
      · simp at done
      · rename_i copied r' copying
        split at done
        · simp at done
        · rename_i i free
          obtain ⟨rfl,same⟩ := Prod.mk.inj done
          obtain rfl : r' = r := by simpa using same
          exact ⟨copied,i,copying,free,rfl⟩

theorem push_ok (done : sp.msgXfer names granted server (.push badge src len') = (sp',.ok r)) :
    names.client badge ≠ 0 ∧ ∃ i e, sp.bulkPendingFind (names.client badge) = some (i,e) ∧
      ((if e.rbytes < len' then e.rbytes else len') = 0 ∧ sp' = sp.release i ∨
        ∃ copied, sp.bulkCopy granted server src (names.client badge) e.rbuf
          (if e.rbytes < len' then e.rbytes else len') =
          (copied,.ok r) ∧ sp' = copied.release i) := by
  simp only [Space.msgXfer] at done
  split at done
  · simp at done
  · rename_i named
    refine ⟨named,?_⟩
    unfold Space.msgXferPush at done
    split at done
    · simp at done
    · rename_i i e found
      refine ⟨i,e,found,?_⟩
      split at done
      · simp at done
      · dsimp only at done
        by_cases empty : (if e.rbytes < len' then e.rbytes else len') = 0
        · rw [if_pos empty] at done
          exact .inl ⟨empty,(Prod.mk.inj done).1.symm⟩
        · rw [if_neg empty] at done
          right
          rcases copying : sp.bulkCopy granted server src (names.client badge) e.rbuf
            (if e.rbytes < len' then e.rbytes else len') with ⟨copied,result⟩
          rw [copying] at done
          obtain ⟨rfl,rfl⟩ := Prod.mk.inj done
          exact ⟨copied,rfl,rfl⟩

theorem bulk_bit (w : BitVec 32) : (rcvidBulk ||| w) &&& rcvidBulk ≠ 0 := by
  intro nothing
  have bit := congrArg (fun x : BitVec 32 => x.getLsbD 30) nothing
  simp [rcvidBulk] at bit

theorem pushKey_bulk (w : BitVec 32) : pushKey (rcvidBulk ||| w) = pushKey w := by
  have mask : rcvidBulk &&& rcvidPidMask = 0#32 := by decide
  have same : (rcvidBulk ||| w) &&& rcvidPidMask = w &&& rcvidPidMask := by
    rw [BitVec.and_comm,BitVec.and_or_distrib_left,BitVec.and_comm rcvidPidMask rcvidBulk,mask,BitVec.zero_or,
      BitVec.and_comm]
  rw [pushKey,same,pushKey]

theorem filled_nil (before : List Byte) : Filled before before [] := ⟨0,by omega,by simp,by simp⟩

theorem reply_regs (own : a.smsg = some smsg) (inline : a.bulk = false) (into : a.rmsg = some rmsg)
    (plain : rcvid &&& rcvidBulk = 0)
    (sent : later.msgReply names granted server ipc rcvid status (some answer) len = (sp',.ok reply)) :
    reply.label = status ∧ Filled (Memory.load later.mem client rmsg a.rbytes)
      (Memory.load (a.unpack client sp'.mem reply) client rmsg a.rbytes)
        ((Memory.load later.mem server answer len).take a.rbytes) := by
  have small : a.rbytes ≤ msgMaxBytes := by
    by_contra large
    have desc : a.bulk = true := by
      simp only [SendArgs.bulk,own,into,Option.isSome_some,Bool.and_true,decide_eq_true_eq]
      omega
    rw [inline] at desc
    cases desc
  obtain ⟨pad,few,short,body⟩ := packBytes_take (Memory.load later.mem server answer len) small
  have shown : sp' = later ∧ reply.label = status ∧
    reply.bytes = packBytes (Memory.load later.mem server answer len) := by
    unfold Space.msgReply at sent
    rw [if_neg (by simpa using plain)] at sent
    dsimp only at sent
    split at sent
    all_goals
      obtain ⟨rfl,same⟩ := Prod.mk.inj sent
      obtain rfl := Except.ok.inj same
      exact ⟨rfl,rfl,rfl⟩
  obtain ⟨rfl,label,packed⟩ := shown
  refine ⟨label,?_⟩
  simp only [SendArgs.unpack,inline,Bool.false_eq_true,if_false,into,packed,Nat.min_eq_left small,body]
  have int := a.sizes.2
  exact filled_store _ _ _ _ few short (by omega)

theorem push_empty (sp : Space) (names : Names) (granted : Word → Bool) (server : Pid) (badge : Word) :
    (sp.msgXfer names granted server (.push badge 0 0)).1.mem = sp.mem := by
  simp only [Space.msgXfer]
  split
  · rfl
  · unfold Space.msgXferPush
    split
    · rfl
    · rename_i i e _
      have empty : (if e.rbytes < 0 then e.rbytes else 0) = 0 := if_neg (by simp [BitVec.lt_def])
      split
      · rfl
      · dsimp only
        rw [if_pos empty]
        rfl

/-- An answer to a message that was taken for a bulk one: its payload, if any, was pushed. -/
theorem reply_pushed (bulky : rcvid &&& rcvidBulk ≠ 0)
    (sent : later.msgReply names granted server ipc rcvid status (some answer) len = (sp',.ok reply)) :
    reply = ⟨capReply,status,[]⟩ ∧ (len = 0 ∧ sp'.mem = later.mem ∨
      ∃ r, later.msgXfer names granted server (.push (pushKey rcvid) answer (BitVec.ofNat 64 len)) = (sp',.ok r)) := by
  unfold Space.msgReply at sent
  rw [if_pos bulky] at sent
  split at sent
  · split at sent
    · simp at sent
    · rename_i pushed r pushing
      obtain ⟨rfl,same⟩ := Prod.mk.inj sent
      exact ⟨(Except.ok.inj same).symm,.inr ⟨r,pushing⟩⟩
  · rename_i bare
    obtain ⟨rfl,same⟩ := Prod.mk.inj sent
    refine ⟨(Except.ok.inj same).symm,.inl ⟨?_,push_empty ..⟩⟩
    simpa using bare

theorem unpack_nothing (a : SendArgs) (client : Pid) (mem : Pid → Word → Byte) :
    a.unpack client mem ⟨capReply,status,[]⟩ = mem := by
  unfold SendArgs.unpack
  split
  · rfl
  · split
    · rfl
    · funext q x
      simp [Memory.store]

theorem reply_desc (int : len < 2 ^ 31) (known : names.client (pushKey rcvid) = client)
    (apart : Memory.Apart server answer len client rmsg a.rbytes)
    (entry : later.bulkPendingFind client = some (i,⟨client,rmsg,BitVec.ofNat 64 a.rbytes⟩))
    (pushed : later.msgXfer names granted server (.push (pushKey rcvid) answer (BitVec.ofNat 64 len)) =
      (sp',.ok r)) :
    Filled (Memory.load later.mem client rmsg a.rbytes) (Memory.load sp'.mem client rmsg a.rbytes)
      ((Memory.load later.mem server answer len).take a.rbytes) := by
  obtain ⟨-,k,e,found,done⟩ := push_ok pushed
  rw [known,entry] at found
  obtain ⟨rfl,rfl⟩ := Prod.mk.inj (Option.some.inj found)
  have size : (if BitVec.ofNat 64 a.rbytes < BitVec.ofNat 64 len then BitVec.ofNat 64 a.rbytes
      else BitVec.ofNat 64 len).toNat =
      min a.rbytes len := by
    split
    · rename_i less
      rw [BitVec.lt_def,size_toNat a.sizes.2,size_toNat int] at less
      rw [size_toNat a.sizes.2]
      omega
    · rename_i more
      rw [BitVec.lt_def,size_toNat a.sizes.2,size_toNat int] at more
      rw [size_toNat int]
      omega
  rw [Memory.take_load]
  rcases done with ⟨empty,rfl⟩ | ⟨copied,copying,rfl⟩
  · have zero := congrArg BitVec.toNat empty
    rw [size] at zero
    rw [show min a.rbytes len = 0 from zero]
    exact filled_nil _
  · rw [known] at copying
    have near : Memory.Apart server answer (min a.rbytes len) client rmsg (min a.rbytes len) :=
      fun same i first j second => apart same i (by omega) j (by omega)
    rw [← size] at near
    have mem := (Space.bulkCopy_ok near copying).1
    rw [size] at mem
    simp only [Space.release,mem]
    have int' := a.sizes.2
    have short : (Memory.load later.mem server answer (min a.rbytes len)).length + 0 ≤ a.rbytes := by
      rw [Memory.length_load]
      omega
    have whole := filled_store later.mem client rmsg _ (by omega) short (by omega)
    simpa using whole

theorem filled_empty (before after data : List Byte) (nothing : before = []) (nothing' : after = []) (cut : data = []) :
    Filled before after data := by
  subst nothing nothing' cut
  exact filled_nil []

theorem Carried.reply_regs (carried : Carried line a) (inline : a.bulk = false) (own : a.smsg = some smsg)
    (into : a.rmsg = some rmsg)
    (sent : later.msgReply ⟨known,line.clientOf⟩ granted line.server ipc (line.badge.setWidth 32) status
      (some answer) len =
      (sp',.ok reply)) :
    reply.label = status ∧ Filled (Memory.load later.mem line.client rmsg a.rbytes)
      (Memory.load (a.unpack line.client sp'.mem reply) line.client rmsg a.rbytes)
      ((Memory.load later.mem line.server answer len).take a.rbytes) := by
  rw [Carried,inline,if_neg Bool.false_ne_true] at carried
  by_cases plain : line.badge.setWidth 32 &&& rcvidBulk = 0
  · exact Msg.reply_regs own inline into plain sent
  · obtain ⟨rfl,pushed⟩ := reply_pushed plain sent
    refine ⟨rfl,?_⟩
    rw [unpack_nothing]
    rcases carried.2 with clear | absent | nothing | nobody
    · exact absurd clear plain
    · rw [into] at absent
      cases absent
    · rw [nothing]
      exact filled_empty _ _ _ rfl rfl (List.take_zero ..)
    · rcases pushed with ⟨rfl,same⟩ | ⟨r,pushing⟩
      · rw [same]
        simpa [Memory.load] using filled_nil _
      · exact absurd nobody (push_ok pushing).1

theorem Carried.reply_desc (carried : Carried line a) (desc : a.bulk = true) (few : a.sbytes ≤ bulkMax)
    (named : line.clientOf (pullKey line.badge) ≠ 0) (int : len < 2 ^ 31)
    (apart : Memory.Apart line.server answer len line.client rmsg a.rbytes)
    (entry : later.bulkPendingFind line.client = some (i,⟨line.client,rmsg,BitVec.ofNat 64 a.rbytes⟩))
    (sent : later.msgReply ⟨known,line.clientOf⟩ granted line.server ipc (rcvidBulk ||| line.badge.setWidth 32)
      status
      (some answer) len = (sp',.ok reply)) :
    reply.label = status ∧ Filled (Memory.load later.mem line.client rmsg a.rbytes)
      (Memory.load (a.unpack line.client sp'.mem reply) line.client rmsg a.rbytes)
      ((Memory.load later.mem line.server answer len).take a.rbytes) := by
  rw [Carried,desc,if_pos rfl] at carried
  obtain ⟨rfl,pushed⟩ := reply_pushed (bulk_bit _) sent
  refine ⟨rfl,?_⟩
  rw [unpack_nothing]
  rcases pushed with ⟨rfl,same⟩ | ⟨r,pushing⟩
  · rw [same]
    simpa [Memory.load] using filled_nil _
  · have addressee := (push_ok pushing).1
    rw [pushKey_bulk] at addressee
    rcases carried with large | nobody | ⟨-,nothing | nobody | sender⟩
    · omega
    · exact absurd nobody named
    · rw [nothing]
      exact filled_empty _ _ _ rfl rfl (List.take_zero ..)
    · exact absurd nobody addressee
    · refine Msg.reply_desc int ?_ apart entry pushing
      rw [pushKey_bulk]
      exact sender

theorem Carried.whole (carried : Carried line a) (own : a.smsg = some smsg) (long : 8 ≤ a.sbytes) :
    Whole line a smsg := by
  intro sp known granted ipc msg bytes roomy int apart typed sp' rcvid received
  cases desc : a.bulk with
  | false =>
    have fits : a.sbytes ≤ msgMaxBytes + 8 := by
      rw [Carried,desc,if_neg Bool.false_ne_true] at carried
      exact carried.1
    obtain ⟨done,arrived,-,filled⟩ := receive_regs ⟨known,line.clientOf⟩ granted line.server line.badge msg ipc
      own desc long fits roomy int typed
    rw [arrived] at received
    obtain ⟨rfl,same⟩ := Prod.mk.inj received
    obtain rfl := Except.ok.inj same
    refine ⟨filled,?_⟩
    intro later known granted ipc status answer len rmsg _ _ into _ sp'' reply sent _
    exact carried.reply_regs desc own into sent
  | true =>
    rcases pulling : sp.msgXfer ⟨known,line.clientOf⟩ granted line.server (.pull (pullKey line.badge) smsg msg
      (BitVec.ofNat 64 a.sbytes) (a.rmsg.getD 0) (BitVec.ofNat 64 a.rbytes)) with ⟨pulled,err | r⟩
    · rw [receive_desc ipc line.client own desc long roomy int pulling] at received
      cases (Prod.mk.inj received).2
    · rw [receive_desc ipc line.client own desc long roomy int pulling] at received
      obtain ⟨rfl,same⟩ := Prod.mk.inj received
      obtain rfl := Except.ok.inj same
      obtain ⟨named,copied,i,copying,free,rfl⟩ := pull_ok pulling
      dsimp only at named copying free
      have few : a.sbytes ≤ bulkMax := by
        by_contra large
        unfold Space.bulkCopy at copying
        rw [size_toNat a.sizes.1,if_neg (by simp [BitVec.ofNat_eq_ofNat,← BitVec.toNat_inj]; omega),
          if_pos (not_le.mp large)] at copying
        cases (Prod.mk.inj copying).2
      have sender : line.clientOf (pullKey line.badge) = line.client := by
        rw [Carried,desc,if_pos rfl] at carried
        rcases carried with large | nobody | ⟨sender,-⟩
        · omega
        · exact absurd nobody named
        · exact sender
      rw [sender] at copying free
      have near : Memory.Apart line.client smsg (BitVec.ofNat 64 a.sbytes).toNat line.server msg
          (BitVec.ofNat 64 a.sbytes).toNat := by
        rw [size_toNat a.sizes.1]
        exact fun same i first j second => apart same i first j (by omega)
      obtain ⟨mem,-,-⟩ := Space.bulkCopy_ok near copying
      rw [size_toNat a.sizes.1] at mem
      refine ⟨?_,?_⟩
      · have short : (Memory.load sp.mem line.client smsg a.sbytes).length + 0 ≤ bytes := by
          rw [Memory.length_load]
          omega
        have whole := filled_store sp.mem line.server msg _ (by omega) short (by omega)
        simpa [mem] using whole
      · intro later known granted ipc status answer len rmsg kept int into apart sp'' reply sent _
        have entry : later.bulkPendingFind line.client = some (i,⟨line.client,rmsg,BitVec.ofNat 64 a.rbytes⟩) := by
          have found := Space.pendingSlot_find free rmsg (BitVec.ofNat 64 a.rbytes)
          rw [Space.bulkPendingFind,kept]
          dsimp only
          rw [sender,into]
          exact found
        exact carried.reply_desc desc few named int apart entry sent

end Qsoe.Msg
