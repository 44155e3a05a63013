import Qsoe.Lib.Run
import Qsoe.Msg.Deferral

/-! Any number of client threads and server threads around one taskman. `MsgReceive` of a bulk
message is a Recv and then a PULL, `MsgReply` to one a PUSH and then a Send, and the steps of all
threads interleave. Taskman keeps the reply buffer of a message by the pid of its sender only. -/
namespace Qsoe.Msg

open Qsoe.Taskman (Pid Word)

variable {τ ι : Type} [DecidableEq τ] [DecidableEq ι]

/-- The client threads and server threads with their processes. `main` is the thread whose reply
object `QSOE_CAP_REPLY` is. -/
structure Parties (τ ι : Type) where
  pid : τ → Pid
  proc : ι → Pid
  main : ι → ι
  real : ∀ t, pid t ≠ 0
  shared : ∀ i, proc (main i) = proc i
  once : ∀ i, main (main i) = main i

structure Descriptor where
  sbuf : Word
  sbytes : Word
  rbuf : Word
  rbytes : Word
  deriving DecidableEq, Repr

def Message.descriptor : Message → Option Descriptor
  | .bulk sbuf sbytes rbuf rbytes => some ⟨sbuf,sbytes,rbuf,rbytes⟩
  | .regs label body => if label &&& bulkLabel ≠ 0 then some ⟨mr body 0,mr body 1,mr body 2,mr body 3⟩ else none

/-- A `MsgSend`: the badge of its connection, the process that owns the channel and the message. -/
structure Mail where
  badge : Word
  dest : Pid
  message : Message
  deriving DecidableEq, Repr

/-- Where a client thread is: not in `MsgSend`, queued on the channel, received and not yet
answered, received with its reply object put aside by `MsgSavereply`, or cancelled. -/
inductive Phase where
  | idle | queued | held | kept | stranded
  deriving DecidableEq, Repr

def Phase.blocked : Phase → Bool
  | .queued | .held | .kept => true
  | .idle | .stranded => false

structure Extent where
  pid : Pid
  base : Word
  len : Nat
  deriving DecidableEq, Repr

def Extent.Has (e : Extent) (p : Pid) (x : Word) : Prop := p = e.pid ∧ ∃ i < e.len, e.base + BitVec.ofNat 64 i = x

/-- The PULL of `MsgReceive`. -/
def pullRequest (badge : Word) (msg : Option Word) (bytes : Nat) (d : Descriptor) : Xfer :=
  let want := if BitVec.ofNat 64 bytes < d.sbytes then BitVec.ofNat 64 bytes else d.sbytes
  .pull (pullKey badge) d.sbuf (msg.getD 0) (if msg.isSome ∧ want ≠ 0 then want else 0) d.rbuf d.rbytes

/-- The PUSH of `MsgReply`. -/
def pushRequest (rcvid : BitVec 32) (msg : Option Word) (bytes : Nat) : Xfer :=
  if msg.isSome ∧ bytes ≠ 0 then .push (pushKey rcvid) (msg.getD 0) (BitVec.ofNat 64 bytes) else .push
    (pushKey rcvid) 0 0

theorem pushRequest_push (rcvid : BitVec 32) (msg : Option Word) (bytes : Nat) :
    ∃ src len, pushRequest rcvid msg bytes = .push (pushKey rcvid) src len := by
  unfold pushRequest
  split
  · exact ⟨_,_,rfl⟩
  · exact ⟨_,_,rfl⟩

def Space.pushExtent (sp : Space) (names : Names) (caller : Pid) : Xfer → Option Extent
  | .pull _ _ _ _ _ _ => none
  | .push badge _ len =>
    (sp.bulkPendingFind (names.client badge)).bind fun found =>
      let n := if found.2.rbytes < len then found.2.rbytes else len
      if names.client badge = 0 ∨ (names.known (names.client badge) && names.known caller) = false ∨ n = 0 ∨
        bulkMax < n.toNat then none
      else some ⟨names.client badge,found.2.rbuf,n.toNat⟩

variable {sp sp' : Space} {names : Names} {granted : Word → Bool} {server caller : Pid} {badge : Word}
    {msg : Option Word}
  {bytes : Nat} {d : Descriptor} {rcvid status : BitVec 32} {ipc : Ipc}

theorem receiveBulk_request (sp : Space) (names : Names) (granted : Word → Bool) (server : Pid) (badge : Word)
    (msg : Option Word) (bytes : Nat) (d : Descriptor) :
    (sp.receiveBulk names granted server badge msg bytes d.sbuf d.sbytes d.rbuf d.rbytes).1 =
      (sp.msgXfer names granted server (pullRequest badge msg bytes d)).1 := by
  unfold Space.receiveBulk pullRequest
  generalize (if BitVec.ofNat 64 bytes < d.sbytes then BitVec.ofNat 64 bytes else d.sbytes) = want
  dsimp only
  by_cases copied : msg.isSome ∧ want ≠ 0
  · rw [if_pos copied,if_pos copied]
    rcases sp.msgXfer names granted server (.pull (pullKey badge) d.sbuf (msg.getD 0) want d.rbuf d.rbytes) with
      ⟨after,result⟩
    cases result with
    | error e => rfl
    | ok r => rfl
  · rw [if_neg copied,if_neg copied]

theorem msgReply_request (sp : Space) (names : Names) (granted : Word → Bool) (server : Pid) (ipc : Ipc)
    (status : BitVec 32) (msg : Option Word) (bytes : Nat) (bulk : rcvid &&& rcvidBulk ≠ 0) :
    (sp.msgReply names granted server ipc rcvid status msg bytes).1 =
      (sp.msgXfer names granted server (pushRequest rcvid msg bytes)).1 := by
  unfold Space.msgReply pushRequest
  rw [if_pos bulk]
  by_cases payload : msg.isSome ∧ bytes ≠ 0
  · rw [if_pos payload,if_pos payload]
    rcases sp.msgXfer names granted server (.push (pushKey rcvid) (msg.getD 0) (BitVec.ofNat 64 bytes)) with
      ⟨after,result⟩
    cases result with
    | error e => rfl
    | ok r => rfl
  · rw [if_neg payload,if_neg payload]

/-- A PULL leaves the table as it is or enters the client; it cannot if the table is full. -/
theorem pull_pending (sp : Space) (names : Names) (granted : Word → Bool) (server : Pid)
    (badge src dst len rbuf rbytes : Word) :
    (sp.msgXfer names granted server (.pull badge src dst len rbuf rbytes)).1.pending = sp.pending ∧
      (∀ r, (sp.msgXfer names granted server (.pull badge src dst len rbuf rbytes)).2 ≠ .ok r) ∧
      (names.client badge ≠ 0 → (names.known (names.client badge) && names.known server) = true → len = 0 →
        sp.pendingSlot (names.client badge) = none) ∨
    ∃ k, sp.pendingSlot (names.client badge) = some k ∧
      (sp.msgXfer names granted server (.pull badge src dst len rbuf rbytes)).1.pending =
        Slab.put sp.pending k ⟨names.client badge,rbuf,rbytes⟩ := by
  simp only [Space.msgXfer]
  split
  · rename_i nobody
    left
    exact ⟨rfl,by simp,fun named => absurd nobody named⟩
  · unfold Space.msgXferPull
    split
    · rename_i unknown
      left
      exact ⟨rfl,by simp,fun _ known => by simp [unknown] at known⟩
    · have kept := (sp.bulkCopy_rest granted (names.client badge) src server dst len).1
      rcases copying : sp.bulkCopy granted (names.client badge) src server dst len with ⟨copied,result⟩
      rw [copying] at kept
      have slot := pendingSlot_congr kept (names.client badge)
      cases result with
      | error e =>
        left
        refine ⟨kept,by simp,fun _ _ empty => ?_⟩
        simp [Space.bulkCopy,empty] at copying
      | ok r =>
        dsimp only
        split
        · rename_i full
          left
          exact ⟨kept,by simp,fun _ _ _ => slot ▸ full⟩
        · rename_i k free
          right
          exact ⟨k,slot ▸ free,by rw [← kept]⟩

/-- A bulk message that was received has an entry, or there was no room for one. -/
theorem receiveBulk_entry (named : names.client (pullKey badge) ≠ 0)
    (known : (names.known (names.client (pullKey badge)) && names.known server) = true)
    (received : (sp.receiveBulk names granted server badge msg bytes d.sbuf d.sbytes d.rbuf d.rbytes).2 =
      .ok rcvid) :
    (sp.receiveBulk names granted server badge msg bytes d.sbuf d.sbytes d.rbuf d.rbytes).1.pending = sp.pending ∧
      sp.pendingSlot (names.client (pullKey badge)) = none ∨
    ∃ k, sp.pendingSlot (names.client (pullKey badge)) = some k ∧
      (sp.receiveBulk names granted server badge msg bytes d.sbuf d.sbytes d.rbuf d.rbytes).1.pending =
        Slab.put sp.pending k ⟨names.client (pullKey badge),d.rbuf,d.rbytes⟩ := by
  rw [receiveBulk_request]
  unfold Space.receiveBulk at received
  unfold pullRequest
  generalize (if BitVec.ofNat 64 bytes < d.sbytes then BitVec.ofNat 64 bytes else d.sbytes) = want at received ⊢
  dsimp only at received ⊢
  by_cases copied : msg.isSome ∧ want ≠ 0
  · rw [if_pos copied] at received ⊢
    rcases pull_pending sp names granted server (pullKey badge) d.sbuf (msg.getD 0) want d.rbuf d.rbytes with
      ⟨-,refused,-⟩ | entered
    · rcases pulling : sp.msgXfer names granted server
        (.pull (pullKey badge) d.sbuf (msg.getD 0) want d.rbuf d.rbytes) with ⟨after,result⟩
      rw [pulling] at received refused
      cases result with
      | error e => simp at received
      | ok r => exact absurd rfl (refused r)
    · exact .inr entered
  · rw [if_neg copied]
    rcases pull_pending sp names granted server (pullKey badge) d.sbuf (msg.getD 0) 0 d.rbuf d.rbytes with
      ⟨kept,-,full⟩ | entered
    · exact .inl ⟨kept,full named known rfl⟩
    · exact .inr entered

/-- A PUSH writes nothing outside its extent, and drops an entry at most. -/
theorem push_effect (sp : Space) (names : Names) (granted : Word → Bool) (server : Pid) (badge src len : Word) :
    ((sp.msgXfer names granted server (.push badge src len)).1.pending = sp.pending ∨
      ∃ k, (sp.msgXfer names granted server (.push badge src len)).1.pending = Slab.erase sp.pending k) ∧
    ∀ p x, (∀ e, sp.pushExtent names server (.push badge src len) = some e → ¬ e.Has p x) →
      (sp.msgXfer names granted server (.push badge src len)).1.mem p x = sp.mem p x := by
  simp only [Space.msgXfer]
  split
  · exact ⟨.inl rfl,fun _ _ _ => rfl⟩
  · rename_i named
    unfold Space.msgXferPush
    split
    · exact ⟨.inl rfl,fun _ _ _ => rfl⟩
    · rename_i k entry found
      split
      · exact ⟨.inr ⟨k,rfl⟩,fun _ _ _ => rfl⟩
      · rename_i known
        simp only [Space.pushExtent,found,Option.bind_some,named,known,false_or]
        generalize (if entry.rbytes < len then entry.rbytes else len) = n
        by_cases empty : n = 0
        · rw [if_pos empty]
          exact ⟨.inr ⟨k,rfl⟩,fun _ _ _ => rfl⟩
        · rw [if_neg empty]
          refine ⟨.inr ⟨k,?_⟩,fun p x outside => ?_⟩
          · rw [← (sp.bulkCopy_rest granted server src (names.client badge) entry.rbuf n).1]
            rfl
          · by_cases long : bulkMax < n.toNat
            · unfold Space.bulkCopy
              rw [if_neg empty,if_pos long]
              rfl
            · apply sp.bulkCopy_outside
              intro same i below meets
              refine outside ⟨names.client badge,entry.rbuf,n.toNat⟩ ?_ ⟨same,i,below,meets⟩
              rw [if_neg (by simpa [long] using empty)]

/-- What a reply has written: where, and the memory before and after. -/
structure Write where
  extent : Option Extent
  before : Pid → Word → Byte
  after : Pid → Word → Byte

/-- A server thread: between calls, in `MsgReceive` before the PULL, or in `MsgReply` before the Send. -/
inductive Stage (τ : Type) where
  | idle
  | pulling (t : τ) (badge : Word) (d : Descriptor)
  | sending (w : Write)

/-- A reply: what it wrote and the `MsgSend` it was sent through to. -/
structure Landing (τ : Type) where
  write : Write
  reached : Option (τ × Mail)

/-- `tied` is the client of the reply object of each thread, `last` the rcvid its latest
`MsgReceive` returned. -/
structure Exchange (τ ι : Type) where
  sp : Space
  phase : τ → Phase
  mail : τ → Mail
  tied : ι → Option τ
  stage : ι → Stage τ
  last : ι → Option (BitVec 32)
  log : List (Landing τ)

inductive Move (τ ι : Type) where
  | send (t : τ) (mail : Mail)
  | receive (i : ι) (t : τ)
  | pull (i : ι) (names : Names) (granted : Word → Bool) (msg : Option Word) (bytes : Nat)
  | push (i : ι) (rcvid : BitVec 32) (r : ReplyArgs)
  | finish (i : ι)
  | reply (i : ι)
  | savereply (i : ι)
  | replySaved (t : τ)
  | xfer (caller : Pid) (names : Names) (granted : Word → Bool) (request : Xfer)
  | elapse (mem : Pid → Word → Byte) (frame : Pid → Nat → Bool)

namespace Exchange

def setPhase (s : Exchange τ ι) (t : Option τ) (k : Phase) : Exchange τ ι :=
  match t with
  | none => s
  | some t => { s with phase := Function.update s.phase t k }

/-- The `MsgSend` the reply object of a thread is tied to. -/
def holding (s : Exchange τ ι) (i : ι) : Option (τ × Mail) := (s.tied i).map fun t => (t,s.mail t)

/-- A Send through the reply object of `i`. -/
def answer (s : Exchange τ ι) (i : ι) (w : Write) : Exchange τ ι :=
  { s.setPhase (s.tied i) .idle with tied := Function.update s.tied i none, log := ⟨w,s.holding i⟩ :: s.log }

/-- Recv; whoever the reply object was tied to is cut loose. -/
def receive (P : Parties τ ι) (s : Exchange τ ι) (i : ι) (t : τ) : Option (Exchange τ ι) :=
  match s.stage i with
  | .idle =>
    if s.phase t = .queued ∧ (s.mail t).dest = P.proc i then
      let s := { (s.setPhase (s.tied i) .stranded).setPhase (some t) .held with tied := Function.update s.tied i (some t) }
      match (s.mail t).message.descriptor with
      | some d => some { s with
          stage := Function.update s.stage i (.pulling t (s.mail t).badge d)
          last := Function.update s.last i none }
      | none => some { s with last := Function.update s.last i (some ((s.mail t).badge.setWidth 32)) }
    else none
  | _ => none

def pull (P : Parties τ ι) (s : Exchange τ ι) (i : ι) (names : Names) (granted : Word → Bool)
    (msg : Option Word) (bytes : Nat) :
    Option (Exchange τ ι) :=
  match s.stage i with
  | .pulling _ badge d =>
    let result := s.sp.receiveBulk names granted (P.proc i) badge msg bytes d.sbuf d.sbytes d.rbuf d.rbytes
    some { s with
      sp := result.1
      stage := Function.update s.stage i .idle
      last := Function.update s.last i result.2.toOption }
  | _ => none

/-- The first half of `MsgReply` to a bulk rcvid; a payload that cannot be pushed ends the call. -/
def push (P : Parties τ ι) (s : Exchange τ ι) (i : ι) (rcvid : BitVec 32) (r : ReplyArgs) : Option (Exchange τ ι) :=
  match s.stage i with
  | .idle =>
    if rcvid &&& rcvidBulk = 0 then none
    else
      let result := s.sp.msgReply r.names r.granted (P.proc i) r.ipc rcvid r.status r.msg r.bytes
      let w : Write := ⟨s.sp.pushExtent r.names (P.proc i) (pushRequest rcvid r.msg r.bytes),s.sp.mem,result.1.mem⟩
      match result.2 with
      | .error _ => some { s with sp := result.1, log := ⟨w,s.holding (P.main i)⟩ :: s.log }
      | .ok _ => some { s with sp := result.1, stage := Function.update s.stage i (.sending w) }
  | _ => none

/-- The second half, through `QSOE_CAP_REPLY`. -/
def finish (P : Parties τ ι) (s : Exchange τ ι) (i : ι) : Option (Exchange τ ι) :=
  match s.stage i with
  | .sending w => some { s.answer (P.main i) w with stage := Function.update s.stage i .idle }
  | _ => none

def step (P : Parties τ ι) (s : Exchange τ ι) : Move τ ι → Option (Exchange τ ι)
  | .send t mail =>
    if s.phase t = .idle then some { s.setPhase (some t) .queued with mail := Function.update s.mail t mail }
      else none
  | .receive i t => s.receive P i t
  | .pull i names granted msg bytes => s.pull P i names granted msg bytes
  | .push i rcvid r => s.push P i rcvid r
  | .finish i => s.finish P i
  | .reply i =>
    match s.stage i with
    | .idle => some (s.answer (P.main i) ⟨none,s.sp.mem,s.sp.mem⟩)
    | _ => none
  | .savereply i =>
    match s.stage i with
    | .idle => some { s.setPhase (s.tied (P.main i)) .kept with tied := Function.update s.tied (P.main i) none }
    | _ => none
  | .replySaved t =>
    if s.phase t = .kept then
      some { s.setPhase (some t) .idle with log := ⟨⟨none,s.sp.mem,s.sp.mem⟩,some (t,s.mail t)⟩ :: s.log }
    else none
  | .xfer caller names granted request => some { s with sp := (s.sp.msgXfer names granted caller request).1 }
  | .elapse mem frame => some { s with sp := { s.sp with mem := mem, frame := frame } }

/-- Nobody is in a call and no reply is pending. -/
def start (mem : Pid → Word → Byte) (frame : Pid → Nat → Bool) (mail : τ → Mail) : Exchange τ ι where
  sp := ⟨mem,frame,fun _ => none⟩
  phase _ := .idle
  mail := mail
  tied _ := none
  stage _ := .idle
  last _ := none
  log := []

/-- Every PULL is of a message whose badge taskman resolves to its sender, while no other bulk
message of that process is taken in and waiting for its reply; a server replies, and saves, on its
main thread, and with a bulk rcvid only to the bulk message it took in last. No request for a copy
is made but by these calls. -/
def Orderly (P : Parties τ ι) (s : Exchange τ ι) : Move τ ι → Prop
  | .pull i names _ _ _ => ∀ t badge d, s.stage i = .pulling t badge d →
      names.client (pullKey badge) = P.pid t ∧ names.known (P.pid t) = true ∧ names.known (P.proc i) = true ∧
      ∀ j t', s.tied j = some t' → t' ≠ t → P.pid t' = P.pid t → (s.mail t').message.descriptor.isSome →
        s.last j = none
  | .push i rcvid r => P.main i = i ∧ s.last i = some rcvid ∧ ∃ t, s.tied i = some t ∧
      (s.mail t).message.descriptor.isSome ∧ r.names.client (pushKey rcvid) = P.pid t
  | .reply i | .savereply i => P.main i = i
  | .xfer _ _ _ _ => False
  | .send _ _ | .receive _ _ | .finish _ | .replySaved _ | .elapse _ _ => True

end Exchange

end Qsoe.Msg
