import Mathlib.Logic.Function.Basic
import Mathlib.Tactic.Simps.Basic

/-! `MsgReceive`, `MsgSavereply` and `MsgReply` of `libc/qsoe/msg.c` for the threads of one
server process, over the reply objects in its CSpace. Each kernel call and each locked
access to the empty-slot allocator is one step of the calling thread. -/
namespace Qsoe.Msg

/-- `QSOE_CAP_REPLY`, the CSpace slot of the reply object every process starts with. -/
def capReply : Nat := 10

/-- `QSOE_EMPTY_SLOT_BASE`, `QSOE_EMPTY_SLOT_MAX` and `QSOE_EMPTY_SLOT_FREE_MAX`. -/
def emptySlotBase : Nat := 0x800
def emptySlotMax : Nat := 0x1000
def emptySlotFreeMax : Nat := 16

/-- `QSOE_RCVID_SAVED`, `QSOE_RCVID_BULK` and `QSOE_NTFN_BADGE_BIT`. -/
def rcvidSaved : BitVec 32 := 0x80000000
def rcvidBulk : BitVec 32 := 0x40000000
def ntfnBadgeBit : BitVec 64 := 0x8000000000000000

inductive Errno where
  | einval | ebadf | eagain | enomem | taskman
  deriving DecidableEq, Repr

/-- What a reply object is tied to: nothing, a thread blocked in Recv with it, or the
caller it will answer. -/
inductive Binding (ι γ : Type) where
  | free
  | receiver (t : ι)
  | caller (c : γ)
  deriving DecidableEq, Repr

/-- A client thread: not in a call, its Call queued on the endpoint, received and not yet
answered, or cancelled by the kernel while it waited for the answer. -/
inductive Client where
  | idle
  | sending (badge : BitVec 64) (bulk : Bool)
  | waiting
  | stranded
  deriving DecidableEq, Repr

/-- The next access of a call. -/
inductive Pc where
  | idle
  | recv | recvBlocked (o : Nat) | fetch (badge : BitVec 64) (bulk : Bool) | pull (badge : BitVec 64)
  | saveAlloc | saveMove (slot : Nat) | saveRetype (slot : Nat) | saveBack (slot : Nat) | saveFree (slot : Nat)
  | push (needed : Bool) | send
  | savedSend (slot : Nat) | savedDelete (slot : Nat) | savedFree (slot : Nat)
  | faulted
  deriving DecidableEq, Repr

/-- `chan` says whether the chid names a channel, `payload` whether `msg` is a buffer of
the caller's own. -/
inductive Call where
  | receive (chan : Bool) (bytes : Int)
  | savereply (rcvid : BitVec 32)
  | reply (rcvid : BitVec 32) (payload : Bool) (bytes : Int)
  deriving DecidableEq, Repr

structure Answer (γ : Type) where
  meant : Option γ
  reached : Option γ
  deriving DecidableEq, Repr

/-- The threads of a server with the `reply_cap` of their records. `qsoe_libc_init` gives the
main thread `QSOE_CAP_REPLY`, `tm_thread_alloc` each worker an object in a slot of its own. -/
structure Server (ι : Type) where
  main : ι
  replyCap : ι → Nat
  holds : Nat → Bool
  mainCap : replyCap main = capReply
  own : Function.Injective replyCap
  nonzero : ∀ t, replyCap t ≠ 0
  provided : ∀ t, holds (replyCap t) = true
  low : ∀ slot, holds slot = true → slot < emptySlotBase

/-- `opened`, `last`, `stash` and `log` are history: the unanswered message of a thread's
latest receive, the rcvid that receive returned, the client a saved slot stands for and
the replies sent. -/
structure State (ι γ : Type) where
  cap : Nat → Option Nat
  bind : Nat → Binding ι γ
  objects : Nat
  free : List Nat
  next : Nat
  client : γ → Client
  pc : ι → Pc
  errno : ι → Option Errno
  ret : ι → Option (BitVec 32)
  opened : ι → Option γ
  last : ι → Option (BitVec 32)
  stash : Nat → Option γ
  log : List (Answer γ)

variable {ι γ : Type} [DecidableEq ι] [DecidableEq γ]

namespace State

@[simps] def setPc (s : State ι γ) (t : ι) (p : Pc) : State ι γ := { s with pc := Function.update s.pc t p }

@[simps] def setCap (s : State ι γ) (slot : Nat) (o : Option Nat) : State ι γ :=
  { s with cap := Function.update s.cap slot o }

@[simps] def setBind (s : State ι γ) (o : Nat) (b : Binding ι γ) : State ι γ :=
  { s with bind := Function.update s.bind o b }

@[simps] def setClient (s : State ι γ) (c : γ) (k : Client) : State ι γ :=
  { s with client := Function.update s.client c k }

@[simps] def setOpened (s : State ι γ) (t : ι) (c : Option γ) : State ι γ :=
  { s with opened := Function.update s.opened t c }

@[simps] def setStash (s : State ι γ) (slot : Nat) (c : Option γ) : State ι γ :=
  { s with stash := Function.update s.stash slot c }

@[simps] def record (s : State ι γ) (a : Answer γ) : State ι γ := { s with log := a :: s.log }

@[simps] def finish (s : State ι γ) (t : ι) (r : BitVec 32) : State ι γ :=
  { s with pc := Function.update s.pc t .idle, ret := Function.update s.ret t (some r) }

/-- Return -1 with `qsoe_errno` set. -/
@[simps] def fail (s : State ι γ) (t : ι) (e : Errno) : State ι γ :=
  { s with
    pc := Function.update s.pc t .idle
    ret := Function.update s.ret t (some (-1))
    errno := Function.update s.errno t (some e) }

/-- `MsgReceive` returns an rcvid. -/
@[simps] def returnRcvid (s : State ι γ) (t : ι) (r : BitVec 32) : State ι γ :=
  { s with
    pc := Function.update s.pc t .idle
    ret := Function.update s.ret t (some r)
    last := Function.update s.last t (some r) }

/-- A Recv or a deletion cuts a reply object loose: the caller it was to answer is
cancelled and never runs again, and so is a thread blocked in Recv with it. -/
def cancel (s : State ι γ) (o : Nat) : State ι γ :=
  match s.bind o with
  | .free => s
  | .receiver t => (s.setBind o .free).setPc t .faulted
  | .caller c => (s.setBind o .free).setClient c .stranded

/-- `qsoe_sys_send` on a reply cap: unblock the caller it is tied to, if any. -/
def answer (s : State ι γ) (slot : Nat) : State ι γ × Option γ :=
  match (s.cap slot).map s.bind, s.cap slot with
  | some (.caller c), some o => ((s.setBind o .free).setClient c .idle,some c)
  | _, _ => (s,none)

/-- `qsoe_cnode_move`: the source holds a cap and the destination is empty. -/
def move (s : State ι γ) (dest src : Nat) : Option (State ι γ) :=
  if s.cap src ≠ none ∧ s.cap dest = none then some ((s.setCap dest (s.cap src)).setCap src none) else none

/-- `qsoe_untyped_retype` of one reply object into an empty slot. -/
def retype (s : State ι γ) (slot : Nat) : Option (State ι γ) :=
  if s.cap slot = none then some ({ s with objects := s.objects + 1 }.setCap slot (some s.objects)) else none

/-- `qsoe_cnode_delete`; no reply cap is ever copied, so the object goes with it. -/
def delete (s : State ι γ) (slot : Nat) : State ι γ :=
  match s.cap slot with
  | none => s
  | some o => (s.cancel o).setCap slot none

/-- `qsoe_state_alloc_empty_slot` -/
def allocEmptySlot (s : State ι γ) : Option (Nat × State ι γ) :=
  match s.free with
  | slot :: rest => some (slot,{ s with free := rest })
  | [] => if s.next < emptySlotMax then some (s.next,{ s with next := s.next + 1 }) else none

/-- `qsoe_state_free_empty_slot`; a full list leaks the slot. -/
def freeEmptySlot (s : State ι γ) (slot : Nat) : State ι γ :=
  if slot = 0 then s
  else if s.free.length < emptySlotFreeMax then { s with free := slot :: s.free } else s

end State

/-- The reply object `MsgReceive` names: the thread's own, or `QSOE_CAP_REPLY`. -/
def Server.reply (S : Server ι) (t : ι) : Nat := if S.replyCap t = 0 then capReply else S.replyCap t

/-- The message is in: a bulk descriptor is pulled, else the badge is the rcvid. -/
def received (s : State ι γ) (t : ι) (badge : BitVec 64) (bulk : Bool) : State ι γ :=
  if bulk then s.setPc t (.pull badge) else s.returnRcvid t (badge.setWidth 32)

def meantBySaved (s : State ι γ) (t : ι) (slot : Nat) : Option γ :=
  if s.last t = some (rcvidSaved ||| BitVec.ofNat 32 slot) then s.opened t else s.stash slot

def advance (S : Server ι) (s : State ι γ) (t : ι) : Option (State ι γ) :=
  match s.pc t with
  | .idle | .recvBlocked _ | .faulted => none
  | .recv =>
    match s.cap (S.reply t) with
    | none => some (s.setPc t .faulted)
    | some o => some ((((s.cancel o).setBind o (.receiver t)).setOpened t none).setPc t (.recvBlocked o))
  | .fetch _ _ => some (s.returnRcvid t 0)
  | .pull badge => some (s.returnRcvid t (rcvidBulk ||| badge.setWidth 32))
  | .saveAlloc =>
    match s.allocEmptySlot with
    | none => some (s.fail t .eagain)
    | some (slot,s) => some (s.setPc t (.saveMove slot))
  | .saveMove slot =>
    match s.move slot capReply with
    | none => some (s.setPc t (.saveFree slot))
    | some s => some (s.setPc t (.saveRetype slot))
  | .saveRetype slot =>
    match s.retype capReply with
    | none => some (s.setPc t (.saveBack slot))
    | some s =>
      some (((s.setStash slot (s.opened t)).setOpened t none).finish t (rcvidSaved ||| BitVec.ofNat 32 slot))
  | .saveBack slot => some (((s.move capReply slot).getD s).setPc t (.saveFree slot))
  | .saveFree slot => some ((s.freeEmptySlot slot).fail t .enomem)
  | .push _ => some (s.setPc t .send)
  | .send =>
    let result := s.answer capReply
    some (((result.1.record ⟨s.opened t,result.2⟩).setOpened t none).finish t 0)
  | .savedSend slot =>
    let result := s.answer slot
    some (((result.1.record ⟨meantBySaved s t slot,result.2⟩).setStash slot none).setPc t (.savedDelete slot))
  | .savedDelete slot => some ((s.delete slot).setPc t (.savedFree slot))
  | .savedFree slot => some ((s.freeEmptySlot slot).finish t 0)

/-- A call up to its first kernel call or access to shared state. -/
def callStep (s : State ι γ) (t : ι) : Call → State ι γ
  | .receive chan bytes =>
    if bytes < 0 then s.fail t .einval else if chan then s.setPc t .recv else s.fail t .ebadf
  | .savereply rcvid => if rcvid &&& rcvidSaved ≠ 0 then s.finish t rcvid else s.setPc t .saveAlloc
  | .reply rcvid payload bytes =>
    if bytes < 0 then s.fail t .einval
    else if rcvid &&& rcvidBulk ≠ 0 then s.setPc t (.push (payload && decide (0 < bytes)))
    else if rcvid &&& rcvidSaved ≠ 0 then s.setPc t (.savedSend (rcvid &&& ~~~rcvidSaved).toNat)
    else s.setPc t .send

/-- A message reaches a receiver; its reply object is tied to the sender. -/
def deliver (s : State ι γ) (t : ι) (c : γ) : Option (State ι γ) :=
  match s.pc t, s.client c with
  | .recvBlocked o, .sending badge bulk =>
    let s := ((s.setBind o (.caller c)).setClient c .waiting).setOpened t (some c)
    some (if badge &&& ntfnBadgeBit ≠ 0 then s.setPc t (.fetch badge bulk) else received s t badge bulk)
  | _, _ => none

/-- The bound Notification ends the Recv; with or without a queued pulse the rcvid is 0. -/
def pulse (s : State ι γ) (t : ι) : Option (State ι γ) :=
  match s.pc t with
  | .recvBlocked o => some ((s.setBind o .free).returnRcvid t 0)
  | _ => none

/-- The step of a call that taskman or the kernel refuses. -/
def refuse (s : State ι γ) (t : ι) : Option (State ι γ) :=
  match s.pc t with
  | .fetch badge bulk => some (received s t badge bulk)
  | .pull _ => some (s.fail t .taskman)
  | .saveRetype slot => some (s.setPc t (.saveBack slot))
  | .push needed => some (if needed then s.fail t .taskman else s.setPc t .send)
  | _ => none

inductive Event (ι γ : Type) where
  | send (c : γ) (badge : BitVec 64) (bulk : Bool)
  | call (t : ι) (k : Call)
  | run (t : ι)
  | deliver (t : ι) (c : γ)
  | pulse (t : ι)
  | refuse (t : ι)
  deriving DecidableEq, Repr

def step (S : Server ι) (s : State ι γ) : Event ι γ → Option (State ι γ)
  | .send c badge bulk => if s.client c = .idle then some (s.setClient c (.sending badge bulk)) else none
  | .call t k => if s.pc t = .idle then some (callStep s t k) else none
  | .run t => advance S s t
  | .deliver t c => deliver s t c
  | .pulse t => pulse s t
  | .refuse t => refuse s t

/-- Every reply cap holds its own object and no call has run yet. -/
def start (S : Server ι) : State ι γ where
  cap slot := if S.holds slot then some slot else none
  bind _ := .free
  objects := emptySlotBase
  free := []
  next := emptySlotBase
  client _ := .idle
  pc _ := .idle
  errno _ := none
  ret _ := none
  opened _ := none
  last _ := none
  stash _ := none
  log := []

end Qsoe.Msg
