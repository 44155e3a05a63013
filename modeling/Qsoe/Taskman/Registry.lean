import Qsoe.Lib.Run
import Qsoe.Lib.Slab
import Mathlib.Tactic.Simps.Basic

/-! The process, channel and connection tables of `taskman/proc`, with the CSpaces the
handlers mint into. Whether a kernel call succeeds, and what the path manager resolves a
name to, is part of a request. `source`, `target` and `born` are history: which draw a badge
came from, the channel a connection was made to and the create call of a channel. -/
namespace Qsoe.Taskman

abbrev Pid := BitVec 32
abbrev Word := BitVec 64

/-- `QSOE_PID_TASKMAN` and `TM_MAX_PROCESSES`. -/
def pidTaskman : Pid := 1
def maxProcesses : Nat := 128

/-- The well-known slots of a child CSpace, from `slots.h`. -/
def capTaskmanEp : Nat := 1
def capStdinConnect : Nat := 3
def capStdoutConnect : Nat := 4
def capStderrConnect : Nat := 5
def capWellKnownEnd : Nat := 16

/-- `TM_FAULT_BADGE_FLAG` and `TM_FAULT_PID_MASK`. -/
def faultBadgeFlag : Word := 0x10000
def faultPidMask : Word := faultBadgeFlag - 1

/-- `TM_SIG_SEGV`. -/
def sigSegv : BitVec 32 := 11

/-- What the tables take from headers outside the repository and from bootinfo: their sizes,
`QSOE_GLOBAL_CHANNEL`, `QSOE_CHF_GLOBAL`, `QSOE_CHF_PULSE_DIRECT`, `QSOE_SIDE_CHANNEL` and
the root slot of the primary endpoint. Chid 1, the primary channel's, is not a global one. -/
structure Config where
  channels : Nat
  connections : Nat
  globalChannel : BitVec 32
  chfGlobal : BitVec 32
  chfPulseDirect : BitVec 32
  sideChannel : BitVec 32
  primaryEp : Nat
  plain : 1#32 &&& globalChannel = 0

inductive Errno where
  | einval | esrch | enomem | ebadf | echild | enoent | enoexec
  deriving DecidableEq, Repr

/-- Kernel objects. Every channel taskman serves itself shares `primary`. -/
inductive Object where
  | primary
  | endpoint (n : Nat)
  | notification (n : Nat)
  deriving DecidableEq, Repr

/-- Where a badge comes from: the pid of a spawn, the n-th `tm_alloc_scoid`, or an end of
the n-th pipe. -/
inductive Source where
  | sysmgr (p : Pid)
  | fault (p : Pid)
  | scoid (n : Nat)
  | pipe (n : Nat) (write : Bool)
  deriving DecidableEq, Repr

/-- Scoids count from 1 in a machine word, pipe ids from 1 in an `unsigned`. -/
def Source.badge : Source → Word
  | .sysmgr p => p.signExtend 64
  | .fault p => faultBadgeFlag ||| p.signExtend 64
  | .scoid n => BitVec.ofNat 64 (n + 1)
  | .pipe n write => (BitVec.ofNat 32 (n + 1)).setWidth 64 <<< 1 ||| if write then 1 else 0

structure Cap where
  object : Object
  badge : Word
  source : Option Source
  deriving DecidableEq, Repr

/-- The CSpace of one process; `fault` is the cap its thread faults to. -/
structure Space where
  pid : Pid
  caps : Nat → Option Cap
  fault : Option Cap

/-- `exit_state`. -/
inductive Exit where
  | live | detached | zombie
  deriving DecidableEq, Repr

/-- `tm_process_t`. `space` is the CSpace behind `cnode`, `none` once that is destroyed. -/
structure Process where
  pid : Pid
  space : Option Nat
  nextSlot : Nat
  parent : Pid
  exit : Exit
  status : BitVec 32
  waiter : Bool
  deriving DecidableEq, Repr

/-- `tm_channel_t`. -/
structure Channel where
  owner : Pid
  chid : BitVec 32
  recv : Nat
  master : Object
  flags : BitVec 32
  ntfn : Option Nat
  born : Nat
  deriving DecidableEq, Repr

def isGlobal (cfg : Config) (chid : BitVec 32) : Bool := chid &&& cfg.globalChannel != 0

/-- A global chid is matched by itself, any other with its owner. -/
def Channel.matches (cfg : Config) (pid : Pid) (chid : BitVec 32) (c : Channel) : Bool :=
  c.chid == chid && (isGlobal cfg chid || c.owner == pid)

def Channel.owns (pid : Pid) (o : Object) (c : Channel) : Bool :=
  c.owner == pid && (c.master == o || c.ntfn.any fun n => .notification n == o)

/-- `tm_connection_t`. -/
structure Row (cfg : Config) where
  channelIdx : Fin cfg.channels
  badge : Word
  clientPid : Pid
  clientSlot : Nat
  ntfnSlot : Nat
  flags : BitVec 32
  source : Source
  target : Nat
  deriving DecidableEq, Repr

/-- `scoids`, `pipes` and `globals` count the draws made from the three counters; `objects`
and `spawned` number kernel objects and CSpaces. -/
structure State (cfg : Config) where
  processes : Slab.Table maxProcesses Process
  freePids : List Pid
  nextPid : Nat
  channels : Slab.Table cfg.channels Channel
  rows : Slab.Table cfg.connections (Row cfg)
  ctx : Fin cfg.connections → Word × Word
  scoids : Nat
  pipes : Nat
  globals : Nat
  objects : Nat
  spawned : Nat
  spaces : Nat → Option Space

variable {cfg : Config}

namespace State

def setSpace (s : State cfg) (i : Nat) (sp : Option Space) : State cfg :=
  { s with spaces := Function.update s.spaces i sp }

/-- Mint or copy into an empty slot; `granted` is false when the kernel refuses. -/
def mint (s : State cfg) (cnode slot : Nat) (c : Cap) (granted : Bool) : Option (State cfg) :=
  match s.spaces cnode with
  | some sp =>
    if granted ∧ sp.caps slot = none then
      some (s.setSpace cnode (some { sp with caps := Function.update sp.caps slot (some c) }))
    else none
  | none => none

def deleteCap (s : State cfg) (cnode slot : Nat) : State cfg :=
  match s.spaces cnode with
  | some sp => s.setSpace cnode (some { sp with caps := Function.update sp.caps slot none })
  | none => s

def copyCap (s : State cfg) (cnode src dst : Nat) (granted : Bool) : Option (State cfg) :=
  match (s.spaces cnode).bind (·.caps src) with
  | some c => s.mint cnode dst c granted
  | none => none

/-- `qsoe_cnode_revoke` on the masters of the `gone` objects. -/
def revoke (s : State cfg) (gone : Object → Bool) : State cfg :=
  { s with spaces := fun i => (s.spaces i).map fun sp =>
      { sp with
        caps := fun slot => (sp.caps slot).filter fun c => !gone c.object
        fault := sp.fault.filter fun c => !gone c.object } }

/-- The CNode goes, with every cap in it. -/
def destroySpace (s : State cfg) (i : Nat) : State cfg :=
  { s.setSpace i none with
    processes := fun k => (s.processes k).map fun p =>
      if p.space = some i then { p with space := none } else p }

def processLookup (s : State cfg) (pid : Pid) : Option (Fin maxProcesses × Process) :=
  Slab.find s.processes fun p => p.pid == pid

def setProcess (s : State cfg) (i : Fin maxProcesses) (p : Process) : State cfg :=
  { s with processes := Slab.put s.processes i p }

def pidAlloc (s : State cfg) : Option (State cfg × Pid) :=
  match s.freePids with
  | pid :: rest => some ({ s with freePids := rest },pid)
  | [] =>
    if maxProcesses ≤ s.nextPid then none
    else some ({ s with nextPid := s.nextPid + 1 },BitVec.ofNat 32 s.nextPid)

def pidFree (s : State cfg) (pid : Pid) : State cfg :=
  if pid.toInt ≤ pidTaskman.toInt then s
  else if s.freePids.length < maxProcesses then { s with freePids := pid :: s.freePids }
  else s

def processRegister (s : State cfg) (pid : Pid) (cnode firstFreeSlot : Nat) :
    State cfg × Except Errno Unit :=
  match s.processLookup pid with
  | some _ => (s,.error .einval)
  | none =>
    match Slab.free s.processes with
    | none => (s,.error .enomem)
    | some i => (s.setProcess i ⟨pid,some cnode,firstFreeSlot,pidTaskman,.live,0,false⟩,.ok ())

def processAllocSlot (s : State cfg) (pid : Pid) : State cfg × Nat :=
  match s.processLookup pid with
  | none => (s,0)
  | some (i,p) => (s.setProcess i { p with nextSlot := p.nextSlot + 1 },p.nextSlot)

def processSetParent (s : State cfg) (child parent : Pid) : State cfg × Except Errno Unit :=
  match s.processLookup child with
  | none => (s,.error .esrch)
  | some (i,p) => (s.setProcess i { p with parent := parent },.ok ())

def processDetach (s : State cfg) (pid : Pid) (status : BitVec 32) : State cfg × Except Errno Unit :=
  match s.processLookup pid with
  | none => (s,.error .esrch)
  | some (i,p) =>
    if p.exit ≠ .live then (s,.ok ())
    else (s.setProcess i
      { p with exit := .detached, status := status, waiter := false, parent := pidTaskman },.ok ())

/-- Drop the record and give the pid back. -/
def reap (s : State cfg) (i : Fin maxProcesses) (pid : Pid) : State cfg :=
  { s with processes := Slab.erase s.processes i }.pidFree pid

/-- Returns the status, or `none` when the waiter is parked; `parked` is whether
`tm_reply_park` found a slot. -/
def processWaitpid (s : State cfg) (waiter child : Pid) (parked : Bool) :
    State cfg × Except Errno (Option (BitVec 32)) :=
  match s.processLookup child with
  | none => (s,.error .echild)
  | some (i,c) =>
    if c.parent ≠ waiter then (s,.error .echild)
    else if c.exit ≠ .live then (s.reap i child,.ok (some c.status))
    else if parked then (s.setProcess i { c with waiter := true },.ok none)
    else (s,.error .enomem)

def channelFind (s : State cfg) (pid : Pid) (chid : BitVec 32) : Option (Fin cfg.channels × Channel) :=
  Slab.find s.channels (Channel.matches cfg pid chid)

def channelIndex (s : State cfg) (pid : Pid) (chid : BitVec 32) : Option (Fin cfg.channels) :=
  (s.channelFind pid chid).map Prod.fst

def addChannel (s : State cfg) (idx : Fin cfg.channels) (c : Channel) : State cfg :=
  { s with channels := Slab.put s.channels idx c, objects := s.objects + 1 }

def channelRegisterExisting (s : State cfg) (pid : Pid) (chid : BitVec 32) (master : Object)
    (recv : Nat) : State cfg × Except Errno Unit :=
  match s.processLookup pid with
  | none => (s,.error .esrch)
  | some _ =>
    match s.channelFind pid chid with
    | some _ => (s,.error .einval)
    | none =>
      match Slab.free s.channels with
      | none => (s,.error .enomem)
      | some idx => (s.addChannel idx ⟨pid,chid,recv,master,0,none,s.objects⟩,.ok ())

def allocScoid (s : State cfg) : State cfg × Word :=
  ({ s with scoids := s.scoids + 1 },BitVec.ofNat 64 (s.scoids + 1))

end State

/-- Which of the kernel calls of `tm_channel_create` succeed. -/
structure CreateKernel where
  retyped : Bool
  copied : Bool
  signalled : Bool
  deriving DecidableEq, Repr

/-- Which of the kernel calls of `tm_connect_attach` succeed. -/
structure AttachKernel where
  minted : Bool
  shared : Bool
  deriving DecidableEq, Repr

/-- A CNode slot that was freed with its process may name another CSpace by now: `stale`. -/
def Process.cnode (p : Process) (stale : Nat) : Nat := p.space.getD stale

namespace State

/-- The chid a create gets; a global one is drawn from the counter. -/
def assignChid (s : State cfg) (chid flags : BitVec 32) : State cfg × BitVec 32 :=
  if flags &&& cfg.chfGlobal ≠ 0 then
    ({ s with globals := s.globals + 1 },cfg.globalChannel ||| BitVec.ofNat 32 (s.globals + 1))
  else (s,chid)

def channelCreate (s : State cfg) (owner : Pid) (chid flags : BitVec 32) (stale : Nat)
    (k : CreateKernel) : State cfg × Except Errno (Nat × BitVec 32) :=
  match s.processLookup owner with
  | none => (s,.error .esrch)
  | some (_,p) =>
    let named := s.assignChid chid flags
    match named.1.channelFind owner named.2 with
    | some _ => (named.1,.error .einval)
    | none =>
      match Slab.free named.1.channels with
      | none => (named.1,.error .enomem)
      | some idx =>
        if k.retyped = false then (named.1,.error .enomem)
        else
          let drawn := named.1.processAllocSlot owner
          match drawn.1.mint (p.cnode stale) drawn.2 ⟨.endpoint s.objects,0,none⟩ k.copied with
          | none => (drawn.1,.error .enomem)
          | some held =>
            (held.addChannel idx ⟨owner,named.2,drawn.2,.endpoint s.objects,flags,
              if k.signalled then some s.objects else none,s.objects⟩,.ok (drawn.2,named.2))

def connectionsDropForChannelIdx (s : State cfg) (idx : Fin cfg.channels) : State cfg :=
  { s with rows := Slab.drop s.rows fun r => r.channelIdx == idx }

def connectionsDropForPid (s : State cfg) (pid : Pid) : State cfg :=
  { s with rows := Slab.drop s.rows fun r => r.clientPid == pid }

def connectionFindBySlot (s : State cfg) (pid : Pid) (slot : Nat) :
    Option (Fin cfg.connections × Row cfg) :=
  Slab.find s.rows fun r => r.clientPid == pid && r.clientSlot == slot

def connectionFindByBadge (s : State cfg) (badge : Word) : Option (Fin cfg.connections × Row cfg) :=
  Slab.find s.rows fun r => r.badge == badge

def addRow (s : State cfg) (j : Fin cfg.connections) (r : Row cfg) : State cfg :=
  { s with rows := Slab.put s.rows j r }

def setCtx (s : State cfg) (j : Fin cfg.connections) (c : Word × Word) : State cfg :=
  { s with ctx := Function.update s.ctx j c }

def connectionRegisterExisting (s : State cfg) (pid : Pid) (slot : Nat) (idx : Fin cfg.channels)
    (source : Source) (flags : BitVec 32) : State cfg × Except Errno Unit :=
  match s.channels idx with
  | none => (s,.error .einval)
  | some ch =>
    match Slab.free s.rows with
    | none => (s,.error .enomem)
    | some j =>
      ((s.addRow j ⟨idx,source.badge,pid,slot,0,flags,source,ch.born⟩).setCtx j (0,0),.ok ())

def connectionCloneForDup (s : State cfg) (pid : Pid) (src dst : Nat) : State cfg × Except Errno Unit :=
  match s.connectionFindBySlot pid src with
  | none => (s,.error .ebadf)
  | some (i,r) =>
    match Slab.free s.rows with
    | none => (s,.error .enomem)
    | some j =>
      ((s.addRow j { r with clientPid := pid, clientSlot := dst, ntfnSlot := 0 }).setCtx j (s.ctx i),
        .ok ())

def connectionSetCtx (s : State cfg) (badge : Word) (c : Word × Word) : State cfg × Except Errno Unit :=
  match s.connectionFindByBadge badge with
  | none => (s,.error .enoent)
  | some (j,_) => (s.setCtx j c,.ok ())

def connectionGetCtx (s : State cfg) (badge : Word) : Except Errno (Word × Word) :=
  match s.connectionFindByBadge badge with
  | none => .error .enoent
  | some (j,_) => .ok (s.ctx j)

def connectionBadgeBySlot (s : State cfg) (pid : Pid) (slot : Nat) : Option Word :=
  (s.connectionFindBySlot pid slot).map fun hit => hit.2.badge

def connectionClientPid (s : State cfg) (badge : Word) : Pid :=
  match s.connectionFindByBadge badge with
  | none => 0
  | some (_,r) => r.clientPid

def channelAt (s : State cfg) (idx : Fin cfg.channels) : Except Errno (Pid × BitVec 32) :=
  match s.channels idx with
  | none => .error .enoent
  | some c => .ok (c.owner,c.chid)

def channelByBadge (s : State cfg) (badge : Word) : Except Errno (Pid × BitVec 32) :=
  match s.connectionFindByBadge badge with
  | none => .error .enoent
  | some (_,r) => s.channelAt r.channelIdx

/-- The direct-pulse Notification of a `QSOE_CHF_PULSE_DIRECT` channel, copied best-effort. -/
def shareNtfn (s : State cfg) (client : Pid) (cnode : Nat) (ch : Channel) (shared : Bool) :
    State cfg × Nat :=
  match ch.ntfn with
  | none => (s,0)
  | some n =>
    if ch.flags &&& cfg.chfPulseDirect = 0 then (s,0)
    else
      let drawn := s.processAllocSlot client
      match drawn.1.mint cnode drawn.2 ⟨.notification n,0,none⟩ shared with
      | none => (drawn.1,0)
      | some held => (held,drawn.2)

def connectAttach (s : State cfg) (client target : Pid) (chid flags : BitVec 32) (stale : Nat)
    (k : AttachKernel) : State cfg × Except Errno (Nat × Nat) :=
  match s.processLookup client with
  | none => (s,.error .esrch)
  | some (_,p) =>
    match s.channelFind target chid with
    | none => (s,.error .esrch)
    | some (idx,ch) =>
      match Slab.free s.rows with
      | none => (s,.error .enomem)
      | some j =>
        let slot := s.processAllocSlot client
        let badge := slot.1.allocScoid
        match badge.1.mint (p.cnode stale) slot.2 ⟨ch.master,badge.2,some (.scoid s.scoids)⟩ k.minted with
        | none => (badge.1,.error .enomem)
        | some held =>
          let ntfn := held.shareNtfn client (p.cnode stale) ch k.shared
          (ntfn.1.addRow j ⟨idx,badge.2,client,slot.2,ntfn.2,flags &&& ~~~cfg.sideChannel,
            .scoid s.scoids,ch.born⟩,.ok (slot.2,ntfn.2))

def connectDetach (s : State cfg) (client : Pid) (slot stale : Nat) (deleted : Bool) :
    State cfg × Except Errno Unit :=
  match s.processLookup client with
  | none => (s,.error .esrch)
  | some (_,p) =>
    match s.connectionFindBySlot client slot with
    | none => (s,.error .ebadf)
    | some (j,r) =>
      if deleted = false then (s,.error .ebadf)
      else
        let cut := s.deleteCap (p.cnode stale) slot
        let bare := if r.ntfnSlot ≠ 0 then cut.deleteCap (p.cnode stale) r.ntfnSlot else cut
        ({ bare with rows := Slab.erase bare.rows j },.ok ())

def connectServerInfo (s : State cfg) (pid : Pid) (slot : Nat) :
    Except Errno (Option (Pid × BitVec 32) × Word) :=
  match s.connectionFindBySlot pid slot with
  | none => .error .ebadf
  | some (_,r) => .ok ((s.channels r.channelIdx).map fun c => (c.owner,c.chid),r.badge)

def connectClientInfo (s : State cfg) (scoid : Word) : Except Errno (Pid × Pid × BitVec 32) :=
  match s.connectionFindByBadge scoid with
  | none => .error .ebadf
  | some (_,r) => .ok (r.clientPid,r.clientPid,r.flags)

def connectFlags (s : State cfg) (pid : Pid) (slot : Nat) (mask bits : BitVec 32) :
    State cfg × Except Errno (BitVec 32) :=
  match s.connectionFindBySlot pid slot with
  | none => (s,.error .ebadf)
  | some (j,r) =>
    if mask = 0 then (s,.ok r.flags)
    else (s.addRow j { r with flags := (r.flags &&& ~~~mask) ||| (bits &&& mask) },.ok r.flags)

/-- The channel `tm_pulse_send` queues on. -/
def pulseChannel (s : State cfg) (pid : Pid) (slot : Nat) : Option (Fin cfg.channels) :=
  (s.connectionBadgeBySlot pid slot).bind fun badge =>
    match s.channelByBadge badge with
    | .error _ => none
    | .ok (owner,chid) => s.channelIndex owner chid

/-- The Notification of a channel goes before its endpoint is revoked. -/
def muteNtfn (s : State cfg) (idx : Fin cfg.channels) (c : Channel) : State cfg :=
  match c.ntfn with
  | none => s
  | some n => { s.revoke (· == .notification n) with
      channels := Slab.put s.channels idx { c with ntfn := none } }

def channelDestroy (s : State cfg) (owner : Pid) (recv : Nat) (revoked : Bool) :
    State cfg × Except Errno Unit :=
  match Slab.find s.channels fun c => c.owner == owner && c.recv == recv with
  | none => (s,.error .ebadf)
  | some (idx,c) =>
    let muted := s.muteNtfn idx c
    -- the Notification stays gone when this revoke fails
    if revoked = false then (muted,.error .ebadf)
    else
      let dropped := (muted.revoke (· == c.master)).connectionsDropForChannelIdx idx
      ({ dropped with channels := Slab.erase dropped.channels idx },.ok ())

/-- The channels of `pid` go with their objects; the rows of their clients stay. -/
def dropChannels (s : State cfg) (pid : Pid) : State cfg :=
  { s.revoke fun o => (Slab.find s.channels (Channel.owns pid o)).isSome with
    channels := Slab.drop s.channels fun c => c.owner == pid }

def parentCanReap (s : State cfg) (parent : Pid) : Bool :=
  match s.processLookup parent with
  | none => false
  | some (_,par) => par.exit == .live && parent != pidTaskman

def endProcess (s : State cfg) (i : Fin maxProcesses) (p : Process) (status : BitVec 32) : State cfg :=
  s.setProcess i { p with exit := .zombie, status := status, waiter := false }

def releaseSpace (s : State cfg) : Option Nat → State cfg
  | none => s
  | some i => s.destroySpace i

/-- The teardown of a live process. -/
def teardown (s : State cfg) (i : Fin maxProcesses) (p : Process) (status : BitVec 32) : State cfg :=
  let bare := ((s.endProcess i p status).dropChannels p.pid).connectionsDropForPid p.pid
  let freed := bare.releaseSpace p.space
  if p.waiter ∨ freed.parentCanReap p.parent = false then freed.reap i p.pid else freed

def processTerminate (s : State cfg) (target : Pid) (status : BitVec 32) :
    State cfg × Except Errno Unit :=
  if target = pidTaskman then (s,.error .einval)
  else match s.processLookup target with
    | none => (s,.error .esrch)
    | some (i,p) => if p.exit ≠ .live then (s,.ok ()) else (s.teardown i p status,.ok ())

def handleFault (s : State cfg) (pid : Pid) : State cfg := (s.processTerminate pid sigSegv).1

def dupCap (s : State cfg) (caller : Pid) (src dst stale : Nat) (copied : Bool) :
    State cfg × Except Errno Unit :=
  match s.processLookup caller with
  | none => (s,.error .esrch)
  | some (_,p) =>
    if src = 0 ∨ dst = 0 then (s,.error .einval)
    else if src = dst then (s,.ok ())
    else match s.copyCap (p.cnode stale) src dst copied with
      | none => (s,.error .ebadf)
      | some held =>
        match held.connectionCloneForDup caller src dst with
        | (same,.error e) => (same.deleteCap (p.cnode stale) dst,.error e)
        | (cloned,.ok _) => (cloned,.ok ())

def allocPipe (s : State cfg) : State cfg := { s with pipes := s.pipes + 1 }

/-- The rows of both pipe ends; a full table is ignored. -/
def registerPipe (s : State cfg) (caller : Pid) (idx : Fin cfg.channels) (n readSlot writeSlot : Nat) :
    State cfg :=
  ((s.connectionRegisterExisting caller readSlot idx (.pipe n false) 0).1.connectionRegisterExisting
    caller writeSlot idx (.pipe n true) 0).1

/-- `server` is what `/dev/pipe` resolves to. -/
def pipeCreate (s : State cfg) (caller : Pid) (server : Option (Pid × BitVec 32)) (stale : Nat)
    (readMinted writeMinted : Bool) : State cfg × Except Errno (Nat × Nat) :=
  match server with
  | none => (s,.error .enoent)
  | some (pid,chid) =>
    match s.channelFind pid chid with
    | none => (s,.error .esrch)
    | some (idx,ch) =>
      match s.processLookup caller with
      | none => (s,.error .esrch)
      | some (_,p) =>
        let read := Source.pipe s.pipes false
        let write := Source.pipe s.pipes true
        let first := s.allocPipe.processAllocSlot caller
        let second := first.1.processAllocSlot caller
        match second.1.mint (p.cnode stale) first.2 ⟨ch.master,read.badge,some read⟩ readMinted with
        | none => (second.1,.error .enomem)
        | some half =>
          -- the read end is not unwound
          match half.mint (p.cnode stale) second.2 ⟨ch.master,write.badge,some write⟩ writeMinted with
          | none => (half,.error .enomem)
          | some full => (full.registerPipe caller idx s.pipes first.2 second.2,.ok (first.2,second.2))

/-- `server` is what the path resolves to; `opened` is whether the resource manager's own
open accepts it. -/
def ioOpen (s : State cfg) (caller : Pid) (server : Option (Pid × BitVec 32)) (stale : Nat)
    (k : AttachKernel) (opened deleted : Bool) : State cfg × Except Errno Nat :=
  match server with
  | none => (s,.error .enoent)
  | some (pid,chid) =>
    match s.connectAttach caller pid chid 0 stale k with
    | (refused,.error e) => (refused,.error e)
    | (made,.ok (slot,_)) =>
      if opened then (made,.ok slot) else ((made.connectDetach caller slot stale deleted).1,.error .enoent)

end State

/-- Where the image of a spawn comes from; a mounted file system is read over a connection
of taskman's own. -/
inductive Image where
  | absent
  | archive
  | mounted (server : Pid) (chid : BitVec 32) (k : AttachKernel) (read deleted : Bool)
  deriving DecidableEq, Repr

/-- How far the kernel, the image and the path manager let a spawn get; `console` is what
`/dev/console` resolves to. -/
structure SpawnKernel where
  image : Image
  staged : Bool
  loaded : Option Errno
  endpoint : Bool
  budget : Bool
  console : Option (Pid × BitVec 32)
  stdin : Bool
  stdout : Bool
  stderr : Bool
  thread : Bool
  objects : Bool
  deriving DecidableEq, Repr

namespace State

/-- The stdio loop: each connection is drawn, minted and registered in turn. -/
def spawnStdio (s : State cfg) (pid : Pid) (cnode : Nat) (idx : Fin cfg.channels) (master : Object) :
    List (Nat × Bool) → State cfg × Except Errno Unit
  | [] => (s,.ok ())
  | (slot,minted) :: rest =>
    let scoid := s.allocScoid
    match scoid.1.mint cnode slot ⟨master,scoid.2,some (.scoid s.scoids)⟩ minted with
    | none => (scoid.1,.error .enomem)
    | some held =>
      match held.connectionRegisterExisting pid slot idx (.scoid s.scoids) 0 with
      | (full,.error _) => (full,.error .enomem)
      | (added,.ok _) => added.spawnStdio pid cnode idx master rest

/-- The fault handler cap of the main thread. -/
def setFault (s : State cfg) (cnode : Nat) (pid : Pid) : State cfg :=
  { s with spaces := Function.update s.spaces cnode ((s.spaces cnode).map fun sp =>
      { sp with fault := some ⟨.primary,(Source.fault pid).badge,some (.fault pid)⟩ }) }

/-- `tm_spawn` from the registered thread on: the process record and the SYSMGR row. -/
def spawnRegister (s : State cfg) (pid : Pid) (cnode : Nat) (objects : Bool) :
    State cfg × Except Errno Unit :=
  match s.processRegister pid cnode capWellKnownEnd with
  | (same,.error e) => (same,.error e)
  | (recorded,.ok _) =>
    match recorded.channelFind pidTaskman 1 with
    | none => (recorded,.error .einval)
    | some (primary,_) =>
      match recorded.connectionRegisterExisting pid capTaskmanEp primary (.sysmgr pid) 0 with
      | (full,.error e) => (full,.error e)
      | (added,.ok _) => if objects then (added,.ok ()) else (added,.error .enomem)

def newSpace (s : State cfg) (pid : Pid) : State cfg :=
  { s.setSpace s.spawned (some ⟨pid,fun _ => none,none⟩) with spawned := s.spawned + 1 }

def spawn (s : State cfg) (pid : Pid) (k : SpawnKernel) : State cfg × Except Errno Unit :=
  match k.loaded with
  | some e => (s,.error e)
  | none =>
    match s.newSpace pid |>.mint s.spawned capTaskmanEp
        ⟨.primary,(Source.sysmgr pid).badge,some (.sysmgr pid)⟩ k.endpoint with
    | none => (s.newSpace pid,.error .enomem)
    | some held =>
      if k.budget = false then (held,.error .enomem)
      else match k.console.bind fun obj => held.channelFind obj.1 obj.2 with
        | none => (held,.error .einval)
        | some (idx,ch) =>
          match held.spawnStdio pid s.spawned idx ch.master
              [(capStdinConnect,k.stdin),(capStdoutConnect,k.stdout),(capStderrConnect,k.stderr)] with
          | (part,.error e) => (part,.error e)
          | (stdio,.ok _) =>
            if k.thread = false then (stdio,.error .enomem)
            else (stdio.setFault s.spawned pid).spawnRegister pid s.spawned k.objects

/-- `tm_spawn_fs_load`: attach, read, detach. -/
def loadImage (s : State cfg) : Image → State cfg × Except Errno Unit
  | .absent => (s,.error .enoent)
  | .archive => (s,.ok ())
  | .mounted server chid k read deleted =>
    match s.connectAttach pidTaskman server chid 0 0 k with
    | (refused,.error _) => (refused,.error .enoent)
    | (made,.ok (slot,_)) =>
      ((made.connectDetach pidTaskman slot 0 deleted).1,if read then .ok () else .error .enoent)

def processCreateByName (s : State cfg) (k : SpawnKernel) : State cfg × Except Errno Pid :=
  match s.loadImage k.image with
  | (same,.error e) => (same,.error e)
  | (loaded,.ok _) =>
    match loaded.pidAlloc with
    | none => (loaded,.error .enomem)
    | some (issued,pid) =>
      if k.staged = false then (issued.pidFree pid,.error .enomem)
      else match issued.spawn pid k with
        | (failed,.error e) =>
          -- releasing the staged blocks destroys the CNode; the record and rows stay
          ((failed.destroySpace issued.spawned).pidFree pid,.error e)
        | (spawned,.ok _) => (spawned,.ok pid)

/-- `TM_REQ_PROCESS_CREATE` and `TM_REQ_SPAWN` after their arguments are read. -/
def processCreate (s : State cfg) (caller : Pid) (k : SpawnKernel) : State cfg × Except Errno Pid :=
  match s.processCreateByName k with
  | (failed,.error e) => (failed,.error e)
  | (spawned,.ok pid) => ((spawned.processSetParent pid caller).1,.ok pid)

end State

end Qsoe.Taskman
