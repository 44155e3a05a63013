import Qsoe.Sync.Parking

/-! `ThreadJoin`, `ThreadDestroy` and `ThreadDetach_r` of `libc/qsoe/thread.c`, beside the
`Sync*` calls of the same threads. A joiner waits on the Notification its target parks on. -/
namespace Qsoe.Thread

open Sync (Errno Ret Origin Kernel Table Threads)

/-- The next access of a thread call; `x` is the record `qsoe_tcb_of_tid` found. The
origin of the signal a join consumed is history, the kernel does not tell it. -/
inductive Pc (ι : Type) where
  | idle
  | joinLookup (x : ι) | joinDetached (x : ι) | joinNtfn (x : ι) | joinWait (x : ι) | joinBlocked (x : ι)
  | joinStatus (x : ι) (origin : Origin) | joinReap (x : ι) (origin : Origin)
  | destroyLookup (x : ι) (status : Nat) | destroyStatus (x : ι) (status : Nat) | destroyExited (x : ι)
  | destroyTest (x : ι) | destroySignal (x : ι) | destroySuspend (x : ι)
  | detachLookup (x : ι) | detachStore (x : ι) | detachTest (x : ι)
  deriving DecidableEq, Repr

/-- `none` is a tid without a record, or 0 for the caller itself where the call allows it. -/
inductive Call (ι : Type) where
  | join (x : Option ι)
  | destroy (x : Option ι) (status : Nat)
  | destroyUnknown
  | detach (x : Option ι)
  | detachUnknown
  deriving DecidableEq, Repr

/-- The `qsoe_tcb_t` fields these calls use, beside the state of the `Sync*` calls, which
holds `join_ntfn` and `qerrno`. `joined` is the status a join reads for its caller. -/
structure State (κ ι : Type) where
  sync : Sync.State κ ι
  exited : ι → Bool
  detached : ι → Bool
  reaped : ι → Bool
  suspended : ι → Bool
  exitStatus : ι → Nat
  pc : ι → Pc ι
  ret : ι → Option Ret
  joined : ι → Option Nat

variable {κ ι : Type} [DecidableEq κ] [DecidableEq ι]

namespace State

@[simps] def setPc (s : State κ ι) (i : ι) (p : Pc ι) : State κ ι := { s with pc := Function.update s.pc i p }

@[simps] def finish (s : State κ ι) (i : ι) (r : Ret) : State κ ι :=
  { s with pc := Function.update s.pc i .idle, ret := Function.update s.ret i (some r) }

@[simps] def setSync (s : State κ ι) (y : Sync.State κ ι) : State κ ι := { s with sync := y }

@[simps] def setKernel (s : State κ ι) (k : Kernel ι) : State κ ι := { s with sync := s.sync.setKernel k }

@[simps] def setErrno (s : State κ ι) (i : ι) (e : Errno) : State κ ι := { s with sync := s.sync.setErrno i e }

@[simps] def setExited (s : State κ ι) (x : ι) : State κ ι := { s with exited := Function.update s.exited x true }

@[simps] def setDetached (s : State κ ι) (x : ι) : State κ ι :=
  { s with detached := Function.update s.detached x true }

@[simps] def setReaped (s : State κ ι) (x : ι) : State κ ι := { s with reaped := Function.update s.reaped x true }

@[simps] def setStatus (s : State κ ι) (x : ι) (status : Nat) : State κ ι :=
  { s with exitStatus := Function.update s.exitStatus x status }

@[simps] def setJoined (s : State κ ι) (i : ι) (status : Nat) : State κ ι :=
  { s with joined := Function.update s.joined i (some status) }

/-- `qsoe_tcb_suspend`: the thread stops and leaves the queue it is blocked in. -/
@[simps] def suspend (s : State κ ι) (x : ι) : State κ ι :=
  { s with
    suspended := Function.update s.suspended x true
    sync := s.sync.setKernel
      { s.sync.kernel with ntfn := fun n =>
        { s.sync.kernel.ntfn n with queue := (s.sync.kernel.ntfn n).queue.erase x } } }

end State

def fail (s : State κ ι) (i : ι) (e : Errno) : State κ ι := (s.setErrno i e).finish i .minusOne

/-- `t != &qsoe_main_tcb` guards every write of `reaped`. -/
def reap (main : ι) (s : State κ ι) (x : ι) : State κ ι := if x = main then s else s.setReaped x

def advance (main : ι) (s : State κ ι) (i : ι) : Option (State κ ι) :=
  match s.pc i with
  | .idle => none
  | .joinLookup x => some (if s.reaped x then fail s i .esrch else s.setPc i (.joinDetached x))
  | .joinDetached x => some (if s.detached x then fail s i .einval else s.setPc i (.joinNtfn x))
  | .joinNtfn x => some (if s.sync.joinNtfn x then s.setPc i (.joinWait x) else fail s i .einval)
  | .joinWait x =>
    let result := s.sync.kernel.wait x i
    some ((s.setKernel result.1).setPc i (result.2.elim (.joinBlocked x) (.joinStatus x)))
  | .joinBlocked x =>
    (s.sync.kernel.resume i).map fun result => (s.setKernel result.1).setPc i (.joinStatus x result.2)
  | .joinStatus x origin => some ((s.setJoined i (s.exitStatus x)).setPc i (.joinReap x origin))
  | .joinReap x _ => some ((reap main s x).finish i .zero)
  | .destroyLookup x status => some (if s.reaped x then fail s i .esrch else s.setPc i (.destroyStatus x status))
  | .destroyStatus x status => some ((s.setStatus x status).setPc i (.destroyExited x))
  | .destroyExited x => some ((s.setExited x).setPc i (.destroyTest x))
  | .destroyTest x => some (s.setPc i (if s.detached x then .destroySuspend x else .destroySignal x))
  | .destroySignal x =>
    some ((if s.sync.joinNtfn x then s.setKernel (s.sync.kernel.signal x .exit) else s).setPc i (.destroySuspend x))
  | .destroySuspend x => some (if x = i then s.suspend x else (s.suspend x).finish i .zero)
  | .detachLookup x => some (if s.reaped x then s.finish i (.neg .esrch) else s.setPc i (.detachStore x))
  | .detachStore x => some ((s.setDetached x).setPc i (.detachTest x))
  | .detachTest x => some ((if s.exited x then reap main s x else s).finish i .zero)

/-- A call up to its first access of the record it names. -/
def callStep (s : State κ ι) (i : ι) : Call ι → State κ ι
  | .join none | .destroyUnknown => fail s i .esrch
  | .join (some x) => s.setPc i (.joinLookup x)
  | .destroy none status => s.setPc i (.destroyStatus i status)
  | .destroy (some x) status => s.setPc i (if x = i then .destroyStatus i status else .destroyLookup x status)
  | .detachUnknown => s.finish i (.neg .esrch)
  | .detach none => s.setPc i (.detachStore i)
  | .detach (some x) => s.setPc i (.detachLookup x)

inductive Event (κ ι : Type) where
  | sync (e : Sync.Event κ ι)
  | call (i : ι) (c : Call ι)
  | run (i : ι)
  deriving DecidableEq, Repr

/-- A suspended thread takes no step, and a thread is in one call at a time. -/
def step (T : Threads ι) (main : ι) (s : State κ ι) : Event κ ι → Option (State κ ι)
  | .sync e =>
    if s.suspended e.thread = false ∧ s.pc e.thread = .idle then (Sync.step T s.sync e).map s.setSync else none
  | .call i c =>
    if s.suspended i = false ∧ s.pc i = .idle ∧ s.sync.pc i = .idle then some (callStep s i c) else none
  | .run i => if s.suspended i = false then advance main s i else none

/-- No call has run yet. -/
def start (objects : κ → Sync.SyncT) (minted : ι → Bool) : State κ ι where
  sync := Sync.start objects minted
  exited _ := false
  detached _ := false
  reaped _ := false
  suspended _ := false
  exitStatus _ := 0
  pc _ := .idle
  ret _ := none
  joined _ := none

end Qsoe.Thread
