import Mathlib.Algebra.Group.Nat.Defs
import Mathlib.Tactic.Simps.Basic
import Qsoe.Sync.Table

/-! The `Sync*` calls of `libc/qsoe/sync.c` as a transition system over the threads of
one process. Each atomic access to a `sync_t` word, each critical section under the
table lock and each Notification wait is one step of the calling thread, and the
plain `s->count` updates of a mutex are a load and a store. Only the calling thread's
program counter moves; a signal reaches its receiver through the Notification. The lock
of the table has been minted (without it `table_lock` takes nothing). -/
namespace Qsoe.Sync

inductive Errno where
  | einval | enomem | eperm | eagain | eintr | esrch
  deriving DecidableEq, Repr

/-- The results the calls below return: 0, -1 with `qsoe_errno` set, or a negated errno. -/
inductive Ret where
  | zero | minusOne | neg (e : Errno)
  deriving DecidableEq, Repr

/-- `QSOE_SYNC_DESTROYED`, the owner word `SyncDestroy_r` plants. -/
def destroyed : BitVec 64 := -2

/-- `QSOE_SYNC_TID_MASK` and `QSOE_SYNC_WAITERS` come from a header outside the
repository; the calls rely on the two fields being apart. -/
structure Layout where
  tidMask : BitVec 64
  waiters : BitVec 64
  apart : waiters &&& tidMask = 0
  flag : waiters ≠ 0

/-- The threads of a process: distinct non-zero tids that fit the mask. -/
structure Threads (ι : Type) extends Layout where
  tid : ι → BitVec 64
  injective : Function.Injective tid
  nonzero : ∀ i, tid i ≠ 0
  fits : ∀ i, tid i &&& tidMask = tid i

namespace Layout

def tidOf (L : Layout) (val : BitVec 64) : BitVec 64 := val &&& L.tidMask

def Flagged (L : Layout) (val : BitVec 64) : Prop := val &&& L.waiters ≠ 0

instance (L : Layout) (val : BitVec 64) : Decidable (L.Flagged val) :=
  inferInstanceAs (Decidable (_ ≠ _))

@[simp] theorem tidOf_zero (L : Layout) : L.tidOf 0#64 = 0#64 := BitVec.zero_and

@[simp] theorem not_flagged_zero (L : Layout) : ¬L.Flagged 0#64 := fun flagged => flagged BitVec.zero_and

@[simp] theorem tidOf_mark (L : Layout) (val : BitVec 64) : L.tidOf (val ||| L.waiters) = L.tidOf val := by
  simp [tidOf,BitVec.and_or_distrib_right,L.apart]

@[simp] theorem flagged_mark (L : Layout) (val : BitVec 64) : L.Flagged (val ||| L.waiters) := by
  intro clear
  rw [BitVec.and_or_distrib_right,BitVec.and_self] at clear
  exact L.flag (BitVec.or_eq_zero_iff.mp clear).2

end Layout

namespace Threads

@[simp] theorem tidOf_tid (T : Threads ι) (i : ι) : T.tidOf (T.tid i) = T.tid i := T.fits i

@[simp] theorem tidOf_take (T : Threads ι) (i : ι) (val : BitVec 64) :
    T.tidOf (T.tid i ||| (val &&& T.waiters)) = T.tid i := by
  simp [Layout.tidOf,BitVec.and_or_distrib_right,BitVec.and_assoc,T.apart,T.fits]

@[simp] theorem flagged_take (T : Threads ι) (i : ι) (val : BitVec 64) :
    T.Flagged (T.tid i ||| (val &&& T.waiters)) ↔ T.Flagged val := by
  have clear : T.tid i &&& T.waiters = 0 := by
    rw [← T.fits i,BitVec.and_assoc,BitVec.and_comm T.tidMask,T.apart]
    exact BitVec.and_zero
  simp [Layout.Flagged,BitVec.and_or_distrib_right,BitVec.and_assoc,clear]

end Threads

/-- Threads with tids `1` to `n` under a 31-bit mask. -/
def Threads.numbered (n : Nat) (small : n < 2 ^ 31) : Threads (Fin n) where
  tidMask := 0x7fffffff
  waiters := 0x80000000
  apart := by decide
  flag := by decide
  tid i := BitVec.ofNat 64 (i + 1)
  injective := by
    intro i j same
    have values := congrArg BitVec.toNat same
    simp only [BitVec.toNat_ofNat] at values
    omega
  nonzero := by
    intro i zero
    have value := congrArg BitVec.toNat zero
    rw [BitVec.toNat_ofNat,show BitVec.toNat (0 : BitVec 64) = 0 from rfl] at value
    omega
  fits := by
    intro i
    apply BitVec.eq_of_toNat_eq
    have mask : (0x7fffffff : BitVec 64).toNat = 2 ^ 31 - 1 := rfl
    rw [BitVec.toNat_and,mask,Nat.and_two_pow_sub_one_eq_mod,BitVec.toNat_ofNat]
    omega

def two : Threads (Fin 2) := .numbered 2 (by decide)

def three : Threads (Fin 3) := .numbered 3 (by decide)

def six : Threads (Fin 6) := .numbered 6 (by decide)

/-- Who called `SyncMutexLock`; the condvar wait remembers whether `wr < 0`. -/
inductive LockCall where
  | user
  | cond (failed : Bool)
  deriving DecidableEq, Repr

inductive UnlockCall (κ : Type) where
  | user
  | cond (c : κ) (seen : Int)
  deriving DecidableEq, Repr

/-- Who called `sync_wait_impl`, with what its return goes back to. -/
inductive WaitCall (κ : Type) where
  | lock (m : κ) (k : LockCall)
  | cond (c m : κ) (seen : Int)
  | sem (o : κ)
  deriving DecidableEq, Repr

inductive WakeCall (κ : Type) where
  | unlock (m : κ) (k : UnlockCall κ)
  | post (o : κ)
  | signal (c : κ) (all : Bool)
  deriving DecidableEq, Repr

/-- The next access of `SyncMutexLock`. -/
inductive LockPhase where
  | check | load | take (val : BitVec 64) | recLoad | recStore (c : Int) | mark (val : BitVec 64)
  deriving DecidableEq, Repr

/-- The next access of `SyncMutexUnlock`. -/
inductive UnlockPhase where
  | load | test | decLoad | decStore (c : Int) | swap
  deriving DecidableEq, Repr

/-- `sync_wait_impl`: `block_ntfn_self`, the first critical section, `qsoe_sys_wait`
not yet issued, asleep or released in it, and the second critical section. -/
inductive WaitPhase where
  | mint | enter | park | blocked | leave
  deriving DecidableEq, Repr

inductive Pc (κ : Type) where
  | idle
  | lock (m : κ) (k : LockCall) (p : LockPhase)
  | unlock (m : κ) (k : UnlockCall κ) (p : UnlockPhase)
  | wait (w : WaitCall κ) (p : WaitPhase)
  | wake (w : WakeCall κ)
  | condLoad (c m : κ)
  | signalAdd (c : κ) (all : Bool)
  | postAdd (o : κ)
  | semLoad (o : κ) (tryOnly : Bool)
  | semTake (o : κ) (tryOnly : Bool) (c : Int)
  | destroyCount (o : κ)
  | destroyOwner (o : κ)
  deriving DecidableEq, Repr

/-- Where a thread goes when an inner call returns: on, or out of its outermost call. -/
inductive Next (κ : Type) where
  | goto (p : Pc κ)
  | done (r : Ret)
  deriving DecidableEq, Repr

def Next.pc : Next κ → Pc κ
  | .goto p => p
  | .done _ => .idle

/-- The public calls; `none` is a NULL `sync_t *`. -/
inductive Call (κ : Type) where
  | mutexLock (m : Option κ)
  | mutexUnlock (m : Option κ)
  | condvarWait (c m : Option κ)
  | condvarSignal (c : Option κ) (all : Bool)
  | semPost (o : Option κ)
  | semWait (o : Option κ) (tryOnly : Bool)
  | destroy (o : Option κ)
  deriving DecidableEq, Repr

/-- Which protocol signalled a Notification. The kernel keeps no such tag. -/
inductive Origin where
  | wake | exit
  deriving DecidableEq, Repr

def Origin.merge : Option Origin → Origin → Origin
  | some .wake, _ => .wake
  | _, origin => origin

/-- A seL4 Notification: the sticky pending signal and the threads blocked in Wait. -/
structure Ntfn (ι : Type) where
  active : Option Origin
  queue : List ι
  deriving DecidableEq, Repr

/-- The Notifications of the threads of a process, each named by its owner. `grant`
holds the signal that released a blocked thread until that thread runs again. -/
structure Kernel (ι : Type) where
  ntfn : ι → Ntfn ι
  grant : ι → Option Origin

namespace Kernel

variable {ι : Type} [DecidableEq ι]

def start : Kernel ι := ⟨fun _ => ⟨none,[]⟩,fun _ => none⟩

/-- `qsoe_sys_signal`: release the longest waiter, or leave the signal pending. -/
def signal (k : Kernel ι) (n : ι) (origin : Origin) : Kernel ι :=
  match (k.ntfn n).queue with
  | j :: rest =>
    ⟨Function.update k.ntfn n { k.ntfn n with queue := rest },Function.update k.grant j (some origin)⟩
  | [] =>
    let ntfn := k.ntfn n
    { k with ntfn := Function.update k.ntfn n { ntfn with active := some (.merge ntfn.active origin) } }

/-- `qsoe_sys_wait` by thread `i`: consume the pending signal, or join the queue. -/
def wait (k : Kernel ι) (n i : ι) : Kernel ι × Option Origin :=
  match (k.ntfn n).active with
  | some origin =>
    ({ k with ntfn := Function.update k.ntfn n { k.ntfn n with active := none } },some origin)
  | none =>
    ({ k with ntfn := Function.update k.ntfn n { k.ntfn n with queue := (k.ntfn n).queue ++ [i] } },none)

def resume (k : Kernel ι) (i : ι) : Option (Kernel ι × Origin) :=
  (k.grant i).map fun origin => ({ k with grant := Function.update k.grant i none },origin)

def abandon (k : Kernel ι) (n i : ι) : Kernel ι :=
  { k with ntfn := Function.update k.ntfn n { k.ntfn n with queue := (k.ntfn n).queue.erase i } }

def signalAll (k : Kernel ι) (ns : List ι) : Kernel ι := ns.foldl (fun k n => k.signal n .wake) k

end Kernel

/-- `depth`, `posts` and `takes` are history: completed acquires less releases of each
thread, counter increments by `SyncSemPost` and decrements by `SyncSemWait_r`. The
`count` word, a `long`, is an integer here; `count_word` says how long a run keeps it
in range. -/
structure State (κ ι : Type) where
  owner : κ → BitVec 64
  count : κ → Int
  table : Table κ ι
  kernel : Kernel ι
  joinNtfn : ι → Bool
  pc : ι → Pc κ
  errno : ι → Option Errno
  ret : ι → Option Ret
  depth : ι → κ → Nat
  posts : κ → Nat
  takes : κ → Nat

variable {κ ι : Type} [DecidableEq κ] [DecidableEq ι]

namespace State

@[simps] def setPc (s : State κ ι) (i : ι) (p : Pc κ) : State κ ι :=
  { s with pc := Function.update s.pc i p }

@[simps] def setOwner (s : State κ ι) (m : κ) (val : BitVec 64) : State κ ι :=
  { s with owner := Function.update s.owner m val }

@[simps] def setCount (s : State κ ι) (o : κ) (c : Int) : State κ ι :=
  { s with count := Function.update s.count o c }

@[simps] def setTable (s : State κ ι) (t : Table κ ι) : State κ ι := { s with table := t }

@[simps] def setErrno (s : State κ ι) (i : ι) (e : Errno) : State κ ι :=
  { s with errno := Function.update s.errno i (some e) }

@[simps] def setKernel (s : State κ ι) (k : Kernel ι) : State κ ι := { s with kernel := k }

@[simps] def setMinted (s : State κ ι) (i : ι) : State κ ι :=
  { s with joinNtfn := Function.update s.joinNtfn i true }

@[simps] def setDepth (s : State κ ι) (i : ι) (m : κ) (d : Nat) : State κ ι :=
  { s with depth := Function.update s.depth i (Function.update (s.depth i) m d) }

@[simps] def addPost (s : State κ ι) (o : κ) : State κ ι :=
  { s with posts := Function.update s.posts o (s.posts o + 1) }

@[simps] def addTake (s : State κ ι) (o : κ) : State κ ι :=
  { s with takes := Function.update s.takes o (s.takes o + 1) }

/-- Return to the caller with a result. -/
@[simps] def finish (s : State κ ι) (i : ι) (r : Ret) : State κ ι :=
  { s with pc := Function.update s.pc i .idle, ret := Function.update s.ret i (some r) }

/-- Go on at a program counter, or return. -/
@[simps] def next (s : State κ ι) (i : ι) (n : Next κ) : State κ ι :=
  { s with
    pc := Function.update s.pc i n.pc
    ret := match n with
      | .goto _ => s.ret
      | .done r => Function.update s.ret i (some r) }

end State

/-- `SyncMutexLock` returns; `SyncCondvarWait_r` ignores the result. -/
def lockReturn (errno : Option Errno) (ok : Bool) : LockCall → Next κ
  | .user => .done (if ok then .zero else .minusOne)
  | .cond failed => .done (if failed then .neg (errno.getD .eintr) else .zero)

def acquired (s : State κ ι) (i : ι) (m : κ) (k : LockCall) : State κ ι :=
  (s.setDepth i m (s.depth i m + 1)).next i (lockReturn (s.errno i) true k)

def lockStep (T : Threads ι) (s : State κ ι) (i : ι) (m : κ) (k : LockCall) : LockPhase → State κ ι
  | .check =>
    if s.owner m = destroyed then (s.setErrno i .einval).next i (lockReturn (some .einval) false k)
    else s.setPc i (.lock m k .load)
  | .load =>
    let val := s.owner m
    if T.tidOf val = 0 then s.setPc i (.lock m k (.take val))
    else if T.tidOf val = T.tid i then s.setPc i (.lock m k .recLoad)
    else if T.Flagged val then s.setPc i (.wait (.lock m k) .mint)
    else s.setPc i (.lock m k (.mark val))
  | .take val =>
    if s.owner m = val then acquired (s.setOwner m (T.tid i ||| (val &&& T.waiters))) i m k
    else s.setPc i (.lock m k .load)
  | .recLoad => s.setPc i (.lock m k (.recStore (s.count m)))
  | .recStore c => acquired (s.setCount m (c + 1)) i m k
  | .mark val =>
    if s.owner m = val then (s.setOwner m (val ||| T.waiters)).setPc i (.wait (.lock m k) .mint)
    else s.setPc i (.lock m k .load)

/-- `SyncMutexUnlock` returns, to the user or into `SyncCondvarWait_r`. -/
def unlockReturn (errno : Option Errno) (m : κ) (ok : Bool) : UnlockCall κ → Next κ
  | .user => .done (if ok then .zero else .minusOne)
  | .cond c seen => if ok then .goto (.wait (.cond c m seen) .mint) else .done (.neg (errno.getD .einval))

def released (s : State κ ι) (i : ι) (m : κ) : State κ ι := s.setDepth i m (s.depth i m - 1)

def unlockStep (T : Threads ι) (s : State κ ι) (i : ι) (m : κ) (k : UnlockCall κ) :
    UnlockPhase → State κ ι
  | .load =>
    if T.tidOf (s.owner m) ≠ T.tid i then (s.setErrno i .eperm).next i (unlockReturn (some .eperm) m false k)
    else s.setPc i (.unlock m k .test)
  | .test => s.setPc i (.unlock m k (if 0 < s.count m then .decLoad else .swap))
  | .decLoad => s.setPc i (.unlock m k (.decStore (s.count m)))
  | .decStore c => (released (s.setCount m (c - 1)) i m).next i (unlockReturn (s.errno i) m true k)
  | .swap =>
    let old := s.owner m
    let cleared := released (s.setOwner m 0) i m
    if T.Flagged old then cleared.setPc i (.wake (.unlock m k))
    else cleared.next i (unlockReturn (s.errno i) m true k)

def WaitCall.addr : WaitCall κ → Addr κ
  | .lock m _ => ⟨m,.owner⟩
  | .cond c _ _ => ⟨c,.count⟩
  | .sem o => ⟨o,.count⟩

def WaitCall.mode : WaitCall κ → WaitMode
  | .cond _ _ seen => .gen seen
  | _ => .credit

/-- `sync_wait_impl` returns 0 or, with `qsoe_errno` set, -1. -/
def waitReturn (errno : Option Errno) (ok : Bool) : WaitCall κ → Next κ
  | .lock m k => if ok then .goto (.lock m k .load) else lockReturn errno false k
  | .cond _ m _ => .goto (.lock m (.cond !ok) .check)
  | .sem o => if ok then .goto (.semLoad o false) else .done (.neg (errno.getD .eintr))

def waitEnter (s : State κ ι) (i : ι) (w : WaitCall κ) : State κ ι :=
  let result := s.table.enter w.addr w.mode i
  match result.2 with
  | .pass => (s.setTable result.1).next i (waitReturn (s.errno i) true w)
  | .parked => (s.setTable result.1).setPc i (.wait w .park)
  | .full => ((s.setTable result.1).setErrno i .enomem).next i (waitReturn (some .enomem) false w)

/-- `none` while the thread sleeps in `qsoe_sys_wait`. -/
def waitStep (s : State κ ι) (i : ι) (w : WaitCall κ) : WaitPhase → Option (State κ ι)
  | .mint => some ((s.setMinted i).setPc i (.wait w .enter))
  | .enter => some (waitEnter s i w)
  | .park =>
    let result := s.kernel.wait i i
    some ((s.setKernel result.1).setPc i (.wait w (if result.2.isSome then .leave else .blocked)))
  | .blocked => (s.kernel.resume i).map fun result => (s.setKernel result.1).setPc i (.wait w .leave)
  | .leave => some ((s.setTable (s.table.leave w.addr i)).next i (waitReturn (s.errno i) true w))

def WakeCall.addr : WakeCall κ → Addr κ
  | .unlock m _ => ⟨m,.owner⟩
  | .post o => ⟨o,.count⟩
  | .signal c _ => ⟨c,.count⟩

def WakeCall.maxN : WakeCall κ → Nat
  | .signal _ true => 0
  | _ => 1

def WakeCall.mode : WakeCall κ → WakeMode
  | .signal _ _ => .discard
  | _ => .absorb

def wakeReturn (errno : Option Errno) (ok : Bool) : WakeCall κ → Next κ
  | .unlock m k => unlockReturn errno m ok k
  | .post _ => .done (if ok then .zero else .minusOne)
  | .signal _ _ => .done (if ok then .zero else .neg (errno.getD .einval))

def wakeStep (s : State κ ι) (i : ι) (w : WakeCall κ) : State κ ι :=
  let result := s.table.wake w.addr w.maxN w.mode
  let signalled := (s.setTable result.1).setKernel (s.kernel.signalAll result.2.1)
  if result.2.2 then signalled.next i (wakeReturn (s.errno i) true w)
  else (signalled.setErrno i .enomem).next i (wakeReturn (some .enomem) false w)

def postStep (s : State κ ι) (i : ι) (o : κ) : State κ ι :=
  let old := s.count o
  let added := (s.setCount o (old + 1)).addPost o
  if old < 1 then added.setPc i (.wake (.post o)) else added.finish i .zero

def semLoadStep (s : State κ ι) (i : ι) (o : κ) (tryOnly : Bool) : State κ ι :=
  let c := s.count o
  if 0 < c then s.setPc i (.semTake o tryOnly c)
  else if tryOnly then s.finish i (.neg .eagain)
  else s.setPc i (.wait (.sem o) .mint)

def semTakeStep (s : State κ ι) (i : ι) (o : κ) (tryOnly : Bool) (c : Int) : State κ ι :=
  if s.count o = c then ((s.setCount o (c - 1)).addTake o).finish i .zero
  else s.setPc i (.semLoad o tryOnly)

def advance (T : Threads ι) (s : State κ ι) (i : ι) : Option (State κ ι) :=
  match s.pc i with
  | .idle => none
  | .lock m k p => some (lockStep T s i m k p)
  | .unlock m k p => some (unlockStep T s i m k p)
  | .wait w p => waitStep s i w p
  | .wake w => some (wakeStep s i w)
  | .condLoad c m => some (s.setPc i (.unlock m (.cond c (s.count c)) .load))
  | .signalAdd c all => some ((s.setCount c (s.count c + 1)).setPc i (.wake (.signal c all)))
  | .postAdd o => some (postStep s i o)
  | .semLoad o tryOnly => some (semLoadStep s i o tryOnly)
  | .semTake o tryOnly c => some (semTakeStep s i o tryOnly c)
  | .destroyCount o => some ((s.setCount o 0).setPc i (.destroyOwner o))
  | .destroyOwner o => some ((s.setOwner o destroyed).finish i .zero)

/-- A call up to its first access of the object: the NULL checks. -/
def callStep (s : State κ ι) (i : ι) : Call κ → State κ ι
  | .mutexLock none | .mutexUnlock none | .semPost none => (s.setErrno i .einval).finish i .minusOne
  | .condvarWait none _ | .condvarWait _ none | .condvarSignal none _ | .semWait none _ | .destroy none =>
    s.finish i (.neg .einval)
  | .mutexLock (some m) => s.setPc i (.lock m .user .check)
  | .mutexUnlock (some m) => s.setPc i (.unlock m .user .load)
  | .condvarWait (some c) (some m) => s.setPc i (.condLoad c m)
  | .condvarSignal (some c) all => s.setPc i (.signalAdd c all)
  | .semPost (some o) => s.setPc i (.postAdd o)
  | .semWait (some o) tryOnly => s.setPc i (.semLoad o tryOnly)
  | .destroy (some o) => s.setPc i (.destroyCount o)

/-- A call by an idle thread, the next step of a thread, `mint_notification` finding no
slot or no memory, and a `qsoe_sys_wait` that returns without a signal. -/
inductive Event (κ ι : Type) where
  | call (i : ι) (c : Call κ)
  | run (i : ι)
  | mintFails (i : ι)
  | spurious (i : ι)
  deriving DecidableEq, Repr

/-- Thread `i` takes `n` steps in a row. -/
def Event.runs (i : ι) (n : Nat) : List (Event κ ι) := List.replicate n (.run i)

def Event.thread : Event κ ι → ι
  | .call i _ | .run i | .mintFails i | .spurious i => i

def mintFailsStep (s : State κ ι) (i : ι) : Option (State κ ι) :=
  match s.pc i with
  | .wait w .mint =>
    if s.joinNtfn i then none else some ((s.setErrno i .enomem).next i (waitReturn (some .enomem) false w))
  | _ => none

def spuriousStep (s : State κ ι) (i : ι) : Option (State κ ι) :=
  match s.pc i with
  | .wait w .park => some (s.setPc i (.wait w .leave))
  | .wait w .blocked =>
    if s.kernel.grant i = none then some ((s.setKernel (s.kernel.abandon i i)).setPc i (.wait w .leave))
    else none
  | _ => none

def step (T : Threads ι) (s : State κ ι) : Event κ ι → Option (State κ ι)
  | .call i c => if s.pc i = .idle then some (callStep s i c) else none
  | .run i => advance T s i
  | .mintFails i => mintFailsStep s i
  | .spurious i => spuriousStep s i

structure SyncT where
  owner : BitVec 64
  count : Int
  deriving DecidableEq, Repr

inductive SyncType where
  | mutexFree | cond | sem | mutexNonrecursive | unknown
  deriving DecidableEq, Repr

inductive Protocol where
  | none | inherit | protect | unknown
  deriving DecidableEq, Repr

/-- The attribute fields `SyncTypeCreate_r` reads; `clockKnown` is its test of `clockid`
against the `CLOCK_*` range, whose ends are declared outside the repository. -/
structure SyncAttr where
  protocol : Protocol
  clockKnown : Bool
  count : Int
  deriving DecidableEq, Repr

def attrValid (type : SyncType) (attr : SyncAttr) : Bool :=
  match type with
  | .mutexFree | .mutexNonrecursive => attr.protocol != .unknown
  | .cond => attr.clockKnown
  | _ => true

/-- `SyncTypeCreate_r` on a non-NULL object. -/
def syncTypeCreate_r (type : SyncType) (attr : Option SyncAttr) : Except Errno SyncT :=
  if type = .unknown then .error .einval
  else if attr.any (fun a => !attrValid type a) then .error .einval
  else .ok ⟨0,match type, attr with
    | .sem, some a => if 0 < a.count then a.count else 0
    | _, _ => 0⟩

theorem syncTypeCreate_r_owner (created : syncTypeCreate_r type attr = .ok o) : o.owner = 0 := by
  unfold syncTypeCreate_r at created
  split_ifs at created
  rw [← Except.ok.inj created]

theorem syncTypeCreate_r_count (created : syncTypeCreate_r type attr = .ok o) (other : type ≠ .sem) :
    o.count = 0 := by
  unfold syncTypeCreate_r at created
  split at created
  · cases created
  · split at created
    · cases created
    · rw [← Except.ok.inj created]
      cases type <;> first | rfl | exact absurd rfl other

/-- No call has run yet; `minted` says which threads already own a Notification. -/
def start (objects : κ → SyncT) (minted : ι → Bool) : State κ ι where
  owner o := (objects o).owner
  count o := (objects o).count
  table := .empty
  kernel := .start
  joinNtfn := minted
  pc _ := .idle
  errno _ := none
  ret _ := none
  depth _ _ := 0
  posts _ := 0
  takes _ := 0

end Qsoe.Sync
