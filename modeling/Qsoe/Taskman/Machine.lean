import Qsoe.Taskman.Registry

/-! Taskman's receive loop over the registries. A process sends a request through a cap it
holds to the primary endpoint; the loop takes the badge for a fault or for the pid of the
caller and runs the handler. Between requests a process may copy and delete caps of its own
CSpace. -/
namespace Qsoe.Taskman

variable {cfg : Config}

/-- The requests that reach the registries, with the results of the kernel calls and path
lookups their handlers make. `claim` is any handler that only draws a slot for the caller. -/
inductive Request where
  | channelCreate (chid flags : BitVec 32) (k : CreateKernel)
  | channelDestroy (recv : Nat) (revoked : Bool)
  | connectAttach (pid : Pid) (chid flags : BitVec 32) (k : AttachKernel)
  | connectDetach (slot : Nat) (deleted : Bool)
  | connectFlags (slot : Nat) (mask bits : BitVec 32)
  | openPath (server : Option (Pid × BitVec 32)) (k : AttachKernel) (opened deleted : Bool)
  | pipeCreate (server : Option (Pid × BitVec 32)) (readMinted writeMinted : Bool)
  | dupCap (src dst : Nat) (copied : Bool)
  | processCreate (k : SpawnKernel)
  | processTerminate (target : Pid) (status : BitVec 32)
  | processDetach (status : BitVec 32)
  | waitpid (child : Pid) (parked : Bool)
  | io (ctx : Word × Word)
  | claim
  | other
  deriving DecidableEq, Repr

inductive Delivery where
  | fault (pid : Pid)
  | request (caller : Pid)
  deriving DecidableEq, Repr

def delivery (badge : Word) : Delivery :=
  if badge &&& faultBadgeFlag ≠ 0 then .fault ((badge &&& faultPidMask).setWidth 32)
  else .request (badge.setWidth 32)

/-- `TM_REQ_PROCESS_TERMINATE` of pid 0 is the caller's own exit. -/
def terminateTarget (caller target : Pid) : Pid := if target = 0 then caller else target

namespace State

/-- `tm_dispatch`. -/
def dispatch (s : State cfg) (caller : Pid) (badge : Word) (stale : Nat) : Request → State cfg
  | .channelCreate chid flags k => (s.channelCreate caller chid flags stale k).1
  | .channelDestroy recv revoked => (s.channelDestroy caller recv revoked).1
  | .connectAttach pid chid flags k => (s.connectAttach caller pid chid flags stale k).1
  | .connectDetach slot deleted => (s.connectDetach caller slot stale deleted).1
  | .connectFlags slot mask bits => (s.connectFlags caller slot mask bits).1
  | .openPath server k opened deleted => (s.ioOpen caller server stale k opened deleted).1
  | .pipeCreate server readMinted writeMinted =>
      (s.pipeCreate caller server stale readMinted writeMinted).1
  | .dupCap src dst copied => (s.dupCap caller src dst stale copied).1
  | .processCreate k => (s.processCreate caller k).1
  | .processTerminate target status => (s.processTerminate (terminateTarget caller target) status).1
  | .processDetach status => (s.processDetach caller status).1
  | .waitpid child parked => (s.processWaitpid caller child parked).1
  | .io ctx => (s.connectionSetCtx badge ctx).1
  | .claim => (s.processAllocSlot caller).1
  | .other => s

def receive (s : State cfg) (badge : Word) (stale : Nat) (r : Request) : State cfg :=
  match delivery badge with
  | .fault pid => s.handleFault pid
  | .request caller => s.dispatch caller badge stale r

/-- The cap a process sends through. -/
def held (s : State cfg) (i slot : Nat) : Option Cap := (s.spaces i).bind (·.caps slot)

def pidOf (s : State cfg) (i : Nat) : Option Pid := (s.spaces i).map (·.pid)

def faultCap (s : State cfg) (i : Nat) : Option Cap := (s.spaces i).bind (·.fault)

end State

/-- CSpace 0 is taskman's own; the others belong to processes. -/
inductive Event where
  | message (i slot stale : Nat) (r : Request)
  | fault (i : Nat)
  | copy (i src dst : Nat)
  | delete (i slot : Nat)
  deriving DecidableEq, Repr

def step (s : State cfg) : Event → Option (State cfg)
  | .message i slot stale r =>
    match s.held i slot with
    | some c => if i ≠ 0 ∧ c.object = .primary then some (s.receive c.badge stale r) else none
    | none => none
  | .fault i =>
    match s.faultCap i with
    | some c => if c.object = .primary then some (s.receive c.badge 0 .other) else none
    | none => none
  | .copy i src dst => if i ≠ 0 then s.copyCap i src dst true else none
  | .delete i slot => if i ≠ 0 then some (s.deleteCap i slot) else none

/-- The pid whose termination an event asks for. -/
def Event.target (s : State cfg) : Event → Option Pid
  | .message i slot _ r => (s.held i slot).bind fun c =>
    match delivery c.badge, r with
    | .fault pid, _ => some pid
    | .request caller, .processTerminate target _ => some (terminateTarget caller target)
    | _, _ => none
  | .fault i => (s.faultCap i).bind fun c =>
    match delivery c.badge with
    | .fault pid => some pid
    | .request _ => none
  | _ => none

/-- `tm_process_terminate` goes as far as the teardown. -/
def State.tearsDown (s : State cfg) (target : Pid) : Bool :=
  target != pidTaskman && (s.processLookup target).any fun hit => hit.2.exit == .live

/-- The scoids a loop of `count` draws from the counter at `n`. -/
def scoidsFrom (n : Nat) : Nat → List Source
  | 0 => []
  | count + 1 => .scoid n :: scoidsFrom (n + 1) count

def State.spawnDraws (s : State cfg) : List Source :=
  match s.pidAlloc with
  | none => []
  | some (_,pid) => scoidsFrom s.scoids 3 ++ [.sysmgr pid]

def Image.draws (s : State cfg) : Image → List Source
  | .mounted .. => [.scoid s.scoids]
  | _ => []

def Request.draws (s : State cfg) : Request → List Source
  | .connectAttach .. => [.scoid s.scoids]
  | .openPath .. => [.scoid s.scoids]
  | .pipeCreate .. => [.pipe s.pipes false,.pipe s.pipes true]
  | .processCreate k => k.image.draws s ++ (s.loadImage k.image).1.spawnDraws
  | _ => []

def Event.draws (s : State cfg) : Event → List Source
  | .message i slot _ r =>
    match (s.held i slot).map fun c => delivery c.badge with
    | some (.request _) => r.draws s
    | _ => []
  | _ => []

/-- Steps without a condition. -/
def anyStep (_ : State cfg) (_ : Event) : Prop := True

instance : DecidableRel (@anyStep cfg) := fun _ _ => .isTrue trivial

/-- `TM_CONSOLE_CHID`. -/
def consoleChid : BitVec 32 := 2

/-- The chids `main` registers on the primary endpoint: the primary channel, console, cpiofs,
`/dev/null`, `/dev/zero`, pmdir, sysfs and procfs. -/
def bootChids : List (BitVec 32) := [1,consoleChid,3,4,5,6,7,8]

/-- `tm_init`: taskman's own record and CSpace. -/
def State.init (cfg : Config) : State cfg where
  processes := fun i => if i.val = 0 then
    some ⟨pidTaskman,some 0,cfg.primaryEp + 1,pidTaskman,.live,0,false⟩ else none
  freePids := []
  nextPid := 2
  channels := fun _ => none
  rows := fun _ => none
  ctx := fun _ => (0,0)
  scoids := 0
  pipes := 0
  globals := 0
  objects := 0
  spawned := 1
  spaces := fun i => if i = 0 then some ⟨pidTaskman,fun _ => none,none⟩ else none

def registerBoot (s : State cfg) : List (BitVec 32) → Option (State cfg)
  | [] => some s
  | chid :: rest =>
    match s.channelRegisterExisting pidTaskman chid .primary cfg.primaryEp with
    | (_,.error _) => none
    | (registered,.ok _) => registerBoot registered rest

/-- The kernel calls and lookups of the spawn of `/sbin/init`, all of them successful. -/
def bootSpawn : SpawnKernel where
  image := .archive
  staged := true
  loaded := none
  endpoint := true
  budget := true
  console := some (pidTaskman,consoleChid)
  stdin := true
  stdout := true
  stderr := true
  thread := true
  objects := true

/-- `main` up to its receive loop; `none` is a `tm_crash`. -/
def boot (cfg : Config) : Option (State cfg) :=
  (registerBoot (.init cfg) bootChids).bind fun registered =>
    registered.pidAlloc.bind fun issued =>
      match issued.1.spawn issued.2 bootSpawn with
      | (_,.error _) => none
      | (spawned,.ok _) => some spawned

/-- A configuration with room for the boot channels and a few connections. -/
def small : Config := ⟨12,16,0x40000000,0x1,0x2,0x40000000,100,by decide⟩

/-- The state in which its loop starts: `/sbin/init` runs in CSpace 1 as pid 2. -/
def smallBoot : State small := (boot small).get (by decide +kernel)

theorem boot_small : boot small = some smallBoot := (Option.some_get _).symm

end Qsoe.Taskman
