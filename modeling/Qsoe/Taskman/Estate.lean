import Qsoe.Taskman.Pids

/-! What a process owns beside its channels and connections: worker threads, pp_ut blocks, device
frames and ranges of the resource database. Every request acts on the registries and on these
tables together; pp_ut blocks are numbered in the order they are carved. -/
namespace Qsoe.Taskman

/-- `TM_PP_UT_PER_PROC`, `TM_PP_UT_FREE_MAX`, `TM_MAX_DEVFRAMES` and `TM_RSRC_POOL_SIZE`. -/
def ppUtPerProc : Nat := 32
def ppUtFreeMax : Nat := 64
def maxDevframes : Nat := 32
def rsrcPoolSize : Nat := 256

/-- The reuse free-list, and how many blocks were carved and can still be. -/
structure Pool where
  free : List Nat
  carved : Nat
  ram : Nat
  bounded : free.length ≤ ppUtFreeMax

namespace Pool

/-- `pp_ut_acquire` -/
def acquire (p : Pool) : Option (Pool × Nat) :=
  match popped : p.free with
  | b :: rest =>
    some ({ p with
        free := rest
        bounded := (popped ▸ List.sublist_cons_self b rest : rest.Sublist p.free).length_le.trans p.bounded },b)
  | [] => if p.ram = 0 then none else some ({ p with ram := p.ram - 1, carved := p.carved + 1 },p.carved)

/-- `pp_ut_release`; a block that does not fit is dropped. -/
def release (p : Pool) (b : Nat) : Pool :=
  if room : p.free.length < ppUtFreeMax then { p with free := b :: p.free, bounded := room } else p

/-- `tm_pput_release_list` -/
def releaseList (p : Pool) (blocks : List Nat) : Pool := blocks.foldl release p

/-- `times` retypes that find the last block of the list exhausted. -/
def grow (p : Pool) (blocks : List Nat) : Nat → Pool × List Nat
  | 0 => (p,blocks)
  | times + 1 =>
    if blocks.length < ppUtPerProc then
      match p.acquire with
      | none => (p,blocks)
      | some (rest,b) => rest.grow (blocks ++ [b]) times
    else (p,blocks)

/-- `tm_pput_spawn_begin` and the retypes up to `tm_pput_end`. -/
def bracket (p : Pool) (times : Nat) : Option (Pool × List Nat) :=
  p.acquire.map fun first => first.1.grow [first.2] times

theorem acquire_cases {p p' : Pool} (got : p.acquire = some (p',b)) :
    (p.free = b :: p'.free ∧ p'.carved = p.carved) ∨
    (p.free = [] ∧ p'.free = [] ∧ b = p.carved ∧ p'.carved = p.carved + 1) := by
  unfold acquire at got
  split at got
  · rename_i popped
    obtain ⟨rfl,rfl⟩ : _ = p' ∧ _ = b := by simpa using got
    exact .inl ⟨popped,rfl⟩
  · rename_i empty
    split at got
    · cases got
    · obtain ⟨rfl,rfl⟩ : _ = p' ∧ _ = b := by simpa using got
      exact .inr ⟨empty,empty,rfl,rfl⟩

end Pool

/-- `tm_thread_t`. -/
structure Worker where
  pid : Pid
  tid : Nat
  deriving DecidableEq, Repr

/-- `tm_rsrc_t`; owner 0 is free. -/
structure Range where
  type : Nat
  first : Word
  last : Word
  owner : Pid
  deriving DecidableEq, Repr

/-- `n` is `TM_MAX_THREADS`. A device frame is known by the address it is mapped at. -/
structure Estate (cfg : Config) (n : Nat) where
  reg : State cfg
  pool : Pool
  pput : Fin maxProcesses → List Nat
  devframes : Fin maxProcesses → List Word
  nextTid : Fin maxProcesses → Nat
  threads : Slab.Table n Worker
  ranges : List Range

/-- How many retypes of a spawn find their block exhausted, while the image is read and after. -/
structure Retypes where
  loading : Nat
  spawning : Nat
  deriving DecidableEq, Repr

inductive Demand where
  | registry (r : Request) (times : Retypes)
  | threadAlloc (pages : Nat) (maxTid : Nat) (granted : Bool)
  | mmap (times : Nat)
  | mapPhys (frames : List Word)
  | munmap (vaddr len : Word)
  | rsrcCreate (type : Nat) (first last : Word)
  | rsrc (left : List Range)
  deriving DecidableEq, Repr

variable {cfg : Config} {n : Nat}

namespace Estate

/-- Registering a process clears the counts of its record. -/
def settle (e : Estate cfg n) (next : State cfg) : Estate cfg n :=
  let fresh (i : Fin maxProcesses) : Bool := (e.reg.processes i).isNone && (next.processes i).isSome
  { e with
    reg := next
    pput := fun i => if fresh i then [] else e.pput i
    devframes := fun i => if fresh i then [] else e.devframes i
    nextTid := fun i => if fresh i then 2 else e.nextTid i }

/-- `tm_spawn_fs_load`, with the blocks of its read buffer. -/
def loadImage (e : Estate cfg n) (times : Nat) : Image → Estate cfg n × Except Errno (List Nat)
  | .absent => (e,.error .enoent)
  | .archive => (e,.ok [])
  | .mounted server chid k read deleted =>
    match e.reg.loadImage (.mounted server chid k true deleted) with
    | (refused,.error err) => (e.settle refused,.error err)
    | (made,.ok _) =>
      match e.pool.bracket times with
      | none => (e.settle made,.error .enoent)
      | some (pool,blocks) =>
        if read then ({ e.settle made with pool := pool },.ok blocks)
        else ({ e.settle made with pool := pool.releaseList blocks },.error .enoent)

/-- The staged blocks go to the record of the new process. -/
def hand (e : Estate cfg n) (pid : Pid) (blocks : List Nat) : Estate cfg n :=
  match e.reg.processLookup pid with
  | none => e
  | some (i,_) => { e with pput := Function.update e.pput i blocks }

def processCreateByName (e : Estate cfg n) (k : SpawnKernel) (times : Retypes) : Estate cfg n × Except Errno Pid :=
  match e.loadImage times.loading k.image with
  | (same,.error err) => (same,.error err)
  | (loaded,.ok image) =>
    match loaded.reg.pidAlloc with
    | none => ({ loaded with pool := loaded.pool.releaseList image },.error .enomem)
    | some (issued,pid) =>
      match loaded.pool.bracket times.spawning with
      | none => ({ loaded with reg := issued.pidFree pid, pool := loaded.pool.releaseList image },.error .enomem)
      | some (pool,staging) =>
        match issued.spawn pid k with
        | (failed,.error err) =>
          ({ loaded.settle ((failed.destroySpace issued.spawned).pidFree pid) with
            pool := (pool.releaseList image).releaseList staging },.error err)
        | (spawned,.ok _) =>
          (({ loaded.settle spawned with pool := pool.releaseList image }).hand pid staging,.ok pid)

def processCreate (e : Estate cfg n) (caller : Pid) (k : SpawnKernel) (times : Retypes) :
    Estate cfg n × Except Errno Pid :=
  match e.processCreateByName k times with
  | (failed,.error err) => (failed,.error err)
  | (spawned,.ok pid) => ({ spawned with reg := (spawned.reg.processSetParent pid caller).1 },.ok pid)

/-- The parts of the teardown of a live process outside the registries. The resource database
is not among them. -/
def dismantle (e : Estate cfg n) (i : Fin maxProcesses) (target : Pid) : Estate cfg n :=
  { e with
    threads := Slab.drop e.threads fun w => w.pid == target
    devframes := Function.update e.devframes i []
    pool := e.pool.releaseList (e.pput i)
    pput := Function.update e.pput i [] }

def processTerminate (e : Estate cfg n) (target : Pid) (status : BitVec 32) : Estate cfg n × Except Errno Unit :=
  if target = pidTaskman then (e,.error .einval)
  else match e.reg.processLookup target with
    | none => (e,.error .esrch)
    | some (i,p) =>
      if p.exit ≠ .live then (e,.ok ())
      else ({ e.dismantle i target with reg := e.reg.teardown i p status },.ok ())

/-- `maxTid` is `TM_MAX_TID_PER_PROC`; the three slots are the caller's TCB, Notification and
reply object. -/
def threadAlloc (e : Estate cfg n) (caller : Pid) (pages maxTid : Nat) (granted : Bool) : Estate cfg n :=
  if caller = pidTaskman then e
  else match e.reg.processLookup caller with
    | none => e
    | some (i,_) =>
      if maxTid + 1 ≤ e.nextTid i then e
      else if pages = 0 ∨ 16 < pages then e
      else match Slab.free e.threads with
        | none => e
        | some j =>
          let drawn := { e with nextTid := Function.update e.nextTid i (e.nextTid i + 1) }
          if granted = false then drawn
          else { drawn with
            reg := (((e.reg.processAllocSlot caller).1.processAllocSlot caller).1.processAllocSlot caller).1
            threads := Slab.put e.threads j ⟨caller,e.nextTid i⟩ }

/-- The block list of the caller grows; a process without one draws from the master pool. -/
def mmap (e : Estate cfg n) (caller : Pid) (times : Nat) : Estate cfg n :=
  match e.reg.processLookup caller with
  | none => e
  | some (i,_) =>
    if e.pput i = [] then e
    else
      let grown := e.pool.grow (e.pput i) times
      { e with pool := grown.1, pput := Function.update e.pput i grown.2 }

/-- `devmap_map_into`: copies are recorded until one fails or the tracker is full. -/
def mapPhys (e : Estate cfg n) (caller : Pid) (frames : List Word) : Estate cfg n :=
  match e.reg.processLookup caller with
  | none => e
  | some (i,_) =>
    { e with devframes := Function.update e.devframes i ((e.devframes i ++ frames).take maxDevframes) }

/-- `munmap_devframes` -/
def munmap (e : Estate cfg n) (caller : Pid) (vaddr len : Word) : Estate cfg n :=
  match e.reg.processLookup caller with
  | none => e
  | some (i,_) =>
    let kept := (e.devframes i).filter fun va => !(decide (vaddr ≤ va) && decide (va < vaddr + len))
    { e with devframes := Function.update e.devframes i kept }

/-- `tm_rsrc_create` of one range in use. -/
def rsrcCreate (e : Estate cfg n) (caller : Pid) (type : Nat) (first last : Word) : Estate cfg n :=
  if rsrcPoolSize ≤ e.ranges.length then e
  else { e with ranges := ⟨type,first,last,caller⟩ :: e.ranges }

def dispatch (e : Estate cfg n) (caller : Pid) (badge : Word) (stale : Nat) : Demand → Estate cfg n
  | .registry (.processCreate k) times => (e.processCreate caller k times).1
  | .registry (.processTerminate target status) _ => (e.processTerminate (terminateTarget caller target) status).1
  | .registry r _ => e.settle (e.reg.dispatch caller badge stale r)
  | .threadAlloc pages maxTid granted => e.threadAlloc caller pages maxTid granted
  | .mmap times => e.mmap caller times
  | .mapPhys frames => e.mapPhys caller frames
  | .munmap vaddr len => e.munmap caller vaddr len
  | .rsrcCreate type first last => e.rsrcCreate caller type first last
  | .rsrc left => { e with ranges := left }

def receive (e : Estate cfg n) (badge : Word) (stale : Nat) (c : Demand) : Estate cfg n :=
  match delivery badge with
  | .fault pid => (e.processTerminate pid sigSegv).1
  | .request caller => e.dispatch caller badge stale c

end Estate

/-- What happens to the estate: a request or fault through a cap, or a process moving its caps. -/
inductive Deed where
  | message (i slot stale : Nat) (c : Demand)
  | fault (i : Nat)
  | copy (i src dst : Nat)
  | delete (i slot : Nat)
  deriving DecidableEq, Repr

namespace Estate

def step (e : Estate cfg n) : Deed → Option (Estate cfg n)
  | .message i slot stale call =>
    match e.reg.held i slot with
    | some c => if i ≠ 0 ∧ c.object = .primary then some (e.receive c.badge stale call) else none
    | none => none
  | .fault i =>
    match e.reg.faultCap i with
    | some c => if c.object = .primary then some (e.receive c.badge 0 (.registry .other ⟨0,0⟩)) else none
    | none => none
  | .copy i src dst => if i ≠ 0 then (e.reg.copyCap i src dst true).map e.settle else none
  | .delete i slot => if i ≠ 0 then some (e.settle (e.reg.deleteCap i slot)) else none

/-- After boot: `/sbin/init` was spawned without a pp_ut block. -/
def start (s : State cfg) (ram : Nat) : Estate cfg n where
  reg := s
  pool := ⟨[],0,ram,Nat.zero_le _⟩
  pput := fun _ => []
  devframes := fun _ => []
  nextTid := fun _ => 2
  threads := fun _ => none
  ranges := []

/-- Steps without a condition. -/
def anyDeed (_ : Estate cfg n) (_ : Deed) : Prop := True

instance : DecidableRel (@anyDeed cfg n) := fun _ _ => .isTrue trivial

end Estate

/-- An image that is read over a connection needs a block for the read buffer. -/
def Image.served (block : Bool) : Image → Image
  | .mounted server chid k read deleted => .mounted server chid k (read && block) deleted
  | image => image

namespace Estate

variable {e e' : Estate cfg n}

/-- What the pool decides of a spawn: whether the read buffer and the image get a block. -/
def kernel (e : Estate cfg n) (k : SpawnKernel) (times : Retypes) : SpawnKernel :=
  { k with
    image := k.image.served (e.pool.bracket times.loading).isSome
    staged := ((e.loadImage times.loading k.image).1.pool.bracket times.spawning).isSome }

theorem loadImage_reg (e : Estate cfg n) (times : Nat) (image : Image) :
    ((e.loadImage times image).1.reg,(e.loadImage times image).2.map fun _ => ()) =
      e.reg.loadImage (image.served (e.pool.bracket times).isSome) := by
  cases image with
  | absent => rfl
  | archive => rfl
  | mounted server chid attach read deleted =>
    simp only [loadImage,Image.served,State.loadImage]
    rcases e.reg.connectAttach pidTaskman server chid 0 0 attach with ⟨made,err | slot⟩
    · rfl
    · cases e.pool.bracket times with
      | none => cases read <;> rfl
      | some grown => cases read <;> rfl

theorem processCreateByName_reg (e : Estate cfg n) (k : SpawnKernel) (times : Retypes) :
    ((e.processCreateByName k times).1.reg,(e.processCreateByName k times).2) =
      e.reg.processCreateByName (e.kernel k times) := by
  have image := loadImage_reg e times.loading k.image
  unfold processCreateByName State.processCreateByName
  rw [show (e.kernel k times).image = k.image.served (e.pool.bracket times.loading).isSome from rfl,← image,
    show (e.kernel k times).staged = ((e.loadImage times.loading k.image).1.pool.bracket times.spawning).isSome from rfl]
  rcases e.loadImage times.loading k.image with ⟨loaded,err | blocks⟩
  · rfl
  · dsimp only [Except.map]
    rcases loaded.reg.pidAlloc with _ | ⟨issued,pid⟩
    · rfl
    · dsimp only
      rcases loaded.pool.bracket times.spawning with _ | ⟨pool,staging⟩
      · rfl
      · have same : issued.spawn pid (e.kernel k times) = issued.spawn pid k := rfl
        simp only [Option.isSome_some,Bool.true_eq_false,if_false,same]
        rcases issued.spawn pid k with ⟨spawned,err | done⟩
        · rfl
        · simp only [hand]
          split <;> rfl

theorem processCreate_reg (e : Estate cfg n) (caller : Pid) (k : SpawnKernel) (times : Retypes) :
    (e.processCreate caller k times).1.reg = (e.reg.processCreate caller (e.kernel k times)).1 := by
  unfold processCreate State.processCreate
  rw [← processCreateByName_reg e k times]
  rcases e.processCreateByName k times with ⟨spawned,err | pid⟩
  · rfl
  · rfl

theorem processTerminate_reg (e : Estate cfg n) (target : Pid) (status : BitVec 32) :
    ((e.processTerminate target status).1.reg,(e.processTerminate target status).2) =
      e.reg.processTerminate target status := by
  unfold processTerminate State.processTerminate
  by_cases own : target = pidTaskman
  · rw [if_pos own,if_pos own]
  · rw [if_neg own,if_neg own]
    rcases e.reg.processLookup target with _ | ⟨i,p⟩
    · rfl
    · by_cases live : p.exit = .live <;> simp [live]

open Roster

theorem dispatch_reg (e : Estate cfg n) (caller : Pid) (badge : Word) (stale : Nat) (c : Demand) :
    e.reg.roster.Change (e.dispatch caller badge stale c).reg.roster := by
  have quiet : ∀ s : State cfg, s.roster = e.reg.roster → e.reg.roster.Change s.roster := by
    intro s same
    rw [same]
    exact .same
  cases c with
  | registry r times =>
    have request := dispatch_roster e.reg caller badge stale r
    cases r with
    | processCreate k =>
      rw [dispatch,processCreate_reg]
      exact .spawn (e.reg.processCreate_roster caller (e.kernel k times))
    | processTerminate target status =>
      have same := congrArg Prod.fst (processTerminate_reg e (terminateTarget caller target) status)
      dsimp only at same
      rw [dispatch,same,State.processTerminate_roster]
      exact .terminate ..
    | _ => exact request
  | threadAlloc pages maxTid granted =>
    apply quiet
    simp only [dispatch,threadAlloc]
    split
    · rfl
    · split
      · rfl
      · split
        · rfl
        · split
          · rfl
          · split
            · rfl
            · split
              · rfl
              · simp
  | mmap times =>
    apply quiet
    simp only [dispatch,mmap]
    split
    · rfl
    · split <;> rfl
  | mapPhys frames =>
    apply quiet
    simp only [dispatch,mapPhys]
    split <;> rfl
  | munmap vaddr len =>
    apply quiet
    simp only [dispatch,munmap]
    split <;> rfl
  | rsrcCreate type first last =>
    apply quiet
    simp only [dispatch,rsrcCreate]
    split <;> rfl
  | rsrc left => exact .same

theorem receive_reg (e : Estate cfg n) (badge : Word) (stale : Nat) (c : Demand) :
    e.reg.roster.Change (e.receive badge stale c).reg.roster := by
  unfold receive
  split
  · rename_i pid _
    have same := congrArg Prod.fst (processTerminate_reg e pid sigSegv)
    dsimp only at same
    rw [same,State.processTerminate_roster]
    exact .terminate ..
  · exact dispatch_reg ..

theorem step_reg (taken : e.step d = some e') : e.reg.roster.Change e'.reg.roster := by
  cases d with
  | message i slot stale c =>
    simp only [step] at taken
    split at taken
    · split at taken
      · obtain rfl := Option.some.inj taken
        exact receive_reg ..
      · cases taken
    · cases taken
  | fault i =>
    simp only [step] at taken
    split at taken
    · split at taken
      · obtain rfl := Option.some.inj taken
        exact receive_reg ..
      · cases taken
    · cases taken
  | copy i src dst =>
    simp only [step] at taken
    split at taken
    · obtain ⟨next,copied,rfl⟩ := Option.map_eq_some_iff.mp taken
      rw [show (e.settle next).reg.roster = next.roster from rfl,State.copyCap_roster copied]
      exact .same
    · cases taken
  | delete i slot =>
    simp only [step] at taken
    split at taken
    · obtain rfl := Option.some.inj taken
      rw [show (e.settle (e.reg.deleteCap i slot)).reg.roster = (e.reg.deleteCap i slot).roster from rfl,
        State.deleteCap_roster]
      exact .same
    · cases taken

/-- The process table and the pid allocator of every reachable estate are well formed. -/
theorem run_pids (booted : boot cfg = some s) (run : Lts.Run step anyDeed (start s ram) ds e) : Wf e.reg.roster :=
  run.invariant (fun e => Wf e.reg.roster) (fun _ _ _ wf _ taken => (step_reg taken).wf wf) (boot_pids booted)

end Estate

end Qsoe.Taskman
