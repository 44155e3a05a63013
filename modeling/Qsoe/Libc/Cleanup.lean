import Qsoe.Libc.Canon
import Qsoe.Libc.State
import Qsoe.Mem.Staging
import Qsoe.Taskman.Connections

/-! `open`, `pipe` and `posix_spawn` when they fail. Each asks taskman for a connection or a page before
the step that fails, and gives back only some of it. -/
namespace Qsoe.Libc

open Words (Word Byte)
open Taskman (Pid AttachKernel SpawnKernel pidTaskman)

/-- A process: what taskman's registries, its own table of connection ids and the memory manager have of it. -/
structure Client (cfg : Taskman.Config) where
  pid : Pid
  stale : Nat
  reg : Taskman.State cfg
  coids : Coids
  mem : Mem.State

/-- What a call sets `errno` to: a value of its own, taskman's, or the status of a server. -/
inductive Failure where
  | ebadf | einval | efault | enomem | enametoolong | e2big | cwd
  | relayed (e : Taskman.Errno)
  | status (st : BitVec 32)
  deriving DecidableEq, Repr

variable {cfg : Taskman.Config}

/-- `ConnectDetach`; `deleted` is whether the kernel deletes the cap. -/
def connectDetach (c : Client cfg) (coid : Coid) (deleted : Bool) : Client cfg × Except Failure Unit :=
  if c.coids.toSlot coid = 0 then (c,.error .ebadf)
  else match c.reg.connectDetach c.pid (c.coids.toSlot coid).toNat c.stale deleted with
    | (reg,.error e) => ({ c with reg := reg },.error (.relayed e))
    | (reg,.ok _) => ({ c with reg := reg, coids := c.coids.bind coid 0 },.ok ())

/-- The status of `MsgSend` of a message that is not empty. -/
def Client.msgSend (c : Client cfg) (coid : Coid) (answer : BitVec 32) : BitVec 32 :=
  if c.coids.toSlot coid = 0 then -1 else answer

/-- The calls of the shared C library that clean up. -/
structure Outside (cfg : Taskman.Config) where
  close : Client cfg → Coid → Bool → Client cfg
  munmap : Client cfg → Mem.Addr → Mem.Addr → Client cfg

/-- `close` has taskman delete the cap and the connection and unbinds the id; `munmap` is taskman's. -/
structure Outside.Documented (o : Outside cfg) : Prop where
  close : ∀ c coid deleted, (o.close c coid deleted).reg = (connectDetach c coid deleted).1.reg ∧
    (o.close c coid deleted).mem = c.mem ∧
    ((connectDetach c coid deleted).2 = .ok () → (o.close c coid deleted).coids = c.coids.bind coid 0)
  munmap : ∀ c va len, o.munmap c va len = { c with mem := (c.mem.munmapServe c.pid va len).1 }

/-- `PATH_BUF_BYTES` and the longest path of `TM_REQ_OPEN`. -/
def pathBufBytes : Nat := 256

def pathMax : Nat := 128

/-- A relative path behind the working directory. -/
def absolute (cwd : Option (List Byte)) (path : List Byte) : Except Failure (List Byte) :=
  if path.head? = some slash then
    if pathBufBytes ≤ path.length then .error .enametoolong else .ok path
  else match cwd with
    | none => .error .cwd
    | some dir =>
      if dir ≠ [slash] ∧ pathBufBytes ≤ dir.length + 1 then .error .enametoolong
      else
        let dir := if dir = [slash] then dir else dir ++ [slash]
        if pathBufBytes ≤ dir.length + path.length then .error .enametoolong else .ok (dir ++ path)

def canonical (path : List Byte) : Except Failure (List Byte) :=
  match canonInplace (path.length + 1) (path.getD · 0) path.length with
  | some (some out) =>
    if out.outLen = 0 ∨ pathMax ≤ out.outLen then .error .einval else .ok (Cells.row out.buf 0 out.outLen)
  | _ => .error .einval

def sentPath (cwd : Option (List Byte)) (path : List Byte) : Except Failure (List Byte) :=
  (absolute cwd path).bind canonical

/-- What the path manager, the resource managers and the kernel answer for a path. -/
structure OpenAnswers where
  cwd : Option (List Byte)
  server : List Byte → Option (Pid × BitVec 32)
  attach : AttachKernel
  opened : List Byte → Bool
  deleted : Bool
  external : List Byte → Bool
  rewritten : List Byte → List Byte
  connect : List Byte → BitVec 32 → BitVec 32
  closed : Bool

/-- The path of `_IO_CONNECT`: what taskman has rewritten, if it fits. -/
def OpenAnswers.connPath (a : OpenAnswers) (path : List Byte) : List Byte :=
  if 0 < (a.rewritten path).length ∧ (a.rewritten path).length < pathMax then a.rewritten path else path

/-- The last stage of `open`, behind `TM_REQ_OPEN`. -/
def openFd (o : Outside cfg) (c : Client cfg) (slot : Nat) (path : List Byte) (flags : BitVec 32)
    (a : OpenAnswers) :
    Client cfg × Except Failure Coid :=
  match c.coids.alloc 0 with
  | (same,none) => ({ c with coids := same },.error .enomem)
  | (taken,some fd) =>
    let bound := { c with coids := taken.bind fd (BitVec.ofNat 64 slot) }
    if a.external path then
      let st := bound.msgSend fd (a.connect (a.connPath path) flags)
      if st ≠ 0 then (o.close bound fd a.closed,.error (.status st)) else (bound,.ok fd)
    else (bound,.ok fd)

/-- `open`; a null path is `none`. -/
def openPath (o : Outside cfg) (c : Client cfg) (path : Option (List Byte)) (flags : BitVec 32) (a : OpenAnswers) :
    Client cfg × Except Failure Coid :=
  match path with
  | none => (c,.error .einval)
  | some path =>
    match sentPath a.cwd path with
    | .error e => (c,.error e)
    | .ok sent =>
      match c.reg.ioOpen c.pid (a.server sent) c.stale a.attach (a.opened sent) a.deleted with
      | (reg,.error e) => ({ c with reg := reg },.error (.relayed e))
      | (reg,.ok slot) => openFd o { c with reg := reg } slot sent flags a

structure PipeAnswers where
  server : Option (Pid × BitVec 32)
  readMinted : Bool
  writeMinted : Bool

/-- The last stage of `pipe`: only the read end is unbound when there is no id for the write end. -/
def pipeFds (c : Client cfg) (readSlot writeSlot : Nat) : Client cfg × Except Failure (Coid × Coid) :=
  match c.coids.alloc 0 with
  | (same,none) => ({ c with coids := same },.error .enomem)
  | (one,some rfd) =>
    match one.alloc 0 with
    | (same,none) => ({ c with coids := same.bind rfd 0 },.error .enomem)
    | (two,some wfd) =>
      ({ c with coids := (two.bind rfd (BitVec.ofNat 64 readSlot)).bind wfd (BitVec.ofNat 64 writeSlot) },
        .ok (rfd,wfd))

/-- `pipe`; `given` is whether its array is not null. -/
def pipe (c : Client cfg) (given : Bool) (a : PipeAnswers) : Client cfg × Except Failure (Coid × Coid) :=
  if given = false then (c,.error .efault)
  else match c.reg.pipeCreate c.pid a.server c.stale a.readMinted a.writeMinted with
    | (reg,.error e) => ({ c with reg := reg },.error (.relayed e))
    | (reg,.ok slots) => pipeFds { c with reg := reg } slots.1 slots.2

/-- `SPAWN_PAGE_BYTES`, `SPAWN_MAX_ARGC` and `SPAWN_MAX_ENVC`. -/
def spawnPageBytes : Nat := 4096

def spawnMaxArgc : Nat := 16

def spawnMaxEnvc : Nat := 16

/-- A null array is an empty one. -/
structure SpawnArgs where
  path : Option (List Byte)
  argv : List (List Byte)
  envp : List (List Byte)

/-- `read` is how taskman fails to read the arguments. -/
structure SpawnAnswers where
  page : Mem.Kernel
  read : Option Taskman.Errno
  kernel : SpawnKernel

/-- `pack_str`, without the bytes: the offset behind the string. -/
def packStr (off : BitVec 32) (s : List Byte) : Option (BitVec 32) :=
  if BitVec.ofNat 32 spawnPageBytes < off + BitVec.ofNat 32 s.length + 1 then none
  else some (off + BitVec.ofNat 32 s.length + 1)

def packStrs : BitVec 32 → List (List Byte) → Option (BitVec 32)
  | off, [] => some off
  | off, s :: ss => (packStr off s).bind fun next => packStrs next ss

def SpawnArgs.strings (args : SpawnArgs) : List (List Byte) := args.path.toList ++ (args.argv ++ args.envp)

/-- `TM_REQ_SPAWN`. -/
def Client.spawnRequest (c : Client cfg) (a : SpawnAnswers) : Client cfg × Except Taskman.Errno Pid :=
  match a.read with
  | some e => (c,.error e)
  | none => ({ c with reg := (c.reg.processCreate c.pid a.kernel).1 },(c.reg.processCreate c.pid a.kernel).2)

/-- `posix_spawn` behind its page, which only the last way out unmaps. -/
def spawnStaged (o : Outside cfg) (c : Client cfg) (page : Mem.Addr) (args : SpawnArgs) (a : SpawnAnswers) :
    Client cfg × Except Failure Pid :=
  match packStrs 0 args.strings with
  | none => (c,.error .e2big)
  | some _ =>
    (o.munmap (c.spawnRequest a).1 page (BitVec.ofNat 64 spawnPageBytes),(c.spawnRequest a).2.mapError .relayed)

/-- `posix_spawn`. -/
def posixSpawn (o : Outside cfg) (mem : Mem.Config) (c : Client cfg) (args : SpawnArgs) (a : SpawnAnswers) :
    Client cfg × Except Failure Pid :=
  if args.path = none ∨ args.path = some [] then (c,.error .einval)
  else if spawnMaxArgc < args.argv.length ∨ spawnMaxEnvc < args.envp.length then (c,.error .e2big)
  else match c.mem.mmapServe mem c.pid (BitVec.ofNat 64 spawnPageBytes) 0 0 a.page with
    | (same,.error _) => ({ c with mem := same },.error .enomem)
    | (staged,.ok page) => spawnStaged o { c with mem := staged } page args a

/-- The connections, the bound ids and the mappings are those from before. -/
structure Client.Same (c d : Client cfg) : Prop where
  connections : d.reg.connectionsOf c.pid = c.reg.connectionsOf c.pid
  bound : ∀ coid, d.coids.entry coid = c.coids.entry coid
  mappings : c.mem.Alike d.mem c.pid

def GivesBack (c : Client cfg) (out : Client cfg × Except Failure α) : Prop := ∀ e, out.2 = .error e → c.Same out.1

/-- The process has a record and is not taskman, and its memory is in order. -/
structure Client.Runs (mem : Mem.Config) (c : Client cfg) : Prop where
  process : (c.reg.processLookup c.pid).isSome
  other : c.pid ≠ pidTaskman
  sound : c.mem.Sound mem

inductive Call where
  | openPath (path : Option (List Byte)) (flags : BitVec 32) (a : OpenAnswers)
  | pipe (given : Bool) (a : PipeAnswers)
  | posixSpawn (args : SpawnArgs) (a : SpawnAnswers)

def Call.run (o : Outside cfg) (mem : Mem.Config) (c : Client cfg) : Call → Client cfg × Except Failure Unit
  | .openPath path flags a =>
    ((Libc.openPath o c path flags a).1,(Libc.openPath o c path flags a).2.map fun _ => ())
  | .pipe given a => ((Libc.pipe c given a).1,(Libc.pipe c given a).2.map fun _ => ())
  | .posixSpawn args a => ((Libc.posixSpawn o mem c args a).1,(Libc.posixSpawn o mem c args a).2.map fun _ => ())

def Client.slotWord (c : Client cfg) : Word := BitVec.ofNat 64 (c.reg.nextSlot c.pid)

/-- Once taskman has attached: what a resource manager refuses is detached; what it accepts finds an id, and what an
external server then refuses is closed. -/
def Client.OpenSafe (c : Client cfg) (sent : List Byte) (flags : BitVec 32) (a : OpenAnswers) : Prop :=
  if a.opened sent = true then
    (∃ i : Fin fdConnections, 1 ≤ i.val ∧ c.coids.fdSlot i = 0) ∧
      (a.external sent = true → c.slotWord ≠ 0 ∧ c.slotWord ≠ slotReserved ∧
        (a.connect (a.connPath sent) flags ≠ 0 →
          a.closed = true ∧ c.slotWord.toNat = c.reg.nextSlot c.pid ∧ c.reg.FirstBySlot c.pid))
  else a.deleted = true ∧ c.reg.FirstBySlot c.pid

def Packs (ss : List (List Byte)) : Prop :=
  ∀ n, ((ss.take n).map fun s => s.length + 1).sum % 2 ^ 32 ≤ spawnPageBytes

/-- When a call gives back what it has taken. A pipe that gets a row needs two free ids. A spawn must
not strand its page behind a full tracker, its strings must fit, and taskman must not take the caller
for the child. -/
def Call.Safe (mem : Mem.Config) (c : Client cfg) : Call → Prop
  | .openPath path flags a => ∀ name, path = some name → ∀ sent, sentPath a.cwd name = .ok sent →
      c.reg.OpenGoes c.pid (a.server sent) c.stale a.attach → c.OpenSafe sent flags a
  | .pipe given a => given = true → c.reg.PipeGoes c.pid a.server c.stale a.readMinted a.writeMinted →
      (∃ j, c.reg.rows j = none) →
      ∃ i j : Fin fdConnections, i ≠ j ∧ 1 ≤ i.val ∧ 1 ≤ j.val ∧ c.coids.fdSlot i = 0 ∧ c.coids.fdSlot j = 0
  | .posixSpawn args a => ∀ name, args.path = some name → name ≠ [] → args.argv.length ≤ spawnMaxArgc →
      args.envp.length ≤ spawnMaxEnvc → c.mem.GetsPage mem c.pid (a.page.page 0) →
      ¬c.mem.TrackerFull mem c.pid ∧ Packs args.strings ∧ (a.read = none → ¬c.reg.Strays c.pid a.kernel)

theorem firstFree_none {slots : Fin n → Word} :
    firstFree slots start = none ↔ ∀ i : Fin n, start ≤ i.val → slots i ≠ 0 := by
  simp [firstFree]

theorem alloc_fd (s : Coids) :
    (firstFree s.fdSlot 1 = none ∧ s.alloc 0 = (s,none)) ∨
      ∃ i, firstFree s.fdSlot 1 = some i ∧
        s.alloc 0 = (s.bind (BitVec.ofNat 32 i) slotReserved,some (BitVec.ofNat 32 i)) := by
  rcases alloc_cases s 0 with ⟨out,full⟩ | ⟨i,-,free,out⟩ | ⟨i,side,-⟩
  · exact .inl ⟨full BitVec.zero_and,out⟩
  · exact .inr ⟨i,free,out⟩
  · exact absurd BitVec.zero_and side

theorem bind_fdSlot (s : Coids) (i : Fin fdConnections) (slot : Word) :
    (s.bind (BitVec.ofNat 32 i) slot).fdSlot = Function.update s.fdSlot i slot := by
  rw [Coids.bind,fdIndex_ofNat]

theorem bind_bind (s : Coids) (i : Fin fdConnections) (slot slot' : Word) :
    (s.bind (BitVec.ofNat 32 i) slot).bind (BitVec.ofNat 32 i) slot' = s.bind (BitVec.ofNat 32 i) slot' := by
  simp only [Coids.bind,fdIndex_ofNat,Function.update_idem]

theorem bind_freed (s : Coids) {i : Fin fdConnections} (free : s.fdSlot i = 0) (other : Coid) :
    (s.bind (BitVec.ofNat 32 i) 0).entry other = s.entry other := by
  rcases eq_or_ne other (BitVec.ofNat 32 i) with rfl | apart
  · rw [bind_fd s 0 (fdIndex_ofNat i),entry_ofNat,free]
  · exact bind_other s 0 apart

theorem toSlot_bound (s : Coids) (i : Fin fdConnections) (slot : Word) (reserved : slot ≠ slotReserved) :
    (s.bind (BitVec.ofNat 32 i) slot).toSlot (BitVec.ofNat 32 i) = slot := by
  rw [Coids.toSlot,bind_fd s slot (fdIndex_ofNat i),if_neg reserved]

theorem toSlot_unusable (s : Coids) (i : Fin fdConnections) (slot : Word)
    (unusable : slot = 0 ∨ slot = slotReserved) :
    (s.bind (BitVec.ofNat 32 i) slot).toSlot (BitVec.ofNat 32 i) = 0 := by
  rw [Coids.toSlot,bind_fd s slot (fdIndex_ofNat i)]
  split
  · rfl
  · rename_i reserved
    exact unusable.resolve_right reserved

variable {o : Outside cfg} {mem : Mem.Config} {c d : Client cfg}

theorem Client.Same.refl (c : Client cfg) : c.Same c := ⟨rfl,fun _ => rfl,.refl c.mem c.pid⟩

theorem same_reg (reg : Taskman.State cfg) : c.Same { c with reg := reg } ↔ reg.connectionsOf c.pid =
    c.reg.connectionsOf c.pid :=
  ⟨Client.Same.connections,fun same => ⟨same,fun _ => rfl,.refl c.mem c.pid⟩⟩

theorem gives_back_ok {out : Client cfg} {a : α} : GivesBack c (out,.ok a) := by
  intro e failed
  cases failed

theorem gives_back_error {out : Client cfg} {e : Failure} : GivesBack (α := α) c (out,.error e) ↔ c.Same out :=
  ⟨fun back => back e rfl,fun same _ _ => same⟩

theorem gives_back_map {out : Client cfg × Except Failure α} (f : α → β) :
    GivesBack c (out.1,out.2.map f) ↔ GivesBack c out := by
  obtain ⟨d,answer⟩ := out
  cases answer with
  | error e => rw [Except.map,gives_back_error,gives_back_error]
  | ok a => exact iff_of_true gives_back_ok gives_back_ok

/-- `close` of the id that the slot was just bound to. -/
theorem close_gives_back (documented : o.Documented) {reg : Taskman.State cfg} {i : Fin fdConnections}
    {cap : Taskman.Cap} {j : Fin cfg.connections} {r : Taskman.Row cfg}
    (attaches : Taskman.State.Attaches c.reg reg c.pid space slot ntfn j r cap) (free : c.coids.fdSlot i = 0)
    (word : Word) (closed : Bool) :
    c.Same (o.close { c with reg := reg, coids := c.coids.bind (BitVec.ofNat 32 i) word }
      (BitVec.ofNat 32 i) closed) ↔
      (word ≠ 0 ∧ word ≠ slotReserved) ∧ closed = true ∧ word.toNat = slot ∧
        ∀ k q, k < j → c.reg.rows k = some q → ¬(q.clientPid = c.pid ∧ q.clientSlot = slot) := by
  obtain ⟨registry,memory,ids⟩ := documented.close
    { c with reg := reg, coids := c.coids.bind (BitVec.ofNat 32 i) word }
    (BitVec.ofNat 32 i) closed
  unfold connectDetach at registry ids
  dsimp only at registry memory ids
  by_cases unusable : word = 0 ∨ word = slotReserved
  · rw [if_pos (toSlot_unusable _ _ _ unusable)] at registry
    refine iff_of_false (fun same => attaches.gained ?_) fun fine => ?_
    · rw [← same.connections,registry]
    · exact unusable.elim fine.1.1 fine.1.2
  · obtain ⟨nonzero,plain⟩ := not_or.mp unusable
    rw [toSlot_bound _ _ _ plain,if_neg nonzero] at registry ids
    have detaches := attaches.detaches word.toNat c.stale closed
    rw [and_iff_right ⟨nonzero,plain⟩]
    cases detaching : reg.connectDetach c.pid word.toNat c.stale closed with
    | mk left answer =>
      rw [detaching] at registry ids detaches
      have after : (o.close { c with reg := reg, coids := c.coids.bind (BitVec.ofNat 32 i) word }
        (BitVec.ofNat 32 i) closed).reg = left := by
        rw [registry]
        cases answer <;> rfl
      rw [← detaches]
      refine ⟨fun same => after ▸ same.connections,fun same =>
        ⟨after.symm ▸ same,fun coid => ?_,memory.symm ▸ .refl c.mem c.pid⟩⟩
      obtain ⟨rfl,rfl,-⟩ := detaches.mp same
      have fine := attaches.detach_ok c.stale
      rw [detaching] at fine
      dsimp only at fine
      subst fine
      rw [ids rfl,bind_bind,bind_freed _ free]

theorem openFd_gives_back (documented : o.Documented) {reg : Taskman.State cfg} {cap : Taskman.Cap}
    {j : Fin cfg.connections} {r : Taskman.Row cfg}
    (attaches : Taskman.State.Attaches c.reg reg c.pid space (c.reg.nextSlot c.pid) ntfn j r cap) (sent : List Byte)
    (flags : BitVec 32) (a : OpenAnswers) (opened : a.opened sent = true) :
    GivesBack c (openFd o { c with reg := reg } (c.reg.nextSlot c.pid) sent flags a) ↔ c.OpenSafe sent flags a := by
  unfold openFd Client.OpenSafe
  rw [if_pos opened]
  dsimp only
  rcases alloc_fd c.coids with ⟨full,out⟩ | ⟨i,first,out⟩
  · rw [out,gives_back_error]
    refine iff_of_false (fun same => attaches.gained same.connections) ?_
    rintro ⟨⟨i,low,free⟩,-⟩
    exact firstFree_none.mp full i low free
  · have free := firstFree_slot first
    have passed := List.find?_some first
    have low : 1 ≤ i.val := (of_decide_eq_true passed).1
    rw [out,and_iff_right ⟨i,low,free⟩]
    dsimp only
    rw [bind_bind]
    by_cases external : a.external sent = true
    · rw [if_pos external]
      simp only [external,true_implies]
      have closing := close_gives_back documented attaches free c.slotWord a.closed
      by_cases unusable : c.slotWord = 0 ∨ c.slotWord = slotReserved
      · have status : Client.msgSend { c with reg := reg, coids := c.coids.bind (BitVec.ofNat 32 i) c.slotWord }
          (BitVec.ofNat 32 i)
            (a.connect (a.connPath sent) flags) ≠ 0 := by
          rw [Client.msgSend,if_pos (toSlot_unusable _ _ _ unusable)]
          decide
        rw [show BitVec.ofNat 64 (c.reg.nextSlot c.pid) = c.slotWord from rfl,if_pos status,
          gives_back_error,closing]
        refine iff_of_false (fun fine => ?_) fun fine => ?_
        · exact unusable.elim fine.1.1 fine.1.2
        · exact unusable.elim fine.1 fine.2.1
      · obtain ⟨nonzero,plain⟩ := not_or.mp unusable
        have status : Client.msgSend { c with reg := reg, coids := c.coids.bind (BitVec.ofNat 32 i) c.slotWord }
          (BitVec.ofNat 32 i)
            (a.connect (a.connPath sent) flags) = a.connect (a.connPath sent) flags := by
          rw [Client.msgSend,toSlot_bound _ _ _ plain,if_neg nonzero]
        rw [show BitVec.ofNat 64 (c.reg.nextSlot c.pid) = c.slotWord from rfl,status,and_iff_right nonzero,
          and_iff_right plain]
        by_cases rejected : a.connect (a.connPath sent) flags ≠ 0
        · rw [if_pos rejected,gives_back_error,closing,and_iff_right ⟨nonzero,plain⟩]
          have below : c.reg.FirstBySlot c.pid ↔ ∀ k q, k < j → c.reg.rows k = some q →
              ¬(q.clientPid = c.pid ∧ q.clientSlot = c.reg.nextSlot c.pid) := by
            refine ⟨fun first => first j attaches.free,fun first l free => ?_⟩
            obtain rfl := Option.some.inj (attaches.free.symm.trans free)
            exact first
          rw [below]
          exact ⟨fun fine _ => fine,fun fine => fine rejected⟩
        · rw [if_neg rejected]
          exact iff_of_true gives_back_ok fun wrong => absurd wrong rejected
    · rw [if_neg external]
      exact iff_of_true gives_back_ok fun wrong => absurd wrong external

theorem open_gives_back (documented : o.Documented) (path : Option (List Byte)) (flags : BitVec 32)
    (a : OpenAnswers) :
    GivesBack c (openPath o c path flags a) ↔ Call.Safe mem c (.openPath path flags a) := by
  unfold openPath Call.Safe
  cases path with
  | none =>
    rw [gives_back_error]
    refine iff_of_true (.refl c) fun name there => ?_
    cases there
  | some name =>
    simp only [Option.some.injEq,forall_eq']
    cases sending : sentPath a.cwd name with
    | error e =>
      rw [gives_back_error]
      refine iff_of_true (.refl c) fun sent there => ?_
      cases there
    | ok sent =>
      simp only [Except.ok.injEq,forall_eq']
      rcases c.reg.ioOpen_cases c.pid (a.server sent) c.stale a.attach (a.opened sent) a.deleted with
        ⟨stops,t,e,out,rows⟩ | ⟨goes,t,ntfn,j,r,cap,attaches,out⟩
      · rw [out,gives_back_error,same_reg]
        exact iff_of_true (Taskman.State.connectionsOf_of_rows rows c.pid) fun goes => absurd goes stops
      · rw [out]
        simp only [goes,true_implies]
        by_cases opened : a.opened sent = true
        · rw [if_pos opened]
          exact openFd_gives_back documented attaches sent flags a opened
        · rw [if_neg opened,gives_back_error,same_reg,attaches.detaches,Client.OpenSafe,if_neg opened]
          refine and_congr_right fun _ => ?_
          rw [and_iff_right rfl]
          refine ⟨fun first l free => ?_,fun first => first j attaches.free⟩
          obtain rfl := Option.some.inj (attaches.free.symm.trans free)
          exact first

theorem pipeFds_gives_back (reg : Taskman.State cfg) (readSlot writeSlot : Nat) :
    GivesBack c (pipeFds { c with reg := reg } readSlot writeSlot) ↔
      (reg.connectionsOf c.pid = c.reg.connectionsOf c.pid ∨
        ∃ i j : Fin fdConnections, i ≠ j ∧ 1 ≤ i.val ∧ 1 ≤ j.val ∧ c.coids.fdSlot i = 0 ∧ c.coids.fdSlot j = 0) := by
  unfold pipeFds
  dsimp only
  rcases alloc_fd c.coids with ⟨full,out⟩ | ⟨i,first,out⟩
  · rw [out,gives_back_error,same_reg]
    refine (or_iff_left ?_).symm
    rintro ⟨i,-,-,low,-,free,-⟩
    exact firstFree_none.mp full i low free
  · have free := firstFree_slot first
    rw [out]
    dsimp only
    rcases alloc_fd (c.coids.bind (BitVec.ofNat 32 i) slotReserved) with ⟨full,out'⟩ | ⟨j,second,out'⟩
    · rw [out',gives_back_error,bind_bind]
      have only : ∀ k : Fin fdConnections, 1 ≤ k.val → c.coids.fdSlot k = 0 → k = i := by
        intro k low empty
        by_contra other
        refine firstFree_none.mp full k low ?_
        rwa [bind_fdSlot,Function.update_of_ne other]
      refine Iff.trans ⟨Client.Same.connections,fun same => ⟨same,bind_freed _ free,.refl c.mem c.pid⟩⟩
        (or_iff_left ?_).symm
      rintro ⟨k,l,apart,low,low',empty,empty'⟩
      exact apart ((only k low empty).trans (only l low' empty').symm)
    · rw [out']
      have empty := firstFree_slot second
      have passed := List.find?_some first
      have passed' := List.find?_some second
      rw [bind_fdSlot] at empty
      have apart : j ≠ i := by
        rintro rfl
        rw [Function.update_self] at empty
        exact reserved_ne empty
      rw [Function.update_of_ne apart] at empty
      exact iff_of_true gives_back_ok (.inr ⟨i,j,apart.symm,(of_decide_eq_true passed).1,
        (of_decide_eq_true passed').1,free,empty⟩)

theorem pipe_gives_back (given : Bool) (a : PipeAnswers) :
    GivesBack c (pipe c given a) ↔ Call.Safe mem c (.pipe given a) := by
  unfold pipe Call.Safe
  cases given with
  | false =>
    rw [if_pos rfl,gives_back_error]
    exact iff_of_true (.refl c) fun given => absurd given Bool.false_ne_true
  | true =>
    rw [if_neg Bool.true_eq_false_eq_False]
    rcases c.reg.pipeCreate_cases c.pid a.server c.stale a.readMinted a.writeMinted with
      ⟨stops,t,e,out,rows⟩ | ⟨goes,t,out,same⟩
    · rw [out,gives_back_error,same_reg]
      exact iff_of_true (Taskman.State.connectionsOf_of_rows rows c.pid) fun _ goes => absurd goes stops
    · rw [out]
      simp only [goes,true_implies]
      rw [pipeFds_gives_back,same]
      exact ⟨fun either room => either.resolve_left (not_not.mpr room),fun enough =>
        or_iff_not_imp_left.mpr fun room => enough (not_not.mp room)⟩

theorem packStr_some (off : BitVec 32) (s : List Byte) (next : BitVec 32) :
    packStr off s = some next ↔ next.toNat = (off.toNat + (s.length + 1)) % 2 ^ 32 ∧
      next.toNat ≤ spawnPageBytes := by
  have sum : (off + BitVec.ofNat 32 s.length + 1).toNat = (off.toNat + (s.length + 1)) % 2 ^ 32 := by
    have one : (1 : BitVec 32).toNat = 1 := rfl
    rw [BitVec.toNat_add,BitVec.toNat_add,BitVec.toNat_ofNat,one]
    omega
  have page : (BitVec.ofNat 32 spawnPageBytes).toNat = spawnPageBytes := rfl
  rw [packStr,← sum]
  generalize off + BitVec.ofNat 32 s.length + 1 = stop
  have behind : BitVec.ofNat 32 spawnPageBytes < stop ↔ spawnPageBytes < stop.toNat := by
    rw [BitVec.lt_def,page]
  split
  · rename_i beyond
    have outside := behind.mp beyond
    refine iff_of_false (Option.some_ne_none _).symm ?_
    rintro ⟨same,inside⟩
    omega
  · rename_i inside
    constructor
    · intro same
      obtain rfl := Option.some.inj same
      exact ⟨rfl,Nat.le_of_not_lt (mt behind.mpr inside)⟩
    · rintro ⟨same,-⟩
      rw [BitVec.eq_of_toNat_eq same]

theorem packStrs_isSome (ss : List (List Byte)) (off : BitVec 32) (inside : off.toNat ≤ spawnPageBytes) :
    (packStrs off ss).isSome ↔
      ∀ n, (off.toNat + ((ss.take n).map fun s => s.length + 1).sum) % 2 ^ 32 ≤ spawnPageBytes := by
  have page : spawnPageBytes = 4096 := rfl
  induction ss generalizing off with
  | nil =>
    refine iff_of_true rfl fun n => ?_
    rw [List.take_nil,List.map_nil,List.sum_nil,Nat.add_zero,Nat.mod_eq_of_lt (by omega)]
    exact inside
  | cons s ss ih =>
    rw [packStrs]
    cases packing : packStr off s with
    | none =>
      refine iff_of_false Bool.false_ne_true fun all => ?_
      have first := all 1
      rw [List.take_succ_cons,List.take_zero,List.map_cons,List.map_nil,List.sum_cons,List.sum_nil,
        Nat.add_zero] at first
      have value : (BitVec.ofNat 32 (off.toNat + (s.length + 1))).toNat =
        (off.toNat + (s.length + 1)) % 2 ^ 32 := BitVec.toNat_ofNat ..
      have fits := (packStr_some off s _).mpr ⟨value,value ▸ first⟩
      cases packing.symm.trans fits
    | some next =>
      obtain ⟨value,fits⟩ := (packStr_some off s next).mp packing
      rw [Option.bind_some]
      refine (ih next fits).trans ?_
      have step : ∀ n, (off.toNat + (((s :: ss).take (n + 1)).map fun s => s.length + 1).sum) % 2 ^ 32 =
          (next.toNat + ((ss.take n).map fun s => s.length + 1).sum) % 2 ^ 32 := by
        intro n
        rw [List.take_succ_cons,List.map_cons,List.sum_cons,value,Nat.mod_add_mod,← Nat.add_assoc]
      constructor
      · intro all n
        cases n with
        | zero =>
          rw [List.take_zero,List.map_nil,List.sum_nil,Nat.add_zero,Nat.mod_eq_of_lt (by omega)]
          exact inside
        | succ n => exact step n ▸ all n
      · intro all n
        exact step n ▸ all (n + 1)

theorem packs_iff (ss : List (List Byte)) : (packStrs 0 ss).isSome ↔ Packs ss := by
  rw [packStrs_isSome ss 0 (Nat.zero_le _)]
  simp [Packs]

theorem spawnRequest_connections (runs : c.Runs mem) (staged : Mem.State) (a : SpawnAnswers) :
    (∀ e, (Client.spawnRequest { c with mem := staged } a).2 = .error e →
      (Client.spawnRequest { c with mem := staged } a).1.reg.connectionsOf c.pid = c.reg.connectionsOf c.pid) ↔
    (a.read = none → ¬c.reg.Strays c.pid a.kernel) := by
  unfold Client.spawnRequest
  cases a.read with
  | some e =>
    refine iff_of_true (fun _ _ => rfl) fun nothing => ?_
    cases nothing
  | none =>
    simp only [true_implies]
    cases answer : (c.reg.processCreate c.pid a.kernel).2 with
    | error e =>
      have same := c.reg.processCreate_connections a.kernel runs.other answer
      rw [← same]
      exact ⟨fun all => all e rfl,fun same _ _ => same⟩
    | ok child =>
      refine iff_of_true (fun e failed => ?_) fun strays => ?_
      · cases failed
      · exact c.reg.processCreate_ok a.kernel runs.process answer strays

theorem spawnStaged_gives_back (documented : o.Documented) (runs : c.Runs mem) {staged : Mem.State}
    {page : Mem.Addr} (mapped : ¬c.mem.Alike staged c.pid)
    (unmaps : c.mem.Alike (staged.munmapServe c.pid page (BitVec.ofNat 64 spawnPageBytes)).1 c.pid)
    (args : SpawnArgs) (a : SpawnAnswers) :
    GivesBack c (spawnStaged o { c with mem := staged } page args a) ↔
      Packs args.strings ∧ (a.read = none → ¬c.reg.Strays c.pid a.kernel) := by
  unfold spawnStaged
  rw [← packs_iff]
  cases packStrs 0 args.strings with
  | none =>
    rw [gives_back_error]
    exact iff_of_false (fun same => mapped same.mappings) fun fine => absurd fine.1 Bool.false_ne_true
  | some off =>
    dsimp only
    rw [and_iff_right (show (some off).isSome = true from rfl),documented.munmap,
      ← spawnRequest_connections runs staged a]
    have kept : (Client.spawnRequest { c with mem := staged } a).1.coids = c.coids ∧
        (Client.spawnRequest { c with mem := staged } a).1.mem = staged ∧
        (Client.spawnRequest { c with mem := staged } a).1.pid = c.pid := by
      unfold Client.spawnRequest
      cases a.read with
      | none => exact ⟨rfl,rfl,rfl⟩
      | some e => exact ⟨rfl,rfl,rfl⟩
    generalize Client.spawnRequest { c with mem := staged } a = asked at kept ⊢
    obtain ⟨coids,memory,pid⟩ := kept
    rw [memory,pid]
    have same : c.Same ⟨c.pid,asked.1.stale,asked.1.reg,asked.1.coids,
      (staged.munmapServe c.pid page (BitVec.ofNat 64 spawnPageBytes)).1⟩ ↔
        asked.1.reg.connectionsOf c.pid = c.reg.connectionsOf c.pid :=
      ⟨Client.Same.connections,fun connections => ⟨connections,fun coid => congrArg (·.entry coid) coids,unmaps⟩⟩
    cases asked.2 with
    | error e =>
      rw [Except.mapError,gives_back_error,same]
      exact ⟨fun connections _ _ => connections,fun all => all e rfl⟩
    | ok child =>
      rw [Except.mapError]
      refine iff_of_true gives_back_ok fun e failed => ?_
      cases failed

theorem page_ne : BitVec.ofNat 64 spawnPageBytes ≠ 0 := by decide

theorem page_fits : BitVec.ofNat 64 spawnPageBytes ≤ Mem.megaPage := by
  rw [BitVec.le_def,Mem.megaPage_toNat]
  decide

theorem spawn_gives_back (documented : o.Documented) (runs : c.Runs mem) (args : SpawnArgs) (a : SpawnAnswers) :
    GivesBack c (posixSpawn o mem c args a) ↔ Call.Safe mem c (.posixSpawn args a) := by
  unfold posixSpawn Call.Safe
  by_cases unnamed : args.path = none ∨ args.path = some []
  · rw [if_pos unnamed,gives_back_error]
    refine iff_of_true (.refl c) fun name there nonempty => ?_
    rcases unnamed with nothing | empty
    · cases nothing.symm.trans there
    · exact absurd (Option.some.inj (there.symm.trans empty)) nonempty
  · rw [if_neg unnamed]
    obtain ⟨absent,empty⟩ := not_or.mp unnamed
    obtain ⟨name,there⟩ := Option.ne_none_iff_exists'.mp absent
    have nonempty : name ≠ [] := by
      rintro rfl
      exact empty there
    by_cases many : spawnMaxArgc < args.argv.length ∨ spawnMaxEnvc < args.envp.length
    · rw [if_pos many,gives_back_error]
      refine iff_of_true (.refl c) fun _ _ _ args env => ?_
      omega
    · rw [if_neg many]
      obtain ⟨few,few'⟩ := not_or.mp many
      simp only [there,Option.some.injEq,forall_eq',ne_eq,nonempty,not_false_eq_true,true_implies,
        Nat.le_of_not_lt few,Nat.le_of_not_lt few']
      rcases Mem.mmap_cases runs.sound c.pid a.page page_ne page_fits with
        ⟨refused,t,e,out,alike⟩ | ⟨gets,full,t,e,out,mapped⟩ | ⟨gets,room,t,base,out,mapped,unmaps⟩
      · rw [out,gives_back_error]
        exact iff_of_true ⟨rfl,fun _ => rfl,alike⟩ fun gets => absurd gets refused
      · rw [out,gives_back_error]
        exact iff_of_false (fun same => mapped same.mappings) fun fine => (fine gets).1 full
      · rw [out]
        dsimp only
        rw [spawnStaged_gives_back documented runs mapped unmaps]
        exact ⟨fun fine _ => ⟨room,fine⟩,fun fine => (fine gets).2⟩

/-- A call that fails leaves the connections, the bound ids and the mappings of the process as they were
exactly if it is safe. -/
theorem failed_calls_give_back (documented : o.Documented) (runs : c.Runs mem) (call : Call) :
    (∀ e, (call.run o mem c).2 = .error e → c.Same (call.run o mem c).1) ↔ call.Safe mem c := by
  cases call with
  | openPath path flags a => exact (gives_back_map fun _ => ()).trans (open_gives_back documented path flags a)
  | pipe given a => exact (gives_back_map fun _ => ()).trans (pipe_gives_back given a)
  | posixSpawn args a => exact (gives_back_map fun _ => ()).trans (spawn_gives_back documented runs args a)

/-- The shared library as it is documented. -/
def ours (cfg : Taskman.Config) : Outside cfg where
  close := fun c coid deleted => (connectDetach c coid deleted).1
  munmap := fun c va len => { c with mem := (c.mem.munmapServe c.pid va len).1 }

theorem ours_documented : (ours cfg).Documented := by
  refine ⟨fun c coid deleted => ⟨rfl,?_,fun done => ?_⟩,fun c va len => rfl⟩
  · show (connectDetach c coid deleted).1.mem = c.mem
    unfold connectDetach
    split
    · rfl
    · split
      · rfl
      · rfl
  · show (connectDetach c coid deleted).1.coids = c.coids.bind coid 0
    unfold connectDetach at done ⊢
    split
    · rename_i unbound
      rw [if_pos unbound] at done
      cases done
    · rename_i bound
      rw [if_neg bound] at done
      split
      · rename_i detaching
        rw [detaching] at done
        cases done
      · rfl

/-- `/sbin/init` with a table of ids that is full. -/
def crowded : Client Taskman.small := ⟨2,0,Taskman.smallBoot,⟨fun _ => 1,fun _ => 1,fun _ => 0⟩,Mem.oneProcess⟩

theorem crowded_runs : crowded.Runs Mem.smallConfig :=
  ⟨by decide +kernel,by decide,Mem.oneProcess_start.toSound⟩

def crowdedPipe : Call := .pipe true ⟨some (pidTaskman,Taskman.consoleChid),true,true⟩

theorem failed_calls_give_back_crowded :
    (crowdedPipe.run (ours Taskman.small) Mem.smallConfig crowded).2 = .error .enomem ∧
      ((∀ e, (crowdedPipe.run (ours Taskman.small) Mem.smallConfig crowded).2 = .error e →
        crowded.Same (crowdedPipe.run (ours Taskman.small) Mem.smallConfig crowded).1) ↔
      crowdedPipe.Safe Mem.smallConfig crowded) :=
  ⟨by decide +kernel,failed_calls_give_back ours_documented crowded_runs crowdedPipe⟩

/-- The pipe is made, there is no id for either end, and both connections stay. -/
theorem full_table_keeps_pipe :
    (crowdedPipe.run (ours Taskman.small) Mem.smallConfig crowded).2 = .error .enomem ∧
      ¬crowded.Same (crowdedPipe.run (ours Taskman.small) Mem.smallConfig crowded).1 := by
  refine ⟨by decide +kernel,fun same => ?_⟩
  have here := congrArg Option.isSome (congrFun same.connections ⟨4,by decide⟩)
  exact absurd here (by decide +kernel)

end Qsoe.Libc
