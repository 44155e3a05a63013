import Qsoe.Path.Cpio
import Qsoe.Taskman.Machine

/-! Taskman's own resource managers and the dispatch of `path/io.c`. Their state between two
requests is in the two context words of the connection row. What libtaskman resolves a path to
and the text it keeps behind a `/sys` or `/proc` node are part of a request. -/
namespace Qsoe.Path

open Taskman

variable {cfg : Config}

def cpiofsChid : BitVec 32 := 3
def devnullChid : BitVec 32 := 4
def devzeroChid : BitVec 32 := 5
def pmdirChid : BitVec 32 := 6
def sysfsChid : BitVec 32 := 7
def procfsChid : BitVec 32 := 8

/-- `TM_CPIOFS_MAX_CHUNK`, `TM_CPIOFS_MAX_DIRS` and `TM_PMDIR_MAX_OPEN`. -/
def maxChunk : Nat := 928
def maxDirs : Nat := 16
def maxOpen : Nat := 8

inductive Failure where
  | of (e : Errno)
  | efbig | emfile | enametoolong | eisdir | enosys | espipe
  deriving DecidableEq, Repr

/-- A node of `/proc`: the root, the directory of a process or its `info` file. -/
inductive ProcNode where
  | root
  | dir (pid : Pid)
  | info (pid : Pid)
  deriving DecidableEq, Repr

/-- `handler_kind`, with what its open is given of the path: for cpiofs what follows the part
consumed by the resolution, for pmdir the length, for sysfs and procfs the node. -/
inductive Handler where
  | external
  | console
  | null
  | zero
  | cpiofs (rest : List Byte)
  | pmdir (length : Nat)
  | sysfs (node : Option (Option (BitVec 32)))
  | procfs (node : Option ProcNode)
  deriving DecidableEq, Repr

/-- `tm_pathmgr_obj_t`. -/
structure Resolved where
  pid : Pid
  chid : BitVec 32
  handler : Handler
  deriving DecidableEq, Repr

/-- The registries with the directory tables of cpiofs and pmdir; badge 0 marks a free entry. -/
structure Server (cfg : Config) where
  reg : State cfg
  dirs : Fin maxDirs → Word
  slots : Fin maxOpen → Word

/-- `switch (whence)` of the lseek handlers: from the start, the position or the end. -/
def seekTo (whence : BitVec 32) (offset pos size : Word) : Option Word :=
  if whence = 0 then some offset
  else if whence = 1 then some (pos + offset)
  else if whence = 2 then some (size + offset)
  else none

/-- A file of cpiofs has its address in the first word; the second is the position in its low
half and the size in its high half. -/
def position (packed : Word) : Word := packed &&& 0xffffffff
def fileSize (packed : Word) : Word := packed >>> 32
def pack (size pos : Word) : Word := position pos ||| size <<< 32

/-- `pk_pack` and its parts. -/
def pkPack (kind : Word) (pid : Pid) : Word := kind <<< 32 ||| pid.setWidth 64
def pkKind (c0 : Word) : BitVec 32 := (c0 >>> 32).setWidth 32
def pkInfo : BitVec 32 := 3

def ProcNode.context : ProcNode → Word
  | .root => pkPack 1 0
  | .dir pid => pkPack 2 pid
  | .info pid => pkPack 3 pid

/-- `ctx[0]` of a `/sys` node: 0 is the directory. -/
def sysContext : Option (BitVec 32) → Word
  | none => 0
  | some idx => (idx + 1).setWidth 64

/-- What a read puts in the reply: bytes from addresses of taskman's memory, part of the text
of a node, or what a device gives. -/
inductive Payload where
  | archive (addresses : List Word)
  | text (pos : Word) (count : Nat)
  | device
  deriving DecidableEq, Repr

/-- The addresses `src[0]`, …, `src[count - 1]`. -/
def addressesFrom (src : Word) (count : Nat) : List Word :=
  (List.range count).map fun i => src + BitVec.ofNat 64 i

namespace Server

/-- `tm_connection_set_ctx`. -/
def setCtx (s : Server cfg) (badge : Word) (c : Word × Word) : Server cfg × Except Failure Unit :=
  match s.reg.connectionSetCtx badge c with
  | (same,.error e) => ({ s with reg := same },.error (.of e))
  | (written,.ok _) => ({ s with reg := written },.ok ())

/-- `dir_slot_alloc`, then the index in the context. -/
def openDir (s : Server cfg) (badge : Word) : Server cfg × Except Failure Unit :=
  match (List.finRange maxDirs).find? fun i => s.dirs i == 0 with
  | none => (s,.error .emfile)
  | some i => setCtx { s with dirs := Function.update s.dirs i badge } badge (0,BitVec.ofNat 64 i.val)

def cpiofsOpen (a : Archive) (s : Server cfg) (rest : List Byte) (badge : Word) :
    Server cfg × Except Failure Unit :=
  let name := (cstr rest).dropWhile (· = slash)
  if name = [] then s.openDir badge
  else match a.lookup name with
    | some (data,size) =>
      if 0xffffffff < size then (s,.error .efbig)
      else s.setCtx badge (BitVec.ofNat 64 data,BitVec.ofNat 64 size <<< 32)
    | none =>
      if a.isSubdir name = false then (s,.error (.of .enoent))
      else if 64 < name.length + 2 then (s,.error .enametoolong)
      else s.openDir badge

def pmdirOpen (s : Server cfg) (length : Nat) (badge : Word) : Server cfg × Except Failure Unit :=
  if length = 0 ∨ 64 ≤ length then (s,.error .enametoolong)
  else match (List.finRange maxOpen).find? fun i => s.slots i == 0 with
    | none => (s,.error (.of .enomem))
    | some i => setCtx { s with slots := Function.update s.slots i badge } badge (0,BitVec.ofNat 64 i.val)

def sysfsOpen (s : Server cfg) (node : Option (Option (BitVec 32))) (badge : Word) :
    Server cfg × Except Failure Unit :=
  match node with
  | none => (s,.error (.of .enoent))
  | some file => s.setCtx badge (sysContext file,0)

def procfsOpen (s : Server cfg) (node : Option ProcNode) (badge : Word) :
    Server cfg × Except Failure Unit :=
  match node with
  | none => (s,.error (.of .enoent))
  | some file => s.setCtx badge (file.context,0)

/-- The open of the manager a path resolves to; `none` where it has none. -/
def openNode (a : Archive) (s : Server cfg) (badge : Word) : Handler → Option (Server cfg × Except Failure Unit)
  | .cpiofs rest => some (cpiofsOpen a s rest badge)
  | .pmdir length => some (s.pmdirOpen length badge)
  | .sysfs node => some (s.sysfsOpen node badge)
  | .procfs node => some (s.procfsOpen node badge)
  | _ => none

/-- `tm_io_open`; `found` is the result of the checks of the path and of its resolution. -/
def ioOpen (a : Archive) (s : Server cfg) (caller : Pid) (found : Except Failure Resolved) (stale : Nat)
    (k : AttachKernel) (deleted : Bool) : Server cfg × Except Failure Nat :=
  match found with
  | .error e => (s,.error e)
  | .ok obj =>
    match s.reg.connectAttach caller obj.pid obj.chid 0 stale k with
    | (refused,.error e) => ({ s with reg := refused },.error (.of e))
    | (made,.ok (slot,_)) =>
      let attached := { s with reg := made }
      match made.connectionBadgeBySlot caller slot with
      | none => (attached,.ok slot)
      | some badge =>
        match attached.openNode a badge obj.handler with
        | none => (attached,.ok slot)
        | some (opened,.ok _) => (opened,.ok slot)
        | some (failed,.error e) =>
          ({ failed with reg := (failed.reg.connectDetach caller slot stale deleted).1 },.error e)

def cpiofsRead (s : Server cfg) (badge : Word) (want : BitVec 32) : Server cfg × Except Failure Payload :=
  match s.reg.connectionGetCtx badge with
  | .error e => (s,.error (.of e))
  | .ok (data,packed) =>
    if data = 0 then (s,.error (.of .ebadf))
    else
      let off := position packed
      let size := fileSize packed
      if size ≤ off then (s,.ok (.archive []))
      else
        let chunk := min (min want.toNat maxChunk) (size - off).toNat
        match s.setCtx badge (data,pack size (off + BitVec.ofNat 64 chunk)) with
        | (same,.error e) => (same,.error e)
        | (written,.ok _) => (written,.ok (.archive (addressesFrom (data + off) chunk)))

/-- A read of the text behind a node, `length` bytes long. -/
def readText (s : Server cfg) (badge : Word) (c : Word × Word) (want : BitVec 32) (length : Nat) :
    Server cfg × Except Failure Payload :=
  let count := min want.toNat (length - c.2.toNat)
  match s.setCtx badge (c.1,c.2 + BitVec.ofNat 64 count) with
  | (same,.error e) => (same,.error e)
  | (written,.ok _) => (written,.ok (.text c.2 count))

/-- `content` is the length of what `tm_sysfs_content` returns. -/
def sysfsRead (s : Server cfg) (badge : Word) (want : BitVec 32) (content : Option Nat) :
    Server cfg × Except Failure Payload :=
  match s.reg.connectionGetCtx badge with
  | .error _ => (s,.error (.of .ebadf))
  | .ok c =>
    if c.1 = 0 then (s,.error .eisdir)
    else match content with
      | none => (s,.error (.of .ebadf))
      | some length => s.readText badge c want length

/-- `content` is the length of the text `tm_procfs_info` makes. -/
def procfsRead (s : Server cfg) (badge : Word) (want : BitVec 32) (content : Option Nat) :
    Server cfg × Except Failure Payload :=
  match s.reg.connectionGetCtx badge with
  | .error _ => (s,.error (.of .ebadf))
  | .ok c => if pkKind c.1 ≠ pkInfo then (s,.error .eisdir) else s.readText badge c want (content.getD 0)

def ioRead (s : Server cfg) (badge : Word) (want : BitVec 32) (content : Option Nat) :
    Server cfg × Except Failure Payload :=
  match s.reg.channelByBadge badge with
  | .error _ => (s,.error (.of .ebadf))
  | .ok (pid,chid) =>
    if pid ≠ pidTaskman then (s,.error .enosys)
    else if chid = consoleChid ∨ chid = devnullChid ∨ chid = devzeroChid then (s,.ok .device)
    else if chid = cpiofsChid then s.cpiofsRead badge want
    else if chid = sysfsChid then s.sysfsRead badge want content
    else if chid = procfsChid then s.procfsRead badge want content
    else (s,.error .enosys)

def cpiofsLseek (s : Server cfg) (badge : Word) (whence : BitVec 32) (offset : Word) :
    Server cfg × Except Failure Word :=
  match s.reg.connectionGetCtx badge with
  | .error e => (s,.error (.of e))
  | .ok (data,packed) =>
    if data = 0 then (s,.error (.of .ebadf))
    else match seekTo whence offset (position packed) (fileSize packed) with
      | none => (s,.error (.of .einval))
      | some pos =>
        if pos.toInt < 0 ∨ 0xffffffff < pos.toNat then (s,.error (.of .einval))
        else match s.setCtx badge (data,pack (fileSize packed) pos) with
          | (same,.error e) => (same,.error e)
          | (written,.ok _) => (written,.ok pos)

def seekText (s : Server cfg) (badge : Word) (c : Word × Word) (whence : BitVec 32) (offset : Word)
    (length : Nat) : Server cfg × Except Failure Word :=
  match seekTo whence offset c.2 (BitVec.ofNat 64 length) with
  | none => (s,.error (.of .einval))
  | some pos =>
    if pos.toInt < 0 then (s,.error (.of .einval))
    else match s.setCtx badge (c.1,pos) with
      | (same,.error e) => (same,.error e)
      | (written,.ok _) => (written,.ok pos)

def sysfsLseek (s : Server cfg) (badge : Word) (whence : BitVec 32) (offset : Word) (content : Option Nat) :
    Server cfg × Except Failure Word :=
  match s.reg.connectionGetCtx badge with
  | .error _ => (s,.error (.of .ebadf))
  | .ok c => if c.1 = 0 then (s,.error .eisdir) else s.seekText badge c whence offset (content.getD 0)

def procfsLseek (s : Server cfg) (badge : Word) (whence : BitVec 32) (offset : Word) (content : Option Nat) :
    Server cfg × Except Failure Word :=
  match s.reg.connectionGetCtx badge with
  | .error _ => (s,.error (.of .ebadf))
  | .ok c =>
    if pkKind c.1 ≠ pkInfo then (s,.error .eisdir)
    else s.seekText badge c whence offset (content.getD 0)

/-- `tm_lseek`. -/
def ioLseek (s : Server cfg) (badge : Word) (whence : BitVec 32) (offset : Word) (content : Option Nat) :
    Server cfg × Except Failure Word :=
  match s.reg.channelByBadge badge with
  | .error _ => (s,.error (.of .ebadf))
  | .ok (pid,chid) =>
    if pid ≠ pidTaskman then (s,.error .espipe)
    else if chid = cpiofsChid then s.cpiofsLseek badge whence offset
    else if chid = sysfsChid then s.sysfsLseek badge whence offset content
    else if chid = procfsChid then s.procfsLseek badge whence offset content
    else (s,.error .espipe)

def closeEntry (table : Fin n → Word) (badge : Word) (c : Word × Word) : Fin n → Word := fun i =>
  if c.1 = 0 ∧ c.2.setWidth 32 = BitVec.ofNat 32 i.val ∧ table i = badge then 0 else table i

/-- `tm_io_close`; the row goes with the detach that follows. -/
def ioClose (s : Server cfg) (badge : Word) : Server cfg × Except Failure Unit :=
  match s.reg.channelByBadge badge, s.reg.connectionGetCtx badge with
  | .ok (pid,chid), .ok c =>
    if pid = pidTaskman ∧ chid = cpiofsChid then ({ s with dirs := closeEntry s.dirs badge c },.ok ())
    else if pid = pidTaskman ∧ chid = pmdirChid then ({ s with slots := closeEntry s.slots badge c },.ok ())
    else (s,.ok ())
  | .ok _, .error _ => (s,.ok ())
  | .error _, _ => (s,.error (.of .ebadf))

end Server

/-- Requests with the context words written out; `plain` is any other request. -/
inductive FileRequest where
  | openPath (found : Except Failure Resolved) (k : AttachKernel) (deleted : Bool)
  | read (want : BitVec 32) (content : Option Nat)
  | lseek (whence : BitVec 32) (offset : Word) (content : Option Nat)
  | close
  | plain (r : Request)

def coarse : Request → Bool
  | .openPath .. => true
  | .io _ => true
  | _ => false

namespace Server

def dispatch (a : Archive) (s : Server cfg) (caller : Pid) (badge : Word) (stale : Nat) :
    FileRequest → Option (Server cfg)
  | .openPath found k deleted => some (ioOpen a s caller found stale k deleted).1
  | .read want content => some (s.ioRead badge want content).1
  | .lseek whence offset content => some (s.ioLseek badge whence offset content).1
  | .close => some (s.ioClose badge).1
  | .plain r => if coarse r then none else some { s with reg := s.reg.dispatch caller badge stale r }

def receive (a : Archive) (s : Server cfg) (badge : Word) (stale : Nat) (r : FileRequest) :
    Option (Server cfg) :=
  match delivery badge with
  | .fault pid => some { s with reg := s.reg.handleFault pid }
  | .request caller => dispatch a s caller badge stale r

end Server

inductive FileEvent where
  | message (i slot stale : Nat) (r : FileRequest)
  | fault (i : Nat)
  | copy (i src dst : Nat)
  | delete (i slot : Nat)

def FileEvent.step (a : Archive) (s : Server cfg) : FileEvent → Option (Server cfg)
  | .message i slot stale r =>
    match s.reg.held i slot with
    | some c => if i ≠ 0 ∧ c.object = .primary then s.receive a c.badge stale r else none
    | none => none
  | .fault i => (Taskman.step s.reg (.fault i)).map fun reg => { s with reg := reg }
  | .copy i src dst => (Taskman.step s.reg (.copy i src dst)).map fun reg => { s with reg := reg }
  | .delete i slot => (Taskman.step s.reg (.delete i slot)).map fun reg => { s with reg := reg }

/-- `main` up to its receive loop. -/
def bootServer (cfg : Config) : Option (Server cfg) :=
  (boot cfg).map fun reg => ⟨reg,fun _ => 0,fun _ => 0⟩

end Qsoe.Path
