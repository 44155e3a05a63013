import Qsoe.Lib.Linked

/-! The resource database of `rsrcdb.c`: a pool of range entries threaded onto a free list and
one sorted list for each class. The `next` pointers are kept beside the entries they belong to.
A loop over a list that never ends gives no result. -/
namespace Qsoe.Rsrc

open Linked

/-- What `<sys/rsrcdbmgr.h>` defines: `RSRCDBMGR_TYPE_COUNT`, `RSRCDBMGR_TYPE_MASK` and the flags. -/
structure Consts where
  typeCount : Nat
  typeMask : BitVec 32
  flagRange : BitVec 32
  flagAlign : BitVec 32
  flagUsed : BitVec 32
  flagMask : BitVec 32

/-- `TM_RSRC_POOL_SIZE`. -/
def poolSize : Nat := 256

abbrev Index := Fin poolSize

/-- A range with both bounds included; owner 0 is FREE. -/
structure Entry where
  start : BitVec 64
  stop : BitVec 64
  owner : BitVec 32
  cls : Nat
  flags : BitVec 16
  deriving DecidableEq

def Entry.blank : Entry := ⟨0,0,0,0,0⟩

/-- The list a root pointer belongs to: `s_free_list` or an `s_class_head`. -/
inductive Place where
  | pool
  | listed (cls : Nat)
  deriving DecidableEq

structure Database where
  next : Index → Option Index
  entries : Index → Entry
  root : Place → Option Index

/-- `rsrc_alloc_t`. -/
structure Alloc where
  start : BitVec 64
  stop : BitVec 64
  flags : BitVec 32

/-- `rsrc_request_t`. -/
structure Request where
  length : BitVec 64
  align : BitVec 64
  start : BitVec 64
  stop : BitVec 64
  flags : BitVec 32

inductive Failure where
  | einval
  | enomem
  | enospc
  deriving DecidableEq

abbrev Outcome (α : Type) := Option (Database × Except Failure α)

namespace Database

def setNext (db : Database) (i : Index) (v : Option Index) : Database :=
  { db with next := Function.update db.next i v }

def setEntry (db : Database) (i : Index) (x : Entry) : Database :=
  { db with entries := Function.update db.entries i x }

def setOwner (db : Database) (i : Index) (owner : BitVec 32) : Database :=
  db.setEntry i { db.entries i with owner := owner }

def setStop (db : Database) (i : Index) (stop : BitVec 64) : Database :=
  db.setEntry i { db.entries i with stop := stop }

/-- `*pp = v`, where `pp` is the root of list `p` or the `next` of the node before. -/
def point (db : Database) (p : Place) (prev v : Option Index) : Database :=
  { db with next := aim db.next prev v
            root := Function.update db.root p (aimRoot (db.root p) prev v) }

@[simp] theorem setNext_entries (db : Database) (i : Index) (v : Option Index) :
    (db.setNext i v).entries = db.entries := rfl

@[simp] theorem point_entries (db : Database) (p : Place) (prev v : Option Index) :
    (db.point p prev v).entries = db.entries := rfl

@[simp] theorem setEntry_entries (db : Database) (i : Index) (x : Entry) :
    (db.setEntry i x).entries = Function.update db.entries i x := rfl

@[simp] theorem setStop_entries (db : Database) (i : Index) (stop : BitVec 64) :
    (db.setStop i stop).entries = Function.update db.entries i { db.entries i with stop := stop } := rfl

@[simp] theorem setOwner_entries (db : Database) (i : Index) (owner : BitVec 32) :
    (db.setOwner i owner).entries = Function.update db.entries i { db.entries i with owner := owner } := rfl

def walk (db : Database) (cls : Nat) (stop : Index → Bool) : Option (Option Index × Option Index) :=
  seek db.next stop poolSize none (db.root (.listed cls))

def poolFree (db : Database) (i : Index) : Database :=
  (db.setNext i (db.root .pool)).point .pool none (some i)

@[simp] theorem poolFree_entries (db : Database) (i : Index) : (db.poolFree i).entries = db.entries := rfl

def poolAlloc (db : Database) : Option (Database × Index) :=
  (db.root .pool).map fun i =>
    (((db.point .pool none (db.next i)).setNext i none).setEntry i .blank,i)

/-- The loop of `pool_init` on the zeroed pool: `n` rounds, from the last index down. -/
def poolInit : Nat → Database
  | 0 => ⟨fun _ => none,fun _ => .blank,fun _ => none⟩
  | n + 1 => (poolInit n).poolFree ⟨poolSize - (n + 1),Nat.sub_lt (Nat.zero_lt_succ 255) (Nat.zero_lt_succ n)⟩

/-- `tm_rsrc_init`. -/
def init : Database := poolInit poolSize

variable (k : Consts)

def listInsert (db : Database) (i : Index) : Option Database :=
  let x := db.entries i
  if k.typeCount ≤ x.cls then some db
  else (db.walk x.cls fun j => !decide ((db.entries j).start < x.start)).map fun at' =>
    (db.setNext i at'.2).point (.listed x.cls) at'.1 (some i)

def listRemove (db : Database) (i : Index) : Option Database :=
  let x := db.entries i
  if k.typeCount ≤ x.cls then some db
  else (db.walk x.cls (· == i)).map fun at' =>
    match at'.2 with
    | some _ => (db.point (.listed x.cls) at'.1 (db.next i)).setNext i none
    | none => db.setNext i none

/-- The class a request names, if it is one. -/
def classOf (flags : BitVec 32) : Option Nat :=
  let cls := ((flags &&& k.typeMask).setWidth 16).toNat
  if k.typeCount ≤ cls then none else some cls

/-- What is left of an entry after `FLAG_RANGE`. -/
def clip (x : Entry) (r : Request) : BitVec 64 × BitVec 64 :=
  if r.flags &&& k.flagRange ≠ 0 then
    (if x.start < r.start then r.start else x.start,if r.stop < x.stop then r.stop else x.stop)
  else (x.start,x.stop)

def alignment (r : Request) : BitVec 64 :=
  let align := if r.flags &&& k.flagAlign ≠ 0 then r.align else 1
  if align = 0 then 1 else align

def alignUp (lo align : BitVec 64) : BitVec 64 :=
  if 1 < align then (lo + align - 1) &&& ~~~(align - 1) else lo

/-- The range an entry gives a request: the body of the loop of `find_fit`. -/
def grant (x : Entry) (r : Request) : Option (BitVec 64 × BitVec 64) :=
  let (low,hi) := clip k x r
  let lo := alignUp low (alignment k r)
  let stop := lo + (if r.length ≠ 0 then r.length - 1 else 0)
  if x.owner ≠ 0 ∨ hi < low ∨ stop < lo ∨ hi < stop then none else some (lo,stop)

def findFit (db : Database) (cls : Nat) (r : Request) : Option (Option (Index × BitVec 64 × BitVec 64)) :=
  (db.walk cls fun i => (grant k (db.entries i) r).isSome).map fun at' =>
    at'.2.bind fun i => (grant k (db.entries i) r).map fun g => (i,g)

/-- `carve` once its entries are allocated. -/
def carveInto (db : Database) (e : Index) (start stop : BitVec 64) (owner flags : BitVec 32)
    (carved : Index) (right : Option Index) : Option Database :=
  let x := db.entries e
  let db := db.setEntry carved ⟨start,stop,owner,x.cls,((flags &&& k.flagMask) >>> 8).setWidth 16⟩
  let db := match right with
    | some r => db.setEntry r ⟨stop + 1,x.stop,0,x.cls,0⟩
    | none => db
  (if x.start < start then some (db.setStop e (start - 1))
    else (db.listRemove k e).map fun db => db.poolFree e).bind fun db =>
  (db.listInsert k carved).bind fun db =>
  match right with
  | some r => db.listInsert k r
  | none => some db

def carve (db : Database) (e : Index) (start stop : BitVec 64) (owner flags : BitVec 32) : Outcome Unit :=
  match db.poolAlloc with
  | none => some (db,.error .enomem)
  | some (db,carved) =>
    if stop < (db.entries e).stop then
      match db.poolAlloc with
      | none => some (db.poolFree carved,.error .enomem)
      | some (db,right) => (db.carveInto k e start stop owner flags carved (some right)).map (·,.ok ())
    else (db.carveInto k e start stop owner flags carved none).map (·,.ok ())

/-- The entry `a` takes over the range of `b`, the next on its list, which goes back to the pool. -/
def absorb (db : Database) (a b : Index) : Database :=
  ((db.setStop a (db.entries b).stop).setNext a (db.next b)).poolFree b

def mergeRight (db : Database) (e : Index) : Database :=
  match db.next e with
  | none => db
  | some r =>
    if (db.entries r).owner = 0 ∧ (db.entries r).start = (db.entries e).stop + 1 then db.absorb e r else db

def mergeLeft (db : Database) (prev : Option Index) (e : Index) : Database :=
  match prev with
  | none => db
  | some p =>
    if (db.entries p).owner = 0 ∧ (db.entries p).stop + 1 = (db.entries e).start then db.absorb p e else db

def mergeNeighbours (db : Database) (e : Index) : Option Database :=
  (db.walk (db.entries e).cls (· == e)).map fun at' => (db.mergeRight e).mergeLeft at'.1 e

/-- The loop of a request over its payload: the first round that fails ends it. -/
def rounds (one : Database → α → Outcome Unit) (db : Database) : List α → Outcome Unit
  | [] => some (db,.ok ())
  | x :: xs =>
    (one db x).bind fun done =>
    match done.2 with
    | .error f => some (done.1,.error f)
    | .ok () => rounds one done.1 xs

/-- One round of `tm_rsrc_create`. -/
def createOne (db : Database) (caller : BitVec 32) (p : Alloc) : Outcome Unit :=
  match classOf k p.flags with
  | none => some (db,.error .einval)
  | some cls =>
    match db.poolAlloc with
    | none => some (db,.error .enomem)
    | some (db,e) =>
      let owner := if p.flags &&& k.flagUsed ≠ 0 then caller else 0
      ((db.setEntry e ⟨p.start,p.stop,owner,cls,0⟩).listInsert k e).bind fun db =>
      (if owner = 0 then db.mergeNeighbours e else some db).map (·,.ok ())

def create (db : Database) (caller : BitVec 32) (ps : List Alloc) : Outcome Unit :=
  rounds (fun db => db.createOne k caller) db ps

/-- One round of `tm_rsrc_destroy`. -/
def destroyOne (db : Database) (p : Alloc) : Outcome Unit :=
  match classOf k p.flags with
  | none => some (db,.error .einval)
  | some cls =>
    (db.walk cls fun i => (db.entries i).start == p.start && (db.entries i).stop == p.stop).bind fun at' =>
    match at'.2 with
    | none => some (db,.ok ())
    | some e => (db.listRemove k e).map fun db => (db.poolFree e,.ok ())

def destroy (db : Database) (ps : List Alloc) : Outcome Unit :=
  rounds (fun db => db.destroyOne k) db ps

def rollback (db : Database) : List Index → Option Database
  | [] => some db
  | g :: gs => ((db.setOwner g 0).mergeNeighbours g).bind (rollback · gs)

/-- One round of `tm_rsrc_attach`: the entry granted, if it is found again, and its range. -/
def attachOne (db : Database) (caller : BitVec 32) (r : Request) :
    Outcome (Option Index × BitVec 64 × BitVec 64) :=
  match classOf k r.flags with
  | none => some (db,.error .enospc)
  | some cls =>
    (db.findFit k cls r).bind fun fit =>
    match fit with
    | none => some (db,.error .enospc)
    | some (e,start,stop) =>
      (db.carve k e start stop caller r.flags).bind fun done =>
      match done.2 with
      | .error _ => some (done.1,.error .enospc)
      | .ok () =>
        (done.1.walk cls fun i => (done.1.entries i).owner == caller && (done.1.entries i).start == start &&
          (done.1.entries i).stop == stop).map fun at' => (done.1,.ok (at'.2,start,stop))

/-- The loop of `tm_rsrc_attach`, with the entries granted so far. -/
def attachAll (db : Database) (caller : BitVec 32) (granted : List Index) : List Request → Outcome (List Request)
  | [] => some (db,.ok [])
  | r :: rs =>
    (db.attachOne k caller r).bind fun done =>
    match done.2 with
    | .error _ => (done.1.rollback granted).map (·,.error .enospc)
    | .ok (entry,start,stop) =>
      (attachAll done.1 caller (granted ++ entry.toList) rs).map fun rest =>
        (rest.1,rest.2.map ({ r with start := start, stop := stop, length := stop - start + 1 } :: ·))

def attach (db : Database) (caller : BitVec 32) (rs : List Request) : Outcome (List Request) :=
  if 16 < rs.length then some (db,.error .einval) else db.attachAll k caller [] rs

/-- The end of a use: `owner = 0`, `flags = 0` and the merge. -/
def giveUp (db : Database) (e : Index) : Option Database :=
  (db.setEntry e { db.entries e with owner := 0, flags := 0 }).mergeNeighbours e

/-- One round of `tm_rsrc_detach`. -/
def detachOne (db : Database) (caller : BitVec 32) (r : Request) : Outcome Unit :=
  match classOf k r.flags with
  | none => some (db,.error .einval)
  | some cls =>
    (db.walk cls fun i => (db.entries i).owner == caller && (db.entries i).start == r.start &&
      (db.entries i).stop == r.stop).bind fun at' =>
    match at'.2 with
    | none => some (db,.ok ())
    | some e => (db.giveUp e).map (·,.ok ())

def detach (db : Database) (caller : BitVec 32) (rs : List Request) : Outcome Unit :=
  rounds (fun db => db.detachOne k caller) db rs

/-- The inner loop of `tm_rsrc_release_pid`: each entry given up restarts it at the head. -/
def releaseClass (db : Database) (pid : BitVec 32) (cls : Nat) : Nat → Option Database
  | 0 => none
  | fuel + 1 =>
    (db.walk cls fun i => (db.entries i).owner == pid).bind fun at' =>
    match at'.2 with
    | none => some db
    | some e => (db.giveUp e).bind (releaseClass · pid cls fuel)

def releasePid (db : Database) (pid : BitVec 32) : Option Database :=
  if pid.toInt ≤ 0 then some db
  else (List.range k.typeCount).foldlM (fun db cls => db.releaseClass pid cls (poolSize + 1)) db

end Database

/-- A call into the database. -/
inductive Op where
  | create (caller : BitVec 32) (ps : List Alloc)
  | destroy (ps : List Alloc)
  | attach (caller : BitVec 32) (rs : List Request)
  | detach (caller : BitVec 32) (rs : List Request)
  | releasePid (pid : BitVec 32)

def step (k : Consts) (db : Database) : Op → Option Database
  | .create caller ps => (db.create k caller ps).map Prod.fst
  | .destroy ps => (db.destroy k ps).map Prod.fst
  | .attach caller rs => (db.attach k caller rs).map Prod.fst
  | .detach caller rs => (db.detach k caller rs).map Prod.fst
  | .releasePid pid => db.releasePid k pid

end Qsoe.Rsrc
