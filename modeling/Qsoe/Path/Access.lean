import Qsoe.Path.Confined
import Qsoe.Lib.Delimited

/-! `tm_access` beside `tm_io_open`: when both come to the same answer about a path. An open
follows a link in front of the path, takes the directories that the archive only implies, and
asks the managers of `/sys` and `/proc`; the probe does none of this. -/
namespace Qsoe.Path

open Taskman

/-- `handler_kind`. -/
inductive Manager where
  | external | console | null | zero | cpiofs | pmdir | sysfs | procfs
  deriving DecidableEq, Repr

/-- Where a path leads: the server, its manager and how much of the path is consumed. -/
structure Lead where
  pid : Pid
  chid : BitVec 32
  manager : Manager
  consumed : Nat
  deriving DecidableEq, Repr

/-- What libtaskman answers about a path: `tm_pathmgr_resolve`, the two expanders of links and the
trees of `/sys` and `/proc`. -/
structure Registry.Names where
  resolve : List Byte → Except Failure Lead
  expandSymlink : List Byte → Option (List Byte)
  expandSymlinkCpio : List Byte → Option (List Byte)
  sysfs : List Byte → Option (Option (BitVec 32))
  procfs : List Byte → Option ProcNode
  part : ∀ path lead, resolve path = .ok lead → lead.consumed ≤ path.length

open Registry (Names connectAttach_cases)

/-- A path of the caller in a static buffer of the dispatcher, before what an earlier one left. -/
def inBuffer (path stale : List Byte) : List Byte := path ++ 0 :: stale

def remainder (buffer : List Byte) (consumed : Nat) : List Byte :=
  (cstr (buffer.drop consumed)).dropWhile (· = slash)

/-- `tm_cpiofs_probe`. -/
def cpiofsProbe (a : Archive) (name : List Byte) : Except Failure Unit :=
  if name = [] ∨ a.lookup name = none then .error (.of .enoent) else .ok ()

/-- `tm_access`. -/
def access (a : Archive) (names : Names) (path stale : List Byte) : Except Failure Unit :=
  if path = [] ∨ 128 ≤ path.length then .error (.of .einval)
  else match names.resolve path with
    | .error e => .error e
    | .ok lead =>
      if lead.manager = .cpiofs then
        let name := remainder (inBuffer path stale) lead.consumed
        if name = [] then .ok () else cpiofsProbe a name
      else .ok ()

/-- The link expansion of an open: the tree first, then the archive. -/
def Registry.Names.expand (names : Names) (path : List Byte) : Option (List Byte) :=
  (names.expandSymlink path).or (names.expandSymlinkCpio path)

def Registry.Names.handler (names : Names) (path stale : List Byte) (lead : Lead) : Handler :=
  match lead.manager with
  | .external => .external
  | .console => .console
  | .null => .null
  | .zero => .zero
  | .cpiofs => .cpiofs ((inBuffer path stale).drop lead.consumed)
  | .pmdir => .pmdir path.length
  | .sysfs => .sysfs (names.sysfs path)
  | .procfs => .procfs (names.procfs path)

/-- The checks and the resolution of `tm_io_open`. -/
def Registry.Names.found (names : Names) (path stale : List Byte) : Except Failure Resolved :=
  if path = [] ∨ 128 ≤ path.length then .error (.of .einval)
  else match names.resolve ((names.expand path).getD path) with
    | .error e => .error e
    | .ok lead => .ok ⟨lead.pid,lead.chid,names.handler path stale lead⟩

def Archive.opens (a : Archive) (name : List Byte) : Bool :=
  name.isEmpty || (a.lookup name).isSome || (a.isSubdir name && name.length + 2 ≤ 64)

def Handler.opens (a : Archive) : Handler → Bool
  | .cpiofs rest => a.opens ((cstr rest).dropWhile (· = slash))
  | .pmdir length => length ≠ 0 && length < 64
  | .sysfs node => node.isSome
  | .procfs node => node.isSome
  | _ => true

variable {cfg : Config} {a : Archive} {s : Server cfg} {caller : Pid} {obj : Resolved} {stale : Nat}
    {k : AttachKernel}
variable {badge : Word}

/-- Nothing is exhausted: the connection is made and both directory tables have room. -/
structure Room (s : Server cfg) (caller : Pid) (obj : Resolved) (stale : Nat) (k : AttachKernel) : Prop where
  attaches : ∃ t slots, s.reg.connectAttach caller obj.pid obj.chid 0 stale k = (t,.ok slots)
  dirs : ∃ i, s.dirs i = 0
  slots : ∃ i, s.slots i = 0

/-- A handler accepts or refuses a call. -/
def Accepts (accepted : Bool) (answer : Server cfg × Except Failure Unit) : Prop :=
  (accepted = true ∧ ∃ t, answer = (t,.ok ())) ∨ (accepted = false ∧ ∃ t e, answer = (t,.error e))

theorem setCtx_accepts (s : Server cfg) (live : (s.reg.connectionFindByBadge badge).isSome = true)
    (c : Word × Word) :
    Accepts true (s.setCtx badge c) := by
  obtain ⟨hit,found⟩ := Option.isSome_iff_exists.mp live
  refine .inl ⟨rfl,?_⟩
  unfold Server.setCtx State.connectionSetCtx
  rw [found]
  exact ⟨_,rfl⟩

theorem openDir_accepts (live : (s.reg.connectionFindByBadge badge).isSome = true) (room : ∃ i, s.dirs i = 0) :
    Accepts true (s.openDir badge) := by
  unfold Server.openDir
  split
  · rename_i full
    obtain ⟨i,free⟩ := room
    have taken := List.find?_eq_none.mp full i (List.mem_finRange i)
    simp [free] at taken
  · apply setCtx_accepts
    exact live

theorem cpiofsOpen_accepts (live : (s.reg.connectionFindByBadge badge).isSome = true) (room : ∃ i, s.dirs i = 0)
    (rest : List Byte) : Accepts (a.opens ((cstr rest).dropWhile (· = slash))) (s.cpiofsOpen a rest badge) := by
  unfold Server.cpiofsOpen Archive.opens
  generalize (cstr rest).dropWhile (· = slash) = name
  dsimp only
  split
  · rename_i root
    simpa [root] using openDir_accepts live room
  · rename_i named
    split
    · rename_i data size file
      have small := (Archive.lookup_holds file).2.2
      rw [if_neg (by omega),file]
      simpa using setCtx_accepts s live _
    · rename_i missing
      have empty : name.isEmpty = false := by simpa using named
      rw [missing,empty]
      split
      · rename_i absent
        exact .inr ⟨by simp [absent],_,_,rfl⟩
      · rename_i implied
        have there : a.isSubdir name = true := by simpa using implied
        split
        · rename_i long
          exact .inr ⟨by simp [there]; omega,_,_,rfl⟩
        · rename_i short
          have fits : (false || (none : Option (Nat × Nat)).isSome ||
            (a.isSubdir name && name.length + 2 ≤ 64)) = true := by
            simp [there]
            omega
          rw [fits]
          exact openDir_accepts live room

theorem pmdirOpen_accepts (live : (s.reg.connectionFindByBadge badge).isSome = true) (room : ∃ i, s.slots i = 0)
    (length : Nat) : Accepts (length ≠ 0 && length < 64) (s.pmdirOpen length badge) := by
  unfold Server.pmdirOpen
  split
  · rename_i bad
    refine .inr ⟨?_,_,_,rfl⟩
    rcases bad with rfl | long
    · rfl
    · simp [Nat.not_lt.mpr long]
  · rename_i good
    obtain ⟨nonempty,short⟩ := not_or.mp good
    have fits : (length ≠ 0 && length < 64) = true := by simp [nonempty,Nat.lt_of_not_le short]
    rw [fits]
    split
    · rename_i full
      obtain ⟨i,free⟩ := room
      have taken := List.find?_eq_none.mp full i (List.mem_finRange i)
      simp [free] at taken
    · apply setCtx_accepts
      exact live

theorem openNode_accepts (live : (s.reg.connectionFindByBadge badge).isSome = true) (dirs : ∃ i, s.dirs i = 0)
    (slots : ∃ i, s.slots i = 0) (handler : Handler) :
    (s.openNode a badge handler = none ∧ handler.opens a = true) ∨
      ∃ answer, s.openNode a badge handler = some answer ∧ Accepts (handler.opens a) answer := by
  cases handler with
  | external => exact .inl ⟨rfl,rfl⟩
  | console => exact .inl ⟨rfl,rfl⟩
  | null => exact .inl ⟨rfl,rfl⟩
  | zero => exact .inl ⟨rfl,rfl⟩
  | cpiofs rest => exact .inr ⟨_,rfl,cpiofsOpen_accepts live dirs rest⟩
  | pmdir length => exact .inr ⟨_,rfl,pmdirOpen_accepts live slots length⟩
  | sysfs node =>
    cases node with
    | none => exact .inr ⟨_,rfl,.inr ⟨rfl,_,_,rfl⟩⟩
    | some file => exact .inr ⟨_,rfl,setCtx_accepts _ live _⟩
  | procfs node =>
    cases node with
    | none => exact .inr ⟨_,rfl,.inr ⟨rfl,_,_,rfl⟩⟩
    | some file => exact .inr ⟨_,rfl,setCtx_accepts _ live _⟩

theorem attached_live (made : s.reg.connectAttach caller obj.pid obj.chid 0 stale k = (t,.ok slots)) :
    ∃ badge, t.connectionBadgeBySlot caller slots.1 = some badge ∧
      (t.connectionFindByBadge badge).isSome = true := by
  rcases connectAttach_cases s.reg caller obj.pid obj.chid 0 stale k with ⟨u,e,failed,-⟩ | ⟨u,j,r,attach,attached⟩
  · rw [failed] at made
    cases (Prod.mk.inj made).2
  · rw [attach] at made
    obtain ⟨rfl,same⟩ := Prod.mk.inj made
    obtain rfl := Except.ok.inj same
    have row : (u.addRow j r).rows j = some r := Slab.put_same _
    obtain ⟨i,q,found⟩ := Slab.find_of_used
      (fun q : Row cfg => q.clientPid == caller && q.clientSlot == r.clientSlot) row (by simp [attached.owner])
    obtain ⟨i',q',same⟩ := Slab.find_of_used (fun q' : Row cfg => q'.badge == q.badge)
      (Slab.find_some found).1 (by simp)
    refine ⟨q.badge,?_,?_⟩
    · unfold State.connectionBadgeBySlot State.connectionFindBySlot
      rw [found]
      rfl
    · unfold State.connectionFindByBadge
      rw [same]
      rfl

theorem ioOpen_succeeds (room : Room s caller obj stale k) (deleted : Bool) :
    (∃ t slot, s.ioOpen a caller (.ok obj) stale k deleted = (t,.ok slot)) ↔ obj.handler.opens a = true := by
  obtain ⟨t,slots,made⟩ := room.attaches
  obtain ⟨badge,named,live⟩ := attached_live made
  have node := openNode_accepts (a := a) (s := { s with reg := t }) live room.dirs room.slots obj.handler
  unfold Server.ioOpen
  dsimp only
  rw [made]
  dsimp only
  rw [named]
  dsimp only
  rcases node with ⟨plain,opens⟩ | ⟨answer,hook,⟨opens,u,done⟩ | ⟨refuses,u,e,failed⟩⟩
  · rw [plain]
    simp [opens]
  · rw [hook,done]
    simp [opens]
  · rw [hook,failed]
    simp [refuses]

variable {names : Names} {path : List Byte}

/-- The path as it stands is found: it resolves, and cpiofs has a file for what is left of it. -/
def Registry.Names.Reached (names : Names) (a : Archive) (path stale : List Byte) : Prop :=
  ∃ lead, names.resolve path = .ok lead ∧ (lead.manager = .cpiofs →
    remainder (inBuffer path stale) lead.consumed = [] ∨ a.lookup (remainder (inBuffer path stale) lead.consumed) ≠ none)

def Registry.Names.Taken (names : Names) (a : Archive) (target path stale : List Byte) : Prop :=
  ∃ lead, names.resolve target = .ok lead ∧ (names.handler path stale lead).opens a = true

/-- A path without a link: not a directory that the archive only implies, not too long for pmdir, and no
missing node of `/sys` or `/proc`. -/
def Registry.Names.Plain (names : Names) (a : Archive) (path : List Byte) (lead : Lead) : Prop :=
  match lead.manager with
  | .cpiofs =>
    let name := (path.drop lead.consumed).dropWhile (· = slash)
    name = [] ∨ a.lookup name ≠ none ∨ a.isSubdir name = false ∨ 62 < name.length
  | .pmdir => path.length < 64
  | .sysfs => names.sysfs path ≠ none
  | .procfs => names.procfs path ≠ none
  | _ => True

/-- The probe goes to the manager of this lead: to cpiofs, for a name that is neither the root nor a file. -/
def Lead.Missing (here : Lead) (a : Archive) (path : List Byte) : Prop :=
  let name := (path.drop here.consumed).dropWhile (· = slash)
  here.manager = .cpiofs ∧ name ≠ [] ∧ a.lookup name = none

/-- What the manager where a link leads turns down of the path as the caller named it; `stale` is what was in the
buffer, which it sees when the target has more bytes consumed than the path has. -/
def Registry.Names.Refused (names : Names) (a : Archive) (path stale : List Byte) (there : Lead) : Prop :=
  match there.manager with
  | .cpiofs =>
    let name := remainder (inBuffer path stale) there.consumed
    name ≠ [] ∧ a.lookup name = none ∧ (a.isSubdir name = false ∨ 62 < name.length)
  | .pmdir => 64 ≤ path.length
  | .sysfs => names.sysfs path = none
  | .procfs => names.procfs path = none
  | _ => False

/-- A path with a link: neither it nor the target resolves; the target does, at a manager that turns the
path down; the path does, at cpiofs without such a file; or both do, and the manager of the target turns
the path down exactly where that of the path has no such file. -/
def Registry.Names.Crossed (names : Names) (a : Archive) (path target stale : List Byte) : Prop :=
  match names.resolve path, names.resolve target with
  | .error _, .error _ => True
  | .error _, .ok there => names.Refused a path stale there
  | .ok here, .error _ => here.Missing a path
  | .ok here, .ok there =>
    here.Missing a path ∧ names.Refused a path stale there ∨ ¬ here.Missing a path ∧
      ¬ names.Refused a path stale there

/-- The paths on which the probe and the open come to the same. `stale` is what the buffer of the open held. -/
def Registry.Names.Agreed (names : Names) (a : Archive) (path stale : List Byte) : Prop :=
  match names.expand path with
  | none => ∀ lead, names.resolve path = .ok lead → names.Plain a path lead
  | some target => names.Crossed a path target stale

theorem access_ok (named : path ≠ []) (short : path.length < 128) (left : List Byte) :
    access a names path left = .ok () ↔ names.Reached a path left := by
  have checked : ¬ (path = [] ∨ 128 ≤ path.length) := not_or.mpr ⟨named,Nat.not_le.mpr short⟩
  unfold access Registry.Names.Reached
  rw [if_neg checked]
  cases names.resolve path with
  | error e => simp
  | ok lead =>
    simp only [Except.ok.injEq,exists_eq_left']
    by_cases archive : lead.manager = .cpiofs
    · rw [if_pos archive]
      dsimp only [cpiofsProbe]
      by_cases root : remainder (inBuffer path left) lead.consumed = []
      · simp [root]
      · by_cases missing : a.lookup (remainder (inBuffer path left) lead.consumed) = none
        · simp [root,missing,archive]
        · simp [root,missing]
    · simp [archive]

theorem ioOpen_taken (named : path ≠ []) (short : path.length < 128) (left : List Byte)
    (room : ∀ obj, names.found path left = .ok obj → Room s caller obj stale k) (deleted : Bool) :
    (∃ t slot, s.ioOpen a caller (names.found path left) stale k deleted = (t,.ok slot)) ↔
      names.Taken a ((names.expand path).getD path) path left := by
  have checked : ¬ (path = [] ∨ 128 ≤ path.length) := not_or.mpr ⟨named,Nat.not_le.mpr short⟩
  unfold Registry.Names.Taken
  cases resolved : names.resolve ((names.expand path).getD path) with
  | error e =>
    have found : names.found path left = .error e := by
      unfold Registry.Names.found
      rw [if_neg checked,resolved]
    rw [found]
    simp [Server.ioOpen]
  | ok lead =>
    have found : names.found path left = .ok ⟨lead.pid,lead.chid,names.handler path left lead⟩ := by
      unfold Registry.Names.found
      rw [if_neg checked,resolved]
    rw [found,ioOpen_succeeds (room _ found) deleted]
    simp

/-- Up to the end of the path a buffer holds nothing but the path. -/
theorem remainder_inBuffer (nulFree : (0 : Byte) ∉ path) (left : List Byte) (part : n ≤ path.length) :
    remainder (inBuffer path left) n = (path.drop n).dropWhile (· = slash) := by
  have text : cstr ((inBuffer path left).drop n) = path.drop n := by
    rw [inBuffer,List.drop_append_of_le_length part]
    exact Delimited.field_append (fun member => nulFree (List.mem_of_mem_drop member)) left
  rw [remainder,text]

theorem reached_iff (nulFree : (0 : Byte) ∉ path) (left : List Byte) (resolved : names.resolve path = .ok here) :
    names.Reached a path left ↔ ¬ here.Missing a path := by
  unfold Registry.Names.Reached Lead.Missing
  rw [resolved]
  simp only [Except.ok.injEq,exists_eq_left',remainder_inBuffer nulFree left (names.part path here resolved)]
  generalize (path.drop here.consumed).dropWhile (· = slash) = name
  by_cases archive : here.manager = .cpiofs
  · by_cases root : name = []
    · simp [root]
    · simp [archive,root]
  · simp [archive]

theorem opens_iff (named : path ≠ []) (left : List Byte) (there : Lead) :
    (names.handler path left there).opens a = true ↔ ¬ names.Refused a path left there := by
  unfold Registry.Names.Refused Registry.Names.handler
  cases there.manager with
  | cpiofs =>
    simp only [Handler.opens,Archive.opens,remainder]
    generalize (cstr ((inBuffer path left).drop there.consumed)).dropWhile (· = slash) = name
    cases name with
    | nil => simp
    | cons b rest =>
      cases a.lookup (b :: rest) with
      | some file => simp
      | none =>
        cases a.isSubdir (b :: rest) with
        | false => simp
        | true =>
          simp only [List.isEmpty_cons,Option.isSome_none,Bool.false_or,Bool.true_and,decide_eq_true_eq,ne_eq,
            reduceCtorEq,not_false_eq_true,true_and,false_or,Bool.true_eq_false]
          omega
  | pmdir =>
    have long : path.length ≠ 0 := fun empty => named (List.length_eq_zero_iff.mp empty)
    simp [Handler.opens,long]
  | sysfs => simp [Handler.opens,Option.isSome_iff_ne_none]
  | procfs => simp [Handler.opens,Option.isSome_iff_ne_none]
  | external => simp [Handler.opens]
  | console => simp [Handler.opens]
  | null => simp [Handler.opens]
  | zero => simp [Handler.opens]

theorem plain_iff (nulFree : (0 : Byte) ∉ path) (named : path ≠ []) (left left' : List Byte) :
    (names.Reached a path left ↔ names.Taken a path path left') ↔
      ∀ lead, names.resolve path = .ok lead → names.Plain a path lead := by
  cases resolved : names.resolve path with
  | error e => simp [Registry.Names.Reached,Registry.Names.Taken,resolved]
  | ok lead =>
    have taken : names.Taken a path path left' ↔ ¬ names.Refused a path left' lead := by
      unfold Registry.Names.Taken
      rw [resolved]
      simp only [Except.ok.injEq,exists_eq_left',opens_iff named]
    have second := remainder_inBuffer nulFree left' (names.part path lead resolved)
    rw [reached_iff nulFree left resolved,taken,not_iff_not]
    simp only [Except.ok.injEq,forall_eq']
    unfold Lead.Missing Registry.Names.Refused Registry.Names.Plain
    cases manager : lead.manager with
    | cpiofs =>
      simp only [second,true_and]
      generalize (path.drop lead.consumed).dropWhile (· = slash) = name
      cases name with
      | nil => simp
      | cons b rest =>
        cases a.lookup (b :: rest) with
        | some file => simp
        | none =>
          cases a.isSubdir (b :: rest) with
          | false => simp
          | true => simp
    | pmdir => simp
    | sysfs => simp
    | procfs => simp
    | external => simp
    | console => simp
    | null => simp
    | zero => simp

theorem crossed_iff (nulFree : (0 : Byte) ∉ path) (named : path ≠ []) (left left' : List Byte)
    (target : List Byte) :
    (names.Reached a path left ↔ names.Taken a target path left') ↔ names.Crossed a path target left' := by
  have taken (there : Lead) (resolved : names.resolve target = .ok there) :
      names.Taken a target path left' ↔ ¬ names.Refused a path left' there := by
    unfold Registry.Names.Taken
    rw [resolved]
    simp only [Except.ok.injEq,exists_eq_left',opens_iff named]
  have lost (e : Failure) (resolved : names.resolve target = .error e) : ¬ names.Taken a target path left' := by
    rintro ⟨there,found,-⟩
    cases resolved.symm.trans found
  unfold Registry.Names.Crossed
  cases source : names.resolve path with
  | error e =>
    have unseen : ¬ names.Reached a path left := by
      rintro ⟨here,found,-⟩
      cases source.symm.trans found
    cases goal : names.resolve target with
    | error e' => simp [unseen,lost e' goal]
    | ok there => simp [unseen,taken there goal]
  | ok here =>
    rw [reached_iff nulFree left source]
    cases goal : names.resolve target with
    | error e' => simp [lost e' goal]
    | ok there =>
      rw [taken there goal,not_iff_not]
      exact iff_iff_and_or_not_and_not

/-- With room everywhere, `access` and `open` come to the same answer exactly on these paths. -/
theorem access_agrees (a : Archive) (names : Names) (s : Server cfg) (caller : Pid) (path left left' : List Byte)
    (stale : Nat) (k : AttachKernel) (deleted : Bool) (absolute : path.head? = some slash)
    (short : path.length < 128)
    (nulFree : (0 : Byte) ∉ path) (room : ∀ obj, names.found path left' = .ok obj → Room s caller obj stale k) :
    (access a names path left = .ok () ↔
      ∃ t slot, s.ioOpen a caller (names.found path left') stale k deleted = (t,.ok slot)) ↔
      names.Agreed a path left' := by
  have named : path ≠ [] := by
    rintro rfl
    cases absolute
  rw [access_ok named short,ioOpen_taken named short left' room deleted]
  unfold Registry.Names.Agreed
  cases link : names.expand path with
  | none => exact plain_iff nulFree named left left'
  | some target => exact crossed_iff nulFree named left left' target

/-- An archive with one file, `b/a`. -/
def nestedFile : List Byte :=
  let zeros : Nat → List Byte := fun n => List.replicate n 0x30
  magic ++ zeros 8 ++ [0x30,0x30,0x30,0x30,0x38,0x31,0x61,0x34] ++ zeros 39 ++ [0x32] ++ zeros 39 ++ [0x34] ++
    zeros 8 ++ [0x62,0x2f,0x61,0,0,0,0x68,0x69,0,0]

theorem nestedFile_placed : 0 < 0x1000 := Nat.succ_pos _

theorem nestedFile_low : 0x1000 + nestedFile.length ≤ 2 ^ 38 := by decide

def nestedArchive : Archive :=
  ⟨0x1000,nestedFile.length,fun p => nestedFile.getD (p - 0x1000) 0,[[0x62,0x2f,0x61]],nestedFile_placed,
    nestedFile_low⟩

/-- Every path leads into the archive, and nothing is a link. -/
def rootNames : Names where
  resolve path := if path = [] then .error (.of .enoent) else .ok ⟨pidTaskman,cpiofsChid,.cpiofs,1⟩
  expandSymlink _ := none
  expandSymlinkCpio _ := none
  sysfs _ := none
  procfs _ := none
  part path lead resolved := by
    cases path with
    | nil => simp at resolved
    | cons b rest =>
      obtain rfl := Except.ok.inj resolved
      exact Nat.succ_pos _

/-- `/b` is opened as a directory, and `access` does not find it. -/
theorem access_misses_directory :
    access nestedArchive rootNames [0x2f,0x62] [] = .error (.of .enoent) ∧
      (smallServer.ioOpen nestedArchive 2 (rootNames.found [0x2f,0x62] []) 0 ⟨true,true⟩
        true).2.toOption.isSome = true := by
  decide +kernel

theorem smallServer_room (found : rootNames.found [0x2f,0x62,0x2f,0x61] [] = .ok obj) :
    Room smallServer 2 obj 0 ⟨true,true⟩ := by
  have lead : rootNames.found [0x2f,0x62,0x2f,0x61] [] =
    .ok ⟨pidTaskman,cpiofsChid,.cpiofs [0x62,0x2f,0x61,0]⟩ := rfl
  rw [lead] at found
  obtain rfl := Except.ok.inj found
  have attaches : (smallServer.reg.connectAttach 2 pidTaskman cpiofsChid 0 0 ⟨true,true⟩).2.toOption.isSome =
    true := by
    decide +kernel
  refine ⟨?_,⟨⟨0,by decide⟩,rfl⟩,⟨⟨0,by decide⟩,rfl⟩⟩
  obtain ⟨slots,made⟩ := Option.isSome_iff_exists.mp attaches
  exact ⟨_,slots,Prod.ext rfl (ok_of_toOption made)⟩

theorem access_agrees_file :
    (access nestedArchive rootNames [0x2f,0x62,0x2f,0x61] [] = .ok () ↔
      ∃ t slot, smallServer.ioOpen nestedArchive 2 (rootNames.found [0x2f,0x62,0x2f,0x61] []) 0 ⟨true,true⟩ true =
        (t,.ok slot)) ↔ rootNames.Agreed nestedArchive [0x2f,0x62,0x2f,0x61] [] :=
  access_agrees nestedArchive rootNames smallServer 2 [0x2f,0x62,0x2f,0x61] [] [] 0 ⟨true,true⟩ true rfl (by decide)
    (by decide) fun _ found => smallServer_room found

end Qsoe.Path
