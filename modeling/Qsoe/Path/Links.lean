import Qsoe.Path.Access
import Qsoe.Path.Reading

/-! Opening a path behind a link and opening what it leads to. The managers of cpiofs and pmdir keep
the name of an open directory in their tables, so what a descriptor stands for is in the state of
both. The path that the expansion rewrites decides on the server; the manager there is given the
path of the caller, with the offset that the rewritten one has consumed. -/
namespace Qsoe.Path

open Taskman
open Registry (Names)

variable {cfg : Config} {a : Archive}

/-- The server with the texts of the tables, `g_cpiofs_dirs[i].prefix` and `g_slots[i].path`. -/
structure Managers (cfg : Config) where
  server : Server cfg
  prefixes : Fin maxDirs → List Byte
  paths : Fin maxOpen → List Byte

namespace Managers

def setCtx (x : Managers cfg) (badge : Word) (c : Word × Word) : Managers cfg × Except Failure Unit :=
  ({ x with server := (x.server.setCtx badge c).1 },(x.server.setCtx badge c).2)

def openDir (x : Managers cfg) (text : List Byte) (badge : Word) : Managers cfg × Except Failure Unit :=
  match (List.finRange maxDirs).find? fun i => x.server.dirs i == 0 with
  | none => (x,.error .emfile)
  | some i => setCtx
      { x with server := { x.server with dirs := Function.update x.server.dirs i badge }
               prefixes := Function.update x.prefixes i text } badge (0,BitVec.ofNat 64 i.val)

def cpiofsOpen (a : Archive) (x : Managers cfg) (rest : List Byte) (badge : Word) :
    Managers cfg × Except Failure Unit :=
  let name := (cstr rest).dropWhile (· = slash)
  if name = [] then x.openDir [] badge
  else match a.lookup name with
    | some (data,size) =>
      if 0xffffffff < size then (x,.error .efbig)
      else x.setCtx badge (BitVec.ofNat 64 data,BitVec.ofNat 64 size <<< 32)
    | none =>
      if a.isSubdir name = false then (x,.error (.of .enoent))
      else if 64 < name.length + 2 then (x,.error .enametoolong)
      else x.openDir (name ++ [slash]) badge

def pmdirOpen (x : Managers cfg) (path : List Byte) (badge : Word) : Managers cfg × Except Failure Unit :=
  if path.length = 0 ∨ 64 ≤ path.length then (x,.error .enametoolong)
  else match (List.finRange maxOpen).find? fun i => x.server.slots i == 0 with
    | none => (x,.error (.of .enomem))
    | some i => setCtx
        { x with server := { x.server with slots := Function.update x.server.slots i badge }
                 paths := Function.update x.paths i path } badge (0,BitVec.ofNat 64 i.val)

def nodeOpen (x : Managers cfg) (node : Option Word) (badge : Word) : Managers cfg × Except Failure Unit :=
  match node with
  | none => (x,.error (.of .enoent))
  | some c0 => x.setCtx badge (c0,0)

/-- `path` is the caller's path, the text of pmdir. -/
def openNode (a : Archive) (x : Managers cfg) (badge : Word) (path : List Byte) :
    Handler → Option (Managers cfg × Except Failure Unit)
  | .cpiofs rest => some (x.cpiofsOpen a rest badge)
  | .pmdir _ => some (x.pmdirOpen path badge)
  | .sysfs node => some (x.nodeOpen (node.map sysContext) badge)
  | .procfs node => some (x.nodeOpen (node.map ProcNode.context) badge)
  | _ => none

/-- A refused open takes the connection back. -/
def settle (attached : Managers cfg) (caller : Pid) (slot stale : Nat) (deleted : Bool) :
    Option (Managers cfg × Except Failure Unit) → Managers cfg × Except Failure Nat
  | none => (attached,.ok slot)
  | some (opened,.ok _) => (opened,.ok slot)
  | some (failed,.error e) =>
    ({ failed with server := { failed.server with
        reg := (failed.server.reg.connectDetach caller slot stale deleted).1 } },.error e)

/-- `tm_io_open`. -/
def ioOpen (a : Archive) (names : Names) (x : Managers cfg) (caller : Pid) (path left : List Byte) (stale : Nat)
    (k : AttachKernel) (deleted : Bool) : Managers cfg × Except Failure Nat :=
  match names.found path left with
  | .error e => (x,.error e)
  | .ok obj =>
    match x.server.reg.connectAttach caller obj.pid obj.chid 0 stale k with
    | (refused,.error e) => ({ x with server := { x.server with reg := refused } },.error (.of e))
    | (made,.ok (slot,_)) =>
      let attached := { x with server := { x.server with reg := made } }
      match made.connectionBadgeBySlot caller slot with
      | none => (attached,.ok slot)
      | some badge => attached.settle caller slot stale deleted (attached.openNode a badge path obj.handler)

variable {x : Managers cfg} {badge : Word} {caller : Pid} {stale : Nat} {k : AttachKernel}

def bare (answer : Managers cfg × Except Failure α) : Server cfg × Except Failure α := (answer.1.server,answer.2)

theorem openDir_bare (x : Managers cfg) (text : List Byte) (badge : Word) :
    bare (x.openDir text badge) = x.server.openDir badge := by
  unfold openDir Server.openDir
  cases (List.finRange maxDirs).find? fun i => x.server.dirs i == 0 <;> rfl

theorem cpiofsOpen_bare (x : Managers cfg) (rest : List Byte) (badge : Word) :
    bare (x.cpiofsOpen a rest badge) = x.server.cpiofsOpen a rest badge := by
  unfold cpiofsOpen Server.cpiofsOpen
  dsimp only
  by_cases root : (cstr rest).dropWhile (· = slash) = []
  · rw [if_pos root,if_pos root]
    exact openDir_bare ..
  · rw [if_neg root,if_neg root]
    cases a.lookup ((cstr rest).dropWhile (· = slash)) with
    | some file =>
      dsimp only
      by_cases big : 0xffffffff < file.2
      · rw [if_pos big,if_pos big]
        rfl
      · rw [if_neg big,if_neg big]
        rfl
    | none =>
      dsimp only
      by_cases absent : a.isSubdir ((cstr rest).dropWhile (· = slash)) = false
      · rw [if_pos absent,if_pos absent]
        rfl
      · rw [if_neg absent,if_neg absent]
        by_cases long : 64 < ((cstr rest).dropWhile (· = slash)).length + 2
        · rw [if_pos long,if_pos long]
          rfl
        · rw [if_neg long,if_neg long]
          exact openDir_bare ..

theorem pmdirOpen_bare (x : Managers cfg) (path : List Byte) (badge : Word) :
    bare (x.pmdirOpen path badge) = x.server.pmdirOpen path.length badge := by
  unfold pmdirOpen Server.pmdirOpen
  by_cases bad : path.length = 0 ∨ 64 ≤ path.length
  · rw [if_pos bad,if_pos bad]
    rfl
  · rw [if_neg bad,if_neg bad]
    cases (List.finRange maxOpen).find? fun i => x.server.slots i == 0 <;> rfl

theorem openNode_bare (x : Managers cfg) (badge : Word) (names : Names) (path left : List Byte) (lead : Lead) :
    (x.openNode a badge path (names.handler path left lead)).map bare =
      x.server.openNode a badge (names.handler path left lead) := by
  unfold Names.handler
  cases lead.manager with
  | cpiofs => exact congrArg some (cpiofsOpen_bare ..)
  | pmdir => exact congrArg some (pmdirOpen_bare ..)
  | sysfs => cases names.sysfs path <;> simp [openNode,Server.openNode,Server.sysfsOpen,nodeOpen,bare,setCtx]
  | procfs => cases names.procfs path <;> simp [openNode,Server.openNode,Server.procfsOpen,nodeOpen,bare,setCtx]
  | external => rfl
  | console => rfl
  | null => rfl
  | zero => rfl

theorem ioOpen_bare (names : Names) (x : Managers cfg) (caller : Pid) (path left : List Byte) (stale : Nat)
    (k : AttachKernel) (deleted : Bool) :
    bare (x.ioOpen a names caller path left stale k deleted) =
      x.server.ioOpen a caller (names.found path left) stale k deleted := by
  unfold ioOpen Server.ioOpen
  cases found : names.found path left with
  | error e => rfl
  | ok obj =>
    have handler : ∃ lead, obj.handler = names.handler path left lead := by
      unfold Names.found at found
      split at found
      · cases found
      · split at found
        · cases found
        · rename_i lead _
          exact ⟨lead,(congrArg Resolved.handler (Except.ok.inj found)).symm⟩
    obtain ⟨lead,handler⟩ := handler
    dsimp only
    cases attach : x.server.reg.connectAttach caller obj.pid obj.chid 0 stale k with
    | mk made answer =>
      cases answer with
      | error e => rfl
      | ok slots =>
        dsimp only
        cases made.connectionBadgeBySlot caller slots.1 with
        | none => rfl
        | some badge =>
          have node := openNode_bare (a := a) { x with server := { x.server with reg := made } }
            badge names path left lead
          dsimp only at node ⊢
          rw [handler,← node]
          cases openNode a { x with server := { x.server with reg := made } } badge path
            (names.handler path left lead) with
          | none => rfl
          | some answer =>
            obtain ⟨opened,answer⟩ := answer
            cases answer <;> rfl

end Managers

inductive Opened where
  | dir (text : List Byte)
  | file (data size : Nat)
  deriving DecidableEq, Repr

def Archive.find (a : Archive) (name : List Byte) : Except Failure Opened :=
  if name = [] then .ok (.dir [])
  else match a.lookup name with
    | some (data,size) => .ok (.file data size)
    | none =>
      if a.isSubdir name = false then .error (.of .enoent)
      else if 64 < name.length + 2 then .error .enametoolong
      else .ok (.dir (name ++ [slash]))

def Opened.isDir : Opened → Bool
  | .dir _ => true
  | .file .. => false

/-- The manager that `target` leads to comes to the same for both paths: the same of the archive, two paths too long
for pmdir, the same node of `/sys` or `/proc`. Where a table is full all directories are refused alike. -/
def Registry.Names.Transparent (names : Names) (a : Archive) (s : Server cfg) (path left target : List Byte)
    (lead : Lead) : Prop :=
  match lead.manager with
  | .cpiofs =>
    let one := a.find (remainder (inBuffer path left) lead.consumed)
    let two := a.find ((target.drop lead.consumed).dropWhile (· = slash))
    one = two ∨ (∀ i, s.dirs i ≠ 0) ∧ one.toOption.any Opened.isDir = true ∧ two.toOption.any Opened.isDir = true
  | .pmdir => (64 ≤ path.length ↔ 64 ≤ target.length) ∧ (64 ≤ path.length ∨ ∀ i, s.slots i ≠ 0)
  | .sysfs => (names.sysfs path).map sysContext = (names.sysfs target).map sysContext
  | .procfs => (names.procfs path).map ProcNode.context = (names.procfs target).map ProcNode.context
  | _ => True

/-- Both opens are answered alike, and when they succeed nothing tells their descriptors apart. -/
def SameOpen (one two : Managers cfg × Except Failure α) : Prop :=
  one.2 = two.2 ∧ ∀ v, two.2 = .ok v → one.1 = two.1

namespace Managers

variable {x : Managers cfg} {badge : Word}

theorem setCtx_live (live : x.server.reg.connectionFindByBadge badge = some (j,r)) (c : Word × Word) :
    x.setCtx badge c = ({ x with server := { x.server with reg := x.server.reg.setCtx j c } },.ok ()) := by
  unfold setCtx Server.setCtx State.connectionSetCtx
  rw [live]

theorem cpiofsOpen_find (x : Managers cfg) (rest : List Byte) (badge : Word) :
    x.cpiofsOpen a rest badge = match a.find ((cstr rest).dropWhile (· = slash)) with
      | .error e => (x,.error e)
      | .ok (.dir text) => x.openDir text badge
      | .ok (.file data size) => x.setCtx badge (BitVec.ofNat 64 data,BitVec.ofNat 64 size <<< 32) := by
  unfold cpiofsOpen Archive.find
  dsimp only
  by_cases root : (cstr rest).dropWhile (· = slash) = []
  · rw [if_pos root,if_pos root]
  · rw [if_neg root,if_neg root]
    cases file : a.lookup ((cstr rest).dropWhile (· = slash)) with
    | some found =>
      have small := (Archive.lookup_holds file).2.2
      dsimp only
      rw [if_neg (by omega)]
    | none =>
      dsimp only
      by_cases absent : a.isSubdir ((cstr rest).dropWhile (· = slash)) = false
      · rw [if_pos absent,if_pos absent]
      · rw [if_neg absent,if_neg absent]
        by_cases long : 64 < ((cstr rest).dropWhile (· = slash)).length + 2
        · rw [if_pos long,if_pos long]
        · rw [if_neg long,if_neg long]

theorem openDir_full (full : ∀ i, x.server.dirs i ≠ 0) (text : List Byte) (badge : Word) :
    x.openDir text badge = (x,.error .emfile) := by
  have nothing : (List.finRange maxDirs).find? (fun i => x.server.dirs i == 0) = none :=
    List.find?_eq_none.mpr fun i _ => by simpa using full i
  unfold openDir
  rw [nothing]

theorem openDir_live (live : x.server.reg.connectionFindByBadge badge = some (j,r))
    (room : ∃ i, x.server.dirs i = 0) :
    ∃ i : Fin maxDirs, ∀ text, x.openDir text badge =
      ({ x with server := { x.server with dirs := Function.update x.server.dirs i badge
                                          reg := x.server.reg.setCtx j (0,BitVec.ofNat 64 i.val) }
                prefixes := Function.update x.prefixes i text },.ok ()) := by
  unfold openDir
  cases found : (List.finRange maxDirs).find? fun i => x.server.dirs i == 0 with
  | none =>
    obtain ⟨i,free⟩ := room
    have taken := List.find?_eq_none.mp found i (List.mem_finRange i)
    simp [free] at taken
  | some i =>
    refine ⟨i,fun text => ?_⟩
    exact setCtx_live (x := { x with server := { x.server with dirs := Function.update x.server.dirs i badge }
                                     prefixes := Function.update x.prefixes i text }) live _

theorem setCtx_inj {s : State cfg} (same : s.setCtx j c = s.setCtx j d) : c = d := by
  have words := congrArg (fun t : State cfg => t.ctx j) same
  simpa [State.setCtx] using words

theorem setCtx_same (live : x.server.reg.connectionFindByBadge badge = some (j,r)) (c d : Word × Word) :
    SameOpen (x.setCtx badge c) (x.setCtx badge d) ↔ c = d := by
  rw [setCtx_live live,setCtx_live live]
  constructor
  · intro same
    exact setCtx_inj (congrArg (fun y : Managers cfg => y.server.reg) (same.2 () rfl))
  · rintro rfl
    exact ⟨rfl,fun _ _ => rfl⟩

theorem openDir_same (live : x.server.reg.connectionFindByBadge badge = some (j,r)) (one two : List Byte) :
    SameOpen (x.openDir one badge) (x.openDir two badge) ↔ one = two ∨ ∀ i, x.server.dirs i ≠ 0 := by
  by_cases full : ∀ i, x.server.dirs i ≠ 0
  · rw [openDir_full full,openDir_full full]
    exact iff_of_true ⟨rfl,fun v answered => by cases answered⟩ (.inr full)
  · obtain ⟨i,opens⟩ := openDir_live live (by simpa using full)
    rw [opens,opens]
    constructor
    · intro same
      have texts := congrArg (fun y : Managers cfg => y.prefixes i) (same.2 () rfl)
      left
      simpa using texts
    · rintro (rfl | vacant)
      · exact ⟨rfl,fun _ _ => rfl⟩
      · exact absurd vacant full

theorem openDir_not_file (live : x.server.reg.connectionFindByBadge badge = some (j,r)) (text : List Byte)
    (file : c.1 ≠ 0) :
    ¬SameOpen (x.openDir text badge) (x.setCtx badge c) ∧ ¬SameOpen (x.setCtx badge c) (x.openDir text badge) := by
  rw [setCtx_live live]
  by_cases full : ∀ i, x.server.dirs i ≠ 0
  · rw [openDir_full full]
    constructor <;> (intro same; cases same.1)
  · obtain ⟨i,opens⟩ := openDir_live live (by simpa using full)
    rw [opens]
    constructor
    · intro same
      have words := setCtx_inj (congrArg (fun y : Managers cfg => y.server.reg) (same.2 () rfl))
      exact file (congrArg Prod.fst words).symm
    · intro same
      have words := setCtx_inj (congrArg (fun y : Managers cfg => y.server.reg) (same.2 () rfl))
      exact file (congrArg Prod.fst words)

theorem openDir_not_error (live : x.server.reg.connectionFindByBadge badge = some (j,r)) (text : List Byte)
    (other : e ≠ .emfile) : (x.openDir text badge).2 ≠ .error e := by
  by_cases full : ∀ i, x.server.dirs i ≠ 0
  · rw [openDir_full full]
    exact fun same => other (Except.error.inj same).symm
  · obtain ⟨i,opens⟩ := openDir_live live (by simpa using full)
    rw [opens]
    exact fun same => by cases same

end Managers

theorem Archive.find_error (missing : a.find name = .error e) : e ≠ .emfile := by
  unfold find at missing
  split at missing
  · cases missing
  · split at missing
    · cases missing
    · split at missing
      · obtain rfl := Except.error.inj missing
        exact fun same => by cases same
      · split at missing
        · obtain rfl := Except.error.inj missing
          exact fun same => by cases same
        · cases missing

theorem Archive.find_file (found : a.find name = .ok (.file data size)) : a.Holds data size := by
  unfold find at found
  split at found
  · cases found
  · split at found
    · rename_i file
      obtain ⟨rfl,rfl⟩ := Opened.file.inj (Except.ok.inj found)
      exact lookup_holds file
    · split at found
      · cases found
      · split at found <;> cases found

theorem Archive.Holds.address (holds : a.Holds data size) : BitVec.ofNat 64 data ≠ 0 := by
  have placed := a.placed
  have low := a.low
  have stop : a.stop = a.start + a.len := rfl
  unfold Archive.Holds at holds
  intro zero
  have number := congrArg BitVec.toNat zero
  rw [BitVec.toNat_ofNat] at number
  change data % 2 ^ 64 = 0 at number
  omega

/-- The words of a file say where it lies and how long it is. -/
theorem Archive.Holds.words (one : a.Holds data size) (two : a.Holds data' size')
    (same : (BitVec.ofNat 64 data,BitVec.ofNat 64 size <<< 32) =
      (BitVec.ofNat 64 data',BitVec.ofNat 64 size' <<< 32)) :
    data = data' ∧ size = size' := by
  have low := a.low
  have stop : a.stop = a.start + a.len := rfl
  unfold Archive.Holds at one two
  obtain ⟨address,length⟩ := Prod.mk.injEq .. ▸ same
  have first := congrArg BitVec.toNat address
  have second := congrArg BitVec.toNat length
  rw [BitVec.toNat_ofNat,BitVec.toNat_ofNat] at first
  rw [BitVec.toNat_shiftLeft,BitVec.toNat_shiftLeft,Nat.shiftLeft_eq,Nat.shiftLeft_eq,BitVec.toNat_ofNat,
    BitVec.toNat_ofNat] at second
  omega

namespace Managers

variable {x : Managers cfg} {badge : Word}

theorem cpiofsOpen_same (live : x.server.reg.connectionFindByBadge badge = some (j,r)) (one two : List Byte) :
    SameOpen (x.cpiofsOpen a one badge) (x.cpiofsOpen a two badge) ↔
      a.find ((cstr one).dropWhile (· = slash)) = a.find ((cstr two).dropWhile (· = slash)) ∨
        (∀ i, x.server.dirs i ≠ 0) ∧ (a.find ((cstr one).dropWhile (· = slash))).toOption.any Opened.isDir = true ∧
          (a.find ((cstr two).dropWhile (· = slash))).toOption.any Opened.isDir = true := by
  rw [cpiofsOpen_find,cpiofsOpen_find]
  cases first : a.find ((cstr one).dropWhile (· = slash)) with
  | error e =>
    have plain := Archive.find_error first
    cases second : a.find ((cstr two).dropWhile (· = slash)) with
    | error e' => simp [SameOpen,Except.toOption]
    | ok found =>
      cases found with
      | dir text =>
        have differs := openDir_not_error live text plain
        simp only [reduceCtorEq,Except.toOption,Option.any_none,Bool.false_eq_true,false_and,and_false,
          or_false,iff_false]
        exact fun same => differs same.1.symm
      | file data size =>
        dsimp only
        rw [setCtx_live live]
        simp [SameOpen,Except.toOption]
  | ok found =>
    cases second : a.find ((cstr two).dropWhile (· = slash)) with
    | error e' =>
      have plain := Archive.find_error second
      cases found with
      | dir text =>
        have differs := openDir_not_error live text plain
        simp only [reduceCtorEq,Except.toOption,Option.any_none,Bool.false_eq_true,and_false,or_false,iff_false]
        exact fun same => differs same.1
      | file data size =>
        dsimp only
        rw [setCtx_live live]
        simp [SameOpen,Except.toOption]
    | ok found' =>
      cases found with
      | dir text =>
        cases found' with
        | dir text' =>
          dsimp only
          rw [openDir_same live]
          simp [Except.toOption,Opened.isDir]
        | file data size =>
          have differs := (openDir_not_file live text (c := (BitVec.ofNat 64 data,BitVec.ofNat 64 size <<< 32))
            (Archive.find_file second).address).1
          simpa [Except.toOption,Opened.isDir] using differs
      | file data size =>
        have holds := Archive.find_file first
        cases found' with
        | dir text =>
          have differs := (openDir_not_file live text (c := (BitVec.ofNat 64 data,BitVec.ofNat 64 size <<< 32))
            holds.address).2
          simpa [Except.toOption,Opened.isDir] using differs
        | file data' size' =>
          dsimp only
          rw [setCtx_same live]
          simp only [Except.toOption,Option.any_some,Opened.isDir,Bool.false_eq_true,and_false,or_false,
            Except.ok.injEq,Opened.file.injEq]
          constructor
          · exact holds.words (Archive.find_file second)
          · rintro ⟨rfl,rfl⟩
            rfl

theorem pmdirOpen_long (x : Managers cfg) (badge : Word) (long : 64 ≤ path.length) :
    x.pmdirOpen path badge = (x,.error .enametoolong) := by
  unfold pmdirOpen
  rw [if_pos (.inr long)]

theorem pmdirOpen_full (full : ∀ i, x.server.slots i ≠ 0) (named : path ≠ []) (short : ¬64 ≤ path.length)
    (badge : Word) :
    x.pmdirOpen path badge = (x,.error (.of .enomem)) := by
  have checked : ¬(path.length = 0 ∨ 64 ≤ path.length) :=
    not_or.mpr ⟨fun nothing => named (List.length_eq_zero_iff.mp nothing),short⟩
  have nothing : (List.finRange maxOpen).find? (fun i => x.server.slots i == 0) = none :=
    List.find?_eq_none.mpr fun i _ => by simpa using full i
  unfold pmdirOpen
  rw [if_neg checked,nothing]

theorem pmdirOpen_live (live : x.server.reg.connectionFindByBadge badge = some (j,r))
    (room : ∃ i, x.server.slots i = 0) :
    ∃ i : Fin maxOpen, ∀ path, path ≠ [] → ¬64 ≤ path.length → x.pmdirOpen path badge =
      ({ x with server := { x.server with slots := Function.update x.server.slots i badge
                                          reg := x.server.reg.setCtx j (0,BitVec.ofNat 64 i.val) }
                paths := Function.update x.paths i path },.ok ()) := by
  cases found : (List.finRange maxOpen).find? fun i => x.server.slots i == 0 with
  | none =>
    obtain ⟨i,free⟩ := room
    have taken := List.find?_eq_none.mp found i (List.mem_finRange i)
    simp [free] at taken
  | some i =>
    refine ⟨i,fun path named short => ?_⟩
    have checked : ¬(path.length = 0 ∨ 64 ≤ path.length) :=
      not_or.mpr ⟨fun nothing => named (List.length_eq_zero_iff.mp nothing),short⟩
    unfold pmdirOpen
    rw [if_neg checked,found]
    exact setCtx_live (x := { x with server := { x.server with slots := Function.update x.server.slots i badge }
                                     paths := Function.update x.paths i path }) live _

theorem pmdirOpen_short (live : x.server.reg.connectionFindByBadge badge = some (j,r)) (named : path ≠ [])
    (short : ¬64 ≤ path.length) : (x.pmdirOpen path badge).2 ≠ .error .enametoolong := by
  by_cases full : ∀ i, x.server.slots i ≠ 0
  · rw [pmdirOpen_full full named short]
    exact fun same => by cases same
  · obtain ⟨i,opens⟩ := pmdirOpen_live live (by simpa using full)
    rw [opens path named short]
    exact fun same => by cases same

theorem pmdirOpen_same (live : x.server.reg.connectionFindByBadge badge = some (j,r)) (different : one ≠ two)
    (named : one ≠ []) (named' : two ≠ []) : SameOpen (x.pmdirOpen one badge) (x.pmdirOpen two badge) ↔
      (64 ≤ one.length ↔ 64 ≤ two.length) ∧ (64 ≤ one.length ∨ ∀ i, x.server.slots i ≠ 0) := by
  by_cases first : 64 ≤ one.length
  · rw [pmdirOpen_long x badge first]
    by_cases second : 64 ≤ two.length
    · rw [pmdirOpen_long x badge second]
      simp [SameOpen,first,second]
    · have answered := pmdirOpen_short live named' second
      simp only [first,second,iff_false,not_true,false_and]
      exact fun same => answered same.1.symm
  · by_cases second : 64 ≤ two.length
    · have answered := pmdirOpen_short live named first
      rw [pmdirOpen_long x badge second]
      simp only [first,second,iff_true,false_and,iff_false]
      exact fun same => answered same.1
    · simp only [first,second,true_and,false_or]
      by_cases full : ∀ i, x.server.slots i ≠ 0
      · rw [pmdirOpen_full full named first,pmdirOpen_full full named' second]
        exact iff_of_true ⟨rfl,fun v answered => by cases answered⟩ full
      · obtain ⟨i,opens⟩ := pmdirOpen_live live (by simpa using full)
        rw [opens one named first,opens two named' second]
        refine iff_of_false (fun same => ?_) full
        have texts := congrArg (fun y : Managers cfg => y.paths i) (same.2 () rfl)
        exact different (by simpa using texts)

theorem nodeOpen_same (live : x.server.reg.connectionFindByBadge badge = some (j,r)) (one two : Option Word) :
    SameOpen (x.nodeOpen one badge) (x.nodeOpen two badge) ↔ one = two := by
  cases one with
  | none =>
    cases two with
    | none => exact iff_of_true ⟨rfl,fun _ _ => rfl⟩ rfl
    | some d =>
      unfold nodeOpen
      dsimp only
      rw [setCtx_live live]
      simp [SameOpen]
  | some c =>
    cases two with
    | none =>
      unfold nodeOpen
      dsimp only
      rw [setCtx_live live]
      simp [SameOpen]
    | some d =>
      unfold nodeOpen
      dsimp only
      rw [setCtx_same live]
      simp

theorem settle_same (attached : Managers cfg) (caller : Pid) (slot stale : Nat) (deleted : Bool)
    (one two : Managers cfg × Except Failure Unit) :
    SameOpen (attached.settle caller slot stale deleted (some one))
      (attached.settle caller slot stale deleted (some two)) ↔
      SameOpen one two := by
  obtain ⟨t,answer⟩ := one
  obtain ⟨u,answer'⟩ := two
  cases answer <;> cases answer' <;> simp [settle,SameOpen]

theorem openNode_same (live : x.server.reg.connectionFindByBadge badge = some (j,r)) (names : Names) (caller : Pid)
    (slot stale : Nat) (deleted : Bool) (left left' : List Byte) (lead : Lead) (different : path ≠ target)
    (named : path ≠ []) (named' : target ≠ []) (nulFree : (0 : Byte) ∉ target)
    (part : lead.consumed ≤ target.length) :
    SameOpen (x.settle caller slot stale deleted (x.openNode a badge path (names.handler path left lead)))
        (x.settle caller slot stale deleted (x.openNode a badge target (names.handler target left' lead))) ↔
      names.Transparent a x.server path left target lead := by
  unfold Names.Transparent Names.handler
  cases lead.manager with
  | cpiofs =>
    have rest := remainder_inBuffer nulFree left' part
    dsimp only [openNode]
    rw [settle_same,cpiofsOpen_same live]
    unfold remainder at rest ⊢
    rw [rest]
  | pmdir =>
    dsimp only [openNode]
    rw [settle_same,pmdirOpen_same live different named named']
  | sysfs =>
    dsimp only [openNode]
    rw [settle_same,nodeOpen_same live]
  | procfs =>
    dsimp only [openNode]
    rw [settle_same,nodeOpen_same live]
  | external => exact iff_of_true ⟨rfl,fun _ _ => rfl⟩ trivial
  | console => exact iff_of_true ⟨rfl,fun _ _ => rfl⟩ trivial
  | null => exact iff_of_true ⟨rfl,fun _ _ => rfl⟩ trivial
  | zero => exact iff_of_true ⟨rfl,fun _ _ => rfl⟩ trivial

end Managers

/-- The connection to the server is made. -/
def Server.Attaches (s : Server cfg) (caller : Pid) (lead : Lead) (stale : Nat) (k : AttachKernel) : Prop :=
  ∃ made slots, s.reg.connectAttach caller lead.pid lead.chid 0 stale k = (made,.ok slots)

/-- Opening `path`, which expands to `target`, is opening `target` exactly if the manager that `target` leads to
comes to the same for both, whenever it is asked. -/
theorem open_link (a : Archive) (names : Names) (x : Managers cfg) (caller : Pid)
    (path target left left' : List Byte)
    (stale : Nat) (k : AttachKernel) (deleted : Bool) (named : path ≠ []) (short : path.length < 128)
    (link : names.expand path = some target) (final : names.expand target = none) (named' : target ≠ [])
    (short' : target.length < 128) (nulFree : (0 : Byte) ∉ target) :
    SameOpen (x.ioOpen a names caller path left stale k deleted)
      (x.ioOpen a names caller target left' stale k deleted) ↔
      ∀ lead, names.resolve target = .ok lead → x.server.Attaches caller lead stale k →
        names.Transparent a x.server path left target lead := by
  have different : path ≠ target := by
    rintro rfl
    rw [link] at final
    cases final
  have checked : ¬(path = [] ∨ 128 ≤ path.length) := not_or.mpr ⟨named,Nat.not_le.mpr short⟩
  have checked' : ¬(target = [] ∨ 128 ≤ target.length) := not_or.mpr ⟨named',Nat.not_le.mpr short'⟩
  have found (left : List Byte) : names.found path left =
      (names.resolve target).map fun lead => ⟨lead.pid,lead.chid,names.handler path left lead⟩ := by
    unfold Names.found
    rw [if_neg checked,link,Option.getD_some]
    cases names.resolve target <;> rfl
  have found' (left : List Byte) : names.found target left =
      (names.resolve target).map fun lead => ⟨lead.pid,lead.chid,names.handler target left lead⟩ := by
    unfold Names.found
    rw [if_neg checked',final,Option.getD_none]
    cases names.resolve target <;> rfl
  unfold Managers.ioOpen
  rw [found,found']
  cases resolved : names.resolve target with
  | error e => exact iff_of_true ⟨rfl,fun v answered => by cases answered⟩ fun lead other => by cases other
  | ok lead =>
    simp only [Except.map]
    unfold Server.Attaches
    cases attach : x.server.reg.connectAttach caller lead.pid lead.chid 0 stale k with
    | mk made answer =>
      cases answer with
      | error e =>
        refine iff_of_true ⟨rfl,fun v answered => by cases answered⟩ ?_
        rintro lead' same ⟨made',slots,other⟩
        obtain rfl := Except.ok.inj same
        rw [attach] at other
        cases (Prod.mk.inj other).2
      | ok slots =>
        have made' : x.server.reg.connectAttach caller (Resolved.mk lead.pid lead.chid .external).pid
            (Resolved.mk lead.pid lead.chid .external).chid 0 stale k = (made,.ok slots) := attach
        obtain ⟨badge,drawn,live⟩ := attached_live made'
        obtain ⟨⟨j,r⟩,row⟩ := Option.isSome_iff_exists.mp live
        dsimp only
        rw [drawn]
        dsimp only
        rw [Managers.openNode_same (x := { x with server := { x.server with reg := made } })
          row names caller slots.1 stale
          deleted left left' lead different named named' nulFree (names.part target lead resolved)]
        constructor
        · intro same lead' other _
          obtain rfl := Except.ok.inj other
          exact same
        · intro same
          exact same lead rfl ⟨made,slots,attach⟩

/-- `/e` leads to the file `/b/a` of the archive, `/f` to the device `/n`. -/
def linkNames : Names where
  resolve path :=
    if path = [] then .error (.of .enoent)
    else if path = [0x2f,0x6e] then .ok ⟨pidTaskman,devnullChid,.null,1⟩
    else .ok ⟨pidTaskman,cpiofsChid,.cpiofs,1⟩
  expandSymlink path :=
    if path = [0x2f,0x65] then some [0x2f,0x62,0x2f,0x61] else if path = [0x2f,0x66] then some [0x2f,0x6e] else none
  expandSymlinkCpio _ := none
  sysfs _ := none
  procfs _ := none
  part path lead resolved := by
    cases path with
    | nil => simp at resolved
    | cons b rest =>
      rw [if_neg (List.cons_ne_nil b rest)] at resolved
      split at resolved <;>
      · obtain rfl := Except.ok.inj resolved
        exact Nat.succ_pos _

def smallManagers : Managers small := ⟨smallServer,fun _ => [],fun _ => []⟩

theorem open_link_device :
    SameOpen (smallManagers.ioOpen nestedArchive linkNames 2 [0x2f,0x66] [] 0 ⟨true,true⟩ true)
      (smallManagers.ioOpen nestedArchive linkNames 2 [0x2f,0x6e] [] 0 ⟨true,true⟩ true) := by
  refine (open_link nestedArchive linkNames smallManagers 2 [0x2f,0x66] [0x2f,0x6e] [] [] 0 ⟨true,true⟩
    true (by decide)
    (by decide) rfl rfl (by decide) (by decide) (by decide)).mpr ?_
  intro lead resolved _
  have device : linkNames.resolve [0x2f,0x6e] = .ok ⟨pidTaskman,devnullChid,.null,1⟩ := rfl
  rw [device] at resolved
  obtain rfl := Except.ok.inj resolved
  trivial

/-- The archive is searched for `e`, and the file `b/a` is not found through the link. -/
theorem open_link_misses :
    ¬∀ (cfg : Config) (a : Archive) (names : Names) (x : Managers cfg) (caller : Pid)
      (path target left left' : List Byte)
      (stale : Nat) (k : AttachKernel) (deleted : Bool), path ≠ [] → path.length < 128 → names.expand path =
        some target →
      names.expand target = none → target ≠ [] → target.length < 128 → (0 : Byte) ∉ target →
      SameOpen (x.ioOpen a names caller path left stale k deleted)
        (x.ioOpen a names caller target left' stale k deleted) := by
  intro transparent
  have same := (transparent small nestedArchive linkNames smallManagers 2 [0x2f,0x65] [0x2f,0x62,0x2f,0x61] [] []
    0 ⟨true,true⟩
    true (by decide) (by decide) rfl rfl (by decide) (by decide) (by decide)).1
  have missed : (smallManagers.ioOpen nestedArchive linkNames 2 [0x2f,0x65] [] 0 ⟨true,true⟩
    true).2.toOption.isSome =
      false := by decide +kernel
  have opened : (smallManagers.ioOpen nestedArchive linkNames 2 [0x2f,0x62,0x2f,0x61] [] 0 ⟨true,true⟩
      true).2.toOption.isSome = true := by decide +kernel
  rw [same,opened] at missed
  cases missed

end Qsoe.Path
