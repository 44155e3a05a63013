import Qsoe.Taskman.Blocks

/-! Who owns the pp_ut blocks. A spawn stages its blocks before the process has a record, an image
that is read has blocks of its own, and mmap grows the array of its caller; between two requests
each block is free, dropped or in the array of one process that has not ended. -/
namespace Qsoe.Taskman

variable {cfg : Config}

structure Depot (cfg : Config) where
  reg : State cfg
  arena : Arena

/-- The retypes of a spawn: the page table of the scratch window, should it be missing, the read
buffer and the process. -/
structure SpawnRetypes where
  scratch : List Retype
  reading : List Retype
  spawning : List Retype
  deriving DecidableEq, Repr

inductive Errand where
  | registry (r : Request) (rs : SpawnRetypes)
  | mmap (phys : Bool) (rs : List Retype)
  | allocPhys (rs : List Retype)
  deriving DecidableEq, Repr

/-- `fs_loaded`. -/
def Image.fsLoaded : Image → Bool
  | .mounted .. => true
  | _ => false

namespace Depot

/-- Registering a process clears the count of its record. -/
def settle (d : Depot cfg) (next : State cfg) : Depot cfg :=
  { reg := next
    arena := { d.arena with shelves := fun
      | .record i =>
        if (d.reg.processes i).isNone && (next.processes i).isSome then [] else d.arena.shelves (.record i)
      | sh => d.arena.shelves sh } }

def spawnFsUnload (d : Depot cfg) : Depot cfg :=
  { d with arena := (d.arena.pputReleaseList (d.arena.shelves .image)).setShelf .image [] }

/-- Every way it fails is `ENOENT` to `tm_process_create_by_name`. -/
def spawnFsLoad (d : Depot cfg) (rs : SpawnRetypes) : Image → Depot cfg × Except Errno Unit
  | .absent => (d,.error .enoent)
  | .archive => (d,.ok ())
  | .mounted server chid k read deleted =>
    let ready := d.arena.retypes .image rs.scratch
    match d.reg.connectAttach pidTaskman server chid 0 0 k with
    | (refused,.error _) => (⟨refused,ready⟩,.error .enoent)
    | (made,.ok (slot,_)) =>
      let closed := (made.connectDetach pidTaskman slot 0 deleted).1
      match ready.pputSpawnBegin .image with
      | none => (⟨closed,ready⟩,.error .enoent)
      | some begun =>
        let done : Depot cfg := ⟨closed,(begun.retypes .image rs.reading).pputEnd⟩
        if read then (done,.ok ()) else (done.spawnFsUnload,.error .enoent)

def unload (d : Depot cfg) (image : Image) : Depot cfg := if image.fsLoaded then d.spawnFsUnload else d

/-- The staged blocks go to the record of the new process; `staging` is gone with its frame. -/
def hand (d : Depot cfg) (pid : Pid) : Depot cfg :=
  match d.reg.processLookup pid with
  | none => { d with arena := d.arena.setShelf .staging [] }
  | some (i,_) => { d with arena := (d.arena.setShelf (.record i) (d.arena.shelves .staging)).setShelf .staging [] }

def processCreateByName (d : Depot cfg) (k : SpawnKernel) (rs : SpawnRetypes) : Depot cfg × Except Errno Pid :=
  match d.spawnFsLoad rs k.image with
  | (same,.error err) => (same,.error err)
  | (loaded,.ok _) =>
    match loaded.reg.pidAlloc with
    | none => (loaded.unload k.image,.error .enomem)
    | some (issued,pid) =>
      match loaded.arena.pputSpawnBegin .staging with
      | none => ({ loaded.unload k.image with reg := issued.pidFree pid },.error .enomem)
      | some begun =>
        let result := issued.spawn pid k
        let spawned := (Depot.mk issued (begun.retypes (.process pid) rs.spawning)).settle result.1
        let ended := { spawned with arena := spawned.arena.pputEnd }.unload k.image
        match result.2 with
        | .error err =>
          ({ reg := (ended.reg.destroySpace issued.spawned).pidFree pid
             arena := (ended.arena.pputReleaseList (ended.arena.shelves .staging)).setShelf .staging [] },.error err)
        | .ok _ => (ended.hand pid,.ok pid)

def processCreate (d : Depot cfg) (caller : Pid) (k : SpawnKernel) (rs : SpawnRetypes) :
    Depot cfg × Except Errno Pid :=
  match d.processCreateByName k rs with
  | (failed,.error err) => (failed,.error err)
  | (spawned,.ok pid) => ({ spawned with reg := (spawned.reg.processSetParent pid caller).1 },.ok pid)

def processTerminate (d : Depot cfg) (target : Pid) (status : BitVec 32) : Depot cfg :=
  if target = pidTaskman then d
  else match d.reg.processLookup target with
    | none => d
    | some (i,p) =>
      if p.exit ≠ .live then d
      else
        { reg := d.reg.teardown i p status
          arena := (d.arena.pputReleaseList (d.arena.shelves (.record i))).setShelf (.record i) [] }

/-- `mmap_anonymous` between `tm_pput_proc_begin` and `tm_pput_end`. -/
def mmapAnonymous (d : Depot cfg) (i : Fin maxProcesses) (caller : Pid) (rs : List Retype) : Depot cfg :=
  { d with arena := ((d.arena.pputProcBegin i).retypes (.process caller) rs).pputEnd }

/-- A physical mapping retypes its page table outside the bracket. -/
def mmapServe (d : Depot cfg) (caller : Pid) (phys : Bool) (rs : List Retype) : Depot cfg :=
  match d.reg.processLookup caller with
  | none => d
  | some (i,_) =>
    if phys then { d with arena := d.arena.retypes (.process caller) rs } else d.mmapAnonymous i caller rs

def allocPhysServe (d : Depot cfg) (caller : Pid) (rs : List Retype) : Depot cfg :=
  match d.reg.processLookup caller with
  | none => d
  | some (i,_) => d.mmapAnonymous i caller rs

def dispatch (d : Depot cfg) (caller : Pid) (badge : Word) (stale : Nat) : Errand → Depot cfg
  | .registry (.processCreate k) rs => (d.processCreate caller k rs).1
  | .registry (.processTerminate target status) _ => d.processTerminate (terminateTarget caller target) status
  | .registry r rs =>
    { d with arena := d.arena.retypes (.process caller) rs.spawning }.settle (d.reg.dispatch caller badge stale r)
  | .mmap phys rs => d.mmapServe caller phys rs
  | .allocPhys rs => d.allocPhysServe caller rs

def receive (d : Depot cfg) (badge : Word) (stale : Nat) (c : Errand) : Depot cfg :=
  match delivery badge with
  | .fault pid => d.processTerminate pid sigSegv
  | .request caller => d.dispatch caller badge stale c

end Depot

inductive Round where
  | message (badge : Word) (stale : Nat) (c : Errand)
  | copy (i src dst : Nat)
  | delete (i slot : Nat)
  deriving DecidableEq, Repr

def Round.detaches : Round → Bool
  | .message _ _ (.registry (.processDetach _) _) => true
  | _ => false

namespace Depot

def step (d : Depot cfg) : Round → Option (Depot cfg)
  | .message badge stale c => some (d.receive badge stale c)
  | .copy i src dst => (d.reg.copyCap i src dst true).map d.settle
  | .delete i slot => some (d.settle (d.reg.deleteCap i slot))

/-- After boot: `/sbin/init` was spawned without a pp_ut block. -/
def start (s : State cfg) (ram : Nat) : Depot cfg where
  reg := s
  arena := ⟨⟨[],0,ram,Nat.zero_le _⟩,[],fun _ => [],none,none,fun _ => []⟩

/-- No process detaches. -/
def attached (_ : Depot cfg) (r : Round) : Prop := r.detaches = false

instance : DecidableRel (@attached cfg) := fun _ r => inferInstanceAs (Decidable (r.detaches = false))

/-- The array of the record at index `i`. -/
def pput (d : Depot cfg) (i : Fin maxProcesses) : List Nat := d.arena.shelves (.record i)

def owned (d : Depot cfg) : Option (Fin maxProcesses) → List Nat
  | none => d.arena.pool.free
  | some i => d.pput i

/-- Where the blocks are between two requests. -/
structure OneOwner (d : Depot cfg) : Prop where
  one : ∀ b, b < d.arena.pool.carved → b ∉ d.arena.dropped →
    (∃! place, b ∈ d.owned place) ∧ ∀ place, (d.owned place).count b ≤ 1
  living : ∀ i, d.pput i ≠ [] → ∃ p, d.reg.processes i = some p ∧ p.exit = .live
  bounded : ∀ i, (d.pput i).length ≤ ppUtPerProc
  idle : d.arena.cur = none ∧ d.arena.list = none
  charged : ∀ i p b t, d.reg.processes i = some p → b ∈ d.pput i → t ∈ d.arena.tenants b → t = .process p.pid
  clean : ∀ b ∈ d.arena.pool.free, d.arena.tenants b = []

def tenant (people : Slab.Table maxProcesses Person) (staged : Pid) : Shelf → Tenant
  | .staging => .process staged
  | .image => .image
  | .record i => .process (((people i).map Person.pid).getD 0)

/-- Inside a request that spawns `staged`. -/
structure Kept (staged : Pid) (d : Depot cfg) : Prop where
  sound : d.arena.Sound (tenant d.reg.roster.people staged)
  housed : ∀ i, d.arena.shelves (.record i) ≠ [] → ∃ p, d.reg.roster.people i = some p ∧ p.exit = .live

structure Idle (d : Depot cfg) : Prop where
  cur : d.arena.cur = none
  list : d.arena.list = none
  staging : d.arena.shelves .staging = []

structure Rest (d : Depot cfg) : Prop extends Idle d where
  kept : Kept 0 d
  image : d.arena.shelves .image = []

variable {d d' : Depot cfg} {staged : Pid} {next : State cfg} {sh : Shelf} {b ram : Nat} {s : State cfg}
    {rounds : List Round} {place place' : Option (Fin maxProcesses)} {pid caller : Pid} {r : Round}
    {i : Fin maxProcesses}

def Spared (d : Depot cfg) (r : Roster) : Prop :=
  ∀ i p, d.arena.shelves (.record i) ≠ [] → d.reg.roster.people i = some p → p.exit = .live →
    ∃ q, r.people i = some q ∧ q.pid = p.pid ∧ q.exit = .live

theorem spared_of_people {r : Roster} (same : r.people = d.reg.roster.people) : Spared d r := by
  intro i p _ used live
  exact ⟨p,by rw [same,used],rfl,live⟩

theorem Kept.register (kept : Kept staged d) (spared : Spared d next.roster) :
    Kept staged { d with reg := next } := by
  refine ⟨?_,?_⟩
  · apply kept.sound.mono
    intro sh full
    cases sh with
    | staging => rfl
    | image => rfl
    | record i =>
      obtain ⟨p,used,live⟩ := kept.housed i full
      obtain ⟨q,used',same,-⟩ := spared i p full used live
      simp [tenant,used,used',same]
  · intro i full
    obtain ⟨p,used,live⟩ := kept.housed i full
    obtain ⟨q,used',-,live'⟩ := spared i p full used live
    exact ⟨q,used',live'⟩

/-- A record that is not in use has no blocks to forget. -/
theorem Kept.settle (kept : Kept staged d) (next : State cfg) : d.settle next = { d with reg := next } := by
  have same : (d.settle next).arena.shelves = d.arena.shelves := by
    funext sh
    cases sh with
    | staging => rfl
    | image => rfl
    | record i =>
      simp only [Depot.settle]
      split
      · rename_i fresh
        by_contra full
        obtain ⟨p,used,-⟩ := kept.housed i (Ne.symm full)
        have unused : d.reg.processes i = none := by simpa using (Bool.and_eq_true_iff.mp fresh).1
        simp [State.roster,Slab.map,unused] at used
      · rfl
  have arena : (d.settle next).arena = d.arena := by
    calc (d.settle next).arena = { d.arena with shelves := (d.settle next).arena.shelves } := rfl
      _ = d.arena := by rw [same]
  calc d.settle next = ⟨next,(d.settle next).arena⟩ := rfl
    _ = ⟨next,d.arena⟩ := by rw [arena]

theorem Rest.stage (rest : Rest d) (staged : Pid) : Kept staged d := by
  refine ⟨rest.kept.sound.mono ?_,rest.kept.housed⟩
  intro sh full
  cases sh with
  | staging => exact absurd rest.staging full
  | image => rfl
  | record i => rfl

theorem Rest.register (rest : Rest d) (spared : Spared d next.roster) : Rest (d.settle next) := by
  rw [rest.kept.settle]
  exact { rest with kept := rest.kept.register spared }

theorem Kept.release (kept : Kept staged d) (idle : d.arena.cur = none) (sh : Shelf) :
    Kept staged { d with arena := (d.arena.pputReleaseList (d.arena.shelves sh)).setShelf sh [] } := by
  have whole : d.arena.setShelf sh (d.arena.shelves sh) = d.arena := by
    rw [Arena.setShelf,Function.update_eq_self]
  refine ⟨?_,?_⟩
  · apply Arena.Sound.pputReleaseList ?_ idle
    rw [whole]
    exact kept.sound
  · intro i full
    apply kept.housed i
    by_cases own : Shelf.record i = sh
    · subst own
      exact absurd (Arena.setShelf_shelves ..) full
    · rw [Arena.setShelf_other _ own,Arena.releaseList_shelves] at full
      exact full

theorem Rest.processTerminate (rest : Rest d) (target : Pid) (status : BitVec 32) :
    Rest (d.processTerminate target status) := by
  unfold Depot.processTerminate
  split
  · exact rest
  · split
    · exact rest
    · rename_i i p found
      split
      · exact rest
      · have released := rest.kept.release rest.cur (.record i)
        have pointers := d.arena.releaseList_idle (d.arena.shelves (.record i))
        refine ⟨⟨pointers.1.trans rest.cur,pointers.2.trans rest.list,?_⟩,?_,?_⟩
        · rw [Arena.setShelf_other _ (by simp),Arena.releaseList_shelves]
          exact rest.staging
        · apply released.register
          intro k q full used live
          have other : k ≠ i := by
            rintro rfl
            exact full (Arena.setShelf_shelves ..)
          refine ⟨q,?_,rfl,live⟩
          rw [State.teardown_roster,Roster.finish_other other]
          exact used
        · rw [Arena.setShelf_other _ (by simp),Arena.releaseList_shelves]
          exact rest.image

/-- An image is read, or none is: its blocks are in the array of the load. -/
structure Loaded (d d' : Depot cfg) : Prop extends Idle d' where
  kept : ∀ staged, Kept staged d'
  roster : d'.reg.roster = d.reg.roster

theorem Kept.spawnFsUnload (kept : Kept staged d) (idle : d.arena.cur = none) : Kept staged d.spawnFsUnload :=
  kept.release idle .image

theorem unload_image (d : Depot cfg) : d.spawnFsUnload.arena.shelves .image = [] := Arena.setShelf_shelves ..

theorem unload_other (d : Depot cfg) (other : sh ≠ .image) :
    d.spawnFsUnload.arena.shelves sh = d.arena.shelves sh := by
  rw [Depot.spawnFsUnload,Arena.setShelf_other _ other,Arena.releaseList_shelves]

theorem unload_pointers (d : Depot cfg) :
    d.spawnFsUnload.arena.cur = d.arena.cur ∧ d.spawnFsUnload.arena.list = d.arena.list :=
  d.arena.releaseList_idle _

theorem Rest.spawnFsLoad (rest : Rest d) (rs : SpawnRetypes) (image : Image) :
    (∃ err, (d.spawnFsLoad rs image).2 = .error err ∧ Rest (d.spawnFsLoad rs image).1) ∨
    (d.spawnFsLoad rs image).2 = .ok () ∧ Loaded d (d.spawnFsLoad rs image).1 ∧
      (image.fsLoaded = false → (d.spawnFsLoad rs image).1.arena.shelves .image = []) := by
  cases image with
  | absent => exact .inl ⟨_,rfl,rest⟩
  | archive => exact .inr ⟨rfl,⟨rest.toIdle,rest.stage,rfl⟩,fun _ => rest.image⟩
  | mounted server chid k read deleted =>
    have ready : d.arena.retypes .image rs.scratch = d.arena := Arena.retypes_idle rest.cur ..
    have attached := d.reg.connectAttach_roster pidTaskman server chid 0 0 k
    simp only [Depot.spawnFsLoad,ready]
    rcases attaching : d.reg.connectAttach pidTaskman server chid 0 0 k with ⟨made,err | ⟨slot,ntfn⟩⟩
    all_goals rw [attaching] at attached
    · left
      refine ⟨_,rfl,{ rest with kept := rest.kept.register (spared_of_people ?_) }⟩
      exact congrArg Roster.people attached
    · have closed : (made.connectDetach pidTaskman slot 0 deleted).1.roster = d.reg.roster :=
        (made.connectDetach_roster pidTaskman slot 0 deleted).trans attached
      have spared : Spared d (made.connectDetach pidTaskman slot 0 deleted).1.roster :=
        spared_of_people (congrArg Roster.people closed)
      dsimp only
      cases begun : d.arena.pputSpawnBegin .image with
      | none => exact .inl ⟨_,rfl,{ rest with kept := rest.kept.register spared }⟩
      | some arena =>
        obtain ⟨opened,first⟩ := rest.kept.sound.pputSpawnBegin rest.image begun
        obtain ⟨filled,more⟩ := opened.retypes first.list rs.reading
        have serves := first.trans more
        have kept : Kept 0 (Depot.mk d.reg (arena.retypes .image rs.reading).pputEnd) := by
          refine ⟨filled.pputEnd,?_⟩
          intro i full
          have same := serves.others (.record i) (by simp)
          exact rest.kept.housed i (same ▸ full)
        have staging : (arena.retypes .image rs.reading).pputEnd.shelves .staging = [] :=
          (serves.others .staging (by simp)).trans rest.staging
        have done := kept.register (spared_of_people (congrArg Roster.people closed))
        dsimp only
        cases read with
        | false =>
          left
          refine ⟨_,rfl,?_⟩
          have pointers := unload_pointers (Depot.mk (made.connectDetach pidTaskman slot 0 deleted).1
            (arena.retypes .image rs.reading).pputEnd)
          refine ⟨⟨pointers.1,pointers.2,?_⟩,done.spawnFsUnload rfl,unload_image _⟩
          exact (unload_other _ (by simp)).trans staging
        | true =>
          right
          refine ⟨rfl,⟨⟨rfl,rfl,staging⟩,?_,closed⟩,fun unread => nomatch unread⟩
          intro staged
          refine ⟨done.sound.mono ?_,done.housed⟩
          intro sh full
          cases sh with
          | staging => exact absurd staging full
          | image => rfl
          | record i => rfl

theorem spared_of_enroll {r : Roster} (enrolled : d.reg.roster.enroll pid = some (i,r)) : Spared d r := by
  obtain ⟨-,-,unused,rfl⟩ := Roster.enroll_lookup enrolled
  intro k p _ used live
  have other : k ≠ i := by
    rintro rfl
    rw [unused] at used
    cases used
  exact ⟨p,(Slab.put_other _ other).trans used,rfl,live⟩

theorem Kept.unload (kept : Kept staged d) (idle : d.arena.cur = none) (image : Image) :
    Kept staged (d.unload image) := by
  unfold Depot.unload
  split
  · exact kept.spawnFsUnload idle
  · exact kept

/-- The image array is empty after the unload, whether or not one was read. -/
structure Unloaded (d d' : Depot cfg) : Prop where
  cur : d'.arena.cur = d.arena.cur
  list : d'.arena.list = d.arena.list
  image : d'.arena.shelves .image = []
  others : ∀ sh, sh ≠ .image → d'.arena.shelves sh = d.arena.shelves sh
  reg : d'.reg = d.reg

theorem unload_unloaded (d : Depot cfg) (image : Image) (unread : image.fsLoaded = false →
    d.arena.shelves .image = []) :
    Unloaded d (d.unload image) := by
  unfold Depot.unload
  split
  · have pointers := unload_pointers d
    exact ⟨pointers.1,pointers.2,unload_image d,fun _ other => unload_other d other,rfl⟩
  · rename_i absent
    exact ⟨rfl,rfl,unread (Bool.eq_false_iff.mpr absent),fun _ _ => rfl,rfl⟩

/-- The staged blocks become the array of the new record. -/
theorem Kept.hand (kept : Kept pid d) (idle : d.arena.cur = none)
    (found : d.reg.roster.lookup pid = some (i,p)) (live : p.exit = .live)
    (empty : d.arena.shelves (.record i) = []) :
    Kept pid (d.hand pid) := by
  obtain ⟨q,hit,rfl⟩ := State.processLookup_of_roster found
  obtain ⟨used,own⟩ := Roster.lookup_some found
  unfold Depot.hand
  rw [hit]
  refine ⟨?_,?_⟩
  · apply kept.sound.hand idle (by simp) empty
    have named : q.pid = pid := own
    simp [tenant,used,named]
  · intro k full
    by_cases new : k = i
    · subst new
      exact ⟨_,used,live⟩
    · apply kept.housed k
      rwa [Arena.setShelf_other _ (by simp),Arena.setShelf_other _ (by simpa using new)] at full

theorem hand_idle (d : Depot cfg) (pid : Pid) (cur : d.arena.cur = none) (list : d.arena.list = none) :
    Idle (d.hand pid) := by
  unfold Depot.hand
  split
  · exact ⟨cur,list,Arena.setShelf_shelves ..⟩
  · exact ⟨cur,list,Arena.setShelf_shelves ..⟩

theorem hand_image (d : Depot cfg) (pid : Pid) : (d.hand pid).arena.shelves .image = d.arena.shelves .image := by
  unfold Depot.hand
  split
  · exact Arena.setShelf_other _ (by simp) _
  · exact (Arena.setShelf_other _ (by simp) _).trans (Arena.setShelf_other _ (by simp) _)

/-- `tm_spawn` has failed: the staged blocks are released. -/
theorem Kept.abandon (kept : Kept pid d) (cur : d.arena.cur = none) (list : d.arena.list = none)
    (image : d.arena.shelves .image = []) (same : next.roster.people = d.reg.roster.people) :
    Rest ⟨next,(d.arena.pputReleaseList (d.arena.shelves .staging)).setShelf .staging []⟩ := by
  have released := kept.release cur .staging
  have pointers := d.arena.releaseList_idle (d.arena.shelves .staging)
  have empty : ((d.arena.pputReleaseList (d.arena.shelves .staging)).setShelf .staging []).shelves .staging = [] :=
    Arena.setShelf_shelves ..
  refine ⟨⟨pointers.1.trans cur,pointers.2.trans list,empty⟩,?_,?_⟩
  · have moved := released.register (spared_of_people same)
    refine ⟨moved.sound.mono ?_,moved.housed⟩
    intro sh full
    cases sh with
    | staging => exact absurd empty full
    | image => rfl
    | record i => rfl
  · rw [Arena.setShelf_other _ (by simp),Arena.releaseList_shelves]
    exact image

/-- `tm_spawn` has registered the process: it gets the staged blocks. -/
theorem Kept.adopt (kept : Kept pid d) (cur : d.arena.cur = none) (list : d.arena.list = none)
    (image : d.arena.shelves .image = []) (found : d.reg.roster.lookup pid = some (i,p)) (live : p.exit = .live)
    (empty : d.arena.shelves (.record i) = []) : Rest (d.hand pid) := by
  have handed := kept.hand cur found live empty
  have idle := hand_idle d pid cur list
  refine ⟨idle,⟨handed.sound.mono ?_,handed.housed⟩,(hand_image d pid).trans image⟩
  intro sh full
  cases sh with
  | staging => exact absurd idle.staging full
  | image => rfl
  | record i => rfl

theorem Rest.processCreateByName (rest : Rest d) (k : SpawnKernel) (rs : SpawnRetypes) :
    Rest (d.processCreateByName k rs).1 := by
  unfold Depot.processCreateByName
  rcases rest.spawnFsLoad rs k.image with ⟨err,failed,same⟩ | ⟨done,loaded,unread⟩
  · rcases loading : d.spawnFsLoad rs k.image with ⟨refused,result⟩
    rw [loading] at failed same
    obtain rfl : result = .error err := failed
    exact same
  · rcases loading : d.spawnFsLoad rs k.image with ⟨d',result⟩
    rw [loading] at done loaded unread
    obtain rfl : result = .ok () := done
    dsimp only at loaded unread ⊢
    have swept := unload_unloaded d' k.image unread
    have back : Rest (d'.unload k.image) := by
      refine ⟨⟨swept.cur.trans loaded.cur,swept.list.trans loaded.list,?_⟩,(loaded.kept 0).unload loaded.cur _,
        swept.image⟩
      exact (swept.others .staging (by simp)).trans loaded.staging
    cases allocating : d'.reg.pidAlloc with
    | none => exact back
    | some hit =>
      obtain ⟨issued,pid⟩ := hit
      have drawn : d'.reg.roster.issue = some (issued.roster,pid) := by
        rw [State.pidAlloc_roster,allocating]
        rfl
      have numbered : issued.roster.people = d'.reg.roster.people := Roster.issue_people drawn
      dsimp only
      cases begun : d'.arena.pputSpawnBegin .staging with
      | none =>
        have spared : Spared (d'.unload k.image) (issued.pidFree pid).roster := by
          apply spared_of_people
          rw [State.pidFree_roster,Roster.release_people,numbered,swept.reg]
        exact { back with kept := back.kept.register spared }
      | some arena =>
        obtain ⟨opened,first⟩ := (loaded.kept pid).sound.pputSpawnBegin loaded.staging begun
        obtain ⟨filled,more⟩ := opened.retypes first.list rs.spawning
        have serves := first.trans more
        have building : Kept pid (Depot.mk d'.reg (arena.retypes (.process pid) rs.spawning)) := by
          refine ⟨filled,?_⟩
          intro i full
          exact (loaded.kept pid).housed i (serves.others (.record i) (by simp) ▸ full)
        have issuing := building.register (spared_of_people numbered)
        have child := issued.spawn_roster pid k
        have spared : Spared (Depot.mk issued (arena.retypes (.process pid) rs.spawning))
            (issued.spawn pid k).1.roster := by
          rcases child with ⟨-,-,same⟩ | ⟨i,enrolled⟩
          · exact spared_of_people (congrArg Roster.people same)
          · exact spared_of_enroll enrolled
        have spawned := issuing.register spared
        have ended : Kept pid (Depot.mk (issued.spawn pid k).1
          (arena.retypes (.process pid) rs.spawning).pputEnd) :=
          ⟨spawned.sound.pputEnd,spawned.housed⟩
        have clear := unload_unloaded (Depot.mk (issued.spawn pid k).1
          (arena.retypes (.process pid) rs.spawning).pputEnd) k.image fun absent =>
            (serves.others .image (by simp)).trans (unread absent)
        have kept := ended.unload rfl k.image
        dsimp only
        rw [issuing.settle]
        cases result : (issued.spawn pid k).2 with
        | error err =>
          apply kept.abandon clear.cur clear.list clear.image
          rw [State.pidFree_roster,Roster.release_people,State.destroySpace_roster]
        | ok _ =>
          rcases child with ⟨e,failed,-⟩ | ⟨i,enrolled⟩
          · rw [failed] at result
            cases result
          · obtain ⟨found,-,unused,-⟩ := Roster.enroll_lookup enrolled
            apply kept.adopt clear.cur clear.list clear.image
            · rw [clear.reg]
              exact found
            · rfl
            · rw [clear.others _ (by simp)]
              by_contra full
              obtain ⟨p,used,-⟩ := issuing.housed i full
              have nobody : issued.roster.people i = some p := used
              rw [unused] at nobody
              cases nobody

theorem Rest.processCreate (rest : Rest d) (caller : Pid) (k : SpawnKernel) (rs : SpawnRetypes) :
    Rest (d.processCreate caller k rs).1 := by
  have made := rest.processCreateByName k rs
  unfold Depot.processCreate
  rcases creating : d.processCreateByName k rs with ⟨d',err | pid⟩
  · rwa [creating] at made
  · rw [creating] at made
    refine { made with kept := made.kept.register ?_ }
    unfold State.processSetParent
    split
    · exact spared_of_people rfl
    · rename_i i c found
      have record := (Slab.find_some (State.lookup_roster_some found)).1
      intro k p _ used live
      rw [State.setProcess_roster]
      by_cases own : k = i
      · subst own
        obtain rfl : c.person = p := Option.some.inj (record.symm.trans used)
        exact ⟨_,Slab.put_same _,rfl,live⟩
      · exact ⟨p,(Slab.put_other _ own).trans used,rfl,live⟩

/-- A process with blocks has not ended, so no `waitpid` reaps it. -/
theorem spared_of_waitpid (d : Depot cfg) (waiter child : Pid) (parked : Bool) :
    Spared d (d.reg.roster.waitpid waiter child parked).1 := by
  rcases d.reg.roster.waitpid_cases waiter child parked with
    ⟨e,failed⟩ | ⟨i,c,found,-,⟨ended,reaped⟩ | ⟨alive,-,set⟩⟩
  · rw [failed]
    exact spared_of_people rfl
  · rw [reaped]
    intro k p _ used live
    have other : k ≠ i := by
      rintro rfl
      obtain rfl : c = p := Option.some.inj ((Roster.lookup_some found).1.symm.trans used)
      exact ended live
    rw [Roster.reap_people]
    exact ⟨p,(Slab.erase_other _ other).trans used,rfl,live⟩
  · rw [set]
    intro k p _ used live
    by_cases own : k = i
    · subst own
      obtain rfl : c = p := Option.some.inj ((Roster.lookup_some found).1.symm.trans used)
      exact ⟨_,Slab.put_same _,rfl,live⟩
    · exact ⟨p,(Slab.put_other _ own).trans used,rfl,live⟩

theorem Rest.mmapAnonymous (rest : Rest d) (found : d.reg.processLookup caller = some (i,p)) (rs : List Retype) :
    Rest (d.mmapAnonymous i caller rs) := by
  have begun := rest.kept.sound.pputProcBegin i
  cases empty : (d.arena.shelves (.record i)).getLast? with
  | none =>
    have same : d.arena.pputProcBegin i = d.arena := by simp [Arena.pputProcBegin,empty]
    have idle : d.arena.pputEnd = d.arena := by simp [Arena.pputEnd,← rest.cur,← rest.list]
    have kept : d.mmapAnonymous i caller rs = d := by
      rw [Depot.mmapAnonymous,same,Arena.retypes_idle rest.cur,idle]
    rw [kept]
    exact rest
  | some last =>
    have list : (d.arena.pputProcBegin i).list = some (.record i) := by simp [Arena.pputProcBegin,empty]
    have shelves : (d.arena.pputProcBegin i).shelves = d.arena.shelves := by simp [Arena.pputProcBegin,empty]
    obtain ⟨used,own⟩ := Roster.lookup_some (State.lookup_roster_some found)
    have named : p.pid = caller := own
    have whom : tenant d.reg.roster.people 0 (.record i) = .process caller := by simp [tenant,used,named]
    obtain ⟨grown,serves⟩ := begun.retypes list rs
    rw [whom] at grown serves
    have others : ∀ sh, sh ≠ .record i → (d.mmapAnonymous i caller rs).arena.shelves sh = d.arena.shelves sh := by
      intro sh other
      exact (serves.others sh other).trans (congrFun shelves sh)
    refine ⟨⟨rfl,rfl,?_⟩,⟨grown.pputEnd,?_⟩,?_⟩
    · exact (others .staging (by simp)).trans rest.staging
    · intro k full
      apply rest.kept.housed k
      by_cases same : k = i
      · subst same
        intro bare
        simp [bare] at empty
      · rwa [others (.record k) (by simpa using same)] at full
    · exact (others .image (by simp)).trans rest.image

theorem Rest.retypes (rest : Rest d) (t : Tenant) (rs : List Retype) :
    { d with arena := d.arena.retypes t rs } = d := by
  rw [Arena.retypes_idle rest.cur]

theorem Rest.dispatch (rest : Rest d) (caller : Pid) (badge : Word) (stale : Nat) (c : Errand)
    (attached : ∀ status rs, c ≠ .registry (.processDetach status) rs) :
      Rest (d.dispatch caller badge stale c) := by
  cases c with
  | registry r rs =>
    cases quiet : r.enrolls with
    | false =>
      have same : d.dispatch caller badge stale (.registry r rs) =
        d.settle (d.reg.dispatch caller badge stale r) := by
        have idle := rest.retypes (.process caller) rs.spawning
        cases r with
        | processCreate k => cases quiet
        | processTerminate target status => cases quiet
        | _ => exact congrArg (fun d' : Depot cfg => d'.settle _) idle
      rw [same]
      apply rest.register
      exact spared_of_people (congrArg Roster.people (dispatch_quiet d.reg caller badge stale r quiet))
    | true =>
      cases r with
      | processCreate k => exact rest.processCreate caller k rs
      | processTerminate target status => exact rest.processTerminate _ status
      | processDetach status => exact absurd rfl (attached status rs)
      | waitpid child parked =>
        have same : _ = (d.reg.processWaitpid caller child parked).1.roster :=
          congrArg Prod.fst (d.reg.processWaitpid_roster caller child parked)
        simp only [Depot.dispatch,rest.retypes,State.dispatch]
        apply rest.register
        rw [← same]
        exact spared_of_waitpid d caller child parked
      | _ => cases quiet
  | mmap phys rs =>
    simp only [Depot.dispatch,Depot.mmapServe]
    split
    · exact rest
    · rename_i i p found
      split
      · rw [rest.retypes]
        exact rest
      · exact rest.mmapAnonymous found rs
  | allocPhys rs =>
    simp only [Depot.dispatch,Depot.allocPhysServe]
    split
    · exact rest
    · rename_i i p found
      exact rest.mmapAnonymous found rs

theorem Rest.step (rest : Rest d) (allowed : attached d r) (taken : d.step r = some d') : Rest d' := by
  cases r with
  | message badge stale c =>
    obtain rfl : d.receive badge stale c = d' := by simpa [Depot.step] using taken
    unfold Depot.receive
    split
    · exact rest.processTerminate _ _
    · apply rest.dispatch
      rintro status rs rfl
      simp [attached,Round.detaches] at allowed
  | copy i src dst =>
    obtain ⟨next,copied,rfl⟩ := Option.map_eq_some_iff.mp taken
    exact rest.register (spared_of_people (congrArg Roster.people (State.copyCap_roster copied)))
  | delete i slot =>
    obtain rfl : d.settle (d.reg.deleteCap i slot) = d' := by simpa [Depot.step] using taken
    exact rest.register (spared_of_people (congrArg Roster.people (State.deleteCap_roster ..)))

theorem start_rest (s : State cfg) (ram : Nat) : Rest (start s ram) := by
  refine ⟨⟨rfl,rfl,rfl⟩,⟨⟨?_,?_,?_,?_,?_,?_⟩,?_⟩,rfl⟩
  · intro b below
    exact absurd below (Nat.not_lt_zero b)
  · intro b _
    simp [Arena.tally,start]
  · intro sh
    exact Nat.zero_le _
  · intro b _
    rfl
  · intro sh b member
    cases member
  · intro b current
    cases current
  · intro i full
    exact absurd rfl full

/-- A block that was carved and not dropped is in an array, or free. -/
theorem Rest.placed (rest : Rest d) (below : b < d.arena.pool.carved) (kept : b ∉ d.arena.dropped) :
    ∃ place, b ∈ d.owned place := by
  have once := rest.kept.sound.once b below
  by_cases free : b ∈ d.arena.pool.free
  · exact ⟨none,free⟩
  · unfold Arena.tally at once
    rw [List.count_eq_zero.mpr free,List.count_eq_zero.mpr kept] at once
    have there : ∑ sh, (d.arena.shelves sh).count b ≠ 0 := by omega
    obtain ⟨sh,-,held⟩ := Finset.exists_ne_zero_of_sum_ne_zero there
    have member : b ∈ d.arena.shelves sh := List.count_pos_iff.mp (Nat.pos_of_ne_zero held)
    cases sh with
    | staging =>
      rw [rest.staging] at member
      cases member
    | image =>
      rw [rest.image] at member
      cases member
    | record i => exact ⟨some i,member⟩

theorem Rest.place_unique (rest : Rest d) (here : b ∈ d.owned place) (there : b ∈ d.owned place') :
    place' = place := by
  cases place with
  | none =>
    cases place' with
    | none => rfl
    | some k => exact absurd here (rest.kept.sound.carved there).2
  | some i =>
    cases place' with
    | none => exact absurd there (rest.kept.sound.carved here).2
    | some k =>
      have same := rest.kept.sound.one_shelf here there
      rw [Shelf.record.inj same]

theorem Rest.place_once (rest : Rest d) (below : b < d.arena.pool.carved) (place : Option (Fin maxProcesses)) :
    (d.owned place).count b ≤ 1 := by
  have once := rest.kept.sound.once b below
  unfold Arena.tally at once
  cases place with
  | none =>
    show d.arena.pool.free.count b ≤ 1
    omega
  | some i =>
    have part := d.arena.count_le_sum (.record i) b
    show (d.arena.shelves (.record i)).count b ≤ 1
    omega

/-- From registries without blocks, whatever requests but a detach are served: each block that
was carved and not dropped has one owner, a process that has not ended or the free list, and
holds objects of that process only; no array is over its size and no context is left active. -/
theorem blocks_have_one_owner (run : Lts.Run step attached (start s ram) rounds d) : OneOwner d := by
  have rest : Rest d := run.invariant Rest (fun _ _ _ rest allowed taken => rest.step allowed taken)
    (start_rest s ram)
  refine ⟨?_,?_,fun i => rest.kept.sound.room (.record i),⟨rest.cur,rest.list⟩,?_,?_⟩
  · intro b below kept
    obtain ⟨place,member⟩ := rest.placed below kept
    exact ⟨⟨place,member,fun _ there => rest.place_unique member there⟩,rest.place_once below⟩
  · intro i full
    obtain ⟨person,used,live⟩ := rest.kept.housed i full
    obtain ⟨p,record,rfl⟩ := Option.map_eq_some_iff.mp used
    exact ⟨p,record,live⟩
  · intro i p b t used member lodged
    have whom := rest.kept.sound.lets (.record i) b member t lodged
    have person : d.reg.roster.people i = some p.person := by simp [State.roster,Slab.map,used]
    simpa [tenant,person] using whom
  · intro b free
    exact rest.kept.sound.vacant b (.inl free)

/-- A spawn from a mounted file system grows both its arrays, and the new process maps memory:
it owns three of the four blocks, and the read buffer's other one is free again. -/
theorem blocks_have_one_owner_spawned : ∃ d, Lts.Run step attached (start smallBoot 9)
      [.message 2 0 (.registry (.processCreate
          { bootSpawn with image := .mounted pidTaskman consoleChid ⟨true,true⟩ true true })
          ⟨[⟨true,true⟩],[⟨true,true⟩,⟨false,true⟩],[⟨true,true⟩,⟨false,true⟩]⟩),
        .message 3 0 (.mmap false [⟨false,true⟩])] d ∧
    d.pput (2 : Fin 128) = [2,3,1] ∧ d.arena.pool.free = [0] ∧ OneOwner d := by
  obtain ⟨d,run,blocks,free⟩ := Lts.Run.exists_of_replay step attached (start smallBoot 9)
    [.message 2 0 (.registry (.processCreate
        { bootSpawn with image := .mounted pidTaskman consoleChid ⟨true,true⟩ true true })
        ⟨[⟨true,true⟩],[⟨true,true⟩,⟨false,true⟩],[⟨true,true⟩,⟨false,true⟩]⟩),
      .message 3 0 (.mmap false [⟨false,true⟩])]
    (fun d => d.pput (2 : Fin 128) = [2,3,1] ∧ d.arena.pool.free = [0]) (by decide +kernel)
  exact ⟨d,run,blocks,free,blocks_have_one_owner run⟩

end Depot

end Qsoe.Taskman
