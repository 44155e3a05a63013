import Qsoe.Taskman.Frame

/-! What the lifecycle calls of `process.c` read and write: who is in the process table, whose
child it is, how it ended and whether somebody waits for it, with the pid allocator. Each
lifecycle call acts on this view alone and every other handler leaves it as it is. -/
namespace Qsoe.Taskman

variable {cfg : Config} {s t : State cfg}

structure Person where
  pid : Pid
  parent : Pid
  exit : Exit
  status : BitVec 32
  waiter : Bool
  deriving DecidableEq, Repr

@[simps]
def Process.person (p : Process) : Person := ⟨p.pid,p.parent,p.exit,p.status,p.waiter⟩

structure Roster where
  people : Slab.Table maxProcesses Person
  freePids : List Pid
  nextPid : Nat

def State.roster (s : State cfg) : Roster := ⟨Slab.map Process.person s.processes,s.freePids,s.nextPid⟩

theorem State.person_there {s : State cfg} (used : s.processes i = some p) : s.roster.people i = some p.person := by
  show (s.processes i).map Process.person = _
  rw [used,Option.map_some]

namespace Roster

def lookup (r : Roster) (pid : Pid) : Option (Fin maxProcesses × Person) :=
  Slab.find r.people fun p => p.pid == pid

def set (r : Roster) (i : Fin maxProcesses) (p : Person) : Roster :=
  { r with people := Slab.put r.people i p }

def issue (r : Roster) : Option (Roster × Pid) :=
  match r.freePids with
  | pid :: rest => some ({ r with freePids := rest },pid)
  | [] =>
    if maxProcesses ≤ r.nextPid then none
    else some ({ r with nextPid := r.nextPid + 1 },BitVec.ofNat 32 r.nextPid)

def release (r : Roster) (pid : Pid) : Roster :=
  if pid.toInt ≤ pidTaskman.toInt then r
  else if r.freePids.length < maxProcesses then { r with freePids := pid :: r.freePids }
  else r

/-- The record `tm_process_register` writes, with its index. -/
def enroll (r : Roster) (pid : Pid) : Option (Fin maxProcesses × Roster) :=
  match r.lookup pid with
  | some _ => none
  | none => (Slab.free r.people).map fun i => (i,r.set i ⟨pid,pidTaskman,.live,0,false⟩)

def detach (r : Roster) (pid : Pid) (status : BitVec 32) : Roster :=
  match r.lookup pid with
  | none => r
  | some (i,p) =>
    if p.exit ≠ .live then r
    else r.set i { p with exit := .detached, status := status, waiter := false, parent := pidTaskman }

def reap (r : Roster) (i : Fin maxProcesses) (pid : Pid) : Roster :=
  { r with people := Slab.erase r.people i }.release pid

def waitpid (r : Roster) (waiter child : Pid) (parked : Bool) :
    Roster × Except Errno (Option (BitVec 32)) :=
  match r.lookup child with
  | none => (r,.error .echild)
  | some (i,c) =>
    if c.parent ≠ waiter then (r,.error .echild)
    else if c.exit ≠ .live then (r.reap i child,.ok (some c.status))
    else if parked then (r.set i { c with waiter := true },.ok none)
    else (r,.error .enomem)

def parentCanReap (r : Roster) (parent : Pid) : Bool :=
  match r.lookup parent with
  | none => false
  | some (_,par) => par.exit == .live && parent != pidTaskman

/-- The end of a live process: reaped at once or left for its parent. -/
def finish (r : Roster) (i : Fin maxProcesses) (p : Person) (status : BitVec 32) : Roster :=
  let ended := r.set i { p with exit := .zombie, status := status, waiter := false }
  if p.waiter ∨ ended.parentCanReap p.parent = false then ended.reap i p.pid else ended

/-- How `TM_REQ_PROCESS_CREATE` can end: before a pid is drawn, with the pid given back, with
the pid given back but the record left, or with a child of `caller`. -/
inductive Spawns (caller : Pid) : Roster → Roster → Except Errno Pid → Prop where
  | refused : Spawns caller r r (.error e)
  | unwound : r.issue = some (issued,pid) → Spawns caller r (issued.release pid) (.error e)
  | stranded : r.issue = some (issued,pid) → issued.enroll pid = some (i,added) →
      Spawns caller r (added.release pid) (.error e)
  | spawned : r.issue = some (issued,pid) → issued.enroll pid = some (i,added) →
      Spawns caller r (added.set i ⟨pid,caller,.live,0,false⟩) (.ok pid)

def terminate (r : Roster) (target : Pid) (status : BitVec 32) : Roster :=
  if target = pidTaskman then r
  else match r.lookup target with
    | none => r
    | some (i,p) => if p.exit ≠ .live then r else r.finish i p status

end Roster

namespace State

@[simp] theorem setProcess_roster (s : State cfg) (i : Fin maxProcesses) (p : Process) :
    (s.setProcess i p).roster = s.roster.set i p.person := by
  simp [setProcess,roster,Roster.set,Slab.map_put]

theorem lookup_roster (s : State cfg) (pid : Pid) :
    s.roster.lookup pid = (s.processLookup pid).map fun hit => (hit.1,hit.2.person) :=
  Slab.find_map ..

theorem lookup_roster_some (found : s.processLookup pid = some (i,p)) :
    s.roster.lookup pid = some (i,p.person) := by
  simp [lookup_roster,found]

theorem lookup_roster_none (missing : s.processLookup pid = none) : s.roster.lookup pid = none := by
  simp [lookup_roster,missing]

theorem processLookup_of_roster (found : s.roster.lookup pid = some (i,c)) :
    ∃ p, s.processLookup pid = some (i,p) ∧ p.person = c := by
  rw [lookup_roster] at found
  obtain ⟨⟨k,p⟩,hit,same⟩ := Option.map_eq_some_iff.mp found
  obtain ⟨rfl,rfl⟩ : k = i ∧ p.person = c := by simpa using same
  exact ⟨p,hit,rfl⟩

@[simp] theorem pidFree_roster (s : State cfg) (pid : Pid) :
    (s.pidFree pid).roster = s.roster.release pid := by
  unfold pidFree Roster.release
  split
  · rfl
  · by_cases room : s.freePids.length < maxProcesses <;> simp [roster,room]

theorem pidAlloc_roster (s : State cfg) :
    s.roster.issue = s.pidAlloc.map fun hit => (hit.1.roster,hit.2) := by
  unfold pidAlloc Roster.issue
  cases free : s.freePids with
  | cons pid rest => simp [roster,free]
  | nil => by_cases full : maxProcesses ≤ s.nextPid <;> simp [roster,free,full]

@[simp] theorem reap_roster (s : State cfg) (i : Fin maxProcesses) (pid : Pid) :
    (s.reap i pid).roster = s.roster.reap i pid := by
  rw [reap,pidFree_roster,Roster.reap]
  simp [roster,Slab.map_erase]

theorem processRegister_roster (s : State cfg) (pid : Pid) (cnode slot : Nat) :
    (s.roster.enroll pid = none ∧ (s.processRegister pid cnode slot).1 = s ∧
      ∃ e, (s.processRegister pid cnode slot).2 = .error e) ∨
    ∃ i, s.roster.enroll pid = some (i,(s.processRegister pid cnode slot).1.roster) ∧
      (s.processRegister pid cnode slot).2 = .ok () := by
  unfold processRegister Roster.enroll
  cases found : s.processLookup pid with
  | some hit => exact .inl ⟨by simp [lookup_roster,found],rfl,_,rfl⟩
  | none =>
    have same : Slab.free s.roster.people = Slab.free s.processes := Slab.free_map ..
    cases free : Slab.free s.processes with
    | none => exact .inl ⟨by simp [lookup_roster,found,same,free],rfl,_,rfl⟩
    | some i => exact .inr ⟨i,by simp [lookup_roster,found,same,free,Process.person],rfl⟩

@[simp] theorem processDetach_roster (s : State cfg) (pid : Pid) (status : BitVec 32) :
    (s.processDetach pid status).1.roster = s.roster.detach pid status := by
  unfold processDetach Roster.detach
  cases found : s.processLookup pid with
  | none => simp [lookup_roster,found]
  | some hit =>
    rw [lookup_roster_some found]
    by_cases live : hit.2.exit = .live <;> simp [Process.person,live]

theorem processWaitpid_roster (s : State cfg) (waiter child : Pid) (parked : Bool) :
    s.roster.waitpid waiter child parked =
      ((s.processWaitpid waiter child parked).1.roster,(s.processWaitpid waiter child parked).2) := by
  unfold processWaitpid Roster.waitpid
  cases found : s.processLookup child with
  | none => simp [lookup_roster,found]
  | some hit =>
    rw [lookup_roster_some found]
    by_cases mine : hit.2.parent = waiter
    · by_cases live : hit.2.exit = .live
      · cases parked <;> simp [Process.person,mine,live]
      · simp [Process.person,mine,live]
    · simp [Process.person,mine]

@[simp] theorem destroySpace_roster (s : State cfg) (i : Nat) : (s.destroySpace i).roster = s.roster := by
  simp only [roster,destroySpace,setSpace,Roster.mk.injEq,and_true]
  funext k
  cases record : s.processes k with
  | none => simp [Slab.map,record]
  | some p => by_cases there : p.space = some i <;> simp [Slab.map,record,there,Process.person]

@[simp] theorem releaseSpace_roster (s : State cfg) (space : Option Nat) :
    (s.releaseSpace space).roster = s.roster := by
  cases space with
  | none => rfl
  | some i => exact destroySpace_roster s i

theorem parentCanReap_roster (s : State cfg) (parent : Pid) :
    s.parentCanReap parent = s.roster.parentCanReap parent := by
  unfold parentCanReap Roster.parentCanReap
  cases found : s.processLookup parent with
  | none => simp [lookup_roster,found]
  | some hit => simp [lookup_roster,found,Process.person]

@[simp] theorem teardown_roster (s : State cfg) (i : Fin maxProcesses) (p : Process) (status : BitVec 32) :
    (s.teardown i p status).roster = s.roster.finish i p.person status := by
  have ended : (s.endProcess i p status).roster =
      s.roster.set i { p.person with exit := .zombie, status := status, waiter := false } := by
    simp [endProcess,Process.person]
  have bare : ((((s.endProcess i p status).dropChannels p.pid).connectionsDropForPid p.pid).releaseSpace
      p.space).roster = (s.endProcess i p status).roster := releaseSpace_roster ..
  rw [ended] at bare
  simp only [teardown,Roster.finish,parentCanReap_roster,bare,Process.person_waiter,
    Process.person_parent,Process.person_pid]
  split
  · rw [reap_roster,bare]
    rfl
  · exact bare

@[simp] theorem processTerminate_roster (s : State cfg) (target : Pid) (status : BitVec 32) :
    (s.processTerminate target status).1.roster = s.roster.terminate target status := by
  unfold processTerminate Roster.terminate
  by_cases own : target = pidTaskman
  · simp [own]
  · cases found : s.processLookup target with
    | none => simp [own,lookup_roster,found]
    | some hit =>
      rw [lookup_roster_some found]
      by_cases live : hit.2.exit = .live <;> simp [own,live,Process.person]

@[simp] theorem processAllocSlot_roster (s : State cfg) (pid : Pid) :
    (s.processAllocSlot pid).1.roster = s.roster := by
  unfold processAllocSlot
  cases found : s.processLookup pid with
  | none => rfl
  | some hit =>
    have same := Slab.map_put_same (b := { hit.2 with nextSlot := hit.2.nextSlot + 1 }) Process.person
      (Slab.find_some found).1 rfl
    simpa [roster,setProcess] using same

theorem mint_roster (minted : s.mint cnode slot c granted = some t) : t.roster = s.roster := by
  unfold mint at minted
  split at minted
  · split at minted
    · obtain rfl := Option.some.inj minted
      rfl
    · cases minted
  · cases minted

@[simp] theorem deleteCap_roster (s : State cfg) (cnode slot : Nat) :
    (s.deleteCap cnode slot).roster = s.roster := by
  unfold deleteCap
  split <;> rfl

theorem copyCap_roster (copied : s.copyCap cnode src dst granted = some t) : t.roster = s.roster := by
  unfold copyCap at copied
  split at copied
  · exact mint_roster copied
  · cases copied

@[simp] theorem assignChid_roster (s : State cfg) (chid flags : BitVec 32) :
    (s.assignChid chid flags).1.roster = s.roster := by
  unfold assignChid
  split <;> rfl

@[simp] theorem channelCreate_roster (s : State cfg) (owner : Pid) (chid flags : BitVec 32) (stale : Nat)
    (k : CreateKernel) : (s.channelCreate owner chid flags stale k).1.roster = s.roster := by
  have named := assignChid_roster s chid flags
  have drawn := (processAllocSlot_roster (s.assignChid chid flags).1 owner).trans named
  unfold channelCreate
  split
  · rfl
  · dsimp only
    split
    · exact named
    · split
      · exact named
      · split
        · exact named
        · split
          · exact drawn
          · rename_i minted
            exact (mint_roster minted).trans drawn

@[simp] theorem connectionRegisterExisting_roster (s : State cfg) (pid : Pid) (slot : Nat)
    (idx : Fin cfg.channels) (σ : Source) (flags : BitVec 32) :
    (s.connectionRegisterExisting pid slot idx σ flags).1.roster = s.roster := by
  unfold connectionRegisterExisting
  split
  · rfl
  · split <;> rfl

@[simp] theorem connectionCloneForDup_roster (s : State cfg) (pid : Pid) (src dst : Nat) :
    (s.connectionCloneForDup pid src dst).1.roster = s.roster := by
  unfold connectionCloneForDup
  split
  · rfl
  · split <;> rfl

@[simp] theorem connectionSetCtx_roster (s : State cfg) (badge : Word) (c : Word × Word) :
    (s.connectionSetCtx badge c).1.roster = s.roster := by
  unfold connectionSetCtx
  split <;> rfl

@[simp] theorem shareNtfn_roster (s : State cfg) (client : Pid) (cnode : Nat) (ch : Channel) (shared : Bool) :
    (s.shareNtfn client cnode ch shared).1.roster = s.roster := by
  unfold shareNtfn
  split
  · rfl
  · split
    · rfl
    · dsimp only
      split
      · exact processAllocSlot_roster s client
      · rename_i minted
        exact (mint_roster minted).trans (processAllocSlot_roster s client)

@[simp] theorem connectAttach_roster (s : State cfg) (client target : Pid) (chid flags : BitVec 32)
    (stale : Nat) (k : AttachKernel) :
    (s.connectAttach client target chid flags stale k).1.roster = s.roster := by
  have drawn := processAllocSlot_roster s client
  unfold connectAttach
  split
  · rfl
  · split
    · rfl
    · split
      · rfl
      · dsimp only
        split
        · exact drawn
        · rename_i minted
          exact (shareNtfn_roster ..).trans ((mint_roster minted).trans drawn)

@[simp] theorem connectDetach_roster (s : State cfg) (client : Pid) (slot stale : Nat) (deleted : Bool) :
    (s.connectDetach client slot stale deleted).1.roster = s.roster := by
  unfold connectDetach
  split
  · rfl
  · split
    · rfl
    · split
      · rfl
      · dsimp only
        split
        · exact (deleteCap_roster ..).trans (deleteCap_roster ..)
        · exact deleteCap_roster ..

@[simp] theorem connectFlags_roster (s : State cfg) (pid : Pid) (slot : Nat) (mask bits : BitVec 32) :
    (s.connectFlags pid slot mask bits).1.roster = s.roster := by
  unfold connectFlags
  split
  · rfl
  · split <;> rfl

@[simp] theorem muteNtfn_roster (s : State cfg) (idx : Fin cfg.channels) (c : Channel) :
    (s.muteNtfn idx c).roster = s.roster := by
  unfold muteNtfn
  split <;> rfl

@[simp] theorem channelDestroy_roster (s : State cfg) (owner : Pid) (recv : Nat) (revoked : Bool) :
    (s.channelDestroy owner recv revoked).1.roster = s.roster := by
  unfold channelDestroy
  split
  · rfl
  · dsimp only
    split
    · exact muteNtfn_roster ..
    · exact muteNtfn_roster ..

@[simp] theorem dupCap_roster (s : State cfg) (caller : Pid) (src dst stale : Nat) (copied : Bool) :
    (s.dupCap caller src dst stale copied).1.roster = s.roster := by
  unfold dupCap
  split
  · rfl
  · split
    · rfl
    · split
      · rfl
      · split
        · rfl
        · rename_i held copying
          have cloned := (connectionCloneForDup_roster held caller src dst).trans (copyCap_roster copying)
          split
          · rename_i cloning
            rw [cloning] at cloned
            exact (deleteCap_roster ..).trans cloned
          · rename_i cloning
            rw [cloning] at cloned
            exact cloned

@[simp] theorem pipeCreate_roster (s : State cfg) (caller : Pid) (server : Option (Pid × BitVec 32))
    (stale : Nat) (readMinted writeMinted : Bool) :
    (s.pipeCreate caller server stale readMinted writeMinted).1.roster = s.roster := by
  unfold pipeCreate
  split
  · rfl
  · split
    · rfl
    · split
      · rfl
      · have drawn : ((s.allocPipe.processAllocSlot caller).1.processAllocSlot caller).1.roster = s.roster :=
          (processAllocSlot_roster _ caller).trans (processAllocSlot_roster s.allocPipe caller)
        dsimp only
        split
        · exact drawn
        · rename_i readEnd
          have half := (mint_roster readEnd).trans drawn
          split
          · exact half
          · rename_i writeEnd
            simpa [registerPipe] using (mint_roster writeEnd).trans half

@[simp] theorem ioOpen_roster (s : State cfg) (caller : Pid) (server : Option (Pid × BitVec 32))
    (stale : Nat) (k : AttachKernel) (opened deleted : Bool) :
    (s.ioOpen caller server stale k opened deleted).1.roster = s.roster := by
  unfold ioOpen
  split
  · rfl
  · rename_i pid chid
    have made := connectAttach_roster s caller pid chid 0 stale k
    split
    · rename_i attaching
      rw [attaching] at made
      exact made
    · rename_i attaching
      rw [attaching] at made
      split
      · exact made
      · exact (connectDetach_roster ..).trans made

@[simp] theorem spawnStdio_roster (s : State cfg) (pid : Pid) (cnode : Nat) (idx : Fin cfg.channels)
    (master : Object) (slots : List (Nat × Bool)) :
    (s.spawnStdio pid cnode idx master slots).1.roster = s.roster := by
  induction slots generalizing s with
  | nil => rfl
  | cons head rest ih =>
    rw [spawnStdio]
    split
    · rfl
    · rename_i held minting
      have added := (connectionRegisterExisting_roster held pid head.1 idx (.scoid s.scoids) 0).trans
        (mint_roster minting)
      split
      · rename_i registering
        rw [registering] at added
        exact added
      · rename_i registering
        rw [registering] at added
        exact (ih _).trans added

@[simp] theorem loadImage_roster (s : State cfg) (image : Image) : (s.loadImage image).1.roster = s.roster := by
  unfold loadImage
  split
  · rfl
  · rfl
  · rename_i server chid k read deleted
    have made := connectAttach_roster s pidTaskman server chid 0 0 k
    split
    · rename_i attaching
      rw [attaching] at made
      exact made
    · rename_i attaching
      rw [attaching] at made
      exact (connectDetach_roster ..).trans made

theorem spawnRegister_roster (s : State cfg) (pid : Pid) (cnode : Nat) (objects : Bool) :
    (∃ e, (s.spawnRegister pid cnode objects).2 = .error e ∧
      (s.spawnRegister pid cnode objects).1.roster = s.roster) ∨
    ∃ i, s.roster.enroll pid = some (i,(s.spawnRegister pid cnode objects).1.roster) := by
  unfold spawnRegister
  rcases processRegister_roster s pid cnode capWellKnownEnd with ⟨-,same,e,failed⟩ | ⟨i,enrolled,done⟩
  · left
    split
    · rename_i registering
      rw [registering] at same
      exact ⟨_,rfl,congrArg roster same⟩
    · rename_i registering
      rw [registering] at failed
      cases failed
  · right
    refine ⟨i,?_⟩
    split
    · rename_i registering
      rw [registering] at done
      cases done
    · rename_i recorded _ registering
      rw [registering] at enrolled
      split
      · exact enrolled
      · rename_i primary _ _
        have added := connectionRegisterExisting_roster recorded pid capTaskmanEp primary (.sysmgr pid) 0
        split
        · rename_i connecting
          rw [connecting] at added
          rw [added]
          exact enrolled
        · rename_i connecting
          rw [connecting] at added
          split <;> (rw [added]; exact enrolled)

theorem spawn_roster (s : State cfg) (pid : Pid) (k : SpawnKernel) :
    (∃ e, (s.spawn pid k).2 = .error e ∧ (s.spawn pid k).1.roster = s.roster) ∨
    ∃ i, s.roster.enroll pid = some (i,(s.spawn pid k).1.roster) := by
  unfold spawn
  split
  · exact .inl ⟨_,rfl,rfl⟩
  · split
    · exact .inl ⟨_,rfl,rfl⟩
    · rename_i held minting
      have made : held.roster = s.roster := (mint_roster minting).trans rfl
      split
      · exact .inl ⟨_,rfl,made⟩
      · split
        · exact .inl ⟨_,rfl,made⟩
        · rename_i idx ch _
          have stdio := (spawnStdio_roster held pid s.spawned idx ch.master
            [(capStdinConnect,k.stdin),(capStdoutConnect,k.stdout),(capStderrConnect,k.stderr)]).trans made
          split
          · rename_i looping
            rw [looping] at stdio
            exact .inl ⟨_,rfl,stdio⟩
          · rename_i ready _ looping
            rw [looping] at stdio
            split
            · exact .inl ⟨_,rfl,stdio⟩
            · have faulting : (ready.setFault s.spawned pid).roster = s.roster := stdio
              rw [← faulting]
              exact spawnRegister_roster ..

end State

namespace Roster

/-- A failed spawn ends the same way for every caller. -/
theorem Spawns.failed {r : Roster} (ending : r.Spawns caller r' (.error e)) : r.Spawns other r' (.error e) := by
  cases ending with
  | refused => exact .refused
  | unwound drawn => exact .unwound drawn
  | stranded drawn enrolled => exact .stranded drawn enrolled

/-- The record just enrolled is the one its pid finds. -/
theorem enroll_lookup {r : Roster} (enrolled : r.enroll pid = some (i,added)) :
    added.lookup pid = some (i,⟨pid,pidTaskman,.live,0,false⟩) ∧ r.lookup pid = none ∧ r.people i = none ∧
      added = r.set i ⟨pid,pidTaskman,.live,0,false⟩ := by
  unfold enroll at enrolled
  split at enrolled
  · cases enrolled
  · rename_i missing
    obtain ⟨k,free,made⟩ := Option.map_eq_some_iff.mp enrolled
    obtain ⟨rfl,rfl⟩ : k = i ∧ _ = added := by simpa using made
    refine ⟨?_,missing,Slab.free_some free,rfl⟩
    obtain ⟨j,p,found⟩ := Slab.find_of_used (fun p : Person => p.pid == pid)
      (Slab.put_same (i := k) (a := ⟨pid,pidTaskman,.live,0,false⟩) r.people) (by simp)
    have hit := Slab.find_some found
    rcases Slab.put_cases hit.1 with ⟨rfl,rfl⟩ | old
    · exact found
    · have := Slab.find_none missing old
      simp [hit.2] at this

theorem enroll_free {r : Roster} (enrolled : r.enroll pid = some (i,added)) : Slab.free r.people = some i := by
  unfold enroll at enrolled
  split at enrolled
  · cases enrolled
  · obtain ⟨k,free,made⟩ := Option.map_eq_some_iff.mp enrolled
    obtain ⟨rfl,-⟩ : k = i ∧ _ = added := by simpa using made
    exact free

@[simp] theorem release_people (r : Roster) (pid : Pid) : (r.release pid).people = r.people := by
  unfold release
  split
  · rfl
  · split <;> rfl

theorem issue_people {r : Roster} (issued : r.issue = some (r',pid)) : r'.people = r.people := by
  unfold issue at issued
  split at issued
  · obtain ⟨rfl,-⟩ : _ = r' ∧ _ = pid := by simpa using issued
    rfl
  · split at issued
    · cases issued
    · obtain ⟨rfl,-⟩ : _ = r' ∧ _ = pid := by simpa using issued
      rfl

end Roster

namespace State

theorem processSetParent_roster (s : State cfg) (child parent : Pid) (i : Fin maxProcesses) (p : Person)
    (found : s.roster.lookup child = some (i,p)) :
    (s.processSetParent child parent).1.roster = s.roster.set i { p with parent := parent } := by
  obtain ⟨q,hit,rfl⟩ := processLookup_of_roster found
  simp [processSetParent,hit,Process.person]

theorem processCreateByName_roster (s : State cfg) (k : SpawnKernel) :
    (∃ e, (s.processCreateByName k).2 = .error e ∧
      s.roster.Spawns pidTaskman (s.processCreateByName k).1.roster (.error e)) ∨
    ∃ issued pid i, s.roster.issue = some (issued,pid) ∧ (s.processCreateByName k).2 = .ok pid ∧
      issued.enroll pid = some (i,(s.processCreateByName k).1.roster) := by
  have image := loadImage_roster s k.image
  unfold processCreateByName
  split
  · rename_i loading
    rw [loading] at image
    rw [← image]
    exact .inl ⟨_,rfl,.refused⟩
  · rename_i loaded _ loading
    rw [loading] at image
    split
    · rw [← image]
      exact .inl ⟨_,rfl,.refused⟩
    · rename_i issued pid allocating
      have drawn : s.roster.issue = some (issued.roster,pid) := by
        rw [← image,pidAlloc_roster,allocating]
        rfl
      split
      · exact .inl ⟨_,rfl,by rw [pidFree_roster]; exact .unwound drawn⟩
      · have child := spawn_roster issued pid k
        split
        · rename_i failed e spawning
          rw [spawning] at child
          left
          refine ⟨e,rfl,?_⟩
          rw [pidFree_roster,destroySpace_roster]
          rcases child with ⟨-,-,same⟩ | ⟨i,enrolled⟩
          · rw [same]
            exact .unwound drawn
          · exact .stranded drawn enrolled
        · rename_i spawning
          rw [spawning] at child
          rcases child with ⟨e,failed,-⟩ | ⟨i,enrolled⟩
          · cases failed
          · exact .inr ⟨issued.roster,pid,i,drawn,rfl,enrolled⟩

theorem processCreate_roster (s : State cfg) (caller : Pid) (k : SpawnKernel) :
    s.roster.Spawns caller (s.processCreate caller k).1.roster (s.processCreate caller k).2 := by
  unfold processCreate
  rcases processCreateByName_roster s k with ⟨e,failed,ending⟩ | ⟨issued,pid,i,drawn,done,enrolled⟩
  · split
    · rename_i creating
      rw [creating] at failed ending
      obtain rfl := Except.error.inj failed
      exact ending.failed
    · rename_i creating
      rw [creating] at failed
      cases failed
  · split
    · rename_i creating
      rw [creating] at done
      cases done
    · rename_i spawned child creating
      rw [creating] at done enrolled
      obtain rfl : child = pid := Except.ok.inj done
      rw [processSetParent_roster spawned child caller i _ (Roster.enroll_lookup enrolled).1]
      exact .spawned drawn enrolled

end State

end Qsoe.Taskman
