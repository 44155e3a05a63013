import Qsoe.Taskman.Roster

/-! The pid allocator and the process table under every request: pids in use are distinct, and
every pid in use or on the free list is below `TM_MAX_PROCESSES`. -/
namespace Qsoe.Taskman

variable {cfg : Config} {s t : State cfg}

namespace Roster

inductive Change : Roster → Roster → Prop where
  | same : Change r r
  | detach (pid : Pid) (status : BitVec 32) : Change r (r.detach pid status)
  | waitpid (waiter child : Pid) (parked : Bool) : Change r (r.waitpid waiter child parked).1
  | terminate (target : Pid) (status : BitVec 32) : Change r (r.terminate target status)
  | spawn : Spawns caller r r' result → Change r r'

inductive Settle : Roster → Roster → Prop where
  | same : Settle r r
  | detach (pid : Pid) (status : BitVec 32) : Settle r (r.detach pid status)
  | waitpid (waiter child : Pid) (parked : Bool) : Settle r (r.waitpid waiter child parked).1
  | terminate (target : Pid) (status : BitVec 32) : Settle r (r.terminate target status)

variable {r r' : Roster}

theorem Settle.change (settle : r.Settle r') : r.Change r' := by
  cases settle with
  | same => exact .same
  | detach pid status => exact .detach pid status
  | waitpid waiter child parked => exact .waitpid waiter child parked
  | terminate target status => exact .terminate target status

def Ranged (pid : Pid) : Prop := 2 ≤ pid.toNat ∧ pid.toNat < maxProcesses

structure Wf (r : Roster) : Prop where
  unique : ∀ i j p q, r.people i = some p → r.people j = some q → p.pid = q.pid → i = j
  people : ∀ i p, r.people i = some p → 1 ≤ p.pid.toNat ∧ p.pid.toNat < maxProcesses
  free : ∀ pid ∈ r.freePids, Ranged pid
  length : r.freePids.length ≤ maxProcesses
  next : 2 ≤ r.nextPid ∧ r.nextPid ≤ maxProcesses

theorem lookup_some (found : r.lookup pid = some (i,p)) : r.people i = some p ∧ p.pid = pid := by
  obtain ⟨used,same⟩ := Slab.find_some found
  exact ⟨used,by simpa using same⟩

theorem lookup_none (missing : r.lookup pid = none) (used : r.people i = some p) : p.pid ≠ pid := by
  simpa using Slab.find_none missing used

theorem Wf.lookup (wf : Wf r) (used : r.people i = some p) : r.lookup p.pid = some (i,p) := by
  obtain ⟨k,q,found⟩ := Slab.find_of_used (fun q : Person => q.pid == p.pid) used (by simp)
  obtain ⟨there,same⟩ := lookup_some found
  obtain rfl := wf.unique k i q p there used same
  obtain rfl : q = p := Option.some.inj (there.symm.trans used)
  exact found

theorem toInt_small (pid : Pid) (small : pid.toNat < maxProcesses) : pid.toInt = pid.toNat := by
  apply BitVec.toInt_eq_toNat_of_lt
  unfold maxProcesses at small
  omega

theorem waitpid_cases (r : Roster) (waiter child : Pid) (parked : Bool) :
    (∃ e, r.waitpid waiter child parked = (r,.error e)) ∨
    ∃ i c, r.lookup child = some (i,c) ∧ c.parent = waiter ∧
      (c.exit ≠ .live ∧ r.waitpid waiter child parked = (r.reap i child,.ok (some c.status)) ∨
        c.exit = .live ∧ parked = true ∧
          r.waitpid waiter child parked = (r.set i { c with waiter := true },.ok none)) := by
  unfold waitpid
  cases found : r.lookup child with
  | none => exact .inl ⟨_,rfl⟩
  | some hit =>
    obtain ⟨i,c⟩ := hit
    by_cases mine : c.parent = waiter
    · by_cases live : c.exit = .live
      · cases parked with
        | false => exact .inl ⟨.enomem,by simp [mine,live]⟩
        | true => exact .inr ⟨i,c,rfl,mine,.inr ⟨live,rfl,by simp [mine,live]⟩⟩
      · exact .inr ⟨i,c,rfl,mine,.inl ⟨live,by simp [mine,live]⟩⟩
    · exact .inl ⟨.echild,by simp [mine]⟩

@[simp] theorem reap_people (r : Roster) (i : Fin maxProcesses) (pid : Pid) :
    (r.reap i pid).people = Slab.erase r.people i := release_people ..

theorem finish_other (other : k ≠ i) (p : Person) (status : BitVec 32) :
    (r.finish i p status).people k = r.people k := by
  unfold finish
  dsimp only
  split <;> simp [Roster.set,other]

theorem Wf.set (wf : Wf r) (used : r.people i = some p) (same : q.pid = p.pid) : Wf (r.set i q) where
  unique k l a b used' used'' equal := by
    rcases Slab.put_cases used' with ⟨rfl,rfl⟩ | old
    · rcases Slab.put_cases used'' with ⟨rfl,rfl⟩ | old'
      · rfl
      · exact wf.unique k l p b used old' (same.symm.trans equal)
    · rcases Slab.put_cases used'' with ⟨rfl,rfl⟩ | old'
      · exact wf.unique k l a p old used (equal.trans same)
      · exact wf.unique k l a b old old' equal
  people k a used' := by
    rcases Slab.put_cases used' with ⟨rfl,rfl⟩ | old
    · rw [same]
      exact wf.people k p used
    · exact wf.people k a old
  free := wf.free
  length := wf.length
  next := wf.next

theorem Wf.release (wf : Wf r) (small : pid.toNat < maxProcesses) : Wf (r.release pid) := by
  unfold Roster.release
  split
  · exact wf
  · rename_i above
    split
    · rename_i room
      refine { wf with free := ?_, length := ?_ }
      · intro q member
        rcases List.mem_cons.mp member with rfl | old
        · have above' : ¬ (q.toNat : Int) ≤ 1 := by rwa [toInt_small q small] at above
          exact ⟨by omega,small⟩
        · exact wf.free q old
      · exact room
    · exact wf

theorem Wf.reap (wf : Wf r) (small : pid.toNat < maxProcesses) : Wf (r.reap i pid) := by
  have erased : Wf { r with people := Slab.erase r.people i } := by
    refine { wf with unique := ?_, people := ?_ }
    · intro k l a b used used' same
      exact wf.unique k l a b (Slab.erase_some used).2 (Slab.erase_some used').2 same
    · intro k a used
      exact wf.people k a (Slab.erase_some used).2
  exact erased.release small

theorem Wf.issue (wf : Wf r) (issued : r.issue = some (r',pid)) : Wf r' ∧ Ranged pid := by
  unfold Roster.issue at issued
  split at issued
  · rename_i head rest free
    obtain ⟨rfl,rfl⟩ : _ = r' ∧ head = pid := by simpa using issued
    have member : ∀ q ∈ head :: rest, Ranged q := free ▸ wf.free
    have length := wf.length
    rw [free,List.length_cons] at length
    exact ⟨{ wf with
      free := fun q old => member q (List.mem_cons_of_mem head old), length := by dsimp only; omega },
      member head List.mem_cons_self⟩
  · split at issued
    · cases issued
    · rename_i room
      obtain ⟨rfl,rfl⟩ : _ = r' ∧ _ = pid := by simpa using issued
      have low := wf.next.1
      refine ⟨{ wf with next := by dsimp only; omega },?_⟩
      unfold maxProcesses at room
      simp only [Ranged,BitVec.toNat_ofNat,maxProcesses]
      omega

theorem Wf.enroll (wf : Wf r) (ranged : Ranged pid) (enrolled : r.enroll pid = some (i,r')) : Wf r' := by
  obtain ⟨-,missing,-,rfl⟩ := enroll_lookup enrolled
  refine { wf with unique := ?_, people := ?_ }
  · intro k l a b used used' same
    rcases Slab.put_cases used with ⟨rfl,rfl⟩ | old
    · rcases Slab.put_cases used' with ⟨rfl,rfl⟩ | old'
      · rfl
      · exact absurd same.symm (lookup_none missing old')
    · rcases Slab.put_cases used' with ⟨rfl,rfl⟩ | old'
      · exact absurd same (lookup_none missing old)
      · exact wf.unique k l a b old old' same
  · intro k a used
    rcases Slab.put_cases used with ⟨rfl,rfl⟩ | old
    · exact ⟨Nat.le_of_succ_le ranged.1,ranged.2⟩
    · exact wf.people k a old

theorem Wf.finish (wf : Wf r) (used : r.people i = some p) (status : BitVec 32) : Wf (r.finish i p status) := by
  have ended := wf.set (q := { p with exit := .zombie, status := status, waiter := false }) used rfl
  unfold Roster.finish
  dsimp only
  split
  · exact ended.reap (wf.people i p used).2
  · exact ended

theorem Wf.spawns (wf : Wf r) (ending : r.Spawns caller r' result) : Wf r' := by
  cases ending with
  | refused => exact wf
  | unwound drawn =>
    have issued := wf.issue drawn
    exact issued.1.release issued.2.2
  | stranded drawn enrolled =>
    have issued := wf.issue drawn
    exact (issued.1.enroll issued.2 enrolled).release issued.2.2
  | spawned drawn enrolled =>
    have issued := wf.issue drawn
    exact (issued.1.enroll issued.2 enrolled).set (lookup_some (enroll_lookup enrolled).1).1 rfl

theorem Spawns.people (ending : r.Spawns caller r' result) (wf : Wf r) :
    (∃ e, result = .error e ∧ r'.people = r.people) ∨
    ∃ pid i, Ranged pid ∧ Slab.free r.people = some i ∧
      ((∃ e, result = .error e) ∧ r'.people = Slab.put r.people i ⟨pid,pidTaskman,.live,0,false⟩ ∨
        result = .ok pid ∧ r'.people = Slab.put r.people i ⟨pid,caller,.live,0,false⟩) := by
  cases ending with
  | refused => exact .inl ⟨_,rfl,rfl⟩
  | unwound drawn =>
    left
    refine ⟨_,rfl,?_⟩
    rw [release_people,issue_people drawn]
  | stranded drawn enrolled =>
    have added := (enroll_lookup enrolled).2.2.2
    have free := enroll_free enrolled
    rw [issue_people drawn] at free
    refine .inr ⟨_,_,(wf.issue drawn).2,free,.inl ⟨⟨_,rfl⟩,?_⟩⟩
    rw [release_people,added,Roster.set,issue_people drawn]
  | spawned drawn enrolled =>
    have added := (enroll_lookup enrolled).2.2.2
    have free := enroll_free enrolled
    rw [issue_people drawn] at free
    refine .inr ⟨_,_,(wf.issue drawn).2,free,.inr ⟨rfl,?_⟩⟩
    rw [added,Roster.set,Roster.set,Slab.put_put,issue_people drawn]

theorem Change.wf (change : r.Change r') (wf : Wf r) : Wf r' := by
  cases change with
  | same => exact wf
  | detach pid status =>
    unfold Roster.detach
    split
    · exact wf
    · rename_i i p found
      split
      · exact wf
      · exact wf.set (lookup_some found).1 rfl
  | waitpid waiter child parked =>
    rcases r.waitpid_cases waiter child parked with ⟨e,failed⟩ | ⟨i,c,found,-,⟨-,reaped⟩ | ⟨-,-,set⟩⟩
    · rw [failed]
      exact wf
    · obtain ⟨used,rfl⟩ := lookup_some found
      rw [reaped]
      exact wf.reap (wf.people i c used).2
    · rw [set]
      exact wf.set (lookup_some found).1 rfl
  | terminate target status =>
    unfold Roster.terminate
    split
    · exact wf
    · split
      · exact wf
      · rename_i i p found
        split
        · exact wf
        · exact wf.finish (lookup_some found).1 status
  | spawn ending => exact wf.spawns ending

end Roster

open Roster

/-- The requests that change who is in the process table. -/
def Request.enrolls : Request → Bool
  | .processCreate _ | .processTerminate .. | .processDetach _ | .waitpid .. => true
  | _ => false

theorem dispatch_quiet (s : State cfg) (caller : Pid) (badge : Word) (stale : Nat) (r : Request)
    (other : r.enrolls = false) : (s.dispatch caller badge stale r).roster = s.roster := by
  cases r with
  | processCreate k => cases other
  | processTerminate target status => cases other
  | processDetach status => cases other
  | waitpid child parked => cases other
  | channelCreate chid flags k => exact s.channelCreate_roster ..
  | channelDestroy recv revoked => exact s.channelDestroy_roster ..
  | connectAttach pid chid flags k => exact s.connectAttach_roster ..
  | connectDetach slot deleted => exact s.connectDetach_roster ..
  | connectFlags slot mask bits => exact s.connectFlags_roster ..
  | openPath server k opened deleted => exact s.ioOpen_roster ..
  | pipeCreate server readMinted writeMinted => exact s.pipeCreate_roster ..
  | dupCap src dst copied => exact s.dupCap_roster ..
  | io ctx => exact s.connectionSetCtx_roster ..
  | claim => exact s.processAllocSlot_roster ..
  | other => rfl

theorem dispatch_settle (s : State cfg) (caller : Pid) (badge : Word) (stale : Nat) (r : Request)
    (other : ∀ k, r ≠ .processCreate k) : s.roster.Settle (s.dispatch caller badge stale r).roster := by
  cases quiet : r.enrolls with
  | false =>
    rw [dispatch_quiet s caller badge stale r quiet]
    exact .same
  | true =>
    cases r with
    | processCreate k => exact absurd rfl (other k)
    | processTerminate target status =>
      simp only [State.dispatch,State.processTerminate_roster]
      exact .terminate ..
    | processDetach status =>
      simp only [State.dispatch,State.processDetach_roster]
      exact .detach ..
    | waitpid child parked =>
      have same : _ = (s.processWaitpid caller child parked).1.roster :=
        congrArg Prod.fst (s.processWaitpid_roster caller child parked)
      simp only [State.dispatch,← same]
      exact .waitpid ..
    | _ => cases quiet

theorem dispatch_roster (s : State cfg) (caller : Pid) (badge : Word) (stale : Nat) (r : Request) :
    s.roster.Change (s.dispatch caller badge stale r).roster := by
  by_cases spawning : ∃ k, r = .processCreate k
  · obtain ⟨k,rfl⟩ := spawning
    exact .spawn (s.processCreate_roster caller k)
  · exact (dispatch_settle s caller badge stale r fun k same => spawning ⟨k,same⟩).change

theorem receive_roster (s : State cfg) (badge : Word) (stale : Nat) (r : Request) :
    s.roster.Change (s.receive badge stale r).roster := by
  unfold State.receive
  split
  · rw [State.handleFault,State.processTerminate_roster]
    exact .terminate ..
  · exact dispatch_roster ..

theorem step_roster (taken : step s e = some t) : s.roster.Change t.roster := by
  cases e with
  | message i slot stale r =>
    simp only [step] at taken
    split at taken
    · split at taken
      · obtain rfl := Option.some.inj taken
        exact receive_roster ..
      · cases taken
    · cases taken
  | fault i =>
    simp only [step] at taken
    split at taken
    · split at taken
      · obtain rfl := Option.some.inj taken
        exact receive_roster ..
      · cases taken
    · cases taken
  | copy i src dst =>
    simp only [step] at taken
    split at taken
    · rw [State.copyCap_roster taken]
      exact .same
    · cases taken
  | delete i slot =>
    simp only [step] at taken
    split at taken
    · obtain rfl := Option.some.inj taken
      rw [State.deleteCap_roster]
      exact .same
    · cases taken

theorem step_pids (s : State cfg) (e : Event) (t : State cfg) (wf : Wf s.roster) (_ : anyStep s e)
    (taken : step s e = some t) : Wf t.roster := (step_roster taken).wf wf

theorem init_roster (cfg : Config) : Wf (State.init cfg).roster where
  unique i j p q used used' _ := by
    simp only [State.roster,Slab.map,State.init,Option.map_eq_some_iff] at used used'
    obtain ⟨a,first,-⟩ := used
    obtain ⟨b,second,-⟩ := used'
    split at first
    · split at second
      · exact Fin.ext (by omega)
      · cases second
    · cases first
  people i p used := by
    simp only [State.roster,Slab.map,State.init,Option.map_eq_some_iff] at used
    obtain ⟨a,record,rfl⟩ := used
    split at record
    · obtain rfl := Option.some.inj record
      simp [Process.person,pidTaskman,maxProcesses]
    · cases record
  free := by simp [State.roster,State.init]
  length := by simp [State.roster,State.init]
  next := by simp [State.roster,State.init,maxProcesses]

theorem registerBoot_roster (registered : registerBoot s chids = some t) : t.roster = s.roster := by
  induction chids generalizing s with
  | nil =>
    obtain rfl := Option.some.inj registered
    rfl
  | cons chid rest ih =>
    rw [registerBoot] at registered
    have kept : (s.channelRegisterExisting pidTaskman chid .primary cfg.primaryEp).1.roster = s.roster := by
      unfold State.channelRegisterExisting
      split
      · rfl
      · split
        · rfl
        · split <;> rfl
    split at registered
    · cases registered
    · rename_i adding
      rw [adding] at kept
      exact (ih registered).trans kept

/-- Boot issues one pid and enrols `/sbin/init` under it. -/
theorem boot_roster (booted : boot cfg = some s) :
    ∃ issued pid i, (State.init cfg).roster.issue = some (issued,pid) ∧
      issued.enroll pid = some (i,s.roster) := by
  obtain ⟨registered,registering,rest⟩ := Option.bind_eq_some_iff.mp booted
  obtain ⟨⟨issued,pid⟩,allocating,spawning⟩ := Option.bind_eq_some_iff.mp rest
  have drawn : (State.init cfg).roster.issue = some (issued.roster,pid) := by
    rw [← registerBoot_roster registering,State.pidAlloc_roster,allocating]
    rfl
  have child := State.spawn_roster issued pid bootSpawn
  dsimp only at spawning
  split at spawning
  · cases spawning
  · rename_i done
    obtain rfl := Option.some.inj spawning
    rw [done] at child
    rcases child with ⟨e,failed,-⟩ | ⟨i,enrolled⟩
    · cases failed
    · exact ⟨issued.roster,pid,i,drawn,enrolled⟩

theorem boot_pids (booted : boot cfg = some s) : Wf s.roster := by
  obtain ⟨issued,pid,i,drawn,enrolled⟩ := boot_roster booted
  have first := (init_roster cfg).issue drawn
  exact first.1.enroll first.2 enrolled

end Qsoe.Taskman
