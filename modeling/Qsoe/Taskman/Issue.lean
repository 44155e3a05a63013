import Mathlib.Data.Finset.Card
import Mathlib.Order.Interval.Finset.Nat
import Qsoe.Taskman.Pids

/-! Where each pid is. Drawing a pid takes it off the free list or the bump counter, and
either the terminate or the waitpid that drops the record gives it back, never both. A spawn
that succeeds keeps the account balanced; one that fails after its record is written does not. -/
namespace Qsoe.Taskman

variable {cfg : Config} {s t : State cfg}

namespace Roster

variable {r r' : Roster}

def InUse (r : Roster) (pid : Pid) : Prop := ∃ i p, r.people i = some p ∧ p.pid = pid

/-- Every pid of the allocator's range is in use, on the free list or still ahead of the
bump counter, and in one of these only. -/
structure Tally (r : Roster) : Prop extends Wf r where
  once : r.freePids.Nodup
  apart : ∀ pid ∈ r.freePids, ¬ r.InUse pid
  used : ∀ pid, r.InUse pid → pid.toNat < r.nextPid
  listed : ∀ pid ∈ r.freePids, pid.toNat < r.nextPid
  kept : ∀ pid, Ranged pid → r.InUse pid ∨ pid ∈ r.freePids ∨ r.nextPid ≤ pid.toNat

/-- A free list without repetitions has room for another pid. -/
theorem Tally.room (tally : Tally r) : r.freePids.length < maxProcesses := by
  have once : (r.freePids.map BitVec.toNat).Nodup := tally.once.map fun _ _ => BitVec.eq_of_toNat_eq
  have inside : (r.freePids.map BitVec.toNat).toFinset ⊆ Finset.Ico 2 maxProcesses := by
    intro n member
    obtain ⟨pid,listed,rfl⟩ := List.mem_map.mp (List.mem_toFinset.mp member)
    exact Finset.mem_Ico.mpr (tally.free pid listed)
  have card := Finset.card_le_card inside
  rw [List.toFinset_card_of_nodup once,List.length_map,Nat.card_Ico] at card
  unfold maxProcesses at card ⊢
  omega

theorem inUse_set (used : r.people i = some p) (same : q.pid = p.pid) (pid : Pid) :
    (r.set i q).InUse pid ↔ r.InUse pid := by
  constructor
  · rintro ⟨k,a,there,rfl⟩
    rcases Slab.put_cases there with ⟨rfl,rfl⟩ | old
    · exact ⟨k,p,used,same.symm⟩
    · exact ⟨k,a,old,rfl⟩
  · rintro ⟨k,a,there,rfl⟩
    by_cases here : k = i
    · subst here
      obtain rfl : a = p := Option.some.inj (there.symm.trans used)
      exact ⟨k,q,Slab.put_same r.people,same⟩
    · exact ⟨k,a,(Slab.put_other r.people here).trans there,rfl⟩

theorem inUse_added (empty : r.people i = none) (pid : Pid) :
    (r.set i q).InUse pid ↔ q.pid = pid ∨ r.InUse pid := by
  constructor
  · rintro ⟨k,a,there,rfl⟩
    rcases Slab.put_cases there with ⟨rfl,rfl⟩ | old
    · exact .inl rfl
    · exact .inr ⟨k,a,old,rfl⟩
  · rintro (rfl | ⟨k,a,there,rfl⟩)
    · exact ⟨i,q,Slab.put_same r.people,rfl⟩
    · have other : k ≠ i := by
        rintro rfl
        rw [empty] at there
        cases there
      exact ⟨k,a,(Slab.put_other r.people other).trans there,rfl⟩

theorem Wf.inUse_erased (wf : Wf r) (used : r.people i = some p) (pid : Pid) :
    InUse { r with people := Slab.erase r.people i } pid ↔ r.InUse pid ∧ pid ≠ p.pid := by
  constructor
  · rintro ⟨k,a,there,rfl⟩
    obtain ⟨other,old⟩ := Slab.erase_some there
    exact ⟨⟨k,a,old,rfl⟩,fun same => other (wf.unique k i a p old used same)⟩
  · rintro ⟨⟨k,a,there,rfl⟩,different⟩
    have other : k ≠ i := by
      rintro rfl
      exact different (congrArg Person.pid (Option.some.inj (there.symm.trans used)))
    exact ⟨k,a,(Slab.erase_other r.people other).trans there,rfl⟩

theorem Tally.set (tally : Tally r) (used : r.people i = some p) (same : q.pid = p.pid) :
    Tally (r.set i q) where
  toWf := tally.toWf.set used same
  once := tally.once
  apart pid listed := by
    rw [inUse_set used same]
    exact tally.apart pid listed
  used pid inUse := tally.used pid ((inUse_set used same pid).mp inUse)
  listed := tally.listed
  kept pid ranged := by
    rw [inUse_set used same]
    exact tally.kept pid ranged

theorem Tally.ranged (tally : Tally r) (used : r.people i = some p) (other : p.pid ≠ pidTaskman) :
    Ranged p.pid := by
  obtain ⟨low,high⟩ := tally.people i p used
  refine ⟨?_,high⟩
  have : p.pid.toNat ≠ 1 := fun one => other (BitVec.eq_of_toNat_eq one)
  omega

theorem Tally.reapTaskman (tally : Tally r) (used : r.people i = some p) (own : p.pid = pidTaskman) :
    Tally (r.reap i p.pid) := by
  have wf := tally.toWf.reap (i := i) (tally.people i p used).2
  have given : r.reap i p.pid = { r with people := Slab.erase r.people i } := by
    simp [Roster.reap,Roster.release,own]
  have inUse := tally.toWf.inUse_erased used
  rw [given] at wf ⊢
  refine { wf with once := tally.once, apart := ?_, used := ?_, listed := tally.listed, kept := ?_ }
  · intro pid listed still
    exact tally.apart pid listed ((inUse pid).mp still).1
  · intro pid still
    exact tally.used pid ((inUse pid).mp still).1
  · intro pid ranged
    rcases tally.kept pid ranged with before | old
    · have different : pid ≠ p.pid := by
        rintro rfl
        rw [own] at ranged
        exact absurd ranged.1 (by decide)
      exact .inl ((inUse pid).mpr ⟨before,different⟩)
    · exact .inr old

/-- Dropping the record of a process gives its pid back. -/
theorem Tally.reap (tally : Tally r) (used : r.people i = some p) : Tally (r.reap i p.pid) := by
  by_cases own : p.pid = pidTaskman
  · exact tally.reapTaskman used own
  have issued := tally.ranged used own
  have above : ¬ p.pid.toInt ≤ pidTaskman.toInt := by
    rw [toInt_small p.pid issued.2]
    have := issued.1
    simp [pidTaskman]
    omega
  have inUse := tally.toWf.inUse_erased used
  have wf := tally.toWf.reap (i := i) issued.2
  have given : r.reap i p.pid =
      { r with people := Slab.erase r.people i, freePids := p.pid :: r.freePids } := by
    simp [Roster.reap,Roster.release,above,tally.room]
  have mine : r.InUse p.pid := ⟨i,p,used,rfl⟩
  rw [given] at wf ⊢
  refine { wf with once := ?_, apart := ?_, used := ?_, listed := ?_, kept := ?_ }
  · exact List.nodup_cons.mpr ⟨fun listed => tally.apart _ listed mine,tally.once⟩
  · intro pid listed still
    obtain ⟨before,different⟩ := (inUse pid).mp still
    rcases List.mem_cons.mp listed with same | old
    · exact different same
    · exact tally.apart pid old before
  · intro pid still
    exact tally.used pid ((inUse pid).mp still).1
  · intro pid listed
    rcases List.mem_cons.mp listed with rfl | old
    · exact tally.used _ mine
    · exact tally.listed pid old
  · intro pid ranged
    by_cases same : pid = p.pid
    · exact .inr (.inl (List.mem_cons.mpr (.inl same)))
    · rcases tally.kept pid ranged with before | old | ahead
      · exact .inl ((inUse pid).mpr ⟨before,same⟩)
      · exact .inr (.inl (List.mem_cons_of_mem _ old))
      · exact .inr (.inr ahead)

/-- A pid drawn is in the allocator's range and nobody's; until it is enrolled it is the only
one the account misses. -/
theorem Tally.issue (tally : Tally r) (drawn : r.issue = some (r',pid)) :
    Ranged pid ∧ ¬ r.InUse pid ∧ r'.people = r.people ∧ pid ∉ r'.freePids ∧ r'.freePids.Nodup ∧
      (∀ q ∈ r'.freePids, q ∈ r.freePids) ∧ r.nextPid ≤ r'.nextPid ∧ pid.toNat < r'.nextPid ∧
      ∀ q, Ranged q → q = pid ∨ r.InUse q ∨ q ∈ r'.freePids ∨ r'.nextPid ≤ q.toNat := by
  have ranged := (tally.toWf.issue drawn).2
  refine ⟨ranged,?_⟩
  unfold Roster.issue at drawn
  split at drawn
  · rename_i head rest free
    obtain ⟨rfl,rfl⟩ : _ = r' ∧ head = pid := by simpa using drawn
    have once := tally.once
    have apart := tally.apart
    have listed := tally.listed
    have kept := tally.kept
    rw [free] at once apart listed kept
    refine ⟨apart head List.mem_cons_self,rfl,(List.nodup_cons.mp once).1,(List.nodup_cons.mp once).2,?_,
      Nat.le_refl _,listed head List.mem_cons_self,?_⟩
    · intro q member
      rw [free]
      exact List.mem_cons_of_mem _ member
    · intro q within
      rcases kept q within with used | member | ahead
      · exact .inr (.inl used)
      · rcases List.mem_cons.mp member with same | old
        · exact .inl same
        · exact .inr (.inr (.inl old))
      · exact .inr (.inr (.inr ahead))
  · rename_i free
    split at drawn
    · cases drawn
    · rename_i more
      obtain ⟨rfl,rfl⟩ : _ = r' ∧ _ = pid := by simpa using drawn
      have number : (BitVec.ofNat 32 r.nextPid).toNat = r.nextPid := by
        unfold maxProcesses at more
        simp only [BitVec.toNat_ofNat]
        omega
      refine ⟨?_,rfl,by simp [free],by simp [free],fun q member => member,Nat.le_succ _,?_,?_⟩
      · intro used
        have := tally.used _ used
        omega
      · rw [number]
        exact Nat.lt_succ_self _
      · intro q within
        rcases tally.kept q within with used | member | ahead
        · exact .inr (.inl used)
        · exact .inr (.inr (.inl member))
        · rcases Nat.lt_or_eq_of_le ahead with past | equal
          · exact .inr (.inr (.inr past))
          · exact .inl (BitVec.eq_of_toNat_eq (equal.symm.trans number.symm))

theorem Tally.enroll (tally : Tally r) (drawn : r.issue = some (issued,pid))
    (enrolled : issued.enroll pid = some (i,r')) : Tally r' := by
  obtain ⟨ranged,fresh,people,unlisted,once,sublist,grows,below,rest⟩ := tally.issue drawn
  have wf := ((tally.toWf.issue drawn).1).enroll ranged enrolled
  obtain ⟨-,-,empty,rfl⟩ := enroll_lookup enrolled
  have inUse : ∀ q, (issued.set i ⟨pid,pidTaskman,.live,0,false⟩).InUse q ↔ pid = q ∨ r.InUse q := by
    intro q
    rw [inUse_added empty]
    simp only [InUse,people]
  refine { wf with once := once, apart := ?_, used := ?_, listed := ?_, kept := ?_ }
  · intro q member inside
    rcases (inUse q).mp inside with rfl | old
    · exact unlisted member
    · exact tally.apart q (sublist q member) old
  · intro q inside
    rcases (inUse q).mp inside with rfl | old
    · exact below
    · exact Nat.lt_of_lt_of_le (tally.used q old) grows
  · intro q member
    exact Nat.lt_of_lt_of_le (tally.listed q (sublist q member)) grows
  · intro q within
    rcases rest q within with rfl | old | member | ahead
    · exact .inl ((inUse q).mpr (.inl rfl))
    · exact .inl ((inUse q).mpr (.inr old))
    · exact .inr (.inl member)
    · exact .inr (.inr ahead)

theorem Tally.spawned (tally : Tally r) (ending : r.Spawns caller r' (.ok pid)) : Tally r' := by
  cases ending with
  | spawned drawn enrolled =>
    exact (tally.enroll drawn enrolled).set (lookup_some (enroll_lookup enrolled).1).1 rfl

theorem Tally.finish (tally : Tally r) (used : r.people i = some p) (status : BitVec 32) :
    Tally (r.finish i p status) := by
  have ended := tally.set (q := { p with exit := .zombie, status := status, waiter := false }) used rfl
  unfold Roster.finish
  dsimp only
  split
  · exact ended.reap (p := { p with exit := .zombie, status := status, waiter := false }) (Slab.put_same r.people)
  · exact ended

theorem Settle.tally (settle : r.Settle r') (tally : Tally r) : Tally r' := by
  cases settle with
  | same => exact tally
  | detach pid status =>
    unfold Roster.detach
    split
    · exact tally
    · rename_i i p found
      split
      · exact tally
      · exact tally.set (lookup_some found).1 rfl
  | waitpid waiter child parked =>
    rcases r.waitpid_cases waiter child parked with ⟨e,failed⟩ | ⟨i,c,found,-,⟨-,reaped⟩ | ⟨-,-,set⟩⟩
    · rw [failed]
      exact tally
    · obtain ⟨used,rfl⟩ := lookup_some found
      rw [reaped]
      exact tally.reap used
    · rw [set]
      exact tally.set (lookup_some found).1 rfl
  | terminate target status =>
    unfold Roster.terminate
    split
    · exact tally
    · split
      · exact tally
      · rename_i i p found
        split
        · exact tally
        · exact tally.finish (lookup_some found).1 status

end Roster

open Roster

def Event.spawning (s : State cfg) : Event → Option (Except Errno Pid)
  | .message i slot _ (.processCreate k) => (s.held i slot).bind fun c =>
    match delivery c.badge with
    | .fault _ => none
    | .request caller => some (s.processCreate caller k).2
  | _ => none

/-- A spawn, if there is one, succeeds. -/
def spawnsSucceed (s : State cfg) (e : Event) : Prop := ∀ result ∈ e.spawning s, result.isOk = true

instance : DecidableRel (@spawnsSucceed cfg) := fun s e =>
  inferInstanceAs (Decidable (∀ result ∈ e.spawning s, result.isOk = true))

theorem receive_tally (tally : Tally s.roster) (badge : Word) (stale : Nat) (r : Request)
    (succeeds : ∀ caller k, delivery badge = .request caller → r = .processCreate k →
      (s.processCreate caller k).2.isOk = true) : Tally (s.receive badge stale r).roster := by
  unfold State.receive
  split
  · rw [State.handleFault,State.processTerminate_roster]
    exact (Settle.terminate ..).tally tally
  · rename_i caller served
    by_cases spawning : ∃ k, r = .processCreate k
    · obtain ⟨k,rfl⟩ := spawning
      have ending := s.processCreate_roster caller k
      have done := succeeds caller k served rfl
      cases result : (s.processCreate caller k).2 with
      | error e =>
        rw [result] at done
        cases done
      | ok pid =>
        rw [result] at ending
        exact tally.spawned ending
    · exact (dispatch_settle s caller badge stale r fun k same => spawning ⟨k,same⟩).tally tally

theorem step_tally (s : State cfg) (e : Event) (t : State cfg) (tally : Tally s.roster)
    (succeeds : spawnsSucceed s e) (taken : step s e = some t) : Tally t.roster := by
  cases e with
  | message i slot stale r =>
    simp only [step] at taken
    split at taken
    · rename_i c held
      split at taken
      · obtain rfl := Option.some.inj taken
        apply receive_tally tally
        rintro caller k served rfl
        apply succeeds
        simp [Event.spawning,held,served]
      · cases taken
    · cases taken
  | fault i =>
    simp only [step] at taken
    split at taken
    · split at taken
      · obtain rfl := Option.some.inj taken
        apply receive_tally tally
        intro caller k _ other
        cases other
      · cases taken
    · cases taken
  | copy i src dst =>
    simp only [step] at taken
    split at taken
    · rwa [State.copyCap_roster taken]
    · cases taken
  | delete i slot =>
    simp only [step] at taken
    split at taken
    · obtain rfl := Option.some.inj taken
      rwa [State.deleteCap_roster]
    · cases taken

theorem init_tally (cfg : Config) : Tally (State.init cfg).roster where
  toWf := init_roster cfg
  once := List.nodup_nil
  apart _ listed := by cases listed
  used := by
    rintro pid ⟨i,p,used,rfl⟩
    simp only [State.roster,Slab.map,State.init,Option.map_eq_some_iff] at used ⊢
    obtain ⟨a,record,rfl⟩ := used
    split at record
    · obtain rfl := Option.some.inj record
      simp [Process.person,pidTaskman]
    · cases record
  listed _ listed := by cases listed
  kept pid ranged := .inr (.inr ranged.1)

theorem boot_tally (booted : boot cfg = some s) : Tally s.roster := by
  obtain ⟨issued,pid,i,drawn,enrolled⟩ := boot_roster booted
  exact (init_tally cfg).enroll drawn enrolled

/-- Pids in use are distinct, and each pid of `2..TM_MAX_PROCESSES-1` is in exactly one of the
process table, the free list and the part not yet drawn. -/
structure PidsAccounted (s : State cfg) : Prop where
  distinct : ∀ i j p q, s.processes i = some p → s.processes j = some q → p.pid = q.pid → i = j
  once : s.freePids.Nodup
  apart : ∀ i p, s.processes i = some p → p.pid ∉ s.freePids
  issued : ∀ t pid, s.pidAlloc = some (t,pid) →
    2 ≤ pid.toNat ∧ pid.toNat < maxProcesses ∧ ∀ i p, s.processes i = some p → p.pid ≠ pid
  kept : ∀ pid : Pid, 2 ≤ pid.toNat → pid.toNat < maxProcesses →
    (∃ i p, s.processes i = some p ∧ p.pid = pid) ∨ pid ∈ s.freePids ∨ s.nextPid ≤ pid.toNat
  drawn : ∀ pid : Pid, (∃ i p, s.processes i = some p ∧ p.pid = pid) ∨ pid ∈ s.freePids →
    pid.toNat < s.nextPid

theorem inUse_roster (s : State cfg) (pid : Pid) :
    s.roster.InUse pid ↔ ∃ i p, s.processes i = some p ∧ p.pid = pid := by
  constructor
  · rintro ⟨i,p,there,rfl⟩
    obtain ⟨q,used,rfl⟩ := Option.map_eq_some_iff.mp there
    exact ⟨i,q,used,rfl⟩
  · rintro ⟨i,p,used,rfl⟩
    exact ⟨i,p.person,Option.map_eq_some_iff.mpr ⟨p,used,rfl⟩,rfl⟩

theorem Roster.Tally.accounted (tally : Tally s.roster) : PidsAccounted s where
  distinct i j p q used used' same :=
    tally.unique i j p.person q.person (Option.map_eq_some_iff.mpr ⟨p,used,rfl⟩)
      (Option.map_eq_some_iff.mpr ⟨q,used',rfl⟩) same
  once := tally.once
  apart i p used listed := tally.apart p.pid listed ((inUse_roster s p.pid).mpr ⟨i,p,used,rfl⟩)
  issued t pid drawn := by
    have issue : s.roster.issue = some (t.roster,pid) := by rw [State.pidAlloc_roster,drawn]; rfl
    obtain ⟨ranged,fresh,-⟩ := tally.issue issue
    exact ⟨ranged.1,ranged.2,fun i p used same => fresh ((inUse_roster s pid).mpr ⟨i,p,used,same⟩)⟩
  kept pid low high := by
    rw [← inUse_roster]
    exact tally.kept pid ⟨low,high⟩
  drawn pid held := by
    rw [← inUse_roster] at held
    rcases held with used | listed
    · exact tally.used pid used
    · exact tally.listed pid listed

/-- Whatever the processes ask for, in any order, as long as spawns succeed no pid is issued
twice and none is lost. -/
theorem pids_accounted (booted : boot cfg = some first) (run : Lts.Run step spawnsSucceed first es s) :
    PidsAccounted s :=
  (run.invariant (fun s => Tally s.roster) step_tally (boot_tally booted)).accounted

/-- Init spawns two children and reaps the first, which leaves 3 on the free list and 4 in use. -/
theorem pids_accounted_reaped : ∃ s, Lts.Run step spawnsSucceed smallBoot
    [.message 1 1 0 (.processCreate bootSpawn),.message 1 1 0 (.processCreate bootSpawn),
      .message 1 1 0 (.processTerminate 3 7),.message 1 1 0 (.waitpid 3 true)] s ∧
    s.freePids = [3] ∧ s.nextPid = 5 ∧ PidsAccounted s := by
  obtain ⟨s,run,free,next⟩ := Lts.Run.exists_of_replay step spawnsSucceed smallBoot
    [.message 1 1 0 (.processCreate bootSpawn),.message 1 1 0 (.processCreate bootSpawn),
      .message 1 1 0 (.processTerminate 3 7),.message 1 1 0 (.waitpid 3 true)]
    (fun s => s.freePids = [3] ∧ s.nextPid = 5) (by decide +kernel)
  exact ⟨s,run,free,next,pids_accounted boot_small run⟩

end Qsoe.Taskman
