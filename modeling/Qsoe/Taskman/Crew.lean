import Mathlib.Algebra.Group.Nat.Defs
import Qsoe.Lib.Windows
import Qsoe.Taskman.Lifecycle

/-! The table of worker threads beside the process table, and the `SYSINFO_THREADS` report that is made of both: a
record for each process, followed by those of its workers. -/
namespace Qsoe.Taskman

abbrev Name := List (BitVec 8)

/-- What comes from headers outside the repository: `TM_MAX_THREADS`, `TM_MAX_TID_PER_PROC`,
`QSOE_SYSINFO_NAME_LEN` and the size of a record. -/
structure Limits where
  threads : Nat
  tids : Nat
  nameLen : Nat
  recordSize : Nat
  sized : 0 < recordSize

/-- The fields of `tm_thread_t` that the report reads. -/
structure ThreadSlot where
  pid : Pid
  tid : Nat
  name : Name
  deriving DecidableEq, Repr

structure Label where
  name : Name
  mainName : Name
  nextTid : Nat
  deriving DecidableEq, Repr

variable {cfg : Config} {lim : Limits}

structure Crew (cfg : Config) (lim : Limits) where
  life : Life cfg
  labels : Fin maxProcesses → Label
  workers : Slab.Table lim.threads ThreadSlot

inductive CrewCall where
  | call (c : Call) (path : Name)
  | threadAlloc (caller : Pid) (stackPages : Nat) (built : Bool)
  | threadSetName (caller : Pid) (tid : Nat) (words : Word × Word)
  deriving DecidableEq, Repr

inductive ThreadErrno where
  | enosys | esrch | enomem | einval
  deriving DecidableEq, Repr

inductive ThreadState where
  | running | detached | zombie
  deriving DecidableEq, Repr

/-- `qsoe_sysinfo_thread_t`, less the hart, which is 0. -/
structure ThreadRecord where
  tid : Nat
  pid : Pid
  state : ThreadState
  name : Name
  deriving DecidableEq, Repr

def baseName (path : Name) : Name := (path.reverse.takeWhile (· ≠ 0x2f)).reverse.take 31

/-- The name in two message words, `TM_THREAD_NAME_LEN` bytes with a NUL at the end. -/
def wordsName (words : Word × Word) : Name :=
  ((List.range 15).map fun i => ((if i < 8 then words.1 else words.2) >>> (8 * (i % 8))).setWidth 8).takeWhile
    (· ≠ 0)

namespace Crew

/-- What a lifecycle call leaves of the threads: the workers of a process that is torn down go. -/
def left (c : Crew cfg lim) : Call → Slab.Table lim.threads ThreadSlot
  | .terminate target _ =>
    if target ≠ pidTaskman ∧ (c.life.reg.processLookup target).any (fun hit => hit.2.exit == .live) = true then
      Slab.drop c.workers fun x => x.pid == target
    else c.workers
  | _ => c.workers

/-- A record that is registered gets the name of the image. -/
def relabel (c : Crew cfg lim) (next : State cfg) (path : Name) (i : Fin maxProcesses) : Label :=
  if (c.life.reg.processes i).isNone && (next.processes i).isSome then ⟨baseName path,[],2⟩ else c.labels i

/-- `tm_thread_alloc`; `built` is whether the objects of the thread are made and configured. Its tid is spent in
any case. -/
def threadAlloc (c : Crew cfg lim) (caller : Pid) (stackPages : Nat) (built : Bool) :
    Crew cfg lim × Except ThreadErrno Nat :=
  if caller = pidTaskman then (c,.error .enosys)
  else match c.life.reg.processLookup caller with
    | none => (c,.error .esrch)
    | some (i,_) =>
      if lim.tids + 1 ≤ (c.labels i).nextTid then (c,.error .enomem)
      else if stackPages = 0 ∨ 16 < stackPages then (c,.error .einval)
      else match Slab.free c.workers with
        | none => (c,.error .enomem)
        | some j =>
          let tid := (c.labels i).nextTid
          let drawn := { c with labels := Function.update c.labels i { c.labels i with nextTid := tid + 1 } }
          if built then ({ drawn with workers := Slab.put c.workers j ⟨caller,tid,[]⟩ },.ok tid) else
            (drawn,.error .enomem)

/-- `TM_REQ_THREAD_SETNAME`. -/
def threadSetName (c : Crew cfg lim) (caller : Pid) (tid : Nat) (words : Word × Word) :
    Crew cfg lim × Except ThreadErrno Unit :=
  match Slab.find c.workers fun x => x.pid == caller && x.tid == tid with
  | some (j,x) => ({ c with workers := Slab.put c.workers j { x with name := wordsName words } },.ok ())
  | none =>
    if tid = 1 then
      match c.life.reg.processLookup caller with
      | none => (c,.error .esrch)
      | some (i,_) =>
        ({ c with labels := Function.update c.labels i { c.labels i with mainName := wordsName words } },.ok ())
    else (c,.error .esrch)

/-- Requests come from processes that run. -/
def step (c : Crew cfg lim) : CrewCall → Option (Crew cfg lim)
  | .call k path => (c.life.step k).map fun l => ⟨l,c.relabel l.reg path,c.left k⟩
  | .threadAlloc caller stackPages built =>
    (c.life.caller caller).map fun _ => (c.threadAlloc caller stackPages built).1
  | .threadSetName caller tid words => (c.life.caller caller).map fun _ => (c.threadSetName caller tid words).1

def start (s : State cfg) (labels : Fin maxProcesses → Label) : Crew cfg lim := ⟨.start s,labels,fun _ => none⟩

/-- Calls without a condition. -/
def anyCrewCall (_ : Crew cfg lim) (_ : CrewCall) : Prop := True

instance : DecidableRel (@anyCrewCall cfg lim) := fun _ _ => .isTrue trivial

/-- The name in a record, with its NUL. -/
def short (lim : Limits) (name : Name) : Name := name.take (lim.nameLen - 1)

def mainRecord (c : Crew cfg lim) (i : Fin maxProcesses) (p : Process) : ThreadRecord where
  tid := 1
  pid := p.pid
  state := if p.exit = .zombie then .zombie else if p.exit = .detached then .detached else .running
  name := short lim (if (c.labels i).mainName ≠ [] then (c.labels i).mainName else (c.labels i).name)

def workerRecord (c : Crew cfg lim) (i : Fin maxProcesses) (p : Process) (x : ThreadSlot) : ThreadRecord where
  tid := x.tid
  pid := p.pid
  state := .running
  name := short lim (if x.name ≠ [] then x.name else (c.labels i).name)

/-- `si_emit_thread`: `idx` and `got` are the cursor. -/
def siEmitThread (want skip : Nat) (w : Windows.Cursor ThreadRecord) (r : ThreadRecord) :
    Windows.Cursor ThreadRecord :=
  Windows.emit want skip w r

/-- The inner loop. -/
def siWorkers (c : Crew cfg lim) (want skip : Nat) (i : Fin maxProcesses) (p : Process)
    (w : Windows.Cursor ThreadRecord) :
    Windows.Cursor ThreadRecord :=
  (List.finRange lim.threads).foldl (fun w j =>
    match c.workers j with
    | none => w
    | some x => if x.pid ≠ p.pid then w else siEmitThread want skip w (c.workerRecord i p x)) w

def siProcess (c : Crew cfg lim) (want skip : Nat) (w : Windows.Cursor ThreadRecord) (i : Fin maxProcesses) :
    Windows.Cursor ThreadRecord :=
  match c.life.reg.processes i with
  | none => w
  | some p => c.siWorkers want skip i p (siEmitThread want skip w (c.mainRecord i p))

/-- `mr0` of the reply. -/
def available (c : Crew cfg lim) : Nat :=
  (List.finRange maxProcesses).countP (fun i => (c.life.reg.processes i).isSome) +
    (List.finRange lim.threads).countP fun j => (c.workers j).isSome

/-- `TM_REQ_SYSINFO` of the threads, with `mr1` and `mr2`; both are cut to 32 bits. -/
def sysinfoThreads (c : Crew cfg lim) (mr1 mr2 : Word) : Nat × List ThreadRecord :=
  (c.available,((List.finRange maxProcesses).foldl
    (c.siProcess (mr1.setWidth 32).toNat (mr2.setWidth 32).toNat) ⟨0,[]⟩).got)

/-- The words of a reply. -/
def replyWords (lim : Limits) (got : Nat) : Nat := 4 + (got * lim.recordSize + 7) / 8

/-- `seL4_MsgMaxLength`. -/
def msgMaxLength : Nat := 120

/-- What the first windows of a width come to. -/
def windows (c : Crew cfg lim) (w n : Nat) : List ThreadRecord :=
  (List.range n).flatMap fun k => (c.sysinfoThreads (BitVec.ofNat 64 w) (BitVec.ofNat 64 (k * w))).2

/-- The records of a process, its main thread first. -/
def entries (c : Crew cfg lim) (i : Fin maxProcesses) : List ThreadRecord :=
  match c.life.reg.processes i with
  | none => []
  | some p => c.mainRecord i p :: ((Slab.values c.workers).filter fun x => x.pid == p.pid).map (c.workerRecord i p)

/-- The whole report, in the order of the two tables. -/
def roll (c : Crew cfg lim) : List ThreadRecord := (List.finRange maxProcesses).flatMap c.entries

/-- The records of the main threads. -/
def mains (c : Crew cfg lim) : List ThreadRecord :=
  (List.finRange maxProcesses).filterMap fun i => (c.life.reg.processes i).map (c.mainRecord i)

/-- The record of a worker: its process is the one with its pid. -/
def record (c : Crew cfg lim) (x : ThreadSlot) : Option ThreadRecord :=
  (c.life.reg.processLookup x.pid).map fun hit => c.workerRecord hit.1 hit.2 x

structure Manned (c : Crew cfg lim) : Prop where
  sound : c.life.Sound
  owned : ∀ j x, c.workers j = some x → ∃ i p, c.life.family.people i = some p ∧ p.pid = x.pid ∧ p.exit ≠ .zombie

section Manning

open Life Family

variable {v w : Family} {l l' : Life cfg} {c d : Crew cfg lim} {k : Call} {e : CrewCall}

theorem move_stays (kin : Kin v) (move : v.Move a w) (used : v.people i = some p) (runs : p.exit ≠ .zombie)
    (spared : a ≠ .terminate i) : ∃ p', w.people i = some p' ∧ p'.pid = p.pid ∧ p'.exit ≠ .zombie := by
  cases move with
  | idle => exact ⟨p,used,rfl,runs⟩
  | strand free | spawn _ free =>
    refine ⟨p,(Slab.put_other _ ?_).trans used,rfl,runs⟩
    rintro rfl
    cases free.symm.trans used
  | detach caller live =>
    rename_i j q status
    by_cases same : i = j
    · subst same
      obtain rfl := Option.some.inj (used.symm.trans caller.there)
      exact ⟨_,Slab.put_same _,rfl,by simp⟩
    · exact ⟨p,(Slab.put_other _ same).trans used,rfl,runs⟩
  | retire there live other gone =>
    exact ⟨p,(Slab.erase_other _ fun same => spared (congrArg Act.terminate same.symm)).trans used,rfl,runs⟩
  | leave there live other alone left =>
    exact ⟨p,(Slab.put_other _ fun same => spared (congrArg Act.terminate same.symm)).trans used,rfl,runs⟩
  | reap caller there mine dead =>
    refine ⟨p,(Slab.erase_other _ ?_).trans used,rfl,runs⟩
    rintro rfl
    obtain rfl := Option.some.inj (used.symm.trans there)
    cases ended : p.exit with
    | live => exact dead ended
    | detached => exact caller.process (mine.symm.trans (kin.adopted i p used ended))
    | zombie => exact runs ended
  | park caller there mine live =>
    rename_i child j w q
    by_cases same : i = j
    · subst same
      obtain rfl := Option.some.inj (used.symm.trans there)
      exact ⟨_,Slab.put_same _,rfl,runs⟩
    · exact ⟨p,(Slab.put_other _ same).trans used,rfl,runs⟩

theorem left_sub (left : c.left k j = some x) : c.workers j = some x := by
  unfold Crew.left at left
  split at left
  · split at left
    · exact (Slab.drop_some.mp left).1
    · exact left
  · exact left

theorem left_spared (left : c.left k j = some x) (used : c.life.family.people i = some p) (own : p.pid = x.pid) :
    c.life.act k ≠ .terminate i := by
  intro act
  cases k with
  | terminate target status =>
    unfold Life.act at act
    dsimp only at act
    split at act
    · cases act
    · rename_i k q found
      split at act
      · rename_i both
        obtain rfl := Act.terminate.inj act
        have torn : target ≠ pidTaskman ∧ (c.life.reg.processLookup target).any
          (fun hit => hit.2.exit == .live) = true := by
          rw [found]
          exact ⟨both.2,beq_iff_eq.mpr both.1⟩
        unfold Crew.left at left
        dsimp only at left
        rw [if_pos torn] at left
        have away := (Slab.drop_some.mp left).2
        obtain ⟨there,same⟩ := Roster.lookup_some (State.lookup_roster_some found)
        obtain rfl := Option.some.inj (used.symm.trans there)
        rw [← own,same,beq_self_eq_true] at away
        cases away
      · cases act
  | spawn | waitpid => cases act
  | detach =>
    unfold Life.act at act
    dsimp only at act
    split at act
    · cases act
    · split at act
      · cases act
      · cases act

theorem threadAlloc_workers (c : Crew cfg lim) (caller : Pid) (stackPages : Nat) (built : Bool) :
    (c.threadAlloc caller stackPages built).1.life = c.life ∧
      ∀ j x, (c.threadAlloc caller stackPages built).1.workers j = some x →
        (∃ y, c.workers j = some y ∧ y.pid = x.pid) ∨ x.pid = caller := by
  have same : ∀ j x, c.workers j = some x → (∃ y, c.workers j = some y ∧ y.pid = x.pid) ∨ x.pid = caller :=
    fun j x used => .inl ⟨x,used,rfl⟩
  unfold threadAlloc
  split
  · exact ⟨rfl,same⟩
  · split
    · exact ⟨rfl,same⟩
    · split
      · exact ⟨rfl,same⟩
      · split
        · exact ⟨rfl,same⟩
        · split
          · exact ⟨rfl,same⟩
          · dsimp only
            split
            · refine ⟨rfl,fun j x used => ?_⟩
              rcases Slab.put_cases used with ⟨rfl,rfl⟩ | old
              · exact .inr rfl
              · exact same j x old
            · exact ⟨rfl,same⟩

theorem threadSetName_workers (c : Crew cfg lim) (caller : Pid) (tid : Nat) (words : Word × Word) :
    (c.threadSetName caller tid words).1.life = c.life ∧
      ∀ j x, (c.threadSetName caller tid words).1.workers j = some x →
        (∃ y, c.workers j = some y ∧ y.pid = x.pid) ∨ x.pid = caller := by
  have same : ∀ j x, c.workers j = some x → (∃ y, c.workers j = some y ∧ y.pid = x.pid) ∨ x.pid = caller :=
    fun j x used => .inl ⟨x,used,rfl⟩
  unfold threadSetName
  split
  · rename_i i y found
    refine ⟨rfl,fun j x used => ?_⟩
    rcases Slab.put_cases used with ⟨rfl,rfl⟩ | old
    · exact .inl ⟨y,(Slab.find_some found).1,rfl⟩
    · exact same j x old
  · split
    · split
      · exact ⟨rfl,same⟩
      · exact ⟨rfl,same⟩
    · exact ⟨rfl,same⟩

/-- Workers that were there or are those of a process that runs. -/
theorem Manned.request (manned : c.Manned) (called : c.life.caller pid = some m) (life : d.life = c.life)
    (workers : ∀ j x, d.workers j = some x → (∃ y, c.workers j = some y ∧ y.pid = x.pid) ∨ x.pid = pid) :
      d.Manned := by
  obtain ⟨q,able,rfl⟩ := Life.caller_spec called
  refine ⟨?_,fun j x used => ?_⟩
  · rw [life]
    exact manned.sound
  · rw [life]
    rcases workers j x used with ⟨y,before,same⟩ | own
    · rw [← same]
      exact manned.owned j y before
    · exact ⟨m,q,able.there,own.symm,able.runs⟩

theorem step_manned (manned : c.Manned) (taken : c.step e = some d) : d.Manned := by
  cases e with
  | call k path =>
    obtain ⟨l,moved,rfl⟩ := Option.map_eq_some_iff.mp taken
    refine ⟨Life.step_sound c.life k l manned.sound moved,fun j x used => ?_⟩
    obtain ⟨i,p,there,own,runs⟩ := manned.owned j x (left_sub used)
    have spared := left_spared used there own
    obtain ⟨p',after,same,runs'⟩ := move_stays manned.sound.kin (Life.step_move manned.sound.pids moved).1
      there runs spared
    exact ⟨i,p',after,same.trans own,runs'⟩
  | threadAlloc pid stackPages built =>
    obtain ⟨m,called,rfl⟩ := Option.map_eq_some_iff.mp taken
    obtain ⟨life,workers⟩ := threadAlloc_workers c pid stackPages built
    exact manned.request called life workers
  | threadSetName pid tid words =>
    obtain ⟨m,called,rfl⟩ := Option.map_eq_some_iff.mp taken
    obtain ⟨life,workers⟩ := threadSetName_workers c pid tid words
    exact manned.request called life workers

theorem run_manned (booted : boot cfg = some s) (run : Lts.Run step anyCrewCall (start s names) es c) :
    c.Manned := by
  refine run.invariant Manned (fun _ _ _ manned _ taken => step_manned manned taken)
    ⟨Life.start_sound booted,fun j x used => ?_⟩
  cases used

theorem siWorkers_values (c : Crew cfg lim) (want skip : Nat) (i : Fin maxProcesses) (p : Process)
    (w : Windows.Cursor ThreadRecord) :
    c.siWorkers want skip i p w =
      (((Slab.values c.workers).filter fun x => x.pid == p.pid).map (c.workerRecord i p)).foldl
        (Windows.emit want skip) w := by
  rw [siWorkers,Slab.values,List.foldl_map,List.foldl_filter,List.foldl_filterMap]
  congr
  funext w j
  cases c.workers j with
  | none => rfl
  | some x =>
    dsimp only
    by_cases own : x.pid = p.pid
    · rw [if_neg (not_not.mpr own),if_pos (beq_iff_eq.mpr own)]
      rfl
    · rw [if_pos own,if_neg fun same => own (beq_iff_eq.mp same)]

theorem siProcess_entries (c : Crew cfg lim) (want skip : Nat) (w : Windows.Cursor ThreadRecord)
    (i : Fin maxProcesses) :
    c.siProcess want skip w i = (c.entries i).foldl (Windows.emit want skip) w := by
  unfold siProcess entries
  cases c.life.reg.processes i with
  | none => rfl
  | some p => exact siWorkers_values ..

theorem sysinfo_records (c : Crew cfg lim) (mr1 mr2 : Word) :
    (c.sysinfoThreads mr1 mr2).2 = (c.roll.drop (mr2.setWidth 32).toNat).take (mr1.setWidth 32).toNat := by
  have loops : c.siProcess (mr1.setWidth 32).toNat (mr2.setWidth 32).toNat =
      fun w i => (c.entries i).foldl (Windows.emit (mr1.setWidth 32).toNat (mr2.setWidth 32).toNat) w :=
    funext fun w => funext fun i => c.siProcess_entries _ _ w i
  rw [sysinfoThreads,loops,← List.foldl_flatMap,Windows.foldl_emit]
  rfl

/-- The processes in the table, with their indices. -/
def there (c : Crew cfg lim) : List (Fin maxProcesses × Process) :=
  (List.finRange maxProcesses).filterMap fun i => (c.life.reg.processes i).map fun p => (i,p)

def under (c : Crew cfg lim) (hit : Fin maxProcesses × Process) : List ThreadSlot :=
  (Slab.values c.workers).filter fun x => x.pid == hit.2.pid

theorem mem_there : hit ∈ c.there ↔ c.life.reg.processes hit.1 = some hit.2 := by
  unfold there
  rw [List.mem_filterMap]
  constructor
  · rintro ⟨i,-,found⟩
    obtain ⟨p,used,rfl⟩ := Option.map_eq_some_iff.mp found
    exact used
  · intro used
    exact ⟨hit.1,List.mem_finRange _,by rw [used]; rfl⟩

theorem roll_there (c : Crew cfg lim) :
    c.roll = c.there.flatMap fun hit => c.mainRecord hit.1 hit.2 :: (c.under hit).map
      (c.workerRecord hit.1 hit.2) := by
  unfold roll there
  induction List.finRange maxProcesses with
  | nil => rfl
  | cons i is ih =>
    rw [List.flatMap_cons,ih,entries]
    cases used : c.life.reg.processes i with
    | none =>
      rw [List.filterMap_cons_none (by rw [used]; rfl)]
      rfl
    | some p =>
      rw [List.filterMap_cons_some (b := (i,p)) (by rw [used]; rfl),List.flatMap_cons]
      rfl

theorem mains_there (c : Crew cfg lim) : c.mains = c.there.map fun hit => c.mainRecord hit.1 hit.2 := by
  rw [there,List.map_filterMap,mains]
  congr
  funext i
  rw [Option.map_map]
  rfl

theorem pids_nodup (wf : c.life.reg.roster.Wf) : (c.there.map fun hit => hit.2.pid).Nodup := by
  rw [there,List.map_filterMap]
  refine List.pairwise_filterMap.mpr (List.Pairwise.imp (fun {i j} apart => ?_) (List.nodup_finRange _))
  intro a first b second same
  rw [Option.map_map] at first second
  obtain ⟨p,used,rfl⟩ := Option.map_eq_some_iff.mp first
  obtain ⟨q,used',rfl⟩ := Option.map_eq_some_iff.mp second
  exact apart (wf.unique i j _ _ (State.person_there used) (State.person_there used') same)

theorem Manned.one (manned : c.Manned) (member : x ∈ Slab.values c.workers) :
    c.there.countP (fun hit => x.pid == hit.2.pid) = 1 := by
  obtain ⟨j,-,used⟩ := List.mem_filterMap.mp member
  obtain ⟨i,q,person,own,-⟩ := manned.owned j x used
  obtain ⟨p,process,rfl⟩ := Option.map_eq_some_iff.mp person
  have listed : x.pid ∈ c.there.map fun hit => hit.2.pid :=
    List.mem_map.mpr ⟨(i,p),mem_there.mpr process,own⟩
  have count := List.count_eq_one_of_mem (pids_nodup manned.sound.pids) listed
  rw [List.count,List.countP_map] at count
  rw [← count]
  refine List.countP_congr fun hit _ => ?_
  rw [Function.comp_apply,beq_iff_eq,beq_iff_eq]
  exact eq_comm

theorem record_under (wf : c.life.reg.roster.Wf) (hit : (i,p) ∈ c.there) (member : x ∈ c.under (i,p)) :
    c.record x = some (c.workerRecord i p x) := by
  have same : x.pid = p.pid := beq_iff_eq.mp (List.mem_filter.mp member).2
  have found := wf.lookup (State.person_there (mem_there.mp hit))
  obtain ⟨q,looked,person⟩ := State.processLookup_of_roster found
  obtain rfl : q = p := Option.some.inj ((Slab.find_some looked).1.symm.trans (mem_there.mp hit))
  rw [record,same]
  have lookup : c.life.reg.processLookup q.pid = some (i,q) := looked
  rw [lookup,Option.map_some]

theorem Manned.roll_perm (manned : c.Manned) :
    c.roll.Perm (c.mains ++ (Slab.values c.workers).filterMap c.record) := by
  rw [roll_there,mains_there]
  refine (List.map_append_flatMap_perm ..).symm.trans (List.Perm.append_left _ ?_)
  have gathered := Windows.gather_perm c.there (fun (x : ThreadSlot) hit => x.pid == hit.2.pid)
    (Slab.values c.workers)
    fun x member => manned.one member
  have records : (c.there.flatMap fun hit => (c.under hit).map (c.workerRecord hit.1 hit.2)) =
      (c.there.flatMap fun hit => (c.under hit).filterMap c.record) := by
    refine List.flatMap_congr fun hit listed => ?_
    rw [← List.filterMap_eq_map]
    exact List.filterMap_congr fun x member => (record_under manned.sound.pids listed member).symm
  rw [records,← List.filterMap_flatMap]
  exact gathered.filterMap c.record

theorem Manned.recorded (manned : c.Manned) (member : x ∈ Slab.values c.workers) : (c.record x).isSome = true := by
  obtain ⟨j,-,used⟩ := List.mem_filterMap.mp member
  obtain ⟨i,q,person,own,-⟩ := manned.owned j x used
  obtain ⟨p,looked,-⟩ := State.processLookup_of_roster (manned.sound.pids.lookup person)
  rw [record,← own,looked]
  rfl

theorem Manned.length_roll (manned : c.Manned) : c.roll.length = c.available := by
  have all : (Slab.values c.workers).countP (fun x => (c.record x).isSome) = (Slab.values c.workers).length :=
    List.countP_eq_length.mpr fun x member => manned.recorded member
  rw [manned.roll_perm.length_eq,List.length_append,List.length_filterMap_eq_countP,all,Slab.values,mains,
    List.length_filterMap_eq_countP,List.length_filterMap_eq_countP,available]
  simp only [Option.isSome_map]

theorem windows_roll {w : Nat} (c : Crew cfg lim) (small : w < 2 ^ 32) (range : n * w ≤ 2 ^ 32) :
    c.windows w n = c.roll.take (n * w) := by
  rw [← Windows.tile,windows]
  refine List.flatMap_congr fun k member => ?_
  have before : (k + 1) * w ≤ n * w := Nat.mul_le_mul_right w (List.mem_range.mp member)
  rw [Nat.succ_mul] at before
  rw [sysinfo_records,BitVec.toNat_setWidth,BitVec.toNat_setWidth,BitVec.toNat_ofNat,BitVec.toNat_ofNat]
  rcases Nat.eq_zero_or_pos w with rfl | positive
  · rfl
  · have skip : k * w % 2 ^ 64 % 2 ^ 32 = k * w := by omega
    have want : w % 2 ^ 64 % 2 ^ 32 = w := by omega
    rw [skip,want]

end Manning

/-- The windows of any width whose records fit a reply are the report, which has one record for each process in the
table, terminated or not, and one for each worker. -/
theorem windows_tile (booted : boot cfg = some s) (run : Lts.Run step anyCrewCall (start s names) es c)
    (fits : w * lim.recordSize ≤ 8 * (msgMaxLength - 4)) (enough : c.available ≤ n * w) (range : n * w ≤ 2 ^ 32) :
    c.windows w n = c.roll ∧ c.roll.Perm (c.mains ++ (Slab.values c.workers).filterMap c.record) ∧
      c.roll.length = c.available ∧ ∀ k, (c.sysinfoThreads (BitVec.ofNat 64 w) (BitVec.ofNat 64 (k * w))).1 =
        c.available ∧
        replyWords lim (c.sysinfoThreads (BitVec.ofNat 64 w) (BitVec.ofNat 64 (k * w))).2.length ≤
          msgMaxLength := by
  have manned := run_manned booted run
  have limit : msgMaxLength = 120 := rfl
  have narrow : w ≤ w * lim.recordSize := Nat.le_mul_of_pos_right w lim.sized
  refine ⟨?_,manned.roll_perm,manned.length_roll,fun k => ⟨rfl,?_⟩⟩
  · rw [windows_roll c (by omega) range,List.take_of_length_le (manned.length_roll ▸ enough)]
  · have few : (c.sysinfoThreads (BitVec.ofNat 64 w) (BitVec.ofNat 64 (k * w))).2.length ≤ w := by
      rw [sysinfo_records,BitVec.toNat_setWidth,BitVec.toNat_ofNat]
      refine (List.length_take_le _ _).trans ?_
      omega
    have bytes := Nat.mul_le_mul_right lim.recordSize few
    unfold replyWords
    omega

def smallLimits : Limits := ⟨4,4,16,32,by decide⟩

/-- Init has a worker with a name. -/
theorem windows_tile_worker : ∃ c : Crew small smallLimits,
    Lts.Run step anyCrewCall (start smallBoot fun _ => ⟨[0x69],[],2⟩)
      [.threadAlloc 2 1 true,.threadSetName 2 2 (0x77,0)] c ∧
      c.available = 3 ∧ c.windows 1 3 = c.roll ∧ c.roll.length = c.available := by
  obtain ⟨c,run,available⟩ := Lts.Run.exists_of_replay step anyCrewCall (start smallBoot fun _ => ⟨[0x69],[],2⟩)
    [.threadAlloc 2 1 true,.threadSetName 2 2 (0x77,0)] (fun c : Crew small smallLimits => c.available = 3)
      (by decide +kernel)
  have fits : 1 * smallLimits.recordSize ≤ 8 * (msgMaxLength - 4) := by decide
  have all := windows_tile (w := 1) (n := 3) boot_small run fits available.le (by decide)
  exact ⟨c,run,available,all.1,all.2.2.1⟩

/-- The records of the main threads of processes that have not been terminated. -/
def living (c : Crew cfg lim) : List ThreadRecord :=
  (List.finRange maxProcesses).filterMap fun i => (c.life.reg.processes i).bind fun p =>
    if p.exit = .zombie then none else some (c.mainRecord i p)

/-- A child that nobody has waited for has a record too. -/
theorem zombie_listed : ∃ c : Crew small smallLimits,
    Lts.Run step anyCrewCall (start smallBoot fun _ => ⟨[0x69],[],2⟩)
      [.call (.spawn 2 bootSpawn) [0x73],.call (.terminate 3 7) []] c ∧
      ¬(c.windows 8 1).Perm (c.living ++ (Slab.values c.workers).filterMap c.record) := by
  obtain ⟨c,run,report,rest⟩ := Lts.Run.exists_of_replay step anyCrewCall (start smallBoot fun _ => ⟨[0x69],[],2⟩)
    [.call (.spawn 2 bootSpawn) [0x73],.call (.terminate 3 7) []] (fun c : Crew small smallLimits =>
      (c.windows 8 1).length = 3 ∧ (c.living ++ (Slab.values c.workers).filterMap c.record).length = 2) (by decide +kernel)
  refine ⟨c,run,fun perm => ?_⟩
  have same := perm.length_eq
  rw [report,rest] at same
  cases same

end Crew

end Qsoe.Taskman
