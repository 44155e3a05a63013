import Qsoe.Taskman.Pids

/-! Spawn, detach, terminate and waitpid in any order, by any process that runs. Beside the
registries the machine keeps what the code has no names for: the incarnation of every
record, the incarnation that spawned it, the one last parked on it, and who has been given
which status. -/
namespace Qsoe.Taskman

variable {cfg : Config}

inductive Call where
  | spawn (parent : Pid) (k : SpawnKernel)
  | detach (pid : Pid) (status : BitVec 32)
  | terminate (target : Pid) (status : BitVec 32)
  | waitpid (waiter child : Pid) (parked : Bool)
  deriving DecidableEq, Repr

inductive Note where
  | ended (child maker : Nat) (pid : Pid) (status : BitVec 32)
  | obtained (waiter child : Nat) (status : BitVec 32)
  deriving DecidableEq, Repr

/-- Incarnation 0 is taskman. -/
structure Life (cfg : Config) where
  reg : State cfg
  born : Fin maxProcesses → Nat
  maker : Fin maxProcesses → Nat
  waiting : Fin maxProcesses → Nat
  clock : Nat
  log : List Note

/-- Who got the status of a child, in order. -/
def obtained (log : List Note) (child : Nat) : List (Nat × BitVec 32) :=
  log.filterMap fun
    | .obtained waiter c status => if c = child then some (waiter,status) else none
    | .ended .. => none

namespace Life

/-- The record of a process that is there to make a call. -/
def caller (l : Life cfg) (pid : Pid) : Option (Fin maxProcesses) :=
  match l.reg.processLookup pid with
  | none => none
  | some (i,p) => if p.exit = .zombie ∨ pid = pidTaskman then none else some i

def endNotes (l : Life cfg) (i : Fin maxProcesses) (p : Process) (status : BitVec 32) : List Note :=
  .ended (l.born i) (l.maker i) p.pid status ::
    if p.waiter then [.obtained (l.waiting i) (l.born i) status] else []

def record (l : Life cfg) (pid : Pid) (status : BitVec 32) : List Note :=
  match l.reg.processLookup pid with
  | none => []
  | some (i,p) => if p.exit = .live then l.endNotes i p status else []

def spawn (l : Life cfg) (w : Fin maxProcesses) (parent : Pid) (k : SpawnKernel) : Life cfg :=
  let done := l.reg.processCreate parent k
  match Slab.free l.reg.processes with
  | none => { l with reg := done.1 }
  | some i =>
    if (done.1.processes i).isSome then { l with
      reg := done.1
      born := Function.update l.born i l.clock
      maker := Function.update l.maker i (match done.2 with | .ok _ => l.born w | .error _ => 0)
      clock := l.clock + 1 }
    else { l with reg := done.1 }

def waitpid (l : Life cfg) (w : Fin maxProcesses) (waiter child : Pid) (parked : Bool) : Life cfg :=
  let done := l.reg.processWaitpid waiter child parked
  match done.2, l.reg.processLookup child with
  | .ok (some status), some (i,_) =>
      { l with reg := done.1, log := l.log ++ [.obtained (l.born w) (l.born i) status] }
  | .ok none, some (i,_) => { l with reg := done.1, waiting := Function.update l.waiting i (l.born w) }
  | _, _ => { l with reg := done.1 }

def step (l : Life cfg) : Call → Option (Life cfg)
  | .spawn parent k => (l.caller parent).map fun w => l.spawn w parent k
  | .detach pid status => (l.caller pid).map fun _ =>
      { l with reg := (l.reg.processDetach pid status).1, log := l.log ++ l.record pid status }
  | .terminate target status =>
      if target = pidTaskman then some l
      else some { l with
        reg := (l.reg.processTerminate target status).1, log := l.log ++ l.record target status }
  | .waitpid waiter child parked => (l.caller waiter).map fun w => l.waitpid w waiter child parked

/-- Calls without a condition. -/
def anyCall (_ : Life cfg) (_ : Call) : Prop := True

instance : DecidableRel (@anyCall cfg) := fun _ _ => .isTrue trivial

/-- Taskman and init, the way `main` enters its loop. -/
def start (s : State cfg) : Life cfg := ⟨s,Fin.val,fun _ => 0,fun _ => 0,maxProcesses,[]⟩

/-- The live record a call ends, if any. -/
inductive Act where
  | quiet
  | detach (i : Fin maxProcesses)
  | terminate (i : Fin maxProcesses)

def act (l : Life cfg) : Call → Act
  | .detach pid _ =>
    match l.reg.processLookup pid with
    | none => .quiet
    | some (i,p) => if p.exit = .live then .detach i else .quiet
  | .terminate target _ =>
    match l.reg.processLookup target with
    | none => .quiet
    | some (i,p) => if p.exit = .live ∧ target ≠ pidTaskman then .terminate i else .quiet
  | _ => .quiet

end Life

structure Family where
  people : Slab.Table maxProcesses Person
  born : Fin maxProcesses → Nat
  maker : Fin maxProcesses → Nat
  waiting : Fin maxProcesses → Nat
  clock : Nat
  log : List Note

def Life.family (l : Life cfg) : Family := ⟨l.reg.roster.people,l.born,l.maker,l.waiting,l.clock,l.log⟩

namespace Family

open Life

structure Caller (v : Family) (w : Fin maxProcesses) (q : Person) : Prop where
  there : v.people w = some q
  runs : q.exit ≠ .zombie
  process : q.pid ≠ pidTaskman

def endNotes (v : Family) (i : Fin maxProcesses) (p : Person) (status : BitVec 32) : List Note :=
  .ended (v.born i) (v.maker i) p.pid status ::
    if p.waiter then [.obtained (v.waiting i) (v.born i) status] else []

def Running (v : Family) (m : Nat) : Prop := ∃ j, ∃ q ∈ v.people j, v.born j = m ∧ q.exit ≠ .zombie

instance (v : Family) (m : Nat) : Decidable (v.Running m) := inferInstanceAs (Decidable (∃ _, _))

def Attentive (v : Family) (pid : Pid) : Prop :=
  ∃ j q, v.people j = some q ∧ q.pid = pid ∧ q.exit = .live ∧ pid ≠ pidTaskman

def ended (v : Family) (i : Fin maxProcesses) (p : Person) (status : BitVec 32) : Family :=
  { v with
    people := Slab.put v.people i { p with exit := .zombie, status := status, waiter := false }
    log := v.log ++ v.endNotes i p status }

/-- Everything a call can do. -/
inductive Move : Family → Act → Family → Prop where
  | idle : Move v .quiet v
  | strand : v.people i = none → Roster.Ranged pid →
      Move v .quiet { v with
        people := Slab.put v.people i ⟨pid,pidTaskman,.live,0,false⟩
        born := Function.update v.born i v.clock
        maker := Function.update v.maker i 0
        clock := v.clock + 1 }
  | spawn : v.Caller w q → v.people i = none → Roster.Ranged pid →
      Move v .quiet { v with
        people := Slab.put v.people i ⟨pid,q.pid,.live,0,false⟩
        born := Function.update v.born i v.clock
        maker := Function.update v.maker i (v.born w)
        clock := v.clock + 1 }
  | detach : v.Caller i p → p.exit = .live →
      Move v (.detach i) { v with
        people := Slab.put v.people i
          { p with exit := .detached, status := status, waiter := false, parent := pidTaskman }
        log := v.log ++ v.endNotes i p status }
  | retire : v.people i = some p → p.exit = .live → p.pid ≠ pidTaskman →
      p.waiter = true ∨ ¬ (v.ended i p status).Attentive p.parent →
      Move v (.terminate i) { v.ended i p status with people := Slab.erase v.people i }
  | leave : v.people i = some p → p.exit = .live → p.pid ≠ pidTaskman → p.waiter = false →
      (v.ended i p status).Attentive p.parent → Move v (.terminate i) (v.ended i p status)
  | reap : v.Caller w q → v.people i = some c → c.parent = q.pid → c.exit ≠ .live →
      Move v .quiet { v with
        people := Slab.erase v.people i, log := v.log ++ [.obtained (v.born w) (v.born i) c.status] }
  | park : v.Caller w q → v.people i = some c → c.parent = q.pid → c.exit = .live →
      Move v .quiet { v with
        people := Slab.put v.people i { c with waiter := true }
        waiting := Function.update v.waiting i (v.born w) }

end Family

namespace Life

variable {l l' : Life cfg}

theorem caller_spec (called : l.caller pid = some w) : ∃ q, l.family.Caller w q ∧ q.pid = pid := by
  unfold caller at called
  split at called
  · cases called
  · rename_i i p found
    split at called
    · cases called
    · rename_i able
      obtain rfl : i = w := Option.some.inj called
      obtain ⟨there,same⟩ := Roster.lookup_some (State.lookup_roster_some found)
      refine ⟨p.person,⟨there,?_,?_⟩,same⟩
      · exact fun zombie => able (.inl zombie)
      · exact fun taskman => able (.inr (same.symm.trans taskman))

theorem spawn_move (wf : Roster.Wf l.reg.roster) (called : l.family.Caller w q) (k : SpawnKernel) :
    l.family.Move .quiet (l.spawn w q.pid k).family := by
  have same : Slab.free l.reg.roster.people = Slab.free l.reg.processes := Slab.free_map ..
  have used : ∀ (s : State cfg) i, (s.processes i).isSome = (s.roster.people i).isSome := by
    simp [State.roster,Slab.map]
  unfold spawn
  rw [← same]
  simp only [used]
  rcases (l.reg.processCreate_roster q.pid k).people wf with
    ⟨e,error,kept⟩ | ⟨pid,i,ranged,free,⟨⟨e,error⟩,added⟩ | ⟨done,added⟩⟩
  · split
    · simp only [family,kept]
      exact .idle
    · rename_i i free
      simp only [kept,Slab.free_some free,Option.isSome_none,Bool.false_eq_true,if_false,family]
      exact .idle
  · simp only [free,added,Slab.put_same,Option.isSome_some,if_true,family,error]
    exact .strand (Slab.free_some free) ranged
  · simp only [free,added,Slab.put_same,Option.isSome_some,if_true,family,done]
    exact .spawn called (Slab.free_some free) ranged

theorem waitpid_move (called : l.family.Caller w q) (child : Pid) (parked : Bool) :
    l.family.Move .quiet (l.waitpid w q.pid child parked).family := by
  have roster := l.reg.processWaitpid_roster q.pid child parked
  unfold waitpid
  rcases l.reg.roster.waitpid_cases q.pid child parked with
    ⟨e,failed⟩ | ⟨i,c,found,mine,⟨dead,reaped⟩ | ⟨live,-,set⟩⟩
  · rw [failed] at roster
    obtain ⟨kept,error⟩ := Prod.mk.inj roster
    simp only [← error,family,← kept]
    exact .idle
  · rw [reaped] at roster
    obtain ⟨kept,done⟩ := Prod.mk.inj roster
    obtain ⟨p,hit,-⟩ := State.processLookup_of_roster found
    simp only [hit,← done,family,← kept,Roster.reap_people]
    exact .reap called (Roster.lookup_some found).1 mine dead
  · rw [set] at roster
    obtain ⟨kept,done⟩ := Prod.mk.inj roster
    obtain ⟨p,hit,-⟩ := State.processLookup_of_roster found
    simp only [hit,← done,family,← kept]
    exact .park called (Roster.lookup_some found).1 mine live

theorem record_family (found : l.reg.processLookup pid = some (i,p)) (live : p.exit = .live) (status : BitVec 32) :
    l.record pid status = l.family.endNotes i p.person status := by
  simp [record,found,live,endNotes,Family.endNotes,family]

theorem record_dead (found : l.reg.processLookup pid = some (i,p)) (dead : p.exit ≠ .live) (status : BitVec 32) :
    l.record pid status = [] := by
  simp [record,found,dead]

theorem detach_move (called : l.caller pid = some w) (status : BitVec 32) :
    l.family.Move (l.act (.detach pid status)) { l with
      reg := (l.reg.processDetach pid status).1, log := l.log ++ l.record pid status }.family := by
  obtain ⟨q,able,rfl⟩ := caller_spec called
  unfold caller at called
  split at called
  · cases called
  · rename_i i p found
    split at called
    · cases called
    · obtain rfl : i = w := Option.some.inj called
      have there := (Roster.lookup_some (State.lookup_roster_some found)).1
      obtain rfl : p.person = q := Option.some.inj (there.symm.trans able.there)
      simp only [act,found,family,State.processDetach_roster,Roster.detach,State.lookup_roster_some found]
      by_cases live : p.exit = .live
      · rw [record_family found live status]
        simp only [Process.person_exit,live,ne_eq,not_true_eq_false,if_false,if_true]
        exact .detach able live
      · simp only [Process.person_exit,live,ne_eq,not_false_eq_true,if_true,if_false,record_dead found live,
          List.append_nil]
        exact .idle

theorem attentive_iff {r : Roster} (wf : Roster.Wf r) {v : Family} (same : v.people = r.people) (pid : Pid) :
    r.parentCanReap pid = true ↔ v.Attentive pid := by
  unfold Roster.parentCanReap Family.Attentive
  rw [same]
  constructor
  · intro reaps
    split at reaps
    · cases reaps
    · rename_i i par found
      obtain ⟨there,equal⟩ := Roster.lookup_some found
      have both : par.exit = .live ∧ pid ≠ pidTaskman := by simpa using reaps
      exact ⟨i,par,there,equal,both⟩
  · rintro ⟨j,q,there,rfl,live,process⟩
    simp [wf.lookup there,live,process]

theorem terminate_move (wf : Roster.Wf l.reg.roster) (other : target ≠ pidTaskman) (status : BitVec 32) :
    l.family.Move (l.act (.terminate target status)) { l with
      reg := (l.reg.processTerminate target status).1, log := l.log ++ l.record target status }.family := by
  simp only [act,family,State.processTerminate_roster,Roster.terminate,if_neg other]
  cases found : l.reg.processLookup target with
  | none =>
    simp only [State.lookup_roster_none found,record,found,List.append_nil]
    exact .idle
  | some hit =>
    obtain ⟨i,p⟩ := hit
    obtain ⟨there,rfl⟩ := Roster.lookup_some (State.lookup_roster_some found)
    simp only [State.lookup_roster_some found]
    by_cases live : p.exit = .live
    · rw [record_family found live status]
      simp only [Process.person_exit,live,ne_eq,not_true_eq_false,if_false,Roster.finish,true_and,other,
        not_false_eq_true,if_true]
      have ended := wf.set (q := { p.person with exit := .zombie, status := status, waiter := false }) there rfl
      have reaps := attentive_iff ended (v := l.family.ended i p.person status) rfl p.person.parent
      split
      · rename_i gone
        rw [← Bool.not_eq_true,reaps] at gone
        have erased : ∀ q, Slab.erase (l.reg.roster.set i q).people i = Slab.erase l.reg.roster.people i := by
          simp [Roster.set,Slab.erase,Slab.put]
        rw [Roster.reap_people,erased]
        exact .retire there live other gone
      · rename_i left
        rw [not_or,← Bool.not_eq_true,Bool.not_eq_true,not_not,reaps] at left
        exact .leave there live other left.1 left.2
    · simp only [Process.person_exit,live,ne_eq,not_false_eq_true,if_true,if_false,false_and,record_dead found live,
        List.append_nil]
      exact .idle

/-- Each call of the machine is one move, and keeps the pids apart. -/
theorem step_move (wf : Roster.Wf l.reg.roster) (taken : l.step c = some l') :
    l.family.Move (l.act c) l'.family ∧ Roster.Wf l'.reg.roster := by
  cases c with
  | spawn parent k =>
    obtain ⟨w,called,rfl⟩ := Option.map_eq_some_iff.mp taken
    obtain ⟨q,able,rfl⟩ := caller_spec called
    refine ⟨spawn_move wf able k,?_⟩
    have after : (l.spawn w q.pid k).reg = (l.reg.processCreate q.pid k).1 := by
      unfold spawn
      dsimp only
      split
      · rfl
      · split <;> rfl
    rw [after]
    exact wf.spawns (l.reg.processCreate_roster q.pid k)
  | detach pid status =>
    obtain ⟨w,called,rfl⟩ := Option.map_eq_some_iff.mp taken
    refine ⟨detach_move called status,?_⟩
    simp only [State.processDetach_roster]
    exact Roster.Change.wf (.detach pid status) wf
  | terminate target status =>
    simp only [step] at taken
    split at taken
    · rename_i own
      obtain rfl := Option.some.inj taken
      have quiet : l.act (.terminate target status) = .quiet := by
        simp only [act]
        split
        · rfl
        · simp [own]
      rw [quiet]
      exact ⟨.idle,wf⟩
    · rename_i other
      obtain rfl := Option.some.inj taken
      refine ⟨terminate_move wf other status,?_⟩
      simp only [State.processTerminate_roster]
      exact Roster.Change.wf (.terminate target status) wf
  | waitpid waiter child parked =>
    obtain ⟨w,called,rfl⟩ := Option.map_eq_some_iff.mp taken
    obtain ⟨q,able,rfl⟩ := caller_spec called
    refine ⟨waitpid_move able child parked,?_⟩
    have after : (l.waitpid w q.pid child parked).reg = (l.reg.processWaitpid q.pid child parked).1 := by
      unfold waitpid
      dsimp only
      split <;> rfl
    have same : _ = (l.reg.processWaitpid q.pid child parked).1.roster :=
      congrArg Prod.fst (l.reg.processWaitpid_roster q.pid child parked)
    rw [after,← same]
    exact Roster.Change.wf (.waitpid q.pid child parked) wf

end Life

namespace Family

variable {v w : Family}

/-- What becomes of a record that stays: nothing, or a live one detaches or is left a zombie. -/
def Later (p p' : Person) : Prop :=
  p' = p ∨ p.exit = .live ∧ p'.pid = p.pid ∧ p'.waiter = false ∧
    (p'.exit = .detached ∧ p'.parent = pidTaskman ∨ p'.exit = .zombie ∧ p'.parent = p.parent)

/-- While the incarnation that spawned a child runs, the child's parent pid is its pid and the
waiter parked on the child is its own. -/
structure Kin (v : Family) : Prop where
  started : 0 < v.clock
  clock : ∀ i p, v.people i = some p → v.born i < v.clock ∧ v.maker i < v.clock
  apart : ∀ i j p q, v.people i = some p → v.people j = some q → v.born i = v.born j → i = j
  parent : ∀ i p, v.people i = some p → p.exit ≠ .detached → v.maker i ≠ 0 →
    ∀ j q, v.people j = some q → v.born j = v.maker i → q.exit ≠ .zombie → p.parent = q.pid
  adopted : ∀ i p, v.people i = some p → p.exit = .detached → p.parent = pidTaskman
  taskman : ∀ i p, v.people i = some p → p.pid = pidTaskman → v.born i = 0
  waiter : ∀ i p, v.people i = some p → p.waiter = true → p.exit = .live
  parked : ∀ i p, v.people i = some p → p.waiter = true → v.maker i ≠ 0 → v.Running (v.maker i) →
    v.waiting i = v.maker i

theorem Later.detach (live : p.exit = .live) (status : BitVec 32) :
    Later p { p with exit := .detached, status := status, waiter := false, parent := pidTaskman } :=
  .inr ⟨live,rfl,rfl,.inl ⟨rfl,rfl⟩⟩

theorem Later.leave (live : p.exit = .live) (status : BitVec 32) :
    Later p { p with exit := .zombie, status := status, waiter := false } :=
  .inr ⟨live,rfl,rfl,.inr ⟨rfl,rfl⟩⟩

theorem Later.runs (later : Later p p') (runs : p'.exit ≠ .zombie) : p.exit ≠ .zombie := by
  rcases later with rfl | ⟨live,-⟩
  · exact runs
  · simp [live]

theorem Later.pid (later : Later p p') : p'.pid = p.pid := by
  rcases later with rfl | ⟨-,same,-⟩
  · rfl
  · exact same

theorem running_of_later (running : w.Running m)
    (later : ∀ i p', w.people i = some p' → ∃ p, v.people i = some p ∧ Later p p') (born : w.born = v.born) :
    v.Running m := by
  obtain ⟨j,q',there,same,runs⟩ := running
  obtain ⟨q,before,step⟩ := later j q' there
  exact ⟨j,q,before,born ▸ same,step.runs runs⟩

theorem Kin.of_later (kin : Kin v)
    (later : ∀ i p', w.people i = some p' → ∃ p, v.people i = some p ∧ Later p p')
    (born : w.born = v.born) (maker : w.maker = v.maker) (waiting : w.waiting = v.waiting)
    (clock : w.clock = v.clock) : Kin w where
  started := by
    rw [clock]
    exact kin.started
  clock i p' used := by
    obtain ⟨p,before,-⟩ := later i p' used
    rw [born,maker,clock]
    exact kin.clock i p before
  apart i j p' q' used used' same := by
    obtain ⟨p,before,-⟩ := later i p' used
    obtain ⟨q,before',-⟩ := later j q' used'
    rw [born] at same
    exact kin.apart i j p q before before' same
  parent i p' used attached made j q' used' same runs := by
    obtain ⟨p,before,step⟩ := later i p' used
    obtain ⟨q,before',step'⟩ := later j q' used'
    rw [born,maker] at same
    rw [maker] at made
    have known : p.exit ≠ .detached → p.parent = q.pid := fun attached =>
      kin.parent i p before attached made j q before' same (step'.runs runs)
    rw [step'.pid]
    rcases step with rfl | ⟨live,-,-,⟨detached,-⟩ | ⟨-,equal⟩⟩
    · exact known attached
    · exact absurd detached attached
    · rw [equal]
      exact known (by simp [live])
  adopted i p' used detached := by
    obtain ⟨p,before,step⟩ := later i p' used
    rcases step with rfl | ⟨-,-,-,⟨-,adopted⟩ | ⟨zombie,-⟩⟩
    · exact kin.adopted i p' before detached
    · exact adopted
    · simp [zombie] at detached
  taskman i p' used own := by
    obtain ⟨p,before,step⟩ := later i p' used
    rw [born]
    exact kin.taskman i p before (step.pid.symm.trans own)
  waiter i p' used waits := by
    obtain ⟨p,before,step⟩ := later i p' used
    rcases step with rfl | ⟨-,-,nothing,-⟩
    · exact kin.waiter i p' before waits
    · simp [nothing] at waits
  parked i p' used waits made running := by
    obtain ⟨p,before,step⟩ := later i p' used
    rw [waiting,maker]
    rw [maker] at made running
    rcases step with rfl | ⟨-,-,nothing,-⟩
    · exact kin.parked i p' before waits made (running_of_later running later born)
    · simp [nothing] at waits

/-- A new record in a free index, of the current instant. -/
theorem Kin.enrol (kin : Kin v) (free : v.people i = none) (ranged : Roster.Ranged pid)
    (parent : m ≠ 0 → ∃ k q, v.people k = some q ∧ v.born k = m ∧ q.pid = mother)
    (past : m < v.clock) (new : p = ⟨pid,mother,.live,0,false⟩) :
    Kin { v with
      people := Slab.put v.people i p
      born := Function.update v.born i v.clock
      maker := Function.update v.maker i m
      clock := v.clock + 1 } := by
  have other : ∀ k q, v.people k = some q → k ≠ i := by
    rintro k q used rfl
    simp [free] at used
  subst new
  constructor
  · exact Nat.succ_pos _
  · intro k q used
    rcases Slab.put_cases used with ⟨rfl,rfl⟩ | old
    · simp only [Function.update_self]
      omega
    · have known := kin.clock k q old
      simp only [Function.update_of_ne (other k q old)]
      omega
  · intro k l q q' used used' same
    rcases Slab.put_cases used with ⟨rfl,rfl⟩ | old
    · rcases Slab.put_cases used' with ⟨rfl,rfl⟩ | old'
      · rfl
      · have known := kin.clock l q' old'
        simp only [Function.update_self,Function.update_of_ne (other l q' old')] at same
        omega
    · have known := kin.clock k q old
      rcases Slab.put_cases used' with ⟨rfl,rfl⟩ | old'
      · simp only [Function.update_self,Function.update_of_ne (other k q old)] at same
        omega
      · simp only [Function.update_of_ne (other k q old),Function.update_of_ne (other l q' old')] at same
        exact kin.apart k l q q' old old' same
  · intro k q used attached made l q' used' same runs
    rcases Slab.put_cases used with ⟨rfl,rfl⟩ | old
    · simp only [Function.update_self] at made same
      rcases Slab.put_cases used' with ⟨rfl,rfl⟩ | old'
      · simp only [Function.update_self] at same
        omega
      · simp only [Function.update_of_ne (other l q' old')] at same
        obtain ⟨n,r,there,born,rfl⟩ := parent made
        obtain rfl := kin.apart n l r q' there old' (born.trans same.symm)
        rw [Option.some.inj (there.symm.trans old')]
    · simp only [Function.update_of_ne (other k q old)] at made same
      have known := kin.clock k q old
      rcases Slab.put_cases used' with ⟨rfl,rfl⟩ | old'
      · simp only [Function.update_self] at same
        omega
      · simp only [Function.update_of_ne (other l q' old')] at same
        exact kin.parent k q old attached made l q' old' same runs
  · intro k q used detached
    rcases Slab.put_cases used with ⟨rfl,rfl⟩ | old
    · cases detached
    · exact kin.adopted k q old detached
  · intro k q used own
    rcases Slab.put_cases used with ⟨rfl,rfl⟩ | old
    · dsimp only at own
      simp [own,Roster.Ranged,pidTaskman] at ranged
    · simpa only [Function.update_of_ne (other k q old)] using kin.taskman k q old own
  · intro k q used waits
    rcases Slab.put_cases used with ⟨rfl,rfl⟩ | old
    · cases waits
    · exact kin.waiter k q old waits
  · intro k q used waits made running
    rcases Slab.put_cases used with ⟨rfl,rfl⟩ | old
    · cases waits
    · simp only [Function.update_of_ne (other k q old)] at made running ⊢
      apply kin.parked k q old waits made
      obtain ⟨l,q',there,same,runs⟩ := running
      rcases Slab.put_cases there with ⟨rfl,rfl⟩ | old'
      · have known := kin.clock k q old
        simp only [Function.update_self] at same
        omega
      · simp only [Function.update_of_ne (other l q' old')] at same
        exact ⟨l,q',old',same,runs⟩

theorem later_put (used : v.people i = some p) (step : Later p p') :
    ∀ k q', Slab.put v.people i p' k = some q' → ∃ q, v.people k = some q ∧ Later q q' := by
  intro k q' there
  rcases Slab.put_cases there with ⟨rfl,rfl⟩ | old
  · exact ⟨p,used,step⟩
  · exact ⟨q',old,.inl rfl⟩

theorem later_erase (v : Family) (i : Fin maxProcesses) :
    ∀ k q', Slab.erase v.people i k = some q' → ∃ q, v.people k = some q ∧ Later q q' := by
  intro k q' there
  exact ⟨q',(Slab.erase_some there).2,.inl rfl⟩

/-- The process a child's parent pid names is the one that spawned it. -/
theorem Kin.mother (kin : Kin v)
    (unique : ∀ i j p q, v.people i = some p → v.people j = some q → p.pid = q.pid → i = j)
    (used : v.people i = some c) (attached : c.exit ≠ .detached) (made : v.maker i ≠ 0)
    (running : v.Running (v.maker i)) (there : v.people n = some q) (mine : c.parent = q.pid) :
    v.born n = v.maker i := by
  obtain ⟨j,p,present,same,runs⟩ := running
  have pid := kin.parent i c used attached made j p present same runs
  obtain rfl := unique j n p q present there (pid.symm.trans mine)
  exact same

theorem Kin.park (kin : Kin v)
    (unique : ∀ i j p q, v.people i = some p → v.people j = some q → p.pid = q.pid → i = j)
    (called : v.Caller n q) (used : v.people i = some c) (mine : c.parent = q.pid) (live : c.exit = .live) :
    Kin { v with
      people := Slab.put v.people i { c with waiter := true }
      waiting := Function.update v.waiting i (v.born n) } := by
  -- only the waiter of one live record changes
  have back : ∀ k p', Slab.put v.people i { c with waiter := true } k = some p' →
      ∃ p, v.people k = some p ∧ p'.pid = p.pid ∧ p'.parent = p.parent ∧ p'.exit = p.exit := by
    intro k p' there
    rcases Slab.put_cases there with ⟨rfl,rfl⟩ | old
    · exact ⟨c,used,rfl,rfl,rfl⟩
    · exact ⟨p',old,rfl,rfl,rfl⟩
  constructor
  · exact kin.started
  · intro k p' there
    obtain ⟨p,before,-⟩ := back k p' there
    exact kin.clock k p before
  · intro k l p' q' there there' same
    obtain ⟨p,before,-⟩ := back k p' there
    obtain ⟨r,before',-⟩ := back l q' there'
    exact kin.apart k l p r before before' same
  · intro k p' there attached made l q' there' same runs
    obtain ⟨p,before,-,parent,exit⟩ := back k p' there
    obtain ⟨r,before',pid,-,exit'⟩ := back l q' there'
    rw [exit] at attached
    rw [exit'] at runs
    rw [parent,pid]
    exact kin.parent k p before attached made l r before' same runs
  · intro k p' there detached
    obtain ⟨p,before,-,parent,exit⟩ := back k p' there
    rw [parent]
    exact kin.adopted k p before (exit.symm.trans detached)
  · intro k p' there own
    obtain ⟨p,before,pid,-⟩ := back k p' there
    exact kin.taskman k p before (pid.symm.trans own)
  · intro k p' there waits
    rcases Slab.put_cases there with ⟨rfl,rfl⟩ | old
    · exact live
    · exact kin.waiter k p' old waits
  · intro k p' there waits made running
    have before : v.Running (v.maker k) := by
      obtain ⟨l,q',there',same,runs⟩ := running
      obtain ⟨r,before',-,-,exit'⟩ := back l q' there'
      exact ⟨l,r,before',same,by rwa [← exit']⟩
    dsimp only
    rcases eq_or_ne k i with rfl | other
    · rw [Function.update_self]
      exact kin.mother unique used (by simp [live]) made before called.there mine
    · rw [Function.update_of_ne other]
      have old : v.people k = some p' := by simpa [other] using there
      exact kin.parked k p' old waits made before

theorem Kin.move (kin : Kin v) (unique : ∀ i j p q, v.people i = some p → v.people j = some q →
    p.pid = q.pid → i = j)
    (move : v.Move a w) : Kin w := by
  cases move with
  | idle => exact kin
  | strand free ranged => exact kin.enrol free ranged (fun made => absurd rfl made) kin.started rfl
  | spawn called free ranged =>
    exact kin.enrol free ranged (fun _ => ⟨_,_,called.there,rfl,rfl⟩) (kin.clock _ _ called.there).1 rfl
  | detach called live =>
    exact kin.of_later (later_put called.there (.detach live _)) rfl rfl rfl rfl
  | retire used live other gone => exact kin.of_later (later_erase v _) rfl rfl rfl rfl
  | leave used live other silent attentive =>
    exact kin.of_later (later_put used (.leave live _)) rfl rfl rfl rfl
  | reap called used mine dead => exact kin.of_later (later_erase v _) rfl rfl rfl rfl
  | park called used mine live => exact kin.park unique called used mine live

end Family

namespace Life

open Family

/-- What every run keeps, whoever calls what. -/
structure Sound (l : Life cfg) : Prop where
  pids : Roster.Wf l.reg.roster
  kin : Kin l.family

theorem step_sound (l : Life cfg) (c : Call) (l' : Life cfg) (sound : l.Sound) (taken : l.step c = some l') :
    l'.Sound := by
  obtain ⟨move,pids⟩ := step_move sound.pids taken
  exact ⟨pids,sound.kin.move sound.pids.unique move⟩

/-- Taskman at index 0 and init, both live and without a waiter. -/
theorem boot_people (booted : boot cfg = some s) (used : s.roster.people k = some p) :
    p.exit = .live ∧ p.waiter = false ∧ (p.pid = pidTaskman → k.val = 0) := by
  obtain ⟨issued,pid,i,drawn,enrolled⟩ := boot_roster booted
  obtain ⟨-,-,-,people⟩ := Roster.enroll_lookup enrolled
  have ranged := ((init_roster cfg).issue drawn).2
  rw [people] at used
  rcases Slab.put_cases used with ⟨rfl,rfl⟩ | old
  · refine ⟨rfl,rfl,?_⟩
    intro own
    dsimp only at own
    simp [own,Roster.Ranged,pidTaskman] at ranged
  · rw [Roster.issue_people drawn] at old
    simp only [State.roster,Slab.map,State.init,Option.map_eq_some_iff] at old
    obtain ⟨record,first,rfl⟩ := old
    split at first
    · rename_i zero
      obtain rfl := Option.some.inj first
      exact ⟨rfl,rfl,fun _ => zero⟩
    · cases first

theorem start_sound (booted : boot cfg = some s) : (start s).Sound := by
  have positive : 0 < maxProcesses := by decide
  refine ⟨boot_pids booted,?_⟩
  constructor
  · exact positive
  · exact fun k p _ => ⟨k.isLt,positive⟩
  · exact fun k l p q _ _ same => Fin.ext same
  · exact fun k p _ _ made => absurd rfl made
  · intro k p used detached
    simp [(boot_people booted used).1] at detached
  · exact fun k p used own => (boot_people booted used).2.2 own
  · intro k p used waits
    simp [(boot_people booted used).2.1] at waits
  · exact fun k p _ _ made => absurd rfl made

end Life

end Qsoe.Taskman
