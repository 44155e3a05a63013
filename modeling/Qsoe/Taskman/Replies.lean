import Qsoe.Taskman.Lifecycle
import Mathlib.Data.List.Perm.Basic

/-! Replies taskman owes. A call that is not answered at once leaves its reply object in a root
slot, which then stands in the `waiter_reply_slot` of a process or in a sleeper until it is
answered. The slot the allocator offers and what the kernel grants are part of a call; the
kernel never moves a cap into a slot that holds one. -/
namespace Qsoe.Taskman

variable {cfg : Config}

/-- `TM_MAX_SLEEPERS`. -/
def maxSleepers : Nat := 16

/-- `tm_sleeper_t`. -/
structure Sleeper where
  callerPid : Pid
  replySlot : Nat
  expiry : Word
  deriving DecidableEq, Repr

/-- `waiter` is `waiter_reply_slot`, `none` for 0. `held` are the slots `tm_reply_park` has
returned and nobody has answered or dropped since; `strays` counts the deliveries to others. -/
structure Desk (cfg : Config) where
  reg : State cfg
  waiter : Slab.Table maxProcesses Nat
  sleepers : Slab.Table maxSleepers Sleeper
  held : List Nat
  strays : Nat

inductive Duty where
  | spawn (parent : Pid) (k : SpawnKernel)
  | detach (pid : Pid) (status : BitVec 32)
  | terminate (target : Pid) (status : BitVec 32)
  | waitpid (waiter child : Pid) (slot : Nat) (granted : Bool)
  | nanosleep (caller : Pid) (freq ns now : Word) (slot : Nat) (granted : Bool)
  | sweep (now : Word)
  deriving DecidableEq, Repr

def nsToTicks (freq ns : Word) : Word :=
  if freq = 0 then 0 else ns / 1000000000 * freq + ns % 1000000000 * freq / 1000000000

/-- The signed difference, so that a wrapped counter still compares. -/
def expired (now expiry : Word) : Bool := 0 ≤ (now - expiry).toInt

namespace Desk

/-- `tm_reply_park`; `granted` is false when the kernel refuses the move or the new object. -/
def park (d : Desk cfg) (slot : Nat) (granted : Bool) : Option Nat :=
  if slot ≠ 0 ∧ granted = true ∧ slot ∉ d.held then some slot else none

/-- `tm_reply_deliver`, which ignores slot 0. -/
def deliver (d : Desk cfg) : Option Nat → Desk cfg
  | none => d
  | some slot => { d with
      held := d.held.erase slot, strays := if slot ∈ d.held then d.strays else d.strays + 1 }

/-- The waiter of a live record is taken off and answered. -/
def answer (d : Desk cfg) (pid : Pid) : Desk cfg :=
  match d.reg.processLookup pid with
  | none => d
  | some (i,p) =>
    if p.exit = .live then { d.deliver (d.waiter i) with waiter := Slab.erase d.waiter i } else d

def detach (d : Desk cfg) (pid : Pid) (status : BitVec 32) : Desk cfg :=
  { d.answer pid with reg := (d.reg.processDetach pid status).1 }

def terminate (d : Desk cfg) (target : Pid) (status : BitVec 32) : Desk cfg :=
  if target = pidTaskman then d
  else { d.answer target with reg := (d.reg.processTerminate target status).1 }

def waitpid (d : Desk cfg) (waiter child : Pid) (slot : Nat) (granted : Bool) : Desk cfg :=
  let parked := d.park slot granted
  let done := d.reg.processWaitpid waiter child parked.isSome
  match done.2, d.reg.processLookup child, parked with
  | .ok none, some (i,_), some slot =>
      { d with reg := done.1, waiter := Slab.put d.waiter i slot, held := slot :: d.held }
  | _, _, _ => { d with reg := done.1 }

/-- A full table is told to the caller, who may retry. -/
def nanosleep (d : Desk cfg) (caller : Pid) (freq ns now : Word) (slot : Nat) (granted : Bool) : Desk cfg :=
  if ns = 0 then d
  else match Slab.free d.sleepers with
    | none => d
    | some j =>
      match d.park slot granted with
      | none => d
      | some slot => { d with
          sleepers := Slab.put d.sleepers j ⟨caller,slot,now + nsToTicks freq ns⟩
          held := slot :: d.held }

def wake (now : Word) (d : Desk cfg) (j : Fin maxSleepers) : Desk cfg :=
  match d.sleepers j with
  | none => d
  | some z =>
    if expired now z.expiry then
      { d.deliver (some z.replySlot) with sleepers := Slab.erase d.sleepers j }
    else d

/-- The sleepers `tm_timer_sweep` goes through. -/
def sweep (d : Desk cfg) (now : Word) : Desk cfg := (List.finRange maxSleepers).foldl (wake now) d

/-- `tm_process_register` clears the waiter of the record it takes. -/
def spawn (d : Desk cfg) (parent : Pid) (k : SpawnKernel) : Desk cfg :=
  let done := d.reg.processCreate parent k
  match Slab.free d.reg.processes with
  | none => { d with reg := done.1 }
  | some i => { d with
      reg := done.1
      waiter := if (done.1.processes i).isSome then Slab.erase d.waiter i else d.waiter }

def step (d : Desk cfg) : Duty → Option (Desk cfg)
  | .spawn parent k => some (d.spawn parent k)
  | .detach pid status => some (d.detach pid status)
  | .terminate target status => some (d.terminate target status)
  | .waitpid waiter child slot granted => some (d.waitpid waiter child slot granted)
  | .nanosleep caller freq ns now slot granted => some (d.nanosleep caller freq ns now slot granted)
  | .sweep now => some (d.sweep now)

def start (s : State cfg) : Desk cfg := ⟨s,fun _ => none,fun _ => none,[],0⟩

def references (d : Desk cfg) : List Nat :=
  Slab.values d.waiter ++ Slab.values (Slab.map Sleeper.replySlot d.sleepers)

/-- Every parked reply is named once, and none is answered twice. -/
structure Conserved (d : Desk cfg) : Prop where
  named : ∀ slot ∈ d.held, d.references.count slot = 1
  once : d.held.Nodup
  strays : d.strays = 0

/-- A waitpid parks only on a child nobody is parked on. -/
def waitsAlone (d : Desk cfg) : Duty → Prop
  | .waitpid waiter child slot granted =>
      (d.park slot granted).isSome = true → ∀ hit ∈ d.reg.processLookup child,
        hit.2.parent = waiter → hit.2.exit = .live → d.waiter hit.1 = none
  | _ => True

instance : DecidableRel (@waitsAlone cfg) := fun d c =>
  match c with
  | .waitpid .. => inferInstanceAs (Decidable (_ → ∀ hit ∈ d.reg.processLookup _, _))
  | .spawn .. => .isTrue trivial
  | .detach .. => .isTrue trivial
  | .terminate .. => .isTrue trivial
  | .nanosleep .. => .isTrue trivial
  | .sweep .. => .isTrue trivial

variable {d e : Desk cfg}

structure Ledger (d : Desk cfg) : Prop where
  names : d.references.Perm d.held
  once : d.held.Nodup
  strays : d.strays = 0

/-- A record has a waiter exactly when its slot is set, and only while it is live. -/
structure Tidy (d : Desk cfg) : Prop extends Ledger d where
  waiter : ∀ i, (d.waiter i).isSome = (d.reg.roster.people i).any Person.waiter
  live : ∀ i p, d.reg.roster.people i = some p → p.waiter = true → p.exit = .live

theorem Ledger.conserved (ledger : Ledger d) : Conserved d where
  named slot member := by
    rw [ledger.names.count_eq]
    exact List.count_eq_one_of_mem ledger.once member
  once := ledger.once
  strays := ledger.strays

/-- Answering a reply that one table names takes it out of both. -/
theorem Ledger.deliver (ledger : Ledger d) (named : d.references.Perm (slot :: rest))
    (left : e.references = rest) (held : e.held = d.held.erase slot)
    (strays : e.strays = if slot ∈ d.held then d.strays else d.strays + 1) : Ledger e := by
  have parked : (slot :: rest).Perm d.held := named.symm.trans ledger.names
  have member : slot ∈ d.held := parked.subset List.mem_cons_self
  constructor
  · rw [left,held]
    exact (List.cons_perm_iff_perm_erase.mp parked).2
  · rw [held]
    exact ledger.once.erase slot
  · rw [strays,if_pos member]
    exact ledger.strays

theorem Ledger.park (ledger : Ledger d) (parked : d.park slot granted = some slot')
    (named : e.references.Perm (slot' :: d.references)) (held : e.held = slot' :: d.held)
    (strays : e.strays = d.strays) : Ledger e := by
  unfold Desk.park at parked
  split at parked
  · rename_i free
    obtain rfl := Option.some.inj parked
    constructor
    · rw [held]
      exact named.trans (ledger.names.cons slot)
    · rw [held]
      exact List.nodup_cons.mpr ⟨free.2.2,ledger.once⟩
    · rw [strays]
      exact ledger.strays
  · cases parked

theorem Ledger.answer (ledger : Ledger d) (pid : Pid) : Ledger (d.answer pid) := by
  unfold Desk.answer
  split
  · exact ledger
  · rename_i i p found
    split
    · cases parked : d.waiter i with
      | none =>
        have same : Slab.erase d.waiter i = d.waiter := Function.update_eq_self_iff.mpr parked.symm
        simp only [Desk.deliver,same]
        exact ledger
      | some slot =>
        refine ledger.deliver ?_ rfl rfl rfl
        exact (Slab.values_erase parked).append_right _
    · exact ledger

theorem Ledger.wake (ledger : Ledger d) (now : Word) (j : Fin maxSleepers) : Ledger (d.wake now j) := by
  unfold Desk.wake
  split
  · exact ledger
  · rename_i z asleep
    split
    · have named : Slab.map Sleeper.replySlot d.sleepers j = some z.replySlot := by simp [Slab.map,asleep]
      refine ledger.deliver ?_ rfl rfl rfl
      dsimp only [references]
      rw [Slab.map_erase]
      exact ((Slab.values_erase named).append_left _).trans List.perm_middle
    · exact ledger

theorem Ledger.nanosleep (ledger : Ledger d) (caller : Pid) (freq ns now : Word) (slot : Nat) (granted : Bool) :
    Ledger (d.nanosleep caller freq ns now slot granted) := by
  unfold Desk.nanosleep
  split
  · exact ledger
  · split
    · exact ledger
    · rename_i j free
      split
      · exact ledger
      · rename_i slot' parked
        refine ledger.park parked ?_ rfl rfl
        have awake : Slab.map Sleeper.replySlot d.sleepers j = none := by
          simp [Slab.map,Slab.free_some free]
        dsimp only [references]
        rw [Slab.map_put]
        exact ((Slab.values_put awake).append_left _).trans List.perm_middle

theorem Tidy.same (tidy : Tidy d) (ledger : Ledger e) (waiter : e.waiter = d.waiter)
    (people : e.reg.roster.people = d.reg.roster.people) : Tidy e where
  toLedger := ledger
  waiter i := by
    rw [waiter,people]
    exact tidy.waiter i
  live i p used := by
    rw [people] at used
    exact tidy.live i p used

/-- One record changes, without a waiter and with its slot cleared. -/
theorem Tidy.clear (tidy : Tidy d) (ledger : Ledger e) (waiter : e.waiter = Slab.erase d.waiter i)
    (others : ∀ k, k ≠ i → e.reg.roster.people k = d.reg.roster.people k)
    (here : ∀ p, e.reg.roster.people i = some p → p.waiter = false) : Tidy e where
  toLedger := ledger
  waiter k := by
    rcases eq_or_ne k i with rfl | other
    · rw [waiter,Slab.erase_same]
      cases record : e.reg.roster.people k with
      | none => rfl
      | some p => simp [here p record]
    · rw [waiter,others k other,Slab.erase_other d.waiter other]
      exact tidy.waiter k
  live k p used waits := by
    rcases eq_or_ne k i with rfl | other
    · simp [here p used] at waits
    · rw [others k other] at used
      exact tidy.live k p used waits

theorem Tidy.unwaited (tidy : Tidy d) (used : d.reg.roster.people i = some p) (dead : p.exit ≠ .live) :
    d.waiter i = none := by
  have nothing : p.waiter = false := by
    rw [Bool.eq_false_iff]
    exact fun waits => dead (tidy.live i p used waits)
  have same := tidy.waiter i
  rw [used] at same
  simpa [nothing] using same

theorem Tidy.detach (tidy : Tidy d) (pid : Pid) (status : BitVec 32) : Tidy (d.detach pid status) := by
  have ledger : Ledger (d.detach pid status) := by
    have answered := tidy.answer pid
    exact ⟨answered.names,answered.once,answered.strays⟩
  cases found : d.reg.processLookup pid with
  | none =>
    refine tidy.same ledger ?_ ?_
    · simp [Desk.detach,Desk.answer,found]
    · simp [Desk.detach,Roster.detach,State.lookup_roster_none found]
  | some hit =>
    obtain ⟨i,p⟩ := hit
    by_cases live : p.exit = .live
    · refine tidy.clear (i := i) ledger ?_ ?_ ?_
      · simp [Desk.detach,Desk.answer,found,live]
      · intro k other
        simp [Desk.detach,Roster.detach,State.lookup_roster_some found,live,Roster.set,other]
      · intro q used
        simp only [Desk.detach,State.processDetach_roster,Roster.detach,State.lookup_roster_some found,
          Process.person_exit,live,Roster.set,ne_eq,not_true_eq_false,if_false,Slab.put_same,
          Option.some.injEq] at used
        rw [← used]
    · refine tidy.same ledger ?_ ?_
      · simp [Desk.detach,Desk.answer,found,live]
      · simp [Desk.detach,Roster.detach,State.lookup_roster_some found,live]

theorem finish_waiter (r : Roster) (i : Fin maxProcesses) (p : Person) (status : BitVec 32) (q : Person)
    (used : (r.finish i p status).people i = some q) : q.waiter = false := by
  unfold Roster.finish at used
  dsimp only at used
  split at used
  · simp at used
  · obtain rfl := Option.some.inj ((Slab.put_same r.people).symm.trans used)
    rfl

theorem Tidy.terminate (tidy : Tidy d) (target : Pid) (status : BitVec 32) : Tidy (d.terminate target status) := by
  unfold Desk.terminate
  split
  · exact tidy
  · rename_i other
    have ledger : Ledger { d.answer target with reg := (d.reg.processTerminate target status).1 } := by
      have answered := tidy.answer target
      exact ⟨answered.names,answered.once,answered.strays⟩
    cases found : d.reg.processLookup target with
    | none =>
      refine tidy.same ledger ?_ ?_
      · simp [Desk.answer,found]
      · simp [Roster.terminate,State.lookup_roster_none found]
    | some hit =>
      obtain ⟨i,p⟩ := hit
      by_cases live : p.exit = .live
      · have finished : (d.reg.processTerminate target status).1.roster =
            d.reg.roster.finish i p.person status := by
          simp [Roster.terminate,State.lookup_roster_some found,other,live]
        have others : ∀ k, k ≠ i → _ = d.reg.roster.people k := fun k other =>
          Roster.finish_other other p.person status
        have own := finish_waiter d.reg.roster i p.person status
        rw [← finished] at others own
        refine tidy.clear (i := i) ledger ?_ others own
        simp [Desk.answer,found,live]
      · refine tidy.same ledger ?_ ?_
        · simp [Desk.answer,found,live]
        · simp [Roster.terminate,State.lookup_roster_some found,live]

theorem Tidy.waitpid (tidy : Tidy d) (waiter child : Pid) (slot : Nat) (granted : Bool)
    (alone : d.waitsAlone (.waitpid waiter child slot granted)) : Tidy (d.waitpid waiter child slot granted) := by
  have roster := d.reg.processWaitpid_roster waiter child (d.park slot granted).isSome
  unfold Desk.waitpid
  rcases d.reg.roster.waitpid_cases waiter child (d.park slot granted).isSome with
    ⟨e,failed⟩ | ⟨i,c,found,mine,⟨dead,reaped⟩ | ⟨live,granting,set⟩⟩
  · rw [failed] at roster
    obtain ⟨kept,error⟩ := Prod.mk.inj roster
    simp only [← error]
    exact tidy.same ⟨tidy.names,tidy.once,tidy.strays⟩ rfl (congrArg Roster.people kept).symm
  · rw [reaped] at roster
    obtain ⟨kept,done⟩ := Prod.mk.inj roster
    have used := (Roster.lookup_some found).1
    have nothing := tidy.unwaited used dead
    have same : Slab.erase d.waiter i = d.waiter := Function.update_eq_self_iff.mpr nothing.symm
    simp only [← done]
    refine tidy.clear (i := i) ⟨tidy.names,tidy.once,tidy.strays⟩ same.symm ?_ ?_
    · intro k other
      rw [← kept,Roster.reap_people,Slab.erase_other _ other]
    · intro p there
      rw [← kept,Roster.reap_people,Slab.erase_same] at there
      cases there
  · rw [set] at roster
    obtain ⟨kept,done⟩ := Prod.mk.inj roster
    obtain ⟨p,hit,rfl⟩ := State.processLookup_of_roster found
    obtain ⟨slot',parked⟩ := Option.isSome_iff_exists.mp granting
    have free := alone granting (i,p) hit mine live
    rw [parked] at kept done
    simp only [hit,parked,← done]
    have ledger : Ledger { d with
        reg := (d.reg.processWaitpid waiter child (some slot').isSome).1
        waiter := Slab.put d.waiter i slot', held := slot' :: d.held } := by
      refine tidy.toLedger.park parked ?_ rfl rfl
      exact (Slab.values_put free).append_right _
    have people : (d.reg.processWaitpid waiter child (some slot').isSome).1.roster.people =
        Slab.put d.reg.roster.people i { p.person with waiter := true } := by
      exact (congrArg Roster.people kept).symm
    refine ⟨ledger,?_,?_⟩
    · intro k
      dsimp only
      rw [people]
      rcases eq_or_ne k i with rfl | other
      · simp
      · simpa [other] using tidy.waiter k
    · intro k q used waits
      dsimp only at used
      rw [people] at used
      rcases Slab.put_cases used with ⟨rfl,rfl⟩ | old
      · exact live
      · exact tidy.live k q old waits

theorem wake_reg (d : Desk cfg) (now : Word) (j : Fin maxSleepers) :
    (d.wake now j).reg = d.reg ∧ (d.wake now j).waiter = d.waiter := by
  unfold Desk.wake
  split
  · exact ⟨rfl,rfl⟩
  · split
    · exact ⟨rfl,rfl⟩
    · exact ⟨rfl,rfl⟩

theorem sweep_reg (d : Desk cfg) (now : Word) : (d.sweep now).reg = d.reg := by
  unfold Desk.sweep
  generalize List.finRange maxSleepers = js
  induction js generalizing d with
  | nil => rfl
  | cons j rest ih => exact (ih (d.wake now j)).trans (wake_reg d now j).1

theorem Tidy.wake (tidy : Tidy d) (now : Word) (j : Fin maxSleepers) : Tidy (d.wake now j) := by
  refine tidy.same (tidy.toLedger.wake now j) (wake_reg d now j).2 ?_
  rw [(wake_reg d now j).1]

theorem Tidy.sweep (tidy : Tidy d) (now : Word) : Tidy (d.sweep now) := by
  unfold Desk.sweep
  generalize List.finRange maxSleepers = js
  induction js generalizing d with
  | nil => exact tidy
  | cons j rest ih => exact ih (tidy.wake now j)

theorem nanosleep_reg (d : Desk cfg) (caller : Pid) (freq ns now : Word) (slot : Nat) (granted : Bool) :
    (d.nanosleep caller freq ns now slot granted).reg = d.reg ∧
      (d.nanosleep caller freq ns now slot granted).waiter = d.waiter := by
  unfold Desk.nanosleep
  split
  · exact ⟨rfl,rfl⟩
  · split
    · exact ⟨rfl,rfl⟩
    · split
      · exact ⟨rfl,rfl⟩
      · exact ⟨rfl,rfl⟩

theorem Tidy.nanosleep (tidy : Tidy d) (caller : Pid) (freq ns now : Word) (slot : Nat) (granted : Bool) :
    Tidy (d.nanosleep caller freq ns now slot granted) := by
  have kept := nanosleep_reg d caller freq ns now slot granted
  refine tidy.same (tidy.toLedger.nanosleep caller freq ns now slot granted) kept.2 ?_
  rw [kept.1]

/-- A record is taken that was free, so that no slot is lost with it. -/
theorem Tidy.spawn (tidy : Tidy d) (wf : d.reg.roster.Wf) (parent : Pid) (k : SpawnKernel) :
    Tidy (d.spawn parent k) := by
  have ending := (d.reg.processCreate_roster parent k).people wf
  have free : Slab.free d.reg.roster.people = Slab.free d.reg.processes := Slab.free_map ..
  have used : ∀ i, ((d.reg.processCreate parent k).1.processes i).isSome =
      ((d.reg.processCreate parent k).1.roster.people i).isSome := by
    intro i
    simp [State.roster,Slab.map]
  unfold Desk.spawn
  dsimp only
  split
  · rename_i full
    rcases ending with ⟨_,-,same⟩ | ⟨pid,i,-,found,-⟩
    · exact tidy.same ⟨tidy.names,tidy.once,tidy.strays⟩ rfl same
    · rw [free,full] at found
      cases found
  · rename_i i found
    have unused : d.reg.roster.people i = none := Slab.free_some (free.trans found)
    have empty : d.waiter i = none := by simpa [unused] using tidy.waiter i
    have cleared : Slab.erase d.waiter i = d.waiter := Function.update_eq_self_iff.mpr empty.symm
    rw [cleared,ite_self]
    rcases ending with ⟨_,-,same⟩ | ⟨pid,j,-,found',made⟩
    · exact tidy.same ⟨tidy.names,tidy.once,tidy.strays⟩ rfl same
    · obtain rfl : i = j := Option.some.inj (found.symm.trans (free.symm.trans found'))
      obtain ⟨p,fresh,people⟩ : ∃ p : Person, p.waiter = false ∧
          (d.reg.processCreate parent k).1.roster.people = Slab.put d.reg.roster.people i p := by
        rcases made with ⟨-,people⟩ | ⟨-,people⟩
        · exact ⟨_,rfl,people⟩
        · exact ⟨_,rfl,people⟩
      refine tidy.clear (i := i) ⟨tidy.names,tidy.once,tidy.strays⟩ cleared.symm ?_ ?_
      · intro k other
        dsimp only
        rw [people,Slab.put_other _ other]
      · intro q there
        dsimp only at there
        rw [people,Slab.put_same] at there
        rw [← Option.some.inj there]
        exact fresh

theorem step_change (taken : d.step c = some e) : d.reg.roster.Change e.reg.roster := by
  cases c with
  | spawn parent k =>
    obtain rfl := Option.some.inj taken
    have ending := d.reg.processCreate_roster parent k
    unfold Desk.spawn
    dsimp only
    split
    · exact .spawn ending
    · exact .spawn ending
  | detach pid status =>
    obtain rfl := Option.some.inj taken
    simp only [Desk.detach,State.processDetach_roster]
    exact .detach pid status
  | terminate target status =>
    obtain rfl := Option.some.inj taken
    unfold Desk.terminate
    split
    · exact .same
    · simp only [State.processTerminate_roster]
      exact .terminate target status
  | waitpid waiter child slot granted =>
    obtain rfl := Option.some.inj taken
    have roster := d.reg.processWaitpid_roster waiter child (d.park slot granted).isSome
    have change := Roster.Change.waitpid (r := d.reg.roster) waiter child (d.park slot granted).isSome
    rw [roster] at change
    unfold Desk.waitpid
    dsimp only
    split
    · exact change
    · exact change
  | nanosleep caller freq ns now slot granted =>
    obtain rfl := Option.some.inj taken
    rw [(nanosleep_reg ..).1]
    exact .same
  | sweep now =>
    obtain rfl := Option.some.inj taken
    rw [sweep_reg]
    exact .same

theorem step_tidy (d : Desk cfg) (c : Duty) (e : Desk cfg) (inv : d.reg.roster.Wf ∧ Tidy d)
    (alone : waitsAlone d c) (taken : d.step c = some e) : e.reg.roster.Wf ∧ Tidy e := by
  refine ⟨(step_change taken).wf inv.1,?_⟩
  cases c with
  | spawn parent k =>
    obtain rfl := Option.some.inj taken
    exact inv.2.spawn inv.1 parent k
  | detach pid status =>
    obtain rfl := Option.some.inj taken
    exact inv.2.detach pid status
  | terminate target status =>
    obtain rfl := Option.some.inj taken
    exact inv.2.terminate target status
  | waitpid waiter child slot granted =>
    obtain rfl := Option.some.inj taken
    exact inv.2.waitpid waiter child slot granted alone
  | nanosleep caller freq ns now slot granted =>
    obtain rfl := Option.some.inj taken
    exact inv.2.nanosleep caller freq ns now slot granted
  | sweep now =>
    obtain rfl := Option.some.inj taken
    exact inv.2.sweep now

theorem start_tidy (booted : boot cfg = some s) : Tidy (start s) := by
  have empty : Slab.values (fun _ : Fin maxProcesses => (none : Option Nat)) = [] := by simp [Slab.values]
  have asleep : Slab.values (Slab.map Sleeper.replySlot fun _ : Fin maxSleepers => none) = [] := by
    simp [Slab.values,Slab.map]
  refine ⟨⟨?_,List.nodup_nil,rfl⟩,?_,?_⟩
  · simp [references,start,empty,asleep]
  · intro i
    cases used : s.roster.people i with
    | none => simp [start,used]
    | some p => simp [start,used,(Life.boot_people booted used).2.1]
  · intro i p used waits
    exact (Life.boot_people booted used).1

/-- In every run whose waitpids keep to that, every parked reply is named once. -/
theorem parked_replies_conserved (booted : boot cfg = some s) (run : Lts.Run step waitsAlone (start s) cs d) :
    Conserved d := by
  have inv := run.invariant (fun d => d.reg.roster.Wf ∧ Tidy d) step_tidy ⟨boot_pids booted,start_tidy booted⟩
  exact inv.2.toLedger.conserved

def anyDuty (_ : Desk cfg) (_ : Duty) : Prop := True

instance : DecidableRel (@anyDuty cfg) := fun _ _ => .isTrue trivial

/-- Init waits for its child and sleeps; the child exits and the other sleeper goes on. -/
theorem parked_replies_conserved_exit : ∃ d : Desk small,
    Lts.Run step waitsAlone (start smallBoot) [.spawn 2 bootSpawn,.waitpid 2 3 50 true,
        .nanosleep 2 10 2000000000 100 51 true,.terminate 3 7,.sweep 110] d ∧
      d.held = [51] ∧ Conserved d := by
  obtain ⟨d,run,held⟩ := Lts.Run.exists_of_replay step waitsAlone (start smallBoot)
    [.spawn 2 bootSpawn,.waitpid 2 3 50 true,.nanosleep 2 10 2000000000 100 51 true,.terminate 3 7,.sweep 110]
    (fun d => d.held = [51]) (by decide +kernel)
  exact ⟨d,run,held,parked_replies_conserved boot_small run⟩

/-- Two threads of init wait for the same child; the reply of the first is lost. -/
theorem second_waiter_loses_first : ¬ ∀ cs (d : Desk small), Lts.Run step anyDuty (start smallBoot) cs d →
    Conserved d := by
  intro conserved
  obtain ⟨d,run,held,lost⟩ := Lts.Run.exists_of_replay step anyDuty (start smallBoot)
    [.spawn 2 bootSpawn,.waitpid 2 3 50 true,.waitpid 2 3 51 true]
    (fun d => 50 ∈ d.held ∧ d.references.count 50 = 0) (by decide +kernel)
  have named := (conserved _ d run).named 50 held
  rw [lost] at named
  cases named

end Desk

end Qsoe.Taskman
