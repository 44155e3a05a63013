import Qsoe.Msg.Budget
import Qsoe.Msg.Reply
import Qsoe.Taskman.Replies

/-! What a deferred reply costs. Every `tm_reply_park` retypes a reply object from `s_untyped`
and the delivery deletes one, while other children of `s_untyped` stay alive; here the slot
allocator and the untyped decide whether a call is parked. -/
namespace Qsoe.Taskman

open Msg (replyBytes)

/-- `TM_SLOT_FREE_LIST_MAX`. -/
def slotFreeListMax : Nat := 256

/-- `held` are the root slots with a cap in them. -/
structure Bench where
  untyped : Untyped
  held : Nat → Bool
  free : List Nat
  next : Nat
  active : Nat
  sleepers : Slab.Table maxSleepers Sleeper
  waiter : Slab.Table maxProcesses Nat
  short : free.length ≤ slotFreeListMax

structure Nap where
  caller : Pid
  freq : Word
  ns : Word
  now : Word
  later : Word
  nonzero : ns ≠ 0
  due : expired later (now + nsToTicks freq ns) = true

/-- What a caller is parked for: a sleep, or the exit of a child. -/
inductive Wait where
  | nanosleep (n : Nap)
  | waitpid (child : Fin maxProcesses)

namespace Bench

/-- `taskman_free_slot` -/
def freeSlot (b : Bench) (slot : Nat) : Bench :=
  if slot = 0 then b
  else if room : b.free.length < slotFreeListMax then { b with free := slot :: b.free, short := room }
  else b

/-- `taskman_alloc_empty_slot` -/
def allocEmptySlot (b : Bench) : Bench × Nat :=
  match free : b.free with
  | [] => ({ b with next := b.next + 1 },b.next)
  | slot :: rest =>
    ({ b with
        free := rest
        short := (free ▸ List.sublist_cons_self slot rest : rest.Sublist b.free).length_le.trans b.short },slot)

def setHeld (b : Bench) (slot : Nat) (there : Bool) : Bench :=
  { b with held := Function.update b.held slot there }

/-- `qsoe_cnode_move` -/
def move (b : Bench) (dest src : Nat) : Option Bench :=
  if b.held src = true ∧ b.held dest = false then some ((b.setHeld dest true).setHeld src false) else none

/-- `qsoe_untyped_retype` of a reply object from `s_untyped`. -/
def retype (b : Bench) (slot : Nat) : Option Bench :=
  if b.held slot = true then none
  else (b.untyped.retype replyBytes).map fun u => { b.setHeld slot true with untyped := u }

/-- `qsoe_cnode_delete` of a reply object. -/
def delete (b : Bench) (slot : Nat) : Bench :=
  if b.held slot = true then { b.setHeld slot false with untyped := b.untyped.delete } else b

/-- `tm_reply_park` -/
def replyPark (b : Bench) : Bench × Option Nat :=
  let drawn := b.allocEmptySlot
  if drawn.2 = 0 then (drawn.1,none)
  else match drawn.1.move drawn.2 b.active with
    | none => (drawn.1.freeSlot drawn.2,none)
    | some moved =>
      match moved.retype b.active with
      | none => (((moved.move b.active drawn.2).getD moved).freeSlot drawn.2,none)
      | some made => (made,some drawn.2)

/-- `tm_reply_deliver` -/
def replyDeliver (b : Bench) (slot : Nat) : Bench := if slot = 0 then b else (b.delete slot).freeSlot slot

/-- `tm_nanosleep`; returns whether the caller is parked. -/
def nanosleep (b : Bench) (caller : Pid) (freq ns now : Word) : Bench × Bool :=
  if ns = 0 then (b,false)
  else match Slab.free b.sleepers with
    | none => (b,false)
    | some j =>
      match b.replyPark with
      | (same,none) => (same,false)
      | (parked,some slot) =>
        ({ parked with sleepers := Slab.put parked.sleepers j ⟨caller,slot,now + nsToTicks freq ns⟩ },true)

def wake (now : Word) (b : Bench) (j : Fin maxSleepers) : Bench :=
  match b.sleepers j with
  | none => b
  | some z =>
    if expired now z.expiry then { b.replyDeliver z.replySlot with sleepers := Slab.erase b.sleepers j } else b

/-- The sleepers `tm_timer_sweep` goes through. -/
def timerSweep (b : Bench) (now : Word) : Bench := (List.finRange maxSleepers).foldl (wake now) b

/-- `tm_process_waitpid` on a live child of the caller. -/
def waitpid (b : Bench) (child : Fin maxProcesses) : Bench × Bool :=
  match b.replyPark with
  | (same,none) => (same,false)
  | (parked,some slot) => ({ parked with waiter := Slab.put parked.waiter child slot },true)

/-- What `tm_process_detach` and `tm_process_terminate` do with the waiter of a live record. -/
def deliverWaiter (b : Bench) (child : Fin maxProcesses) : Bench :=
  match b.waiter child with
  | none => b
  | some slot => { b with waiter := Slab.erase b.waiter child }.replyDeliver slot

/-- A caller is parked and answered; `none` when it is not parked. -/
def cycle (b : Bench) : Wait → Option Bench
  | .nanosleep n =>
    match b.nanosleep n.caller n.freq n.ns n.now with
    | (_,false) => none
    | (parked,true) => some (parked.timerSweep n.later)
  | .waitpid child =>
    match b.waitpid child with
    | (_,false) => none
    | (parked,true) => some (parked.deliverWaiter child)

def references (b : Bench) : List Nat :=
  Slab.values b.waiter ++ Slab.values (Slab.map Sleeper.replySlot b.sleepers)

/-- Besides the parked replies another child of `s_untyped` is alive, and none of them is the
active one. -/
structure Sound (b : Bench) : Prop where
  alive : b.references.length < b.untyped.children
  apart : b.active ∉ b.references

structure Ready (b : Bench) : Prop where
  drawn : b.allocEmptySlot.2 ≠ 0
  empty : b.held b.allocEmptySlot.2 = false
  active : b.held b.active = true

def Topped (b : Bench) : Prop := ∃ slot rest, b.free = slot :: rest ∧ slot ≠ 0 ∧ b.held slot = false

variable {b c : Bench}

structure Parks (b c : Bench) (slot : Nat) : Prop where
  drawn : slot ≠ 0
  room : c.free.length < slotFreeListMax
  made : b.untyped.retype replyBytes = some c.untyped
  active : c.active = b.active
  replaced : c.held c.active = true
  other : slot ≠ c.active
  sleepers : c.sleepers = b.sleepers
  waiter : c.waiter = b.waiter

theorem allocEmptySlot_rest (b : Bench) :
    b.allocEmptySlot.1.untyped = b.untyped ∧ b.allocEmptySlot.1.held = b.held ∧
    b.allocEmptySlot.1.active = b.active ∧ b.allocEmptySlot.1.sleepers = b.sleepers ∧
    b.allocEmptySlot.1.waiter = b.waiter ∧ b.allocEmptySlot.1.free.length < slotFreeListMax := by
  unfold allocEmptySlot
  split
  · rename_i empty
    refine ⟨rfl,rfl,rfl,rfl,rfl,?_⟩
    simp [empty,slotFreeListMax]
  · rename_i slot rest taken
    have short := b.short
    rw [taken,List.length_cons] at short
    exact ⟨rfl,rfl,rfl,rfl,rfl,short⟩

theorem replyPark_some (parked : b.replyPark = (c,some slot)) : Parks b c slot ∧ b.Ready := by
  obtain ⟨untyped,held,active,sleepers,waiter,room⟩ := b.allocEmptySlot_rest
  unfold replyPark at parked
  dsimp only at parked
  split at parked
  · cases parked
  · rename_i drawn
    unfold move at parked
    rw [held] at parked
    split at parked
    · cases parked
    · rename_i moved moving
      split at moving
      · rename_i there
        obtain rfl := Option.some.inj moving
        have other : b.allocEmptySlot.2 ≠ b.active := by
          intro same
          simp [same,there.1] at there
        split at parked
        · cases parked
        · rename_i made making
          obtain ⟨rfl,taken⟩ := Prod.mk.inj parked
          obtain rfl := Option.some.inj taken
          simp only [retype,setHeld,Function.update_self,Bool.false_eq_true,if_false,
            Option.map_eq_some_iff] at making
          obtain ⟨u,carved,rfl⟩ := making
          rw [untyped] at carved
          refine ⟨⟨drawn,room,carved,active,?_,?_,sleepers,waiter⟩,⟨drawn,there.2,there.1⟩⟩
          · simp [active]
          · simpa [setHeld,active] using other
      · cases moving

theorem replyPark_none (ready : b.Ready) (stopped : b.replyPark = (c,none)) :
    b.untyped.retype replyBytes = none := by
  obtain ⟨untyped,held,active,-,-,-⟩ := b.allocEmptySlot_rest
  unfold replyPark at stopped
  dsimp only at stopped
  rw [if_neg ready.drawn] at stopped
  have there : b.held b.active = true ∧ b.held b.allocEmptySlot.2 = false := ⟨ready.active,ready.empty⟩
  simp only [move,held,there,and_self,if_true] at stopped
  split at stopped
  · rename_i making
    simpa [retype,setHeld,untyped] using making
  · cases stopped

theorem freeSlot_rest (b : Bench) (slot : Nat) :
    (b.freeSlot slot).untyped = b.untyped ∧ (b.freeSlot slot).held = b.held ∧ (b.freeSlot slot).active = b.active ∧
    (b.freeSlot slot).sleepers = b.sleepers ∧ (b.freeSlot slot).waiter = b.waiter := by
  unfold freeSlot
  split
  · exact ⟨rfl,rfl,rfl,rfl,rfl⟩
  · split
    · exact ⟨rfl,rfl,rfl,rfl,rfl⟩
    · exact ⟨rfl,rfl,rfl,rfl,rfl⟩

structure Delivers (b c : Bench) (slot : Nat) : Prop where
  watermark : c.untyped.watermark = b.untyped.watermark
  size : c.untyped.size = b.untyped.size
  children : b.untyped.children ≤ c.untyped.children + 1
  active : c.active = b.active
  held : ∀ x, c.held x = if x = slot ∧ slot ≠ 0 then false else b.held x

theorem replyDeliver_delivers (b : Bench) (slot : Nat) : Delivers b (b.replyDeliver slot) slot := by
  unfold replyDeliver
  split
  · rename_i exhausted
    exact ⟨rfl,rfl,Nat.le_succ _,rfl,by simp [exhausted]⟩
  · rename_i drawn
    obtain ⟨untyped,held,active,-,-⟩ := (b.delete slot).freeSlot_rest slot
    constructor
    · rw [untyped,delete]
      split
      · rfl
      · rfl
    · rw [untyped,delete]
      split
      · rfl
      · rfl
    · rw [untyped,delete]
      split
      · simp only [Untyped.delete]
        omega
      · exact Nat.le_succ _
    · rw [active,delete]
      split
      · rfl
      · rfl
    · intro x
      rw [held,delete]
      rcases eq_or_ne x slot with rfl | other
      · split
        · simp [setHeld,drawn]
        · rename_i empty
          simpa [drawn] using empty
      · split
        · simp [setHeld,other]
        · simp [other]

theorem replyDeliver_tables (b : Bench) (slot : Nat) :
    (b.replyDeliver slot).sleepers = b.sleepers ∧ (b.replyDeliver slot).waiter = b.waiter := by
  unfold replyDeliver
  split
  · exact ⟨rfl,rfl⟩
  · obtain ⟨-,-,-,sleepers,waiter⟩ := (b.delete slot).freeSlot_rest slot
    rw [sleepers,waiter,delete]
    split
    · exact ⟨rfl,rfl⟩
    · exact ⟨rfl,rfl⟩

theorem delete_free (b : Bench) (slot : Nat) : (b.delete slot).free = b.free := by
  unfold delete
  split
  · rfl
  · rfl

theorem Topped.deliver (topped : b.Topped) (slot : Nat) : (b.replyDeliver slot).Topped := by
  have held := (b.replyDeliver_delivers slot).held
  obtain ⟨top,rest,free,nonzero,empty⟩ := topped
  have still : ∀ x, b.held x = false → (b.replyDeliver slot).held x = false := by
    intro x before
    rw [held]
    split
    · rfl
    · exact before
  by_cases drawn : slot = 0
  · have same : b.replyDeliver slot = b := if_pos drawn
    rw [same]
    exact ⟨top,rest,free,nonzero,empty⟩
  · have push : b.replyDeliver slot = (b.delete slot).freeSlot slot := if_neg drawn
    by_cases room : (b.delete slot).free.length < slotFreeListMax
    · refine ⟨slot,(b.delete slot).free,?_,drawn,by simp [held,drawn]⟩
      simp [push,freeSlot,drawn,room]
    · refine ⟨top,rest,?_,nonzero,still top empty⟩
      simp only [push,freeSlot,drawn,room,if_false,dite_false]
      rw [delete_free,free]

theorem topped_of_room (room : b.free.length < slotFreeListMax) (drawn : slot ≠ 0) :
    (b.replyDeliver slot).Topped := by
  have push : b.replyDeliver slot = (b.delete slot).freeSlot slot := if_neg drawn
  rw [← delete_free b slot] at room
  refine ⟨slot,(b.delete slot).free,?_,drawn,?_⟩
  · simp [push,freeSlot,drawn,room]
  · simp [(b.replyDeliver_delivers slot).held,drawn]

theorem Topped.ready (topped : b.Topped) (active : b.held b.active = true) : b.Ready := by
  obtain ⟨top,rest,free,nonzero,empty⟩ := topped
  have drawn : b.allocEmptySlot.2 = top := by
    unfold allocEmptySlot
    split
    · rename_i exhausted
      simp [free] at exhausted
    · rename_i slot tail taken
      rw [free] at taken
      exact (List.cons.inj taken).1.symm
  exact ⟨by rwa [drawn],by rwa [drawn],active⟩

/-- The bench runs on, with `u` the untyped as the last retype left it. -/
structure Runs (u : Untyped) (b : Bench) : Prop extends Sound b where
  watermark : b.untyped.watermark = u.watermark
  size : b.untyped.size = u.size
  active : b.held b.active = true

variable {u : Untyped}

/-- A reply is answered and its name taken out of the tables. -/
theorem Runs.answer (runs : Runs u b) (delivers : Delivers b e slot) (untyped : c.untyped = e.untyped)
    (active : c.active = e.active) (held : c.held = e.held) (names : b.references.Perm (slot :: c.references)) :
    Runs u c := by
  have other : slot ≠ b.active := by
    rintro rfl
    exact runs.apart (names.symm.subset List.mem_cons_self)
  have same : c.active = b.active := active.trans delivers.active
  refine ⟨⟨?_,?_⟩,?_,?_,?_⟩
  · have alive := runs.alive
    have children := delivers.children
    rw [names.length_eq,List.length_cons] at alive
    rw [untyped]
    omega
  · rw [same]
    exact fun member => runs.apart (names.symm.subset (List.mem_cons_of_mem slot member))
  · rw [untyped,delivers.watermark,runs.watermark]
  · rw [untyped,delivers.size,runs.size]
  · rw [same,held,delivers.held,if_neg (fun hit => other hit.1.symm)]
    exact runs.active

theorem Runs.wake (runs : Runs u b) (now : Word) (j : Fin maxSleepers) : Runs u (b.wake now j) := by
  unfold Bench.wake
  split
  · exact runs
  · rename_i z asleep
    split
    · have delivers := b.replyDeliver_delivers z.replySlot
      have named : Slab.map Sleeper.replySlot b.sleepers j = some z.replySlot := by simp [Slab.map,asleep]
      refine runs.answer delivers rfl rfl rfl ?_
      dsimp only [references]
      rw [(b.replyDeliver_tables z.replySlot).2,Slab.map_erase]
      exact ((Slab.values_erase named).append_left _).trans List.perm_middle
    · exact runs

/-- Sleeper `j` has been answered. -/
def Answered (j : Fin maxSleepers) (b : Bench) : Prop := b.sleepers j = none ∧ b.Topped

theorem Answered.wake (answered : Answered j b) (now : Word) (k : Fin maxSleepers) : Answered j (b.wake now k) := by
  unfold Bench.wake
  split
  · exact answered
  · rename_i y asleep
    split
    · have other : j ≠ k := by
        rintro rfl
        simp [answered.1] at asleep
      exact ⟨(Slab.erase_other b.sleepers other).trans answered.1,answered.2.deliver y.replySlot⟩
    · exact answered

/-- Sleeper `j` is due, and an emptied slot is on the free list or there is room for one. -/
structure Due (now : Word) (j : Fin maxSleepers) (b : Bench) : Prop where
  there : ∃ z, b.sleepers j = some z ∧ z.replySlot ≠ 0 ∧ expired now z.expiry = true
  list : b.Topped ∨ b.free.length < slotFreeListMax

theorem Due.deliver (list : b.Topped ∨ b.free.length < slotFreeListMax) (slot : Nat) :
    (b.replyDeliver slot).Topped ∨ (b.replyDeliver slot).free.length < slotFreeListMax := by
  rcases list with topped | room
  · exact .inl (topped.deliver slot)
  · by_cases drawn : slot = 0
    · right
      simpa [replyDeliver,drawn] using room
    · exact .inl (topped_of_room room drawn)

theorem Due.wake_self (due : Due now j b) : Answered j (b.wake now j) := by
  obtain ⟨z,asleep,drawn,expiry⟩ := due.there
  have woken : b.wake now j = { b.replyDeliver z.replySlot with sleepers := Slab.erase b.sleepers j } := by
    simp [Bench.wake,asleep,expiry]
  rw [woken]
  refine ⟨Slab.erase_same b.sleepers,?_⟩
  rcases due.list with topped | room
  · exact topped.deliver z.replySlot
  · exact topped_of_room room drawn

theorem Due.wake_other (due : Due now j b) (other : j ≠ k) : Due now j (b.wake now k) := by
  unfold Bench.wake
  split
  · exact due
  · rename_i y asleep
    split
    · obtain ⟨z,there,rest⟩ := due.there
      exact ⟨⟨z,(Slab.erase_other b.sleepers other).trans there,rest⟩,Due.deliver due.list y.replySlot⟩
    · exact due

/-- Once the sweep has come by, a sleeper that was due has been answered. -/
theorem Due.sweep {js : List (Fin maxSleepers)} (due : Due now j b) (member : j ∈ js) :
    Answered j (js.foldl (Bench.wake now) b) := by
  induction js generalizing b with
  | nil => cases member
  | cons k rest ih =>
    rw [List.foldl_cons]
    rcases eq_or_ne j k with rfl | other
    · have answered := due.wake_self
      clear ih member due
      generalize b.wake now j = c at answered
      induction rest generalizing c with
      | nil => exact answered
      | cons k rest ih => exact ih _ (answered.wake now k)
    · exact ih (due.wake_other other) ((List.mem_cons.mp member).resolve_left other)

theorem Runs.sweep (runs : Runs u b) (now : Word) : Runs u (b.timerSweep now) := by
  unfold timerSweep
  generalize List.finRange maxSleepers = js
  induction js generalizing b with
  | nil => exact runs
  | cons j rest ih => exact ih (runs.wake now j)

/-- The tables are written after a park: the new reply is named, another one perhaps no more. -/
theorem Parks.runs (parks : Parks b c slot) (sound : Sound b) (untyped : e.untyped = c.untyped)
    (active : e.active = c.active) (held : e.held = c.held)
    (names : ∀ x ∈ e.references, x = slot ∨ x ∈ b.references)
    (count : e.references.length ≤ b.references.length + 1) : Runs c.untyped e := by
  obtain ⟨size,children⟩ := Untyped.retype_size parks.made
  refine ⟨⟨?_,?_⟩,by rw [untyped],by rw [untyped],?_⟩
  · have alive := sound.alive
    rw [untyped]
    omega
  · rw [active]
    intro member
    rcases names _ member with same | old
    · exact parks.other same.symm
    · rw [parks.active] at old
      exact sound.apart old
  · rw [active,held]
    exact parks.replaced

def Places (b : Bench) : Wait → Prop
  | .nanosleep _ => (Slab.free b.sleepers).isSome = true
  | .waitpid _ => True

theorem free_isSome {t : Slab.Table n α} (free : t i = none) : (Slab.free t).isSome = true := by
  rw [Slab.free,List.find?_isSome]
  exact ⟨i,List.mem_finRange i,by simp [free]⟩

structure Cycles (b t : Bench) (w : Wait) : Prop where
  made : ∃ v, b.untyped.retype replyBytes = some v ∧ Runs v t
  ready : b.Ready ∧ t.Ready
  place : Places b w
  places : ∀ w, Places b w → Places t w

theorem nanosleep_cycles (sound : Sound b) (n : Nap) (done : b.cycle (.nanosleep n) = some t) :
    Cycles b t (.nanosleep n) := by
  unfold cycle nanosleep at done
  dsimp only at done
  rw [if_neg n.nonzero] at done
  split at done
  · cases done
  · rename_i parked sleeping
    obtain rfl := Option.some.inj done
    split at sleeping
    · cases sleeping
    · rename_i j free
      split at sleeping
      · cases sleeping
      · rename_i c slot parking
        obtain ⟨rfl,-⟩ := Prod.mk.inj sleeping
        obtain ⟨parks,ready⟩ := replyPark_some parking
        have awake : Slab.map Sleeper.replySlot b.sleepers j = none := by simp [Slab.map,Slab.free_some free]
        have named := (Slab.values_put (a := slot) awake).append_left (Slab.values b.waiter)
        have runs : Runs c.untyped { c with
            sleepers := Slab.put c.sleepers j ⟨n.caller,slot,n.now + nsToTicks n.freq n.ns⟩ } := by
          refine parks.runs sound rfl rfl rfl ?_ ?_
          · dsimp only [references]
            rw [parks.waiter,parks.sleepers,Slab.map_put]
            intro x member
            simpa [references,or_left_comm] using named.subset member
          · dsimp only [references]
            rw [parks.waiter,parks.sleepers,Slab.map_put,named.length_eq]
            simp only [List.length_append,List.length_cons]
            omega
        have due : Due n.later j { c with
            sleepers := Slab.put c.sleepers j ⟨n.caller,slot,n.now + nsToTicks n.freq n.ns⟩ } :=
          ⟨⟨_,Slab.put_same c.sleepers,parks.drawn,n.due⟩,.inr parks.room⟩
        have answered := due.sweep (List.mem_finRange j)
        have swept := runs.sweep n.later
        refine ⟨⟨c.untyped,parks.made,swept⟩,⟨ready,answered.2.ready swept.active⟩,by simp [Places,free],?_⟩
        intro w place
        cases w with
        | nanosleep m => exact free_isSome answered.1
        | waitpid child => trivial

theorem waitpid_cycles (sound : Sound b) (child : Fin maxProcesses) (done : b.cycle (.waitpid child) = some t) :
    Cycles b t (.waitpid child) := by
  unfold cycle waitpid at done
  dsimp only at done
  split at done
  · cases done
  · rename_i parked waiting
    obtain rfl := Option.some.inj done
    split at waiting
    · cases waiting
    · rename_i c slot parking
      obtain ⟨rfl,-⟩ := Prod.mk.inj waiting
      obtain ⟨parks,ready⟩ := replyPark_some parking
      have named := (Slab.values_write (i := child) (a := slot) b.waiter).append_right
        (Slab.values (Slab.map Sleeper.replySlot b.sleepers))
      have others := Slab.values_erase_subperm b.waiter child
      have fewer := others.length_le
      have runs : Runs c.untyped { c with waiter := Slab.put c.waiter child slot } := by
        refine parks.runs sound rfl rfl rfl ?_ ?_
        · dsimp only [references]
          rw [parks.waiter,parks.sleepers]
          intro x member
          rcases List.mem_cons.mp (named.subset member) with same | old
          · exact .inl same
          · right
            rcases List.mem_append.mp old with waiting | asleep
            · exact List.mem_append_left _ (others.subset waiting)
            · exact List.mem_append_right _ asleep
        · dsimp only [references]
          rw [parks.waiter,parks.sleepers,named.length_eq]
          simp only [List.cons_append,List.length_append,List.length_cons]
          omega
      have delivered : { c with waiter := Slab.put c.waiter child slot }.deliverWaiter child =
          { c with waiter := Slab.erase (Slab.put c.waiter child slot) child }.replyDeliver slot := by
        simp [deliverWaiter]
      have delivers := { c with waiter := Slab.erase (Slab.put c.waiter child slot) child }.replyDeliver_delivers slot
      rw [delivered]
      have tables := { c with waiter := Slab.erase (Slab.put c.waiter child slot) child }.replyDeliver_tables slot
      have answered : Runs c.untyped
          ({ c with waiter := Slab.erase (Slab.put c.waiter child slot) child }.replyDeliver slot) := by
        have same : Delivers { c with waiter := Slab.put c.waiter child slot }
            ({ c with waiter := Slab.erase (Slab.put c.waiter child slot) child }.replyDeliver slot) slot :=
          ⟨delivers.watermark,delivers.size,delivers.children,delivers.active,delivers.held⟩
        refine runs.answer same rfl rfl rfl ?_
        dsimp only [references]
        rw [tables.1,tables.2]
        exact (Slab.values_erase (Slab.put_same c.waiter)).append_right _
      have topped :
          ({ c with waiter := Slab.erase (Slab.put c.waiter child slot) child }.replyDeliver slot).Topped :=
        topped_of_room parks.room parks.drawn
      refine ⟨⟨c.untyped,parks.made,answered⟩,⟨ready,topped.ready answered.active⟩,trivial,?_⟩
      intro w place
      cases w with
      | nanosleep m =>
        dsimp only [Places] at place ⊢
        rw [tables.1]
        simpa [parks.sleepers] using place
      | waitpid child => trivial

theorem cycle_cycles (sound : Sound b) (done : b.cycle w = some t) : Cycles b t w := by
  cases w with
  | nanosleep n => exact nanosleep_cycles sound n done
  | waitpid child => exact waitpid_cycles sound child done

theorem cycle_none (ready : b.Ready) (place : Places b w) (stopped : b.cycle w = none) :
    b.untyped.retype replyBytes = none := by
  cases w with
  | nanosleep n =>
    obtain ⟨j,free⟩ := Option.isSome_iff_exists.mp place
    unfold cycle nanosleep at stopped
    dsimp only at stopped
    rw [if_neg n.nonzero,free] at stopped
    dsimp only at stopped
    cases parking : b.replyPark with
    | mk c slot =>
      cases slot with
      | none => exact replyPark_none ready parking
      | some slot => simp [parking] at stopped
  | waitpid child =>
    unfold cycle waitpid at stopped
    dsimp only at stopped
    cases parking : b.replyPark with
    | mk c slot =>
      cases slot with
      | none => exact replyPark_none ready parking
      | some slot => simp [parking] at stopped

/-- Cycles that each could be run now run one after the other exactly while their reply objects
fit above the watermark. -/
theorem cycles_isSome_iff (sound : Sound b) {ws : List Wait} (each : ∀ w ∈ ws, (b.cycle w).isSome) :
    (ws.foldlM cycle b).isSome ↔ ws.length ≤ b.untyped.room replyBytes := by
  cases ws with
  | nil => simp
  | cons first rest =>
    obtain ⟨t,done⟩ := Option.isSome_iff_exists.mp (each first List.mem_cons_self)
    have ready := (cycle_cycles sound done).ready.1
    refine Lts.foldlM_isSome_iff (fun b => Sound b ∧ b.Ready ∧ ∀ w ∈ first :: rest, Places b w)
      (fun b => b.untyped.room replyBytes) (· ∈ first :: rest) ?_ ?_ (fun _ member => member) ?_
    · rintro b w ⟨-,ready,places⟩ member stopped
      exact Untyped.room_zero (cycle_none ready (places w member) stopped) Msg.Budget.replyBytes_pos
    · rintro b w t ⟨sound,ready,places⟩ member done
      have cycles := cycle_cycles sound done
      obtain ⟨v,made,runs⟩ := cycles.made
      refine ⟨⟨runs.toSound,cycles.ready.2,fun w member => cycles.places w (places w member)⟩,?_⟩
      have alive : t.untyped.children ≠ 0 := by
        have := runs.alive
        omega
      exact Untyped.retype_room made Msg.Budget.replyBytes_pos alive runs.watermark
        (runs.size.trans (Untyped.retype_size made).1)
    · refine ⟨sound,ready,fun w member => ?_⟩
      obtain ⟨t,done⟩ := Option.isSome_iff_exists.mp (each w member)
      exact (cycle_cycles sound done).place

/-- Parked callers of taskman and saved callers of a server: each cycle uses up one reply object's
bytes of the untyped, so `n` of them succeed exactly when `n` more objects fit. -/
theorem deferred_replies_fit [DecidableEq ι] [DecidableEq γ] {S : Msg.Server ι} {server : Msg.Budget ι γ}
    (sound : Sound b) {ws : List Wait} (each : ∀ w ∈ ws, (b.cycle w).isSome)
    (run : Lts.Run (Msg.step S) (fun _ _ => True) (Msg.start S) es server.st)
    (child : ∀ o, server.st.cap Msg.capReply = some o → Msg.isOwn o = true → server.untyped.children ≠ 0)
    {jobs : List (Msg.Job γ)} (one : ∀ job ∈ jobs, (server.cycle job).isSome) :
    ((ws.foldlM cycle b).isSome ↔ ws.length ≤ b.untyped.room replyBytes) ∧
      ((jobs.foldlM Msg.Budget.cycle server).isSome ↔ jobs.length ≤ server.untyped.room replyBytes) := by
  have reached := run.invariant Msg.Reached (fun s e t reached _ taken => Msg.Reached.step s e t reached taken)
    (Msg.Reached.start S)
  exact ⟨cycles_isSome_iff sound each,Msg.Budget.cycles_isSome_iff ⟨reached.toListed,child⟩ one⟩

/-- Two reply objects fit below the end of `s_untyped`. -/
def narrow : Bench where
  untyped := ⟨128,64,2⟩
  held slot := slot == 5
  free := []
  next := 6
  active := 5
  sleepers _ := none
  waiter _ := none
  short := Nat.zero_le _

theorem nap_some : (1000 : Word) ≠ 0 := by decide

theorem nap_due : expired 10 (0 + nsToTicks 10000000 1000) = true := by decide

def nap : Nap := ⟨2,10000000,1000,0,10,nap_some,nap_due⟩

theorem narrow_sound : narrow.Sound := ⟨by decide +kernel,by decide +kernel⟩

theorem job_fresh : (1 : BitVec 32) &&& Msg.rcvidSaved = 0 := by decide

def job : Msg.Job Unit := ⟨(),1,job_fresh⟩

/-- A server that has saved nothing yet, with room for two objects. -/
def fresh : Msg.Budget (Fin 2) Unit := ⟨Msg.start Msg.pair,⟨64,0,0⟩⟩

/-- Taskman parks twice, for a sleep and for a child; a server saves two messages. -/
theorem deferred_replies_fit_twice :
    ([Wait.nanosleep nap,.waitpid (1 : Fin 128)].foldlM cycle narrow).isSome ∧
      ([job,job].foldlM Msg.Budget.cycle fresh).isSome := by
  have each : ∀ w ∈ [Wait.nanosleep nap,.waitpid (1 : Fin 128)], (narrow.cycle w).isSome := by
    intro w member
    rcases List.mem_cons.mp member with rfl | last
    · decide +kernel
    · obtain rfl := List.mem_singleton.mp last
      decide +kernel
  have one : ∀ j ∈ [job,job], (fresh.cycle j).isSome := by
    intro j member
    obtain rfl : j = job := by simpa using member
    decide +kernel
  have child : ∀ o, fresh.st.cap Msg.capReply = some o → Msg.isOwn o = true → fresh.untyped.children ≠ 0 := by
    intro o there mine
    obtain rfl : 10 = o := Option.some.inj there
    exact absurd mine (by decide)
  have fit := deferred_replies_fit narrow_sound each (S := Msg.pair) .nil child one
  exact ⟨fit.1.mpr (by decide),fit.2.mpr (by decide)⟩

/-- One sleep can be served, and so can the next, but not the one after that. -/
theorem third_sleep_refused : ¬ ∀ (b : Bench) (w : Wait), Sound b → (b.cycle w).isSome →
    ∀ n, ((List.replicate n w).foldlM cycle b).isSome := by
  intro repeats
  have served := repeats narrow (.nanosleep nap) narrow_sound (by decide +kernel) 3
  have refused : ((List.replicate 3 (Wait.nanosleep nap)).foldlM cycle narrow).isSome = false := by decide +kernel
  rw [refused] at served
  cases served

end Bench

end Qsoe.Taskman
