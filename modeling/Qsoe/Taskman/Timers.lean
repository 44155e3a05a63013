import Qsoe.Taskman.Pulse
import Qsoe.Taskman.Pids
import Qsoe.Taskman.Sleep
import Mathlib.Data.List.Perm.Subperm

/-! The sweep over sleepers and interval timers. A timer keeps its expiry and its interval in ticks; an expiry of 0
stands for a timer that is not armed. -/
namespace Qsoe.Taskman

variable {cfg : Config} {freq : Word}

def usToTicks (freq us : Word) : Word :=
  if freq = 0 then 0 else us / 1000000 * freq + us % 1000000 * freq / 1000000

/-- What a process record has for `ITIMER_REAL`. `asked` is history: the microseconds of the interval that
was set. -/
structure Itimer (freq : Word) where
  expiry : Word
  interval : Word
  signalChid : BitVec 32
  asked : Word
  set : interval = usToTicks freq asked

theorem usToTicks_zero (freq : Word) : 0 = usToTicks freq 0 := by
  unfold usToTicks
  split
  · rfl
  · have quotient : (0 : Word) / 1000000 = 0 := rfl
    have rest : (0 : Word) % 1000000 = 0 := rfl
    have nothing : (0 : Word) * freq = 0 := BitVec.zero_mul
    rw [quotient,rest,nothing]
    rfl

namespace Itimer

def disarmed (t : Itimer freq) : Itimer freq := ⟨0,0,t.signalChid,0,usToTicks_zero freq⟩

/-- The fields that `tm_setitimer` writes. -/
def arm (t : Itimer freq) (now value interval : Word) : Itimer freq :=
  if value = 0 then t.disarmed
  else ⟨now + usToTicks freq value,usToTicks freq interval,t.signalChid,interval,rfl⟩

def due (t : Itimer freq) (now : Word) : Bool := t.expiry ≠ 0 ∧ expired now t.expiry = true

/-- After an expiry. -/
def again (t : Itimer freq) (now : Word) : Itimer freq :=
  { t with expiry := if 0 < t.interval then now + t.interval else 0 }

end Itimer

/-- The desk, the pulse queues and the timers of the process records. -/
structure Clockwork (cfg : Config) (freq : Word) where
  desk : Desk cfg
  pulses : Pulses cfg
  timer : Fin maxProcesses → Itimer freq

namespace Clockwork

/-- A process in the sweep. -/
def visit (now : Word) (s : Clockwork cfg freq) (k : Fin maxProcesses) (p : Process) : Clockwork cfg freq :=
  if (s.timer k).due now then
    { s with
      pulses := s.pulses.deliverAlarmTo p.pid (s.timer k).signalChid
      timer := Function.update s.timer k ((s.timer k).again now) }
  else s

/-- One turn of the loop over pids. -/
def fire (now : Word) (s : Clockwork cfg freq) (pid : Nat) : Clockwork cfg freq :=
  match s.pulses.base.processLookup (BitVec.ofNat 32 pid) with
  | none => s
  | some hit => s.visit now hit.1 hit.2

/-- `tm_timer_sweep`. -/
def sweep (s : Clockwork cfg freq) (now : Word) : Clockwork cfg freq :=
  (List.range' 1 maxProcesses).foldl (fire now) { s with desk := s.desk.sweep now }

/-- `tm_setitimer` for `ITIMER_REAL`; the old values that it hands back are left out. -/
def setitimer (s : Clockwork cfg freq) (caller : Pid) (now value interval : Word) :
    Clockwork cfg freq × Except Errno Unit :=
  match s.pulses.base.processLookup caller with
  | none => (s,.error .esrch)
  | some (k,_) => ({ s with timer := Function.update s.timer k ((s.timer k).arm now value interval) },.ok ())

/-- The reply slot of a sleeper that is due. -/
def dueSlot (d : Desk cfg) (now : Word) (j : Fin maxSleepers) : Option Nat :=
  (d.sleepers j).bind fun z => if expired now z.expiry then some z.replySlot else none

def dueSlots (d : Desk cfg) (now : Word) : List Nat := (List.finRange maxSleepers).filterMap (dueSlot d now)

/-- The process in a record has a timer that is due and `i` for its signal channel. -/
def rings (s : Clockwork cfg freq) (now : Word) (i : Fin cfg.channels) (k : Fin maxProcesses) : Bool :=
  (s.pulses.base.processes k).any fun p =>
    (s.timer k).due now && (s.timer k).signalChid != 0 && s.pulses.base.channelIndex p.pid
      (s.timer k).signalChid == some i

/-- A process in a record has a timer that is due. -/
def due (s : Clockwork cfg freq) (now : Word) (k : Fin maxProcesses) : Bool :=
  (s.pulses.base.processes k).isSome && (s.timer k).due now

/-- What a sweep should do. A channel gets a pulse for each process whose signal channel it is and whose
timer is due, as long as it has room. -/
structure Exact (s : Clockwork cfg freq) (now : Word) (t : Clockwork cfg freq) : Prop where
  freed : ∀ j, t.desk.sleepers j = if (s.desk.sleepers j).any (fun z => expired now z.expiry) =
    true then none else s.desk.sleepers j
  answered : s.desk.held.Perm (dueSlots s.desk now ++ t.desk.held) ∧ t.desk.strays = s.desk.strays
  queued : ∀ i, t.pulses.accepted i = s.pulses.accepted i ++
    List.replicate (min (pulseQueueLen - (s.pulses.queues i).count)
      ((List.finRange maxProcesses).countP (s.rings now i))) alarmPulse
  rearmed : ∀ k, s.due now k = true → (s.timer k).asked ≠ 0 → (t.timer k).expiry ≠ 0 ∧
    expired now (t.timer k).expiry = false
  disarmed : ∀ k, s.due now k = true → (s.timer k).asked = 0 → (t.timer k).expiry = 0
  kept : ∀ k, (t.timer k).asked = (s.timer k).asked ∧ (t.timer k).signalChid = (s.timer k).signalChid
  others : ∀ k, s.due now k = false → t.timer k = s.timer k
  tables : t.pulses.base = s.pulses.base ∧ t.desk.reg = s.desk.reg ∧ t.desk.waiter = s.desk.waiter

/-- The sleepers wait with replies of their own that nobody has answered. -/
structure Parked (d : Desk cfg) : Prop where
  named : d.references.Subperm d.held
  once : d.held.Nodup

variable {d e : Desk cfg} {now : Word} {j : Fin maxSleepers}

theorem wake_due (slot : dueSlot d now j = some a) (parked : a ∈ d.held) :
    (d.wake now j).held = d.held.erase a ∧ (d.wake now j).strays = d.strays := by
  obtain ⟨z,used,given⟩ := Option.bind_eq_some_iff.mp slot
  split at given
  · rename_i due
    obtain rfl := Option.some.inj given
    unfold Desk.wake
    rw [used]
    dsimp only
    rw [if_pos due]
    exact ⟨rfl,if_pos parked⟩
  · cases given

theorem wake_early (early : dueSlot d now j = none) : d.wake now j = d := by
  unfold Desk.wake
  split
  · rfl
  · rename_i z used
    split
    · rename_i due
      rw [dueSlot,used,Option.bind_some,if_pos due] at early
      cases early
    · rfl

theorem wake_dueSlot (other : k ≠ j) : dueSlot (d.wake now j) now k = dueSlot d now k := by
  rw [dueSlot,wake_sleepers,if_neg fun both => other both.1]
  rfl

theorem wakes_answer (js : List (Fin maxSleepers)) (d : Desk cfg) (each : js.Nodup)
    (once : (js.filterMap (dueSlot d now)).Nodup) (parked : ∀ a ∈ js.filterMap (dueSlot d now), a ∈ d.held) :
    d.held.Perm (js.filterMap (dueSlot d now) ++ (js.foldl (Desk.wake now) d).held) ∧
      (js.foldl (Desk.wake now) d).strays = d.strays := by
  induction js generalizing d with
  | nil => exact ⟨List.Perm.refl _,rfl⟩
  | cons j js ih =>
    obtain ⟨apart,each⟩ := List.nodup_cons.mp each
    have same : js.filterMap (dueSlot (d.wake now j) now) = js.filterMap (dueSlot d now) :=
      List.filterMap_congr fun k member => wake_dueSlot fun is => apart (is ▸ member)
    have next := ih (d.wake now j) each
    rw [same] at next
    rw [List.foldl_cons]
    cases slot : dueSlot d now j with
    | none =>
      rw [List.filterMap_cons_none slot] at once parked ⊢
      rw [wake_early slot] at next ⊢
      exact next once parked
    | some a =>
      rw [List.filterMap_cons_some slot] at once parked ⊢
      obtain ⟨held,strays⟩ := wake_due slot (parked a List.mem_cons_self)
      obtain ⟨fresh,once⟩ := List.nodup_cons.mp once
      rw [held,strays] at next
      obtain ⟨rest,quiet⟩ := next once fun b member =>
        (List.mem_erase_of_ne fun is : b = a => fresh (is ▸ member)).mpr (parked b (List.mem_cons_of_mem a member))
      refine ⟨?_,quiet⟩
      exact (List.perm_cons_erase (parked a List.mem_cons_self)).trans (rest.cons a)

theorem filterMap_sublist {f g : α → Option β} (fewer : ∀ x, f x = none ∨ f x = g x) (xs : List α) :
    (xs.filterMap f).Sublist (xs.filterMap g) := by
  induction xs with
  | nil => exact List.Sublist.refl _
  | cons x xs ih =>
    cases kept : f x with
    | none =>
      rw [List.filterMap_cons_none kept]
      exact ih.trans ((List.sublist_cons_self x xs).filterMap g)
    | some y =>
      have same : g x = some y := by
        rcases fewer x with nothing | same
        · cases kept.symm.trans nothing
        · exact same.symm.trans kept
      rw [List.filterMap_cons_some kept,List.filterMap_cons_some same]
      exact ih.cons_cons y

theorem dueSlots_sublist (d : Desk cfg) (now : Word) : (dueSlots d now).Sublist d.references := by
  refine (filterMap_sublist (fun j => ?_) _).trans (List.sublist_append_right _ _)
  unfold dueSlot
  cases used : d.sleepers j with
  | none => exact .inl rfl
  | some z =>
    rw [Option.bind_some,Slab.map,used,Option.map_some]
    split
    · exact .inr rfl
    · exact .inl rfl

theorem sweep_waiter (d : Desk cfg) (now : Word) : (d.sweep now).waiter = d.waiter := by
  unfold Desk.sweep
  generalize List.finRange maxSleepers = js
  induction js generalizing d with
  | nil => rfl
  | cons j js ih => exact (ih (d.wake now j)).trans (Desk.wake_reg d now j).2

theorem Parked.answered (parked : Parked d) (now : Word) :
    d.held.Perm (dueSlots d now ++ (d.sweep now).held) ∧ (d.sweep now).strays = d.strays := by
  have distinct : d.references.Nodup := by
    obtain ⟨held,same,sub⟩ := parked.named
    exact same.nodup_iff.mp (parked.once.sublist sub)
  have due := dueSlots_sublist d now
  exact wakes_answer _ d (List.nodup_finRange _) (distinct.sublist due) fun a member =>
    parked.named.subset (due.subset member)

variable {s t : Clockwork cfg freq} {k l : Fin maxProcesses} {p : Process}

/-- A record in the sweep rings the channel. -/
def ringsHit (s : Clockwork cfg freq) (now : Word) (i : Fin cfg.channels) (hit : Fin maxProcesses × Process) :
    Bool :=
  (s.timer hit.1).due now && (s.timer hit.1).signalChid != 0 &&
    s.pulses.base.channelIndex hit.2.pid (s.timer hit.1).signalChid == some i

theorem deliverAlarmTo_queues (q : Pulses cfg) (target : Pid) (chid : BitVec 32) (i : Fin cfg.channels) :
    ((q.deliverAlarmTo target chid).accepted i,((q.deliverAlarmTo target chid).queues i).count) =
      if (chid != 0 && q.base.channelIndex target chid == some i) = true ∧ (q.queues i).count < pulseQueueLen then
        (q.accepted i ++ [alarmPulse],(q.queues i).count + 1)
      else (q.accepted i,(q.queues i).count) := by
  unfold Pulses.deliverAlarmTo
  by_cases nothing : chid = 0
  · have zero : (chid != 0) = false := bne_eq_false_iff_eq.mpr nothing
    rw [if_pos nothing,zero,Bool.false_and,if_neg fun both => Bool.false_ne_true both.1]
  · have named : (chid != 0) = true := bne_iff_ne.mpr nothing
    rw [if_neg nothing,named,Bool.true_and]
    cases routed : q.base.channelIndex target chid with
    | none => rw [if_neg fun both => Bool.false_ne_true both.1]
    | some j =>
      dsimp only
      rcases eq_or_ne i j with rfl | other
      · by_cases room : (q.queues i).count < pulseQueueLen
        · rw [if_pos room,if_pos ⟨beq_self_eq_true _,room⟩]
          simp [Pulses.enqueue,RingBuffer.push]
        · rw [if_neg room,if_neg fun both => room both.2]
      · have missed : ¬((some j == some i) = true ∧ (q.queues i).count < pulseQueueLen) := fun both =>
          other (Option.some.inj (beq_iff_eq.mp both.1)).symm
        rw [if_neg missed]
        split
        · simp [Pulses.enqueue,other]
        · rfl

theorem visit_timer (s : Clockwork cfg freq) (now : Word) (k l : Fin maxProcesses) (p : Process) :
    (s.visit now k p).timer l = if l = k ∧ (s.timer k).due now = true then (s.timer k).again now else
      s.timer l := by
  unfold visit
  by_cases due : (s.timer k).due now = true
  · rw [if_pos due]
    rcases eq_or_ne l k with rfl | other
    · rw [if_pos ⟨rfl,due⟩]
      exact Function.update_self ..
    · rw [if_neg fun both => other both.1]
      exact Function.update_of_ne other ..
  · rw [if_neg due,if_neg fun both => due both.2]

theorem visit_base (s : Clockwork cfg freq) (now : Word) (k : Fin maxProcesses) (p : Process) :
    (s.visit now k p).pulses.base = s.pulses.base ∧ (s.visit now k p).desk = s.desk := by
  unfold visit
  split
  · exact ⟨Pulses.deliverAlarmTo_base ..,rfl⟩
  · exact ⟨rfl,rfl⟩

theorem visit_queues (s : Clockwork cfg freq) (now : Word) (k : Fin maxProcesses) (p : Process)
    (i : Fin cfg.channels) :
    ((s.visit now k p).pulses.accepted i,((s.visit now k p).pulses.queues i).count) =
      if s.ringsHit now i (k,p) = true ∧ (s.pulses.queues i).count < pulseQueueLen then
        (s.pulses.accepted i ++ [alarmPulse],(s.pulses.queues i).count + 1)
      else (s.pulses.accepted i,(s.pulses.queues i).count) := by
  unfold visit ringsHit
  by_cases due : (s.timer k).due now = true
  · rw [if_pos due,due,Bool.true_and]
    exact deliverAlarmTo_queues ..
  · have early : (s.timer k).due now = false := Bool.not_eq_true _ ▸ due
    rw [if_neg due,early,Bool.false_and,Bool.false_and,if_neg fun both => Bool.false_ne_true both.1]

theorem visits_spec (now : Word) (hits : List (Fin maxProcesses × Process)) (s : Clockwork cfg freq)
    (each : (hits.map Prod.fst).Nodup) :
    let t := hits.foldl (fun s hit => s.visit now hit.1 hit.2) s
    (t.pulses.base = s.pulses.base ∧ t.desk = s.desk) ∧
      (∀ i, t.pulses.accepted i = s.pulses.accepted i ++
        List.replicate (min (pulseQueueLen - (s.pulses.queues i).count) (hits.countP (s.ringsHit now i))) alarmPulse) ∧
      ∀ k, t.timer k = if k ∈ hits.map Prod.fst ∧ (s.timer k).due now = true then (s.timer k).again now else
        s.timer k := by
  induction hits generalizing s with
  | nil => exact ⟨⟨rfl,rfl⟩,fun i => by simp,fun k => by simp⟩
  | cons hit hits ih =>
    obtain ⟨apart,each⟩ := List.nodup_cons.mp each
    obtain ⟨⟨base,desk⟩,queued,timers⟩ := ih (s.visit now hit.1 hit.2) each
    have kept := visit_base s now hit.1 hit.2
    have later : ∀ h ∈ hits, h.1 ≠ hit.1 := fun h member is => apart (is ▸ List.mem_map_of_mem member)
    refine ⟨⟨base.trans kept.1,desk.trans kept.2⟩,fun i => ?_,fun k => ?_⟩
    · have same : hits.countP ((s.visit now hit.1 hit.2).ringsHit now i) = hits.countP (s.ringsHit now i) := by
        refine List.countP_congr fun h member => ?_
        unfold ringsHit
        rw [kept.1,visit_timer,if_neg fun both => later h member both.1]
      have front := queued i
      rw [same] at front
      rw [List.foldl_cons,front,List.countP_cons]
      have here := visit_queues s now hit.1 hit.2 i
      by_cases rung : s.ringsHit now i hit = true
      · rw [if_pos rung]
        by_cases room : (s.pulses.queues i).count < pulseQueueLen
        · rw [if_pos ⟨rung,room⟩] at here
          obtain ⟨accepted,count⟩ := Prod.mk.inj here
          have size : min (pulseQueueLen - (s.pulses.queues i).count) (hits.countP (s.ringsHit now i) + 1) =
              min (pulseQueueLen - ((s.pulses.queues i).count + 1)) (hits.countP (s.ringsHit now i)) + 1 := by omega
          rw [accepted,count,size,List.append_assoc,List.replicate_succ]
          rfl
        · rw [if_neg fun both => room both.2] at here
          obtain ⟨accepted,count⟩ := Prod.mk.inj here
          have full : pulseQueueLen - (s.pulses.queues i).count = 0 := by omega
          rw [accepted,count,full,Nat.zero_min,Nat.zero_min]
      · rw [if_neg fun both => rung both.1] at here
        obtain ⟨accepted,count⟩ := Prod.mk.inj here
        rw [accepted,count,if_neg rung,Nat.add_zero]
    · rw [List.foldl_cons,timers k]
      rcases eq_or_ne k hit.1 with rfl | other
      · rw [if_neg fun both => apart both.1,visit_timer]
        by_cases due : (s.timer hit.1).due now = true
        · rw [if_pos ⟨rfl,due⟩,if_pos ⟨List.mem_cons_self,due⟩]
        · rw [if_neg fun both => due both.2,if_neg fun both => due both.2]
      · have still : (s.visit now hit.1 hit.2).timer k =
          s.timer k := by rw [visit_timer,if_neg fun both => other both.1]
        rw [still]
        by_cases listed : k ∈ hits.map Prod.fst ∧ (s.timer k).due now = true
        · rw [if_pos listed,if_pos ⟨List.mem_cons_of_mem _ listed.1,listed.2⟩]
        · rw [if_neg listed,if_neg fun both => listed ⟨(List.mem_cons.mp both.1).resolve_left other,both.2⟩]

variable {reg : State cfg}

/-- The record with a pid. -/
def hitOf (reg : State cfg) (pid : Nat) : Option (Fin maxProcesses × Process) :=
    reg.processLookup (BitVec.ofNat 32 pid)

theorem fires_eq (pids : List Nat) (s : Clockwork cfg freq) :
    pids.foldl (fire now) s = (pids.filterMap (hitOf s.pulses.base)).foldl
      (fun s hit => s.visit now hit.1 hit.2) s := by
  induction pids generalizing s with
  | nil => rfl
  | cons pid pids ih =>
    rw [List.foldl_cons,ih]
    cases found : hitOf s.pulses.base pid with
    | none =>
      have still : fire now s pid = s := by
        rw [fire,← hitOf,found]
      rw [still,List.filterMap_cons_none found]
    | some hit =>
      have moved : fire now s pid = s.visit now hit.1 hit.2 := by
        rw [fire,← hitOf,found]
      rw [moved,(visit_base ..).1,List.filterMap_cons_some found,List.foldl_cons]

theorem hitOf_some (found : hitOf reg n = some (k,p)) (small : n < 2 ^ 32) :
    reg.processes k = some p ∧ p.pid.toNat = n := by
  obtain ⟨used,same⟩ := Slab.find_some found
  refine ⟨used,?_⟩
  rw [beq_iff_eq.mp same,BitVec.toNat_ofNat,Nat.mod_eq_of_lt small]

theorem hitOf_used (wf : reg.roster.Wf) (used : reg.processes k = some p) : hitOf reg p.pid.toNat = some (k,p) := by
  rw [hitOf,BitVec.ofNat_toNat,BitVec.setWidth_eq]
  obtain ⟨l,q,found⟩ := Slab.find_of_used (fun q : Process => q.pid == p.pid) used (beq_self_eq_true _)
  obtain ⟨there,same⟩ := Slab.find_some found
  obtain rfl := wf.unique l k q.person p.person (State.person_there there) (State.person_there used)
    (beq_iff_eq.mp same)
  obtain rfl : q = p := Option.some.inj (there.symm.trans used)
  exact found

def visited (reg : State cfg) : List (Fin maxProcesses × Process) :=
    (List.range' 1 maxProcesses).filterMap (hitOf reg)

theorem mem_visited (wf : reg.roster.Wf) : (k,p) ∈ visited reg ↔ reg.processes k = some p := by
  constructor
  · intro member
    obtain ⟨n,range,found⟩ := List.mem_filterMap.mp member
    obtain ⟨low,high⟩ := List.mem_range'_1.mp range
    have limit : maxProcesses = 128 := rfl
    exact (hitOf_some found (by omega)).1
  · intro used
    have bounds := wf.people k p.person (State.person_there used)
    have low : 1 ≤ p.pid.toNat := bounds.1
    have high : p.pid.toNat < maxProcesses := bounds.2
    exact List.mem_filterMap.mpr ⟨p.pid.toNat,List.mem_range'_1.mpr (by omega),hitOf_used wf used⟩

theorem visited_nodup (reg : State cfg) : ((visited reg).map Prod.fst).Nodup := by
  rw [visited,List.map_filterMap]
  refine List.pairwise_filterMap.mpr (List.Pairwise.imp_of_mem (fun {m n} here there apart => ?_) List.nodup_range')
  intro k first l second same
  obtain ⟨⟨x,p⟩,found,rfl⟩ := Option.map_eq_some_iff.mp first
  obtain ⟨⟨y,q⟩,beside,rfl⟩ := Option.map_eq_some_iff.mp second
  have low := (List.mem_range'_1.mp here).2
  have high := (List.mem_range'_1.mp there).2
  have limit : maxProcesses = 128 := rfl
  obtain ⟨used,pid⟩ := hitOf_some found (by omega)
  obtain ⟨used',pid'⟩ := hitOf_some beside (by omega)
  dsimp only at same
  subst same
  obtain rfl : p = q := Option.some.inj (used.symm.trans used')
  exact apart (pid.symm.trans pid')

theorem visited_perm (wf : reg.roster.Wf) :
    ((visited reg).map Prod.fst).Perm ((List.finRange maxProcesses).filter fun k => (reg.processes k).isSome) := by
  refine (List.perm_ext_iff_of_nodup (visited_nodup reg) ((List.nodup_finRange _).filter _)).mpr fun k => ?_
  constructor
  · intro member
    obtain ⟨⟨l,p⟩,hit,rfl⟩ := List.mem_map.mp member
    have used := (mem_visited wf).mp hit
    exact List.mem_filter.mpr ⟨List.mem_finRange l,by rw [used]; rfl⟩
  · intro member
    obtain ⟨p,used⟩ := Option.isSome_iff_exists.mp (List.mem_filter.mp member).2
    exact List.mem_map.mpr ⟨(k,p),(mem_visited wf).mpr used,rfl⟩

theorem mem_visited_fst (wf : reg.roster.Wf) :
    k ∈ (visited reg).map Prod.fst ↔ (reg.processes k).isSome = true := by
  rw [(visited_perm wf).mem_iff,List.mem_filter]
  exact ⟨And.right,fun used => ⟨List.mem_finRange k,used⟩⟩

theorem countP_visited (wf : s.pulses.base.roster.Wf) (i : Fin cfg.channels) :
    (visited s.pulses.base).countP (s.ringsHit now i) = (List.finRange maxProcesses).countP (s.rings now i) := by
  have through : (visited s.pulses.base).countP (s.ringsHit now i) =
    ((visited s.pulses.base).map Prod.fst).countP (s.rings now i) := by
    rw [List.countP_map]
    refine List.countP_congr fun hit member => ?_
    have used := (mem_visited wf).mp member
    rw [Function.comp_apply,rings,used,Option.any_some,ringsHit]
  rw [through,(visited_perm wf).countP_eq,List.countP_filter]
  refine List.countP_congr fun k _ => ?_
  rw [Bool.and_eq_true]
  refine ⟨And.left,fun rung => ⟨rung,?_⟩⟩
  cases used : s.pulses.base.processes k with
  | none =>
    rw [rings,used] at rung
    cases rung
  | some p => rfl

section Parking

variable {d e : Desk cfg}

theorem Parked.fewer (parked : Parked d) (fewer : e.references.Subperm d.references) (held : e.held = d.held) :
    Parked e := by
  refine ⟨?_,?_⟩
  · rw [held]
    exact fewer.trans parked.named
  · rw [held]
    exact parked.once

theorem Parked.deliver (parked : Parked d) (named : (a :: e.references).Perm d.references)
    (held : e.held = d.held.erase a) :
    Parked e := by
  have rest := (named.subperm.trans parked.named).erase a
  rw [List.erase_cons_head] at rest
  refine ⟨?_,?_⟩
  · rw [held]
    exact rest
  · rw [held]
    exact parked.once.erase a

theorem Parked.park (parked : Parked d) (free : d.park slot granted = some a)
    (named : e.references.Subperm (a :: d.references)) (held : e.held = a :: d.held) : Parked e := by
  unfold Desk.park at free
  split at free
  · rename_i fine
    obtain rfl := Option.some.inj free
    refine ⟨?_,?_⟩
    · rw [held]
      exact named.trans ((List.subperm_cons slot).mpr parked.named)
    · rw [held]
      exact List.nodup_cons.mpr ⟨fine.2.2,parked.once⟩
  · cases free

theorem Parked.answer (parked : Parked d) (pid : Pid) : Parked (d.answer pid) := by
  unfold Desk.answer
  split
  · exact parked
  · rename_i i p found
    split
    · cases waiting : d.waiter i with
      | none =>
        have same : Slab.erase d.waiter i = d.waiter := Function.update_eq_self_iff.mpr waiting.symm
        rw [same]
        exact parked
      | some slot => exact parked.deliver ((Slab.values_erase waiting).append_right _).symm rfl
    · exact parked

theorem Parked.wake (parked : Parked d) (now : Word) (j : Fin maxSleepers) : Parked (d.wake now j) := by
  unfold Desk.wake
  split
  · exact parked
  · rename_i z asleep
    split
    · have named : Slab.map Sleeper.replySlot d.sleepers j = some z.replySlot := by
        rw [Slab.map,asleep,Option.map_some]
      refine parked.deliver (a := z.replySlot) ?_ rfl
      dsimp only [Desk.references]
      rw [Slab.map_erase]
      exact (((Slab.values_erase named).append_left _).trans List.perm_middle).symm
    · exact parked

theorem Parked.sweep (parked : Parked d) (now : Word) : Parked (d.sweep now) := by
  unfold Desk.sweep
  generalize List.finRange maxSleepers = js
  induction js generalizing d with
  | nil => exact parked
  | cons j js ih => exact ih (parked.wake now j)

theorem Parked.nanosleep (parked : Parked d) (caller : Pid) (freq ns now : Word) (slot : Nat) (granted : Bool) :
    Parked (d.nanosleep caller freq ns now slot granted) := by
  unfold Desk.nanosleep
  split
  · exact parked
  · split
    · exact parked
    · rename_i j empty
      split
      · exact parked
      · rename_i a free
        have awake : Slab.map Sleeper.replySlot d.sleepers j = none := by
          rw [Slab.map,Slab.free_some empty,Option.map_none]
        refine parked.park free ?_ rfl
        dsimp only [Desk.references]
        rw [Slab.map_put]
        exact (((Slab.values_put awake).append_left _).trans List.perm_middle).subperm

/-- A waiter that was there before loses its place in the table, but its reply stays parked. -/
theorem Parked.waitpid (parked : Parked d) (waiter child : Pid) (slot : Nat) (granted : Bool) :
    Parked (d.waitpid waiter child slot granted) := by
  unfold Desk.waitpid
  dsimp only
  split
  · rename_i i p a _ _ free
    refine parked.park free ?_ rfl
    have fewer := (List.subperm_cons a).mpr (Slab.values_erase_subperm d.waiter i)
    exact (List.subperm_append_right _).mpr ((Slab.values_write d.waiter).subperm.trans fewer)
  · exact parked.fewer (List.Subperm.refl _) rfl

theorem Parked.spawn (parked : Parked d) (parent : Pid) (k : SpawnKernel) : Parked (d.spawn parent k) := by
  unfold Desk.spawn
  dsimp only
  split
  · exact parked.fewer (List.Subperm.refl _) rfl
  · rename_i i found
    split
    · exact parked.fewer ((List.subperm_append_right _).mpr (Slab.values_erase_subperm d.waiter i)) rfl
    · exact parked.fewer (List.Subperm.refl _) rfl

theorem step_parked (parked : Parked d) (taken : d.step c = some e) : Parked e := by
  cases c with
  | spawn parent k =>
    obtain rfl := Option.some.inj taken
    exact parked.spawn parent k
  | detach pid status =>
    obtain rfl := Option.some.inj taken
    exact (parked.answer pid).fewer (List.Subperm.refl _) rfl
  | terminate target status =>
    obtain rfl := Option.some.inj taken
    unfold Desk.terminate
    split
    · exact parked
    · exact (parked.answer target).fewer (List.Subperm.refl _) rfl
  | waitpid waiter child slot granted =>
    obtain rfl := Option.some.inj taken
    exact parked.waitpid waiter child slot granted
  | nanosleep caller f ns now slot granted =>
    obtain rfl := Option.some.inj taken
    exact parked.nanosleep caller f ns now slot granted
  | sweep now =>
    obtain rfl := Option.some.inj taken
    exact parked.sweep now

theorem run_parked {reg : State cfg} (run : Lts.Run Desk.step Desk.anyDuty (Desk.start reg) cs d) : Parked d := by
  refine run.invariant Parked (fun _ _ _ parked _ taken => step_parked parked taken) ⟨?_,List.nodup_nil⟩
  have waiters : Slab.values (fun _ : Fin maxProcesses => (none : Option Nat)) = [] := List.filterMap_none ..
  have sleepers : Slab.values (Slab.map Sleeper.replySlot fun _ : Fin maxSleepers => none) = [] :=
    List.filterMap_none ..
  dsimp only [Desk.references,Desk.start]
  rw [waiters,sleepers]
  exact List.Subperm.refl _

end Parking

/-- A count of ticks from which a timer goes on: it is not 0, the clock compares it as later, and the
new expiry is not the one that stands for no timer. -/
def Lasts (ticks now : Word) : Prop := 0 < ticks.toNat ∧ ticks.toNat ≤ 2 ^ 63 ∧ now + ticks ≠ 0

/-- No pid is used twice, and every sleeper has a parked reply of its own. -/
structure Wired (s : Clockwork cfg freq) : Prop where
  wf : s.pulses.base.roster.Wf
  parked : Parked s.desk

theorem again_lasts (x : Itimer freq) (now : Word) :
    (x.again now).expiry ≠ 0 ∧ expired now (x.again now).expiry = false ↔ Lasts x.interval now := by
  have zero : (0 : Word).toNat = 0 := rfl
  have bound := x.interval.isLt
  have reading := now.isLt
  unfold Itimer.again Lasts
  dsimp only
  by_cases periodic : 0 < x.interval
  · have positive : 0 < x.interval.toNat := by
      rwa [BitVec.lt_def,zero] at periodic
    rw [if_pos periodic,← Bool.not_eq_true,expired_iff,BitVec.toNat_sub,BitVec.toNat_add]
    constructor
    · rintro ⟨armed,later⟩
      exact ⟨positive,by omega,armed⟩
    · rintro ⟨-,near,armed⟩
      exact ⟨armed,by omega⟩
  · have nothing : ¬0 < x.interval.toNat := by
      rwa [BitVec.lt_def,zero] at periodic
    rw [if_neg periodic]
    exact ⟨fun both => absurd rfl both.1,fun all => absurd all.1 nothing⟩

theorem again_disarmed (x : Itimer freq) (now : Word) (once : x.asked = 0) : (x.again now).expiry = 0 := by
  have nothing : x.interval = 0 := by
    rw [x.set,once,← usToTicks_zero]
  unfold Itimer.again
  dsimp only
  rw [nothing,if_neg (BitVec.lt_irrefl 0)]

theorem expired_between (n e : Int) (near : (n - e).natAbs < 2 ^ 63) :
    expired (BitVec.ofInt 64 n) (BitVec.ofInt 64 e) = true ↔ e ≤ n := by
  rw [expired,decide_eq_true_eq,BitVec.toInt_sub,BitVec.toInt_ofInt,BitVec.toInt_ofInt,Int.bmod_sub_bmod,
    Int.sub_bmod_bmod,Int.bmod_eq_of_le (by omega) (by omega)]
  exact Int.sub_nonneg

/-- What the two loops do. -/
theorem sweep_spec (wired : s.Wired) (now : Word) :
    (s.sweep now).desk = s.desk.sweep now ∧ (s.sweep now).pulses.base = s.pulses.base ∧
      (∀ i, (s.sweep now).pulses.accepted i = s.pulses.accepted i ++
        List.replicate
          (min (pulseQueueLen - (s.pulses.queues i).count) ((List.finRange maxProcesses).countP (s.rings now i)))
          alarmPulse) ∧
      ∀ k, (s.sweep now).timer k = if s.due now k = true then (s.timer k).again now else s.timer k := by
  have loop := visits_spec now (visited s.pulses.base) { s with desk := s.desk.sweep now }
    (visited_nodup s.pulses.base)
  have eq : s.sweep now = (visited s.pulses.base).foldl (fun s hit => s.visit now hit.1 hit.2)
    { s with desk := s.desk.sweep now } :=
    fires_eq _ _
  rw [← eq] at loop
  obtain ⟨⟨base,desk⟩,queued,timers⟩ := loop
  refine ⟨desk,base,fun i => ?_,fun k => ?_⟩
  · rw [← countP_visited wired.wf]
    exact queued i
  · have both : s.due now k = true ↔ k ∈ (visited s.pulses.base).map Prod.fst ∧ (s.timer k).due now = true := by
      rw [mem_visited_fst wired.wf,due,Bool.and_eq_true]
    rw [timers k]
    by_cases fires : s.due now k = true
    · rw [if_pos (both.mp fires),if_pos fires]
    · rw [if_neg fun listed => fires (both.mpr listed),if_neg fires]

theorem sweep_exact (wired : s.Wired) (now : Word) :
    (s.Exact now (s.sweep now) ↔ ∀ k, s.due now k = true → (s.timer k).asked ≠ 0 →
      Lasts (usToTicks freq (s.timer k).asked) now) ∧
      ∀ n e : Int, (n - e).natAbs < 2 ^ 63 → (expired (BitVec.ofInt 64 n) (BitVec.ofInt 64 e) = true ↔ e ≤ n) := by
  obtain ⟨desk,base,queued,timers⟩ := sweep_spec wired now
  refine ⟨⟨fun exact k due repeated => ?_,fun lasting => ?_⟩,expired_between⟩
  · have later := exact.rearmed k due repeated
    rw [timers k,if_pos due,again_lasts,(s.timer k).set] at later
    exact later
  · constructor
    · intro j
      rw [desk,sweep_sleepers]
    · rw [desk]
      exact wired.parked.answered now
    · exact queued
    · intro k due repeated
      rw [timers k,if_pos due,again_lasts,(s.timer k).set]
      exact lasting k due repeated
    · intro k due once
      rw [timers k,if_pos due]
      exact again_disarmed _ now once
    · intro k
      rw [timers k]
      split
      · exact ⟨rfl,rfl⟩
      · exact ⟨rfl,rfl⟩
    · intro k early
      rw [timers k,early,if_neg Bool.false_ne_true]
    · rw [desk]
      exact ⟨base,Desk.sweep_reg ..,sweep_waiter ..⟩

theorem setitimer_rest (s : Clockwork cfg freq) (caller : Pid) (now value interval : Word) :
    (s.setitimer caller now value interval).1.desk = s.desk ∧ (s.setitimer caller now value interval).1.pulses =
      s.pulses := by
  unfold setitimer
  split
  · exact ⟨rfl,rfl⟩
  · exact ⟨rfl,rfl⟩

theorem Wired.setitimer (wired : s.Wired) (caller : Pid) (now value interval : Word) :
    (s.setitimer caller now value interval).1.Wired := by
  obtain ⟨desk,pulses⟩ := setitimer_rest s caller now value interval
  refine ⟨?_,?_⟩
  · rw [pulses]
    exact wired.wf
  · rw [desk]
    exact wired.parked

/-- Init sleeps for a second and gets an alarm after a microsecond. -/
def napping (interval : Word) : Clockwork small 10000000 :=
  (setitimer ⟨(Desk.start smallBoot).nanosleep 2 10000000 1000000000 0 51 true,.start smallBoot,
    fun _ => ⟨0,0,0,0,usToTicks_zero _⟩⟩ 2 0 1 interval).1

theorem napping_wired (interval : Word) : (napping interval).Wired := by
  have run : Lts.Run Desk.step Desk.anyDuty (Desk.start smallBoot) [.nanosleep 2 10000000 1000000000 0 51 true]
      ((Desk.start smallBoot).nanosleep 2 10000000 1000000000 0 51 true) := .cons trivial rfl .nil
  exact Wired.setitimer ⟨boot_pids boot_small,run_parked run⟩ 2 0 1 interval

/-- The microsecond after the first one. -/
theorem sweep_exact_again : ∃ k, (napping 1).due 10 k = true ∧ (((napping 1).sweep 10).timer k).expiry = 20 ∧
    (napping 1).Exact 10 ((napping 1).sweep 10) := by
  have asked : ∀ k, ((napping 1).timer k).asked = 0 ∨ ((napping 1).timer k).asked = 1 := by decide +kernel
  have one : Lasts (usToTicks 10000000 1) 10 := by
    unfold Lasts
    decide +kernel
  have due : (napping 1).due 10 ⟨1,by decide⟩ = true := by decide +kernel
  obtain ⟨-,-,-,timers⟩ := sweep_spec (napping_wired 1) 10
  have expiry : (((napping 1).sweep 10).timer ⟨1,by decide⟩).expiry = 20 := by
    rw [timers,if_pos due]
    decide +kernel
  refine ⟨⟨1,by decide⟩,due,expiry,(sweep_exact (napping_wired 1) 10).1.mpr fun k _ nonempty => ?_⟩
  rcases asked k with nothing | once
  · exact absurd nothing nonempty
  · rw [once]
    exact one

/-- An interval of 2^63 microseconds is 0 ticks in 64 bits. -/
theorem sweep_drops_interval : ∃ (s : Clockwork small 10000000) (now : Word), s.Wired ∧ now.toNat < 2 ^ 63 ∧
    (∀ k, (s.timer k).expiry.toNat < 2 ^ 63) ∧ (∀ j, ∀ z ∈ s.desk.sleepers j, z.expiry.toNat < 2 ^ 63) ∧
    ¬s.Exact now (s.sweep now) := by
  refine ⟨napping 9223372036854775808,10,napping_wired _,by decide +kernel,by decide +kernel,by decide +kernel,
    fun exact => ?_⟩
  have due : (napping 9223372036854775808).due 10 ⟨1,by decide⟩ = true := by decide +kernel
  have later := exact.rearmed ⟨1,by decide⟩ due (by decide +kernel)
  obtain ⟨-,-,-,timers⟩ := sweep_spec (napping_wired 9223372036854775808) 10
  rw [timers,if_pos due] at later
  exact later.1 (by decide +kernel)

end Clockwork

end Qsoe.Taskman
