import Qsoe.Taskman.Caller

/-! Which messages the loop takes for faults. A fault handler cap is badged with bit 16 and
the pid of its process, and pids stay below that bit; but connections to the primary
endpoint are badged with counters that reach it. -/
namespace Qsoe.Taskman

variable {cfg : Config} {s t : State cfg}

structure Space.Faulting (sp : Space) : Prop where
  small : sp.pid.toNat < maxProcesses
  own : ∀ c, sp.fault = some c → c = ⟨.primary,(Source.fault sp.pid).badge,some (.fault sp.pid)⟩

theorem Space.Faulting.fresh {pid : Pid} (small : pid.toNat < maxProcesses) :
    Space.Faulting ⟨pid,fun _ => none,none⟩ := ⟨small,by simp⟩

theorem Space.Faulting.stable : Stable Space.Faulting where
  caps _ _ faulting _ := ⟨faulting.small,faulting.own⟩
  muted sp keep faulting := by
    refine ⟨faulting.small,?_⟩
    intro c there
    exact faulting.own c (Option.filter_eq_some_iff.mp there).1
  faulting sp faulting := ⟨faulting.small,by simp⟩

/-- What the messages of a state can be mistaken for depends on these. -/
structure Guarded (s : State cfg) : Prop where
  pids : Roster.Wf s.roster
  capped : Capped s
  faulting : Holds Space.Faulting s

theorem step_guarded (s : State cfg) (e : Event) (t : State cfg) (guarded : Guarded s) (any : anyStep s e)
    (taken : step s e = some t) : Guarded t where
  pids := step_pids s e t guarded.pids any taken
  capped := step_capped s e t guarded.capped any taken
  faulting := by
    apply step_holds guarded.faulting _ taken
    intro r pid issued
    exact .fresh (guarded.pids.issue issued).2.2

theorem boot_guarded (booted : boot cfg = some s) : Guarded s where
  pids := boot_pids booted
  capped := boot_capped booted
  faulting := by
    apply boot_holds Space.Faulting.stable (.fresh (by decide)) _ booted
    intro r pid issued
    exact .fresh ((init_roster cfg).issue issued).2.2

theorem pid_cases (property : Pid → Prop) (all : ∀ n : Fin maxProcesses, property (BitVec.ofNat 32 n))
    (pid : Pid) (small : pid.toNat < maxProcesses) : property pid := by
  have known := all ⟨pid.toNat,small⟩
  simpa using known

theorem delivery_fault (pid : Pid) (small : pid.toNat < maxProcesses) :
    delivery (Source.fault pid).badge = .fault pid := by
  apply pid_cases (fun pid => delivery (Source.fault pid).badge = .fault pid) _ pid small
  decide +kernel

theorem delivery_sysmgr (pid : Pid) (small : pid.toNat < maxProcesses) :
    delivery (Source.sysmgr pid).badge = .request pid := by
  apply pid_cases (fun pid => delivery (Source.sysmgr pid).badge = .request pid) _ pid small
  decide +kernel

theorem delivery_is_fault (badge : Word) :
    (∃ pid, delivery badge = .fault pid) ↔ badge.toNat.testBit 16 = true := by
  have flag : faultBadgeFlag = BitVec.twoPow 64 16 := by decide
  rw [delivery,flag,BitVec.and_twoPow,BitVec.testBit_toNat]
  cases badge.getLsbD 16 with
  | false => simp
  | true => simp [show BitVec.twoPow 64 16 ≠ 0#64 by decide]

theorem badge_bit (numbered : Source.number σ = some n) : σ.badge.toNat.testBit 16 = n.testBit 16 := by
  have low := badge_number numbered
  rw [BitVec.toNat_setWidth] at low
  have same := congrArg (·.testBit 16) low
  simp only [Nat.testBit_mod_two_pow] at same
  simpa using same

/-- The pid a delivered event makes the loop call `tm_handle_fault` with. -/
def Event.faults (s : State cfg) : Event → Option Pid
  | .message i slot _ _ => (s.held i slot).bind fun c =>
    match delivery c.badge with
    | .fault pid => some pid
    | .request _ => none
  | .fault i => (s.faultCap i).bind fun c =>
    match delivery c.badge with
    | .fault pid => some pid
    | .request _ => none
  | _ => none

/-- A fault is handled only when the kernel delivers one, through the handler cap minted when
its process was spawned, and for the pid of that process. -/
def FaultSound (s : State cfg) (e : Event) : Prop :=
  ∀ pid ∈ e.faults s, ∃ i, e = .fault i ∧ s.pidOf i = some pid ∧
    ∃ c, s.faultCap i = some c ∧ c.source = some (.fault pid)

def Event.connection (s : State cfg) : Event → Option Nat
  | .message i slot _ _ => (s.held i slot).bind fun c => c.source.bind Source.number
  | _ => none

/-- No message goes through a connection whose number has bit 16. -/
def clearOfFlag (s : State cfg) (e : Event) : Prop := ∀ n ∈ e.connection s, n.testBit 16 = false

/-- Fault handlers deliver faults of their own process. -/
theorem Guarded.fault (guarded : Guarded s) (i : Nat) : FaultSound s (.fault i) := by
  intro pid delivered
  obtain ⟨c,there,made⟩ := Option.bind_eq_some_iff.mp delivered
  obtain ⟨sp,used,handler⟩ := Option.bind_eq_some_iff.mp there
  have faulting := guarded.faulting.space i sp used
  obtain rfl := faulting.own c handler
  dsimp only at made
  rw [delivery_fault sp.pid faulting.small] at made
  obtain rfl : sp.pid = pid := Option.some.inj made
  exact ⟨i,rfl,by simp [State.pidOf,used],_,there,rfl⟩

/-- A request is taken for a fault exactly when it comes through a connection numbered with
bit 16: the badge of a SYSMGR cap is a pid and stays below it. -/
theorem Guarded.message (guarded : Guarded s) (there : s.held i slot = some c) (primary : c.object = .primary) :
    (∃ pid, delivery c.badge = .fault pid) ↔ ∃ n ∈ c.source.bind Source.number, n.testBit 16 = true := by
  obtain ⟨sp,used,cap⟩ := Option.bind_eq_some_iff.mp there
  have sound := guarded.capped.sound i sp used slot c cap
  obtain ⟨σ,source⟩ := sound.primary primary
  rw [source,Option.bind_some,sound.number σ source]
  cases numbered : σ.number with
  | some n => simp [delivery_is_fault,badge_bit numbered]
  | none =>
    cases σ with
    | sysmgr p =>
      obtain rfl := sound.own p source
      simp [delivery_sysmgr sp.pid (guarded.faulting.space i sp used).small]
    | fault p => exact absurd source (sound.request p)
    | scoid n => cases numbered
    | pipe n write => cases numbered

/-- In every reachable state, an event the loop receives is dispatched soundly exactly when it
does not come through a connection whose number has bit 16. -/
theorem faults_are_faults (booted : boot cfg = some first) (run : Lts.Run step anyStep first es s)
    (taken : step s e = some t) : FaultSound s e ↔ clearOfFlag s e := by
  have guarded := run.invariant Guarded step_guarded (boot_guarded booted)
  cases e with
  | fault i => exact ⟨fun _ n numbered => by simp [Event.connection] at numbered,fun _ => guarded.fault i⟩
  | copy i src dst => simp [FaultSound,clearOfFlag,Event.faults,Event.connection]
  | delete i slot => simp [FaultSound,clearOfFlag,Event.faults,Event.connection]
  | message i slot stale r =>
    simp only [step] at taken
    split at taken
    · rename_i c there
      split at taken
      · rename_i sent
        have message := guarded.message there sent.2
        constructor
        · intro sound n numbered
          rw [Bool.eq_false_iff]
          intro bit
          obtain ⟨pid,delivered⟩ := message.mpr ⟨n,by simpa [Event.connection,there] using numbered,bit⟩
          obtain ⟨k,fault,-⟩ := sound pid (by simp [Event.faults,there,delivered])
          cases fault
        · intro clear pid mistaken
          have delivered : delivery c.badge = .fault pid := by
            simp only [Event.faults,there,Option.bind_some,Option.mem_def] at mistaken
            split at mistaken
            · simp_all
            · cases mistaken
          obtain ⟨n,numbered,bit⟩ := message.mp ⟨pid,delivered⟩
          have low := clear n (by simpa [Event.connection,there] using numbered)
          simp [bit] at low
      · cases taken
    · cases taken

/-- A fault of init, handled as one. -/
theorem faults_are_faults_init : ∃ t, step smallBoot (.fault 1) = some t ∧
    (FaultSound smallBoot (.fault 1) ↔ clearOfFlag smallBoot (.fault 1)) := by
  obtain ⟨t,taken⟩ := Option.isSome_iff_exists.mp
    (show (step smallBoot (.fault 1)).isSome = true by decide +kernel)
  exact ⟨t,taken,faults_are_faults boot_small .nil taken⟩

namespace State

/-- `n` connection numbers and `n` CSpace slots of one process later. -/
def worn (s : State cfg) (i : Fin maxProcesses) (p : Process) (n : Nat) : State cfg :=
  { s with
    processes := Slab.put s.processes i { p with nextSlot := p.nextSlot + n }
    scoids := s.scoids + n }

end State

/-- A process that can go on attaching to the primary channel and closing again. -/
structure Cycling (s : State cfg) (home : Nat) (i : Fin maxProcesses) (p : Process) : Prop where
  record : s.processLookup p.pid = some (i,p)
  space : p.space = some home ∧ home ≠ 0
  sends : ∃ c, s.held home capTaskmanEp = some c ∧ c.object = .primary ∧ delivery c.badge = .request p.pid
  empty : ∀ sp slot, s.spaces home = some sp → p.nextSlot ≤ slot → sp.caps slot = none
  channel : ∃ idx ch, s.channelFind pidTaskman 1 = some (idx,ch) ∧ ch.ntfn = none
  row : ∃ j, Slab.free s.rows = some j
  unused : ∀ j r, s.rows j = some r → r.clientPid = p.pid → r.clientSlot < p.nextSlot

/-- Attach and close; the mint is refused once the slot is beyond the 4096 of a child CNode. -/
def cycle (home slot : Nat) : List Event :=
  [.message home capTaskmanEp 0 (.connectAttach pidTaskman 1 0 ⟨decide (slot < 4096),false⟩),
    .message home capTaskmanEp 0 (.connectDetach slot true)]

variable {i : Fin maxProcesses} {p : Process}

theorem Cycling.worn (cycling : Cycling s home i p) (n : Nat) :
    Cycling (s.worn i p n) home i { p with nextSlot := p.nextSlot + n } where
  record := Slab.find_put cycling.record (by simp)
  space := cycling.space
  sends := cycling.sends
  empty sp slot used above := cycling.empty sp slot used (Nat.le_of_add_right_le above)
  channel := cycling.channel
  row := cycling.row
  unused j r used mine := Nat.lt_add_right n (cycling.unused j r used mine)

theorem Cycling.attach_refused (cycling : Cycling s home i p) :
    s.connectAttach p.pid pidTaskman 1 0 0 ⟨false,false⟩ = (s.worn i p 1,.error .enomem) := by
  obtain ⟨idx,ch,channel,-⟩ := cycling.channel
  obtain ⟨j,free⟩ := cycling.row
  have refused : ∀ (t : State cfg) cnode slot c, t.mint cnode slot c false = none := by
    intro t cnode slot c
    unfold State.mint
    split <;> simp
  simp only [State.connectAttach,cycling.record,channel,free,State.processAllocSlot,refused]
  rfl

theorem Cycling.slot_unused (cycling : Cycling s home i p) (j : Fin cfg.connections) (r : Row cfg)
    (used : s.rows j = some r) : (r.clientPid == p.pid && r.clientSlot == p.nextSlot) = false := by
  by_cases mine : r.clientPid = p.pid
  · have below := cycling.unused j r used mine
    simp [Nat.ne_of_lt below]
  · simp [mine]

theorem Cycling.close_refused (cycling : Cycling s home i p) :
    ((s.worn i p 1).connectDetach p.pid p.nextSlot 0 true).1 = s.worn i p 1 := by
  have missing : (s.worn i p 1).connectionFindBySlot p.pid p.nextSlot = none :=
    Slab.find_none_of cycling.slot_unused
  have record := (cycling.worn 1).record
  dsimp only at record
  simp [State.connectDetach,record,missing]

/-- A granted attach, as far as the close needs to know it. -/
theorem Cycling.attach (cycling : Cycling s home i p) : ∃ j sp cap r, s.rows j = none ∧
    s.spaces home = some sp ∧ sp.caps p.nextSlot = none ∧
    r.clientPid = p.pid ∧ r.clientSlot = p.nextSlot ∧ r.ntfnSlot = 0 ∧
    (s.connectAttach p.pid pidTaskman 1 0 0 ⟨true,false⟩).1 =
      ((s.worn i p 1).setSpace home
        (some { sp with caps := Function.update sp.caps p.nextSlot (some cap) })).addRow j r := by
  obtain ⟨idx,ch,channel,silent⟩ := cycling.channel
  obtain ⟨j,free⟩ := cycling.row
  obtain ⟨c,there,-⟩ := cycling.sends
  obtain ⟨sp,used,-⟩ := Option.bind_eq_some_iff.mp there
  have empty := cycling.empty sp p.nextSlot used le_rfl
  have cnode : p.cnode 0 = home := by simp [Process.cnode,cycling.space.1]
  refine ⟨j,sp,⟨ch.master,BitVec.ofNat 64 (s.scoids + 1),some (.scoid s.scoids)⟩,
    ⟨idx,BitVec.ofNat 64 (s.scoids + 1),p.pid,p.nextSlot,0,0 &&& ~~~cfg.sideChannel,.scoid s.scoids,ch.born⟩,
    Slab.free_some free,used,empty,rfl,rfl,rfl,?_⟩
  simp only [State.connectAttach,cycling.record,channel,free,State.processAllocSlot,cnode]
  simp [State.mint,State.allocScoid,State.setProcess,used,empty,State.shareNtfn,silent,State.worn,
    State.setSpace,State.addRow]

/-- Closing what was attached leaves only the counters moved. -/
theorem Cycling.close (cycling : Cycling s home i p) :
    ((s.connectAttach p.pid pidTaskman 1 0 0 ⟨true,false⟩).1.connectDetach p.pid p.nextSlot 0 true).1 =
      s.worn i p 1 := by
  obtain ⟨j,sp,cap,r,free,used,empty,client,slot,silent,attached⟩ := cycling.attach
  have record := (cycling.worn 1).record
  have found := Slab.find_put_only (i := j) (a := r) cycling.slot_unused (by simp [client,slot])
  have emptied : Function.update sp.caps p.nextSlot none = sp.caps := Function.update_eq_self_iff.mpr empty.symm
  have restored : Function.update s.spaces home (some sp) = s.spaces := Function.update_eq_self_iff.mpr used.symm
  have erased : Slab.erase (Slab.put s.rows j r) j = s.rows := Slab.erase_put free
  rw [attached]
  simp only [State.connectDetach,State.processLookup,State.connectionFindBySlot,State.addRow,State.setSpace,
    State.worn] at record ⊢
  simp only [record,found]
  simp [State.deleteCap,State.setSpace,Process.cnode,cycling.space.1,silent,emptied,restored,erased]

theorem Cycling.run (cycling : Cycling s home i p) :
    Lts.Run step anyStep s (cycle home p.nextSlot) (s.worn i p 1) := by
  obtain ⟨c,there,primary,sent⟩ := cycling.sends
  have sends : ∀ (u : State cfg) r, u.held home capTaskmanEp = some c →
      step u (.message home capTaskmanEp 0 r) = some (u.dispatch p.pid c.badge 0 r) := by
    intro u r held
    simp [step,held,cycling.space.2,primary,State.receive,sent]
  by_cases granted : p.nextSlot < 4096
  · obtain ⟨j,sp,cap,r,-,used,empty,-,-,-,attached⟩ := cycling.attach
    have other : capTaskmanEp ≠ p.nextSlot := by
      intro same
      rw [← same] at empty
      simp [State.held,used,empty] at there
    have still : (s.connectAttach p.pid pidTaskman 1 0 0 ⟨true,false⟩).1.held home capTaskmanEp = some c := by
      rw [attached]
      simpa [State.held,State.addRow,State.setSpace,other,used] using there
    simp only [cycle,granted,decide_true]
    refine .cons trivial (sends s _ there) (.cons trivial (sends _ _ still) ?_)
    simp only [State.dispatch,cycling.close]
    exact .nil
  · simp only [cycle,granted,decide_false]
    refine .cons trivial (sends s _ there) ?_
    simp only [State.dispatch,cycling.attach_refused]
    refine .cons trivial (sends (s.worn i p 1) _ there) ?_
    simp only [State.dispatch,cycling.close_refused]
    exact .nil

theorem Cycling.wears (cycling : Cycling s home i p) (n : Nat) :
    ∃ es, Lts.Run step anyStep s es (s.worn i p n) := by
  induction n with
  | zero =>
    have same : s.worn i p 0 = s := by
      have record : Slab.put s.processes i p = s.processes :=
        Function.update_eq_self_iff.mpr (Slab.find_some cycling.record).1.symm
      simp [State.worn,record]
    rw [same]
    exact ⟨[],.nil⟩
  | succ n ih =>
    obtain ⟨es,before⟩ := ih
    have last := (cycling.worn n).run
    have next : (s.worn i p n).worn i { p with nextSlot := p.nextSlot + n } 1 = s.worn i p (n + 1) := by
      simp [State.worn,Slab.put_put,Nat.add_assoc]
    rw [next] at last
    exact ⟨_,before.append last⟩

def initRecord : Process := ⟨2,some 1,capWellKnownEnd,pidTaskman,.live,0,false⟩

theorem boot_cycling : Cycling smallBoot 1 (1 : Fin 128) initRecord where
  record := by decide +kernel
  space := by decide
  sends := ⟨⟨.primary,2,some (.sysmgr 2)⟩,by decide +kernel⟩
  empty sp slot used above := by
    obtain ⟨k,rfl⟩ := Nat.exists_eq_add_of_le' above
    have nothing : smallBoot.held 1 (k + initRecord.nextSlot) = none := rfl
    simpa [State.held,used] using nothing
  channel := by
    obtain ⟨⟨idx,ch⟩,found,silent⟩ := (Option.any_eq_true _ _).mp
      (show (smallBoot.channelFind pidTaskman 1).any (fun hit => hit.2.ntfn == none) = true by decide +kernel)
    exact ⟨idx,ch,found,by simpa using silent⟩
  row := Option.isSome_iff_exists.mp (by decide +kernel)
  unused j r used _ := by
    have low : ∀ j : Fin 16, (smallBoot.rows j).all (fun r => decide (r.clientSlot < initRecord.nextSlot)) =
      true := by
      decide +kernel
    simpa [used] using low j

/-- After 65534 more connections init spawns a child, whose stdin is connection 0x10002: what
the child sends through it is taken for a fault of init. -/
theorem stdin_faults_init : ¬ ∀ es s e t, Lts.Run step anyStep smallBoot es s → step s e = some t →
    FaultSound s e := by
  intro faultless
  obtain ⟨es,wears⟩ := boot_cycling.wears 65534
  obtain ⟨s,spawns,stdin⟩ := Lts.Run.exists_of_replay step anyStep
    (smallBoot.worn (1 : Fin 128) initRecord 65534) [.message 1 1 0 (.processCreate bootSpawn)]
    (fun s => s.held 2 capStdinConnect = some ⟨.primary,0x10002,some (.scoid 65537)⟩) (by decide +kernel)
  have taken : ∃ t, step s (.message 2 capStdinConnect 0 (.io (0,0))) = some t := by simp [step,stdin]
  obtain ⟨t,taken⟩ := taken
  have mistaken : (Event.message 2 capStdinConnect 0 (.io (0,0))).faults s = some 2 := by
    rw [Event.faults,stdin]
    decide +kernel
  obtain ⟨k,fault,-⟩ := faultless _ s _ t (wears.append spawns) taken 2 mistaken
  cases fault

end Qsoe.Taskman
