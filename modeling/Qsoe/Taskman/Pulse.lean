import Qsoe.Taskman.Board
import Qsoe.Lib.RingBuffer

/-! Pulses. Every channel has a ring of eight pulses that sends and alarms fill and fetches
empty; a create starts the ring of the index it takes over again. `accepted` and `fetched` are
history: what was queued on a channel and what was handed out since its create. -/
namespace Qsoe.Taskman

variable {cfg : Config}

/-- `TM_PULSE_QUEUE_LEN`. -/
def pulseQueueLen : Nat := 8

/-- `tm_pulse_t`. -/
structure Pulse where
  sender : Pid
  priority : BitVec 32
  code : BitVec 32
  value : BitVec 32
  deriving DecidableEq, Repr

/-- The pulse of an expired timer: `_PULSE_CODE_SIGNAL` with `SIGALRM` and the sender's pid. -/
def alarmPulse : Pulse := ⟨pidTaskman,0,-40,14 ||| pidTaskman <<< 16⟩

inductive PulseErrno where
  | ebadf | eagain | enoent
  deriving DecidableEq, Repr

structure Pulses (cfg : Config) where
  base : State cfg
  queues : Fin cfg.channels → RingBuffer Pulse
  accepted : Fin cfg.channels → List Pulse
  fetched : Fin cfg.channels → List Pulse

namespace Pulses

def enqueue (p : Pulses cfg) (i : Fin cfg.channels) (x : Pulse) : Pulses cfg :=
  { p with
    queues := Function.update p.queues i ((p.queues i).push pulseQueueLen x)
    accepted := Function.update p.accepted i (p.accepted i ++ [x]) }

def dequeue (p : Pulses cfg) (i : Fin cfg.channels) : Pulses cfg :=
  { p with
    queues := Function.update p.queues i ((p.queues i).pop pulseQueueLen)
    fetched := Function.update p.fetched i (p.fetched i ++ [(p.queues i).front]) }

/-- `tm_pulse_send`. -/
def pulseSend (p : Pulses cfg) (sender : Pid) (slot : Nat) (priority code value : BitVec 32) :
    Pulses cfg × Except PulseErrno Unit :=
  match p.base.pulseChannel sender slot with
  | none => (p,.error .ebadf)
  | some i =>
    if pulseQueueLen ≤ (p.queues i).count then (p,.error .eagain)
    else (p.enqueue i ⟨sender,priority,code,value⟩,.ok ())

/-- `tm_pulse_fetch`; the scoid it hands out is always 0. -/
def pulseFetch (p : Pulses cfg) (receiver : Pid) (recv : Nat) : Pulses cfg × Except PulseErrno Pulse :=
  match Slab.find p.base.channels fun c => c.owner == receiver && c.recv == recv with
  | none => (p,.error .ebadf)
  | some (i,_) =>
    if (p.queues i).count = 0 then (p,.error .enoent)
    else (p.dequeue i,.ok (p.queues i).front)

/-- `deliver_alarm_to`: an alarm for a full queue is lost. -/
def deliverAlarmTo (p : Pulses cfg) (target : Pid) (chid : BitVec 32) : Pulses cfg :=
  if chid = 0 then p
  else match p.base.channelIndex target chid with
    | none => p
    | some i => if (p.queues i).count < pulseQueueLen then p.enqueue i alarmPulse else p

def filled (s t : State cfg) (i : Fin cfg.channels) : Bool := (s.channels i).isNone && (t.channels i).isSome

/-- The registries go on to `t`; the ring of a new channel starts over. -/
def move (p : Pulses cfg) (t : State cfg) : Pulses cfg where
  base := t
  queues i := if filled p.base t i then (p.queues i).clear else p.queues i
  accepted i := if filled p.base t i then [] else p.accepted i
  fetched i := if filled p.base t i then [] else p.fetched i

end Pulses

/-- The caller of a request sent through a cap, unless taskman takes the badge for a fault. -/
def State.requester (s : State cfg) (i slot : Nat) : Option Pid :=
  (s.held i slot).bind fun c =>
    if i ≠ 0 ∧ c.object = .primary then
      match delivery c.badge with
      | .request caller => some caller
      | .fault _ => none
    else none

/-- The pulse code travels as an `int8_t`. -/
inductive PulseEvent where
  | registry (e : Event)
  | send (i slot connection : Nat) (priority : BitVec 32) (code : BitVec 8) (value : BitVec 32)
  | fetch (i slot recv : Nat)
  | alarm (target : Pid) (chid : BitVec 32)
  deriving DecidableEq, Repr

def pulseStep (p : Pulses cfg) : PulseEvent → Option (Pulses cfg)
  | .registry e => (step p.base e).map p.move
  | .send i slot connection priority code value =>
    (p.base.requester i slot).map fun sender =>
      (p.pulseSend sender connection priority (code.signExtend 32) value).1
  | .fetch i slot recv => (p.base.requester i slot).map fun receiver => (p.pulseFetch receiver recv).1
  | .alarm target chid => some (p.deliverAlarmTo target chid)

def anyPulse (_ : Pulses cfg) (_ : PulseEvent) : Prop := True

instance : DecidableRel (@anyPulse cfg) := fun _ _ => .isTrue trivial

/-- No pulse has been queued when the loop starts. -/
def Pulses.start (s : State cfg) : Pulses cfg where
  base := s
  queues _ := ⟨0,0,0,fun _ => ⟨0,0,0,0⟩⟩
  accepted _ := []
  fetched _ := []

namespace Pulses

variable {p q : Pulses cfg} {i : Fin cfg.channels}

/-- The ring at `i` holds what was accepted there and not fetched yet. -/
def Kept (p : Pulses cfg) (i : Fin cfg.channels) : Prop :=
  ∃ pending, p.accepted i = p.fetched i ++ pending ∧ (p.queues i).Holds pulseQueueLen pending

theorem Kept.enqueue (kept : p.Kept i) (room : (p.queues j).count < pulseQueueLen) (x : Pulse) :
    (p.enqueue j x).Kept i := by
  obtain ⟨pending,split,holds⟩ := kept
  rcases eq_or_ne i j with rfl | other
  · refine ⟨pending ++ [x],?_,?_⟩
    · simp [Pulses.enqueue,split]
    · simpa [Pulses.enqueue] using holds.push (holds.count ▸ room) x
  · exact ⟨pending,by simpa [Pulses.enqueue,other] using split,by simpa [Pulses.enqueue,other] using holds⟩

theorem Kept.dequeue (kept : p.Kept i) (nonzero : (p.queues j).count ≠ 0) : (p.dequeue j).Kept i := by
  obtain ⟨pending,split,holds⟩ := kept
  rcases eq_or_ne i j with rfl | other
  · cases pending with
    | nil => exact absurd holds.count nonzero
    | cons x rest =>
      refine ⟨rest,?_,?_⟩
      · simp [Pulses.dequeue,split,holds.front]
      · simpa [Pulses.dequeue] using holds.pop
  · exact ⟨pending,by simpa [Pulses.dequeue,other] using split,by simpa [Pulses.dequeue,other] using holds⟩

theorem Kept.send (kept : p.Kept i) (sender : Pid) (slot : Nat) (priority code value : BitVec 32) :
    (p.pulseSend sender slot priority code value).1.Kept i := by
  unfold pulseSend
  split
  · exact kept
  · split
    · exact kept
    · rename_i room
      exact kept.enqueue (Nat.lt_of_not_le room) _

theorem Kept.fetch (kept : p.Kept i) (receiver : Pid) (recv : Nat) : (p.pulseFetch receiver recv).1.Kept i := by
  unfold pulseFetch
  split
  · exact kept
  · split
    · exact kept
    · rename_i nonzero
      exact kept.dequeue nonzero

theorem Kept.alarm (kept : p.Kept i) (target : Pid) (chid : BitVec 32) : (p.deliverAlarmTo target chid).Kept i := by
  unfold deliverAlarmTo
  split
  · exact kept
  · split
    · exact kept
    · split
      · rename_i room
        exact kept.enqueue room _
      · exact kept

theorem pulseSend_base (p : Pulses cfg) (sender : Pid) (slot : Nat) (priority code value : BitVec 32) :
    (p.pulseSend sender slot priority code value).1.base = p.base := by
  unfold pulseSend
  split
  · rfl
  · split <;> rfl

theorem pulseFetch_base (p : Pulses cfg) (receiver : Pid) (recv : Nat) :
    (p.pulseFetch receiver recv).1.base = p.base := by
  unfold pulseFetch
  split
  · rfl
  · split <;> rfl

theorem deliverAlarmTo_base (p : Pulses cfg) (target : Pid) (chid : BitVec 32) :
    (p.deliverAlarmTo target chid).base = p.base := by
  unfold deliverAlarmTo
  split
  · rfl
  · split
    · rfl
    · split <;> rfl

/-- Every channel in use has a ring in order. -/
def Ordered (p : Pulses cfg) : Prop := ∀ i, (p.base.channels i).isSome = true → p.Kept i

theorem Ordered.move (ordered : p.Ordered) (t : State cfg) : (p.move t).Ordered := by
  intro i live
  have live : (t.channels i).isSome = true := live
  by_cases fresh : filled p.base t i = true
  · exact ⟨[],by simp [Pulses.move,fresh],by
      simpa [Pulses.move,fresh] using RingBuffer.holds_clear (p.queues i) (by decide)⟩
  · have old : (p.base.channels i).isSome = true := by
      cases used : p.base.channels i with
      | none => simp [filled,used,live] at fresh
      | some c => rfl
    obtain ⟨pending,split,holds⟩ := ordered i old
    exact ⟨pending,by simpa [Pulses.move,fresh] using split,by simpa [Pulses.move,fresh] using holds⟩

theorem Ordered.same (ordered : p.Ordered) (base : q.base = p.base) (kept : ∀ i, p.Kept i → q.Kept i) :
    q.Ordered := by
  intro i live
  rw [base] at live
  exact kept i (ordered i live)

theorem start_ordered (s : State cfg) : (start s).Ordered := fun _ _ =>
  ⟨[],rfl,rfl,Nat.zero_le _,Nat.zero_lt_succ _,rfl,by simp⟩

end Pulses

theorem pulseStep_ordered (p : Pulses cfg) (e : PulseEvent) (q : Pulses cfg) (ordered : p.Ordered)
    (_ : anyPulse p e) (taken : pulseStep p e = some q) : q.Ordered := by
  cases e with
  | registry e =>
    obtain ⟨t,-,rfl⟩ := Option.map_eq_some_iff.mp taken
    exact ordered.move t
  | send i slot connection priority code value =>
    obtain ⟨sender,-,rfl⟩ := Option.map_eq_some_iff.mp taken
    exact ordered.same (p.pulseSend_base ..) fun i kept => kept.send ..
  | fetch i slot recv =>
    obtain ⟨receiver,-,rfl⟩ := Option.map_eq_some_iff.mp taken
    exact ordered.same (p.pulseFetch_base ..) fun i kept => kept.fetch ..
  | alarm target chid =>
    obtain rfl := Option.some.inj taken
    exact ordered.same (p.deliverAlarmTo_base ..) fun i kept => kept.alarm ..

/-- What a channel's queue promises. `full` is a send that is told to try again, `lost` an
alarm that is dropped: both happen exactly when eight accepted pulses wait. -/
structure Fifo (p : Pulses cfg) (i : Fin cfg.channels) : Prop where
  bound : (p.queues i).count ≤ pulseQueueLen
  ring : (p.queues i).tail = ((p.queues i).head + (p.queues i).count) % pulseQueueLen
  order : (p.fetched i) <+: (p.accepted i)
  full : ∀ sender slot priority code value, p.base.pulseChannel sender slot = some i →
    ((p.pulseSend sender slot priority code value).2 = .error .eagain ↔
      (p.accepted i).length = (p.fetched i).length + pulseQueueLen)
  lost : ∀ target chid, chid ≠ 0 → p.base.channelIndex target chid = some i →
    ((p.deliverAlarmTo target chid).accepted i = p.accepted i ↔
      (p.accepted i).length = (p.fetched i).length + pulseQueueLen)

theorem Pulses.Kept.fifo {p : Pulses cfg} (kept : p.Kept i) : Fifo p i := by
  obtain ⟨pending,split,holds⟩ := kept
  have waiting : (p.accepted i).length = (p.fetched i).length + (p.queues i).count := by
    rw [split,List.length_append,holds.count]
  have bound : (p.queues i).count ≤ pulseQueueLen := holds.count ▸ holds.room
  refine ⟨bound,holds.tail,⟨pending,split.symm⟩,?_,?_⟩
  · intro sender slot priority code value routed
    rw [Pulses.pulseSend,routed,waiting]
    dsimp only
    split
    · simp only [true_iff]
      omega
    · simp only [reduceCtorEq,false_iff]
      omega
  · intro target chid named routed
    rw [Pulses.deliverAlarmTo,if_neg named,routed,waiting]
    dsimp only
    split
    · have longer : p.accepted i ++ [alarmPulse] ≠ p.accepted i := by simp
      simp only [Pulses.enqueue,Function.update_self,longer,false_iff]
      omega
    · simp only [true_iff]
      omega

/-- `/sbin/init` makes a channel, connects to it, sends nine pulses and fetches one. -/
def pulseRun : List PulseEvent :=
  [.registry (.message 1 1 0 (.channelCreate 9 0 ⟨true,true,true⟩)),
    .registry (.message 1 1 0 (.connectAttach 2 9 0 ⟨true,true⟩))] ++
  (List.range 9).map (fun n => .send 1 1 17 0 5 (BitVec.ofNat 32 n)) ++ [.alarm 2 9,.fetch 1 1 16]

end Qsoe.Taskman
