import Qsoe.Msg.Budget
import Qsoe.Msg.Whole

/-! A reply that is saved and sent later, on the main thread. `MsgSavereply` moves the reply
object out of the way and names its slot in the rcvid; what else the rcvid said is lost, the
bulk bit with it. -/
namespace Qsoe.Msg

open Qsoe.Taskman (Pid Word)

variable {ι γ : Type} [DecidableEq ι] [DecidableEq γ]

/-- Who the clients are and what they called `MsgSend` with. -/
structure Desk (γ : Type) where
  server : Pid
  pid : γ → Pid
  args : γ → SendArgs

/-- The reply objects of a server beside the memory taskman copies in. -/
structure Post (ι γ : Type) where
  st : State ι γ
  sp : Space

/-- What a client has when its `MsgSend` returns: the status and the bytes put into its reply
buffer, by taskman for a bulk message and out of the registers for any other. -/
structure Outcome (γ : Type) where
  client : γ
  status : BitVec 32
  bytes : List Byte
  deriving DecidableEq, Repr

def Space.pushText (sp : Space) (names : Names) (server : Pid) (rcvid : BitVec 32) (msg : Option Word)
    (bytes : Nat) : List Byte :=
  if rcvid &&& rcvidBulk = 0 then []
  else match msg, sp.bulkPendingFind (names.client (pushKey rcvid)) with
    | some src, some (_,e) => Memory.load sp.mem server src (min bytes e.rbytes.toNat)
    | _, _ => []

/-- The bytes `MsgSend` copies out of the registers. -/
def SendArgs.text (a : SendArgs) (reply : Reply) : List Byte :=
  if a.bulk || a.rmsg.isNone then [] else reply.bytes.take (min a.rbytes msgMaxBytes)

/-- The arguments of `MsgReply`, with what taskman and the kernel make of them. -/
structure ReplyArgs where
  status : BitVec 32
  msg : Option Word
  bytes : Nat
  ipc : Ipc
  names : Names
  granted : Word → Bool

/-- What `MsgReply` puts into the message registers. -/
def ReplyArgs.body (r : ReplyArgs) (mem : Pid → Word → Byte) (server : Pid) : List Byte :=
  match r.msg with
  | some src => packBytes (Memory.load mem server src r.bytes)
  | none => r.ipc.msg.take (regBytes r.bytes)

/-- `MsgReceive` takes the message for a descriptor. -/
def Message.desc : Message → Bool
  | .bulk _ _ _ _ => true
  | .regs label _ => decide (label &&& bulkLabel ≠ 0)

namespace Post

/-- `MsgReceive` of the message of `c`; whoever the reply object was tied to is cut loose, and
without a reply object the thread faults. -/
def receive (p : Post ι γ) (desk : Desk γ) (c : γ) (names : Names) (granted : Word → Bool)
    (badge : Word) (ipc : Ipc)
    (msg : Option Word) (bytes : Nat) : Option (Post ι γ × Except XferErrno (BitVec 32)) :=
  match p.st.cap capReply with
  | none => none
  | some o =>
    let result := p.sp.msgReceive names granted desk.server badge msg bytes
      (msgSend (desk.args c) ipc p.sp.mem (desk.pid c))
    some (⟨((p.st.cancel o).setBind o (.caller c)).setClient c .waiting,result.1⟩,result.2)

/-- `carved` is whether the untyped has room for another reply object. -/
def savereply (p : Post ι γ) (rcvid : BitVec 32) (carved : Bool) : Post ι γ × Except Errno (BitVec 32) :=
  if rcvid &&& rcvidSaved ≠ 0 then (p,.ok rcvid)
  else match p.st.allocEmptySlot with
    | none => (p,.error .eagain)
    | some (slot,drawn) =>
      match drawn.move slot capReply with
      | none => ({ p with st := drawn.freeEmptySlot slot },.error .enomem)
      | some moved =>
        match (if carved then moved.retype capReply else none) with
        | some made => ({ p with st := made },.ok (rcvidSaved ||| BitVec.ofNat 32 slot))
        | none => ({ p with st := ((moved.move capReply slot).getD moved).freeEmptySlot slot },.error .enomem)

/-- The reply object answers, and goes if it was a saved one. -/
def reply (p : Post ι γ) (desk : Desk γ) (rcvid : BitVec 32) (r : ReplyArgs) : Post ι γ × Option (Outcome γ) :=
  match p.sp.msgReply r.names r.granted desk.server r.ipc rcvid r.status r.msg r.bytes with
  | (failed,.error _) => ({ p with sp := failed },none)
  | (sent,.ok reply) =>
    let answered := p.st.answer reply.slot
    let st := if rcvid &&& rcvidBulk ≠ 0 ∨ rcvid &&& rcvidSaved = 0 then answered.1
      else (answered.1.delete reply.slot).freeEmptySlot reply.slot
    (⟨st,sent⟩,answered.2.map fun c => ⟨c,reply.label,if (desk.args c).bulk
      then p.sp.pushText r.names desk.server rcvid r.msg r.bytes else (desk.args c).text reply⟩)

end Post

/-- What the main thread does; `elapse` is whatever happens to memory and to the pending replies
of other servers meanwhile. -/
inductive Act (γ : Type) where
  | receive (c : γ) (names : Names) (granted : Word → Bool) (badge : Word) (ipc : Ipc) (msg : Option Word)
      (bytes : Nat)
  | savereply (rcvid : BitVec 32) (carved : Bool)
  | reply (rcvid : BitVec 32) (r : ReplyArgs)
  | elapse (sp : Space)

namespace Post

def step (desk : Desk γ) (p : Post ι γ) : Act γ → Option (Post ι γ)
  | .receive c names granted badge ipc msg bytes =>
    (p.receive desk c names granted badge ipc msg bytes).map Prod.fst
  | .savereply rcvid carved => some (p.savereply rcvid carved).1
  | .reply rcvid r => some (p.reply desk rcvid r).1
  | .elapse sp => some { p with sp := sp }

/-- Nobody replies to `saved`. -/
def spares (saved : BitVec 32) (_ : Post ι γ) : Act γ → Prop
  | .reply rcvid _ => rcvid ≠ saved
  | _ => True

def anyAct (_ : Post ι γ) (_ : Act γ) : Prop := True

def start (S : Server ι) (sp : Space) : Post ι γ := ⟨Msg.start S,sp⟩

variable {p p' : Post ι γ} {s t : State ι γ} {desk : Desk γ} {S : Server ι}

/-- No two slots hold one object, and the next object is new. -/
structure Distinct (s : State ι γ) : Prop where
  one : ∀ x y o, s.cap x = some o → s.cap y = some o → x = y
  fresh : ∀ x o, s.cap x = some o → o < s.objects

/-- The object in `slot` is tied to `c` and to be found nowhere else. -/
structure Holds (slot : Nat) (c : γ) (o : Nat) (s : State ι γ) : Prop where
  there : s.cap slot = some o
  tied : s.bind o = .caller c
  apart : slot ≠ capReply

section

omit [DecidableEq ι] [DecidableEq γ]

theorem Distinct.keep (distinct : Distinct s) (cap : ∀ x o, t.cap x = some o → s.cap x = some o)
    (objects : s.objects ≤ t.objects) : Distinct t where
  one x y o first second := distinct.one x y o (cap x o first) (cap y o second)
  fresh x o there := lt_of_lt_of_le (distinct.fresh x o (cap x o there)) objects

theorem Distinct.move (distinct : Distinct s) (moved : s.move dest src = some t) : Distinct t := by
  obtain ⟨-,empty,caps,-,objects,-⟩ := State.move_eq moved
  have back : ∀ x o, t.cap x = some o → s.cap (if x = dest then src else x) = some o ∧ x ≠ src := by
    intro x o there
    rw [caps] at there
    split_ifs at there with gone new
    · rw [if_pos new]
      exact ⟨there,gone⟩
    · rw [if_neg new]
      exact ⟨there,gone⟩
  refine ⟨?_,?_⟩
  · intro x y o first second
    obtain ⟨first,left⟩ := back x o first
    obtain ⟨second,left'⟩ := back y o second
    have same := distinct.one _ _ o first second
    split_ifs at same with new new' new'
    · exact new.trans new'.symm
    · exact absurd same.symm left'
    · exact absurd same left
    · exact same
  · intro x o there
    rw [objects]
    exact distinct.fresh _ o (back x o there).1

theorem Distinct.retype (distinct : Distinct s) (made : s.retype dest = some t) : Distinct t := by
  obtain ⟨-,caps,-,objects,-⟩ := State.retype_eq made
  have old : ∀ x o, x ≠ dest → t.cap x = some o → s.cap x = some o := by
    intro x o other there
    rwa [caps,if_neg other] at there
  have new : ∀ o, t.cap dest = some o → o = s.objects := by
    intro o there
    rw [caps,if_pos rfl] at there
    exact (Option.some.inj there).symm
  refine ⟨?_,?_⟩
  · intro x y o first second
    by_cases left : x = dest
    · by_cases right : y = dest
      · exact left.trans right.symm
      · subst left
        have small := distinct.fresh y o (old y o right second)
        rw [new o first] at small
        omega
    · by_cases right : y = dest
      · subst right
        have small := distinct.fresh x o (old x o left first)
        rw [new o second] at small
        omega
      · exact distinct.one x y o (old x o left first) (old y o right second)
  · intro x o there
    rw [objects]
    by_cases own : x = dest
    · subst own
      rw [new o there]
      omega
    · exact lt_trans (distinct.fresh x o (old x o own there)) (Nat.lt_succ_self _)

end

theorem cancel_rest (s : State ι γ) (o : Nat) : (s.cancel o).cap = s.cap ∧ (s.cancel o).objects = s.objects ∧
    ∀ x, x ≠ o → (s.cancel o).bind x = s.bind x := by
  unfold State.cancel
  split
  · exact ⟨rfl,rfl,fun _ _ => rfl⟩
  all_goals
    refine ⟨rfl,rfl,fun x other => ?_⟩
    simp [other]

omit [DecidableEq ι] in
theorem answer_other (s : State ι γ) (distinct : Distinct s) (there : s.cap slot = some o) (other : slot' ≠ slot) :
    (s.answer slot').1.bind o = s.bind o := by
  unfold State.answer
  split
  · rename_i c o' _ found
    have apart : o ≠ o' := by
      rintro rfl
      exact other (distinct.one _ _ _ found there)
    simp [apart]
  · rfl

omit [DecidableEq ι] in
theorem answer_objects (s : State ι γ) (slot : Nat) : (s.answer slot).1.objects = s.objects := by
  unfold State.answer
  split
  · rfl
  · rfl

theorem delete_other (s : State ι γ) (distinct : Distinct s) (there : s.cap slot = some o) (other : slot' ≠ slot) :
    (s.delete slot').bind o = s.bind o := by
  unfold State.delete
  split
  · rfl
  · rename_i o' found
    have apart : o ≠ o' := by
      rintro rfl
      exact other (distinct.one _ _ _ found there)
    exact (cancel_rest s o').2.2 o apart

/-- The reply objects are told apart and the allocator is in order. -/
structure Tidy (s : State ι γ) : Prop extends Distinct s, Reached s

namespace Tidy

omit [DecidableEq ι] [DecidableEq γ] in
theorem start (S : Server ι) : Tidy (Msg.start S : State ι γ) := by
  have own : ∀ x o, (Msg.start S : State ι γ).cap x = some o → S.holds x = true ∧ x = o := by
    intro x o there
    simpa [Msg.start] using there
  refine { Reached.start S with one := ?_, fresh := ?_ }
  · intro x y o first second
    exact (own x o first).2.trans (own y o second).2.symm
  · intro x o there
    obtain ⟨held,rfl⟩ := own x o there
    exact S.low x held

omit [DecidableEq ι] [DecidableEq γ] in
theorem keep (tidy : Tidy s) (reached : Reached t) (cap : ∀ x o, t.cap x = some o → s.cap x = some o)
    (objects : s.objects ≤ t.objects) : Tidy t :=
  { tidy.toDistinct.keep cap objects, reached with }

omit [DecidableEq ι] in
theorem answer (tidy : Tidy s) (slot : Nat) : Tidy (s.answer slot).1 := by
  obtain ⟨-,-,-,-,-,-,cap,-⟩ := State.answer_rest s slot
  exact tidy.keep (tidy.toReached.answer slot) (by simp [cap]) (le_of_eq (answer_objects s slot).symm)

theorem delete (tidy : Tidy s) (slot : Nat) : Tidy (s.delete slot) := by
  obtain ⟨-,-,objects,caps⟩ := Budget.delete_rest s slot
  refine tidy.keep (tidy.toReached.delete slot) (fun x o there => ?_) (le_of_eq objects.symm)
  rw [caps] at there
  split_ifs at there
  exact there

section

omit [DecidableEq ι] [DecidableEq γ]

theorem release (tidy : Tidy s) (small : slot < 2 ^ 30) : Tidy (s.freeEmptySlot slot) := by
  obtain ⟨cap,-,objects,-⟩ := State.freeEmptySlot_eq s slot
  exact tidy.keep (tidy.toReached.release small) (by simp [cap]) (le_of_eq objects.symm)

theorem alloc (tidy : Tidy s) (taken : s.allocEmptySlot = some (slot,t)) : Tidy t ∧ Fits slot := by
  obtain ⟨reached,fits⟩ := tidy.toReached.alloc taken
  obtain ⟨cap,-,objects,-⟩ := State.allocEmptySlot_eq taken
  exact ⟨tidy.keep reached (by simp [cap]) (le_of_eq objects.symm),fits⟩

theorem move (tidy : Tidy s) (moved : s.move dest src = some t) : Tidy t :=
  { tidy.toDistinct.move moved, tidy.toReached.move moved with }

theorem retype (tidy : Tidy s) (made : s.retype dest = some t) : Tidy t := by
  obtain ⟨-,-,-,objects,-⟩ := State.retype_eq made
  obtain ⟨free,next,pc,-⟩ := State.retype_rest made
  have reached := tidy.toReached.keep free next (by omega) fun i => .inr (by rw [pc])
  exact { tidy.toDistinct.retype made, reached with }

end

theorem tie (tidy : Tidy s) (o : Nat) (c : γ) :
    Tidy (((s.cancel o).setBind o (.caller c)).setClient c .waiting) := by
  obtain ⟨cap,objects,-⟩ := cancel_rest s o
  have reached := (tidy.toReached.cancel o).keep (t := ((s.cancel o).setBind o (.caller c)).setClient c .waiting)
    rfl rfl le_rfl fun _ => .inr rfl
  exact tidy.keep reached (by simp [cap]) (le_of_eq objects.symm)

end Tidy

namespace Holds

omit [DecidableEq ι] [DecidableEq γ] in
theorem keep (holds : Holds slot c o s) (cap : t.cap slot = s.cap slot) (bind : t.bind o = s.bind o) :
    Holds slot c o t where
  there := cap.trans holds.there
  tied := bind.trans holds.tied
  apart := holds.apart

omit [DecidableEq ι] in
theorem answer (holds : Holds slot c o s) (tidy : Tidy s) (other : slot' ≠ slot) :
    Holds slot c o (s.answer slot').1 := by
  obtain ⟨-,-,-,-,-,-,cap,-⟩ := State.answer_rest s slot'
  exact holds.keep (by rw [cap]) (answer_other s tidy.toDistinct holds.there other)

theorem delete (holds : Holds slot c o s) (tidy : Tidy s) (other : slot' ≠ slot) :
    Holds slot c o (s.delete slot') := by
  obtain ⟨-,-,-,caps⟩ := Budget.delete_rest s slot'
  exact holds.keep (by rw [caps,if_neg other.symm]) (delete_other s tidy.toDistinct holds.there other)

section

omit [DecidableEq ι] [DecidableEq γ]

theorem release (holds : Holds slot c o s) (slot' : Nat) : Holds slot c o (s.freeEmptySlot slot') := by
  obtain ⟨cap,bind,-⟩ := State.freeEmptySlot_eq s slot'
  exact holds.keep (by rw [cap]) (by rw [bind])

theorem alloc (holds : Holds slot c o s) (taken : s.allocEmptySlot = some (slot',t)) : Holds slot c o t := by
  obtain ⟨cap,bind,-⟩ := State.allocEmptySlot_eq taken
  exact holds.keep (by rw [cap]) (by rw [bind])

theorem move (holds : Holds slot c o s) (moved : s.move dest src = some t) (other : src ≠ slot) :
    Holds slot c o t ∧ dest ≠ slot := by
  obtain ⟨-,empty,caps,bind,-⟩ := State.move_eq moved
  have free : dest ≠ slot := by
    rintro rfl
    rw [holds.there] at empty
    cases empty
  exact ⟨holds.keep (by rw [caps,if_neg other.symm,if_neg free.symm]) (by rw [bind]),free⟩

theorem retype (holds : Holds slot c o s) (made : s.retype dest = some t) : Holds slot c o t := by
  obtain ⟨empty,caps,bind,-⟩ := State.retype_eq made
  have free : dest ≠ slot := by
    rintro rfl
    rw [holds.there] at empty
    cases empty
  exact holds.keep (by rw [caps,if_neg free.symm]) (by rw [bind])

end

theorem tie (holds : Holds slot c o s) (tidy : Tidy s) (here : s.cap capReply = some o') (c' : γ) :
    Holds slot c o (((s.cancel o').setBind o' (.caller c')).setClient c' .waiting) := by
  have other : o ≠ o' := by
    rintro rfl
    exact holds.apart (tidy.one _ _ _ holds.there here)
  obtain ⟨cap,-,bind⟩ := cancel_rest s o'
  refine holds.keep (by simp [cap]) ?_
  simp [other,bind]

end Holds

theorem receive_ok (received : p.receive desk c names granted badge ipc msg bytes = some (p',result)) :
    ∃ o, p.st.cap capReply = some o ∧ p'.st = ((p.st.cancel o).setBind o (.caller c)).setClient c .waiting ∧
      p.sp.msgReceive names granted desk.server badge msg bytes (msgSend (desk.args c) ipc p.sp.mem (desk.pid c)) =
        (p'.sp,result) := by
  unfold receive at received
  split at received
  · cases received
  · rename_i o here
    cases received
    exact ⟨o,here,rfl,rfl⟩

theorem receive_keeps (tidy : Tidy p.st) (received : p.receive desk c names granted badge ipc msg bytes =
    some (p',result)) :
    Tidy p'.st ∧ ∀ slot c' o, Holds slot c' o p.st → Holds slot c' o p'.st := by
  obtain ⟨o,here,st,-⟩ := receive_ok received
  rw [st]
  exact ⟨tidy.tie o c,fun _ _ _ holds => holds.tie tidy here c⟩

omit [DecidableEq ι] [DecidableEq γ] in
/-- A save that goes through has moved the reply object into a slot of the allocator. -/
theorem savereply_ok (fresh : rcvid &&& rcvidSaved = 0) (saved : p.savereply rcvid carved = (p',.ok r)) :
    ∃ slot drawn moved, p.st.allocEmptySlot = some (slot,drawn) ∧ drawn.move slot capReply = some moved ∧
      moved.retype capReply = some p'.st ∧ p'.sp = p.sp ∧ r = rcvidSaved ||| BitVec.ofNat 32 slot := by
  unfold savereply at saved
  rw [if_neg (by simpa using fresh)] at saved
  split at saved
  · cases saved
  · rename_i slot drawn drawing
    split at saved
    · cases saved
    · rename_i moved moving
      split at saved
      · rename_i made making
        obtain ⟨rfl,rcvid⟩ := Prod.mk.inj saved
        obtain rfl := Except.ok.inj rcvid
        split_ifs at making
        exact ⟨slot,drawn,moved,drawing,moving,making,rfl,rfl⟩
      · cases saved

omit [DecidableEq ι] [DecidableEq γ] in
theorem savereply_keeps (tidy : Tidy p.st) (rcvid : BitVec 32) (carved : Bool) :
    Tidy (p.savereply rcvid carved).1.st ∧ ∀ slot c o, Holds slot c o p.st →
      Holds slot c o (p.savereply rcvid carved).1.st := by
  unfold savereply
  split
  · exact ⟨tidy,fun _ _ _ holds => holds⟩
  split
  · exact ⟨tidy,fun _ _ _ holds => holds⟩
  · rename_i slot' drawn drawing
    obtain ⟨tidy',fits⟩ := tidy.alloc drawing
    split
    · exact ⟨tidy'.release fits.2,fun _ _ _ holds => (holds.alloc drawing).release slot'⟩
    · rename_i moved moving
      have tidy'' := tidy'.move moving
      split
      · rename_i made making
        split_ifs at making
        exact ⟨tidy''.retype making,fun _ _ _ holds =>
          ((holds.alloc drawing).move moving holds.apart.symm).1.retype making⟩
      · -- the object goes back where it was
        cases returning : moved.move capReply slot' with
        | none =>
          exact ⟨tidy''.release fits.2,fun _ _ _ holds =>
            ((holds.alloc drawing).move moving holds.apart.symm).1.release slot'⟩
        | some back =>
          refine ⟨(tidy''.move returning).release fits.2,fun slot c o holds => ?_⟩
          obtain ⟨held,other⟩ := (holds.alloc drawing).move moving holds.apart.symm
          exact (held.move returning other).1.release slot'

theorem msgReply_slot {sp sp' : Space} {answer : Reply}
    (sent : sp.msgReply names granted server ipc rcvid status msg bytes = (sp',.ok answer)) : answer.slot =
    if rcvid &&& rcvidBulk ≠ 0 ∨ rcvid &&& rcvidSaved = 0 then capReply else (rcvid &&& ~~~rcvidSaved).toNat := by
  unfold Space.msgReply at sent
  split at sent
  · rename_i bulk
    rw [if_pos (.inl bulk)]
    split at sent
    · split at sent
      · cases sent
      · cases sent
        rfl
    · cases sent
      rfl
  · rename_i plain
    dsimp only at sent
    split at sent
    · rename_i saved
      cases sent
      rw [if_neg]
      exact not_or.mpr ⟨plain,saved⟩
    · rename_i direct
      cases sent
      rw [if_pos (.inr (not_not.mp direct))]

theorem saved_unique {rcvid : BitVec 32} (saved : rcvid &&& rcvidSaved ≠ 0)
    (slot : (rcvid &&& ~~~rcvidSaved).toNat = n) :
    rcvid = rcvidSaved ||| BitVec.ofNat 32 n := by
  rw [← slot,BitVec.ofNat_toNat,BitVec.setWidth_eq]
  have top : rcvid.getLsbD 31 = true := by
    by_contra low
    apply saved
    apply BitVec.eq_of_getLsbD_eq
    intro k below
    rw [BitVec.getLsbD_and,(Budget.saved_bits k below).2]
    rcases eq_or_ne k 31 with rfl | other
    · simpa using low
    · simp [other]
  apply BitVec.eq_of_getLsbD_eq
  intro k below
  rw [BitVec.getLsbD_or,BitVec.getLsbD_and,BitVec.getLsbD_not,(Budget.saved_bits k below).2]
  rcases eq_or_ne k 31 with rfl | other
  · simp [top]
  · simp [other,below]

theorem reply_keeps (tidy : Tidy p.st) (desk : Desk γ) (rcvid : BitVec 32) (r : ReplyArgs) :
    Tidy (p.reply desk rcvid r).1.st ∧ ∀ slot c o, Holds slot c o p.st →
      rcvid ≠ rcvidSaved ||| BitVec.ofNat 32 slot →
      Holds slot c o (p.reply desk rcvid r).1.st := by
  unfold reply
  split
  · exact ⟨tidy,fun _ _ _ holds _ => holds⟩
  · rename_i sent reply sending
    have through := msgReply_slot sending
    dsimp only
    split
    · rename_i direct
      rw [if_pos direct] at through
      rw [through]
      exact ⟨tidy.answer capReply,fun _ _ _ holds _ => holds.answer tidy holds.apart.symm⟩
    · rename_i deferred
      rw [if_neg deferred] at through
      push Not at deferred
      have small : reply.slot < 2 ^ 30 := by
        rw [through]
        exact Reached.saved_small deferred.1
      refine ⟨((tidy.answer _).delete _).release small,fun slot c o holds spared => ?_⟩
      have other : reply.slot ≠ slot := by
        intro same
        exact spared (saved_unique deferred.2 (through.symm.trans same))
      exact ((holds.answer tidy other).delete (tidy.answer _) other).release _

theorem step_keeps (tidy : Tidy p.st) (act : Act γ) (taken : step desk p act = some p') :
    Tidy p'.st ∧ ∀ slot c o, Holds slot c o p.st → spares (rcvidSaved ||| BitVec.ofNat 32 slot) p act →
      Holds slot c o p'.st := by
  cases act with
  | receive c names granted badge ipc msg bytes =>
    obtain ⟨⟨_,_⟩,received,rfl⟩ := Option.map_eq_some_iff.mp taken
    obtain ⟨kept,holding⟩ := receive_keeps tidy received
    exact ⟨kept,fun slot c o holds _ => holding slot c o holds⟩
  | savereply rcvid carved =>
    obtain rfl := Option.some.inj taken
    obtain ⟨kept,holding⟩ := savereply_keeps tidy rcvid carved
    exact ⟨kept,fun slot c o holds _ => holding slot c o holds⟩
  | reply rcvid r =>
    obtain rfl := Option.some.inj taken
    exact reply_keeps tidy desk rcvid r
  | elapse sp =>
    obtain rfl := Option.some.inj taken
    exact ⟨tidy,fun _ _ _ holds _ => holds⟩

theorem run_tidy {space : Space} (run : Lts.Run (step desk) anyAct (start S space) acts p) : Tidy p.st :=
  run.invariant (fun p => Tidy p.st) (fun _ act _ tidy _ taken => (step_keeps tidy act taken).1) (Tidy.start S)

theorem run_holds (run : Lts.Run (step desk) (spares (rcvidSaved ||| BitVec.ofNat 32 slot)) p acts p')
    (tidy : Tidy p.st) (holds : Holds slot c o p.st) : Tidy p'.st ∧ Holds slot c o p'.st :=
  run.invariant (fun p => Tidy p.st ∧ Holds slot c o p.st)
    (fun _ act _ kept spared taken =>
      ⟨(step_keeps kept.1 act taken).1,(step_keeps kept.1 act taken).2 slot c o kept.2 spared⟩) ⟨tidy,holds⟩

theorem receive_rcvid {sp sp' : Space} (received : sp.msgReceive names granted server badge msg bytes m =
    (sp',.ok rcvid)) :
    rcvid = if m.desc then rcvidBulk ||| badge.setWidth 32 else badge.setWidth 32 := by
  have bulk : ∀ sbuf sbytes rbuf rbytes, sp.receiveBulk names granted server badge msg bytes sbuf sbytes rbuf
    rbytes = (sp',.ok rcvid) →
      rcvid = rcvidBulk ||| badge.setWidth 32 := by
    intro sbuf sbytes rbuf rbytes done
    simp only [Space.receiveBulk] at done
    generalize (if BitVec.ofNat 64 bytes < sbytes then BitVec.ofNat 64 bytes else sbytes) = want at done
    by_cases copied : msg.isSome ∧ want ≠ 0
    · rw [if_pos copied] at done
      split at done
      · cases done
      · cases done
        rfl
    · rw [if_neg copied] at done
      cases done
      rfl
  cases m with
  | bulk sbuf sbytes rbuf rbytes => exact bulk _ _ _ _ received
  | regs label body =>
    simp only [Space.msgReceive] at received
    split at received
    · rename_i flagged
      rw [if_pos (by simpa [Message.desc] using flagged)]
      exact bulk _ _ _ _ received
    · rename_i unflagged
      rw [if_neg (by simpa [Message.desc] using unflagged)]
      split at received
      · cases received
        rfl
      · cases received
        rfl

theorem reply_plain (desk : Desk γ) (plain : rcvid &&& rcvidBulk = 0) (r : ReplyArgs)
    (there : p.st.cap slot = some o) (tied : p.st.bind o = .caller c) (named :
      (if rcvid &&& rcvidSaved = 0 then capReply else (rcvid &&& ~~~rcvidSaved).toNat) = slot) :
    (p.reply desk rcvid r).2 =
      some ⟨c,r.status,if (desk.args c).bulk then [] else (desk.args c).text
        ⟨slot,r.status,r.body p.sp.mem desk.server⟩⟩ := by
  have sent : p.sp.msgReply r.names r.granted desk.server r.ipc rcvid r.status r.msg r.bytes =
      (p.sp,.ok ⟨slot,r.status,r.body p.sp.mem desk.server⟩) := by
    rw [← named]
    unfold Space.msgReply
    rw [if_neg (by simpa using plain)]
    dsimp only
    by_cases saved : rcvid &&& rcvidSaved = 0
    · rw [if_pos saved,if_neg (by simpa using saved)]
      rfl
    · rw [if_neg saved,if_pos saved]
      rfl
  have answered : (p.st.answer slot).2 = some c := by
    simp [State.answer,there,tied]
  unfold reply
  rw [sent]
  simp [answered,Space.pushText,plain]

theorem reply_bulk_empty (bulk : rcvid &&& rcvidBulk ≠ 0) (r : ReplyArgs) (empty : r.bytes = 0)
    (there : p.st.cap capReply = some o)
    (tied : p.st.bind o = .caller c) : (p.reply desk rcvid r).2 = some ⟨c,r.status,[]⟩ := by
  have sent : ∃ sp', p.sp.msgReply r.names r.granted desk.server r.ipc rcvid r.status r.msg r.bytes =
      (sp',.ok ⟨capReply,r.status,[]⟩) := by
    unfold Space.msgReply
    rw [if_pos bulk,if_neg (by simp [empty])]
    exact ⟨_,rfl⟩
  obtain ⟨sp',sent⟩ := sent
  have answered : (p.st.answer capReply).2 = some c := by
    simp [State.answer,there,tied]
  have nothing : p.sp.pushText r.names desk.server rcvid r.msg r.bytes = [] := by
    unfold Space.pushText
    rw [if_neg bulk,empty]
    split
    · rw [Nat.zero_min]
      rfl
    · rfl
  unfold reply
  rw [sent]
  simp [answered,nothing,SendArgs.text]

omit [DecidableEq ι] [DecidableEq γ] in
theorem savereply_holds (tidy : Tidy p.st) (here : p.st.cap capReply = some o) (tied : p.st.bind o = .caller c)
    (fresh : rcvid &&& rcvidSaved = 0) (saved : p.savereply rcvid carved = (p',.ok kept)) :
    ∃ slot, Fits slot ∧ kept = rcvidSaved ||| BitVec.ofNat 32 slot ∧ Tidy p'.st ∧ Holds slot c o p'.st := by
  obtain ⟨slot,drawn,moved,drawing,moving,making,-,rfl⟩ := savereply_ok fresh saved
  obtain ⟨tidy',fits⟩ := tidy.alloc drawing
  obtain ⟨cap,bind,-⟩ := State.allocEmptySlot_eq drawing
  obtain ⟨-,empty,caps,bind',-⟩ := State.move_eq moving
  have apart : slot ≠ capReply := by
    rintro rfl
    rw [cap,here] at empty
    cases empty
  have held : Holds slot c o moved := by
    refine ⟨?_,?_,apart⟩
    · rw [caps,if_neg apart,if_pos rfl,cap,here]
    · rw [bind',bind,tied]
  exact ⟨slot,fits,rfl,(tidy'.move moving).retype making,held.retype making⟩

/-- A deferred reply and a direct one come to the same for a message in registers whose badge
leaves the two top bits of an rcvid alone, and for an answer without payload. -/
theorem deferred_reply_same (S : Server ι) (desk : Desk γ) (space : Space) (r r' : ReplyArgs)
    (run : Lts.Run (step desk) anyAct (start S space) acts p₀)
    (received : p₀.receive desk c names granted badge ipc msg bytes = some (p,.ok rcvid))
    (unsaved : badge.setWidth 32 &&& rcvidSaved = 0)
    (plain : (msgSend (desk.args c) ipc p₀.sp.mem (desk.pid c)).desc = false ∧ badge.setWidth 32 &&& rcvidBulk =
      0 ∨ r.bytes = 0)
    (saved : p.savereply rcvid carved = (q₀,.ok kept)) (others : Lts.Run (step desk) (spares kept) q₀ acts' q)
    (status : r'.status = r.status) (payload : r'.body q.sp.mem desk.server = r.body p.sp.mem desk.server) :
    ∃ outcome, outcome.client = c ∧ outcome.status = r.status ∧
      (p.reply desk rcvid r).2 = some outcome ∧ (q.reply desk kept r').2 = some outcome := by
  obtain ⟨o,here,st,message⟩ := receive_ok received
  have tidy := (receive_keeps (run_tidy run) received).1
  have cap : p.st.cap capReply = some o := by
    rw [st]
    simpa [(cancel_rest p₀.st o).1] using here
  have tied : p.st.bind o = .caller c := by simp [st]
  have rcvid_eq := receive_rcvid message
  have fresh : rcvid &&& rcvidSaved = 0 := by
    have clear : rcvidBulk &&& rcvidSaved = 0 := by decide
    rw [rcvid_eq]
    split_ifs
    · rw [BitVec.and_comm,BitVec.and_or_distrib_left,BitVec.and_comm _ rcvidBulk,clear,BitVec.and_comm,unsaved]
      rfl
    · exact unsaved
  obtain ⟨slot,fits,rfl,tidy',holds⟩ := savereply_holds tidy cap tied fresh saved
  obtain ⟨-,holds'⟩ := run_holds others tidy' holds
  obtain ⟨low,high,out⟩ := Budget.saved_slot fits
  have deferred := reply_plain desk low r' holds'.there holds'.tied (by rw [if_neg high,out])
  by_cases bulk : rcvid &&& rcvidBulk = 0
  · refine ⟨_,rfl,rfl,reply_plain desk bulk r cap tied (by rw [if_pos fresh]),?_⟩
    rw [deferred,status,payload]
    rfl
  · have empty : r.bytes = 0 := by
      rcases plain with ⟨inline,low⟩ | empty
      · rw [rcvid_eq,inline] at bulk
        exact absurd low bulk
      · exact empty
    have nothing : r.body p.sp.mem desk.server = [] := by
      unfold ReplyArgs.body
      rw [empty]
      split
      · simp [packBytes,regBytes,Memory.load]
      · rfl
    refine ⟨_,rfl,rfl,reply_bulk_empty bulk r empty cap tied,?_⟩
    rw [deferred,status,payload,nothing]
    simp [SendArgs.text]

def lone : Server Unit where
  main := ()
  replyCap _ := capReply
  holds slot := slot == capReply
  mainCap := rfl
  own _ _ _ := rfl
  nonzero _ := by decide
  provided _ := by decide
  low slot held := by
    obtain rfl : slot = capReply := by simpa using held
    decide

/-- `true` asks for 5000 bytes, `false` for 64. -/
def clerk : Desk Bool where
  server := 4
  pid _ := 3
  args c := if c then ⟨some 0x10000000,64,some 0x10000000,5000,by decide⟩
    else ⟨some 0x10000000,64,some 0x10000000,64,by decide⟩

def opening : Post Unit Bool := start lone (.full (fun _ _ => 0) fun _ => none)

def everyone : Names := ⟨fun _ => true,fun _ => 3⟩

def answer (msg : Option Word) (bytes : Nat) : ReplyArgs :=
    ⟨5,msg,bytes,⟨0,[1,2,3,4,5,6,7,8]⟩,everyone,fun _ => true⟩

theorem receive_some (here : p.st.cap capReply = some o) {sp : Space}
    (message : p.sp.msgReceive names granted desk.server badge msg bytes
      (msgSend (desk.args c) ipc p.sp.mem (desk.pid c)) = (sp,result)) :
    ∃ st, p.receive desk c names granted badge ipc msg bytes = some (⟨st,sp⟩,result) := by
  unfold receive
  rw [here]
  dsimp only
  rw [message]
  exact ⟨_,rfl⟩

omit [DecidableEq ι] [DecidableEq γ] in
theorem savereply_total (fresh : rcvid &&& rcvidSaved = 0) (here : p.st.cap capReply = some o)
    (drawing : p.st.allocEmptySlot = some (slot,drawn)) (empty : p.st.cap slot = none) :
    ∃ q, p.savereply rcvid true = (q,.ok (rcvidSaved ||| BitVec.ofNat 32 slot)) ∧ q.sp = p.sp ∧
      ∃ o, q.st.cap capReply = some o := by
  obtain ⟨cap,-⟩ := State.allocEmptySlot_eq drawing
  rw [← cap] at here empty
  have moving : drawn.move slot capReply = some ((drawn.setCap slot (drawn.cap capReply)).setCap capReply none) :=
    if_pos ⟨by simp [here],empty⟩
  unfold savereply
  rw [if_neg (by simpa using fresh),drawing]
  simp [moving,State.retype]

theorem receive_opening {p : Post Unit Bool} (rcvid : BitVec 32)
    (received : opening.receive clerk c names granted badge ipc msg bytes = some (p,result))
    (fresh : rcvid &&& rcvidSaved = 0) :
    ∃ q, p.savereply rcvid true = (q,.ok 0x80000800) ∧ q.sp = p.sp ∧ ∃ o, q.st.cap capReply = some o := by
  obtain ⟨o,here,st,-⟩ := receive_ok received
  obtain rfl : capReply = o := by simpa [opening,start,Msg.start,lone] using here
  have drawing : p.st.allocEmptySlot = some (0x800,{ p.st with next := 0x801 }) := by
    rw [st]
    rfl
  exact savereply_total fresh (by rw [st]; rfl) drawing (by rw [st]; rfl)

/-- The bulk message of one client is taken in and answered while the reply to the other is kept back. -/
theorem deferred_reply_same_past_bulk : ∃ p q₀ q outcome,
    opening.receive clerk false everyone (fun _ => true) 7 ⟨0,[]⟩ (some 0x20000000) 64 = some (p,.ok 7) ∧
    p.savereply 7 true = (q₀,.ok 0x80000800) ∧
    Lts.Run (step clerk) (spares 0x80000800) q₀
      [.receive true everyone (fun _ => true) 8 ⟨0,[]⟩ none 0,.reply 0x40000008 (answer none 0)] q ∧
    outcome.client = false ∧ outcome.status = 5 ∧
    (p.reply clerk 7 (answer none 8)).2 = some outcome ∧ (q.reply clerk 0x80000800 (answer none 8)).2 =
      some outcome := by
  have typed : leNat (Memory.load opening.sp.mem (clerk.pid false) 0x10000000 8) < 2 ^ 30 := by decide
  obtain ⟨text,-,message⟩ := receive_cut everyone (fun _ => true) clerk.server 7 0x20000000 64 ⟨0,[]⟩
    (a := clerk.args false) rfl rfl typed
  obtain ⟨st,received⟩ := receive_some (p := opening) (c := false) (o := capReply) rfl message
  obtain ⟨q₀,saved,-,o,held⟩ := receive_opening 7 received (by decide)
  obtain ⟨q₁,taken⟩ : ∃ q₁, step clerk q₀ (.receive true everyone (fun _ => true) 8 ⟨0,[]⟩ none 0) = some q₁ := by
    simp [step,receive,held]
  have others : Lts.Run (step clerk) (spares 0x80000800) q₀
      [.receive true everyone (fun _ => true) 8 ⟨0,[]⟩ none 0,.reply 0x40000008 (answer none 0)] _ :=
    .cons trivial taken (.cons (by simp [spares]) rfl .nil)
  obtain ⟨outcome,client,status,direct,deferred⟩ := deferred_reply_same lone clerk opening.sp (answer none 8)
    (answer none 8)
    .nil received (by decide) (.inl ⟨by decide,by decide⟩) saved others rfl rfl
  exact ⟨_,q₀,_,outcome,received,saved,others,client,status,direct,deferred⟩

theorem receive_bulk : ∃ p, opening.receive clerk true everyone (fun _ => true) 7 ⟨0,[]⟩ (some 0x20000000) 64 =
      some (p,.ok 0x40000007) ∧ p.sp.frame = (fun _ _ => true) ∧
      p.sp.bulkPendingFind 3 = some (⟨0,by decide⟩,⟨3,0x10000000,5000⟩) := by
  have apart : Memory.Apart (3 : Pid) (0x10000000 : Word) (BitVec.ofNat 64 64).toNat clerk.server 0x20000000
    (BitVec.ofNat 64 64).toNat :=
    fun same => absurd same (by decide)
  obtain ⟨sp,pulled,-,pending,frame⟩ := pull_full (fun _ => 3) clerk.server (pullKey 7)
    0x10000000 0x20000000 0x10000000
    (BitVec.ofNat 64 5000) (by decide) (by decide) apart (pendingSlot_empty (fun _ _ => 0) 3)
  have message := receive_desc (a := clerk.args true) ⟨0,[]⟩ 3 rfl rfl (by decide) (le_refl 64) (by decide) pulled
  obtain ⟨st,received⟩ := receive_some (p := opening) (c := true) (o := capReply) rfl message
  refine ⟨_,received,frame,?_⟩
  unfold Space.bulkPendingFind
  rw [pending]
  rfl

theorem reply_bulk_sent {sp : Space} {sent : Reply} (r : ReplyArgs) (bulk : rcvid &&& rcvidBulk ≠ 0)
    (payload : r.msg = some src)
    (sending : p.sp.msgReply r.names r.granted desk.server r.ipc rcvid r.status (some src) r.bytes = (sp,.ok sent))
    (there : p.st.cap capReply = some o) (tied : p.st.bind o = .caller c) (desc : (desk.args c).bulk = true) :
    (p.reply desk rcvid r).2 = some ⟨c,r.status,p.sp.pushText r.names desk.server rcvid (some src) r.bytes⟩ := by
  obtain ⟨rfl,-⟩ := reply_pushed bulk sending
  have answered : (p.st.answer capReply).2 = some c := by
    simp [State.answer,there,tied]
  unfold reply
  rw [payload,sending]
  simp [answered,desc]

theorem msgReply_full {sp : Space} (all : ∀ q page, sp.frame q page = true) (names : Names)
    (known : ∀ q, names.known q = true)
    (server : Pid) (ipc : Ipc) (rcvid status : BitVec 32) (src : Word) (bytes : Nat)
    (bulk : rcvid &&& rcvidBulk ≠ 0)
    (payload : bytes ≠ 0) (few : bytes ≤ bulkMax) (named : names.client (pushKey rcvid) ≠ 0)
    (found : sp.bulkPendingFind (names.client (pushKey rcvid)) = some (k,e)) :
    ∃ sp', sp.msgReply names (fun _ => true) server ipc rcvid status (some src) bytes =
      (sp',.ok ⟨capReply,status,[]⟩) := by
  have max : bulkMax = 16777216 := rfl
  have size := size_toNat (show bytes < 2 ^ 31 by omega)
  have short : (if e.rbytes < BitVec.ofNat 64 bytes then e.rbytes else BitVec.ofNat 64 bytes).toNat ≤ bulkMax := by
    split
    · rename_i less
      rw [BitVec.lt_def,size] at less
      omega
    · omega
  obtain ⟨copied,copying⟩ := sp.bulkCopy_total all server src (names.client (pushKey rcvid)) e.rbuf short
  simp only [Space.msgReply,if_pos bulk,Option.isSome_some,payload,ne_eq,not_false_eq_true,and_self,if_true,
    Option.getD_some,Space.msgXfer,named,if_false,Space.msgXferPush,found,known,Bool.and_self,Bool.true_eq_false]
  generalize (if e.rbytes < BitVec.ofNat 64 bytes then e.rbytes else BitVec.ofNat 64 bytes) = n at copying ⊢
  by_cases empty : n = 0
  · rw [if_pos empty]
    exact ⟨_,rfl⟩
  · rw [if_neg empty,copying]
    exact ⟨_,rfl⟩

theorem reply_direct_bulk {p : Post Unit Bool} (frame : p.sp.frame = fun _ _ => true)
    (entry : p.sp.bulkPendingFind 3 = some (⟨0,by decide⟩,⟨3,0x10000000,5000⟩)) (cap : p.st.cap capReply = some o)
    (tied : p.st.bind o = .caller true) :
    (p.reply clerk 0x40000007 (answer (some 0x20000000) 64)).2 =
      some ⟨true,5,Memory.load p.sp.mem clerk.server 0x20000000 64⟩ := by
  have client : everyone.client (pushKey 0x40000007) = 3 := rfl
  obtain ⟨sp,pushed⟩ := msgReply_full (fun _ _ => by rw [frame]) everyone (fun _ => rfl) clerk.server
    (answer (some 0x20000000) 64).ipc 0x40000007 5 0x20000000 64 (by decide) (by decide) (by decide)
      (by decide) entry
  have text : p.sp.pushText everyone clerk.server 0x40000007 (some 0x20000000) 64 =
    Memory.load p.sp.mem clerk.server 0x20000000 64 := by
    unfold Space.pushText
    rw [if_neg (by decide)]
    simp only [client,entry]
    rfl
  rw [← text]
  exact reply_bulk_sent (answer (some 0x20000000) 64) (by decide) rfl pushed cap tied rfl

/-- To the client that asked for 5000 bytes a direct reply carries 64, and the same reply deferred none. -/
theorem deferred_bulk_reply_empty : ¬ ∀ (S : Server Unit) (desk : Desk Bool) (space : Space) (r : ReplyArgs)
    (acts acts' : List (Act Bool))
    (c : Bool) (names : Names) (granted : Word → Bool) (badge : Word) (ipc : Ipc) (msg : Option Word)
    (bytes : Nat) (carved : Bool)
    (p₀ p q₀ q : Post Unit Bool) (rcvid kept : BitVec 32), Lts.Run (step desk) anyAct (start S space) acts p₀ →
    p₀.receive desk c names granted badge ipc msg bytes = some (p,.ok rcvid) →
    p.savereply rcvid carved = (q₀,.ok kept) → Lts.Run (step desk) (spares kept) q₀ acts' q →
    r.body q.sp.mem desk.server = r.body p.sp.mem desk.server →
    (p.reply desk rcvid r).2 = (q.reply desk kept r).2 := by
  intro unaffected
  obtain ⟨p,received,frame,entry⟩ := receive_bulk
  obtain ⟨q,saved,space,-⟩ := receive_opening 0x40000007 received (by decide)
  have same := unaffected lone clerk opening.sp (answer (some 0x20000000) 64) [] [] true everyone _ 7 _ _ 64 true
    opening p q q _ _
    .nil received saved .nil (by rw [space])
  obtain ⟨o,here,st,-⟩ := receive_ok received
  obtain rfl : capReply = o := by simpa [opening,start,Msg.start,lone] using here
  have cap : p.st.cap capReply = some capReply := by rw [st]; rfl
  have tied : p.st.bind capReply = .caller true := by simp [st]
  obtain ⟨slot,fits,kept,-,holds⟩ := savereply_holds (receive_keeps (Tidy.start lone) received).1 cap tied
    (by decide) saved
  obtain ⟨low,high,out⟩ := Budget.saved_slot fits
  have deferred := reply_plain clerk low (answer (some 0x20000000) 64) holds.there holds.tied
    (by rw [if_neg high,out])
  have desc : (clerk.args true).bulk = true := rfl
  rw [if_pos desc] at deferred
  rw [kept,deferred,reply_direct_bulk frame entry cap tied] at same
  have bytes := congrArg (Option.map fun o : Outcome Bool => o.bytes.length) same
  simp [Memory.length_load] at bytes

end Post

end Qsoe.Msg
