import Qsoe.Lib.Run
import Qsoe.Lib.Untyped
import Qsoe.Msg.Slots
import Mathlib.Algebra.Group.Nat.Defs

/-! `MsgSavereply` and the `MsgReply` that answers it, called one after the other by a server
whose reply objects are retyped from its own untyped, `QSOE_CAP_OWN_UNTYPED`. -/
namespace Qsoe.Msg

/-- `2^seL4_ReplyBits`. -/
def replyBytes : Nat := 2 ^ 5

/-- The objects a server starts with came from taskman; later ones are numbered from
`emptySlotBase` on. -/
def isOwn (o : Nat) : Bool := emptySlotBase ≤ o

structure Budget (ι γ : Type) where
  st : State ι γ
  untyped : Untyped

/-- A message taken in and saved; its rcvid is the badge. -/
structure Job (γ : Type) where
  client : γ
  rcvid : BitVec 32
  fresh : rcvid &&& rcvidSaved = 0

variable {ι γ : Type} [DecidableEq ι] [DecidableEq γ] {b : Budget ι γ} {s t : State ι γ}

namespace Budget

/-- `MsgReceive` ties the reply object to the client. -/
def receive (b : Budget ι γ) (c : γ) : Budget ι γ :=
  match b.st.cap capReply with
  | none => b
  | some o => { b with st := (b.st.setBind o (.caller c)).setClient c .waiting }

def savereply (b : Budget ι γ) (rcvid : BitVec 32) : Budget ι γ × Except Errno (BitVec 32) :=
  if rcvid &&& rcvidSaved ≠ 0 then (b,.ok rcvid)
  else match b.st.allocEmptySlot with
    | none => (b,.error .eagain)
    | some (slot,drawn) =>
      match drawn.move slot capReply with
      | none => ({ b with st := drawn.freeEmptySlot slot },.error .enomem)
      | some moved =>
        match b.untyped.retype replyBytes, moved.retype capReply with
        | some u, some made => (⟨made,u⟩,.ok (rcvidSaved ||| BitVec.ofNat 32 slot))
        | _, _ =>
          ({ b with st := ((moved.move capReply slot).getD moved).freeEmptySlot slot },.error .enomem)

/-- `MsgReply`; only the saved branch deletes an object. -/
def reply (b : Budget ι γ) (rcvid : BitVec 32) : Budget ι γ :=
  if rcvid &&& rcvidBulk ≠ 0 ∨ rcvid &&& rcvidSaved = 0 then { b with st := (b.st.answer capReply).1 }
  else
    let slot := (rcvid &&& ~~~rcvidSaved).toNat
    ⟨((b.st.answer slot).1.delete slot).freeEmptySlot slot,
      if (b.st.cap slot).any isOwn then b.untyped.delete else b.untyped⟩

/-- A message is received, saved and answered; `none` when it cannot be saved. -/
def cycle (b : Budget ι γ) (job : Job γ) : Option (Budget ι γ) :=
  match (b.receive job.client).savereply job.rcvid with
  | (_,.error _) => none
  | (saved,.ok rcvid) => some (saved.reply rcvid)

end Budget

def Fits (slot : Nat) : Prop := slot ≠ 0 ∧ slot < 2 ^ 30

def Pc.frees : Pc → Option Nat
  | .saveMove slot | .saveRetype slot | .saveBack slot | .saveFree slot
  | .savedSend slot | .savedDelete slot | .savedFree slot => some slot
  | _ => none

structure Listed (s : State ι γ) : Prop where
  short : s.free.length ≤ emptySlotFreeMax
  fits : ∀ slot ∈ s.free, Fits slot
  next : s.next ≠ 0 ∧ s.next ≤ emptySlotMax
  objects : emptySlotBase ≤ s.objects

omit [DecidableEq ι] [DecidableEq γ] in
/-- The slot handed out fits, and leaves room to take it back. -/
theorem Listed.alloc (listed : Listed s) (taken : s.allocEmptySlot = some (slot,t)) :
    Listed t ∧ Fits slot ∧ t.free.length < emptySlotFreeMax := by
  have short := listed.short
  have next := listed.next
  unfold State.allocEmptySlot at taken
  split at taken
  · rename_i head rest free
    obtain ⟨rfl,rfl⟩ := Prod.mk.inj (Option.some.inj taken)
    have fits : ∀ slot ∈ head :: rest, Fits slot := free ▸ listed.fits
    rw [free,List.length_cons] at short
    refine ⟨{ listed with short := by dsimp only; omega, fits := ?_ },fits head List.mem_cons_self,short⟩
    exact fun x member => fits x (List.mem_cons_of_mem head member)
  · rename_i free
    split_ifs at taken with below
    obtain ⟨rfl,rfl⟩ := Prod.mk.inj (Option.some.inj taken)
    simp only [emptySlotMax] at below next
    refine ⟨{ listed with next := ⟨by simp,by dsimp only [emptySlotMax]; omega⟩ },⟨next.1,by omega⟩,?_⟩
    simp [free,emptySlotFreeMax]

structure Reached (s : State ι γ) : Prop extends Listed s where
  pcs : ∀ i slot, (s.pc i).frees = some slot → slot < 2 ^ 30

namespace Reached

omit [DecidableEq ι] [DecidableEq γ] in
theorem keep (reached : Reached s) (free : t.free = s.free) (next : t.next = s.next)
    (objects : s.objects ≤ t.objects)
    (pcs : ∀ i, (∀ slot, (t.pc i).frees = some slot → slot < 2 ^ 30) ∨ t.pc i = s.pc i) : Reached t where
  short := by rw [free]; exact reached.short
  fits := by rw [free]; exact reached.fits
  next := by rw [next]; exact reached.next
  objects := le_trans reached.objects objects
  pcs i slot frees := by
    rcases pcs i with new | same
    · exact new slot frees
    · rw [same] at frees
      exact reached.pcs i slot frees

omit [DecidableEq γ] in
/-- Thread `i` goes on to `p`. -/
theorem goto (reached : Reached s) (free : t.free = s.free) (next : t.next = s.next)
    (objects : s.objects ≤ t.objects)
    (pc : t.pc = Function.update s.pc i p) (new : ∀ slot, p.frees = some slot → slot < 2 ^ 30) : Reached t := by
  refine reached.keep free next objects fun j => ?_
  rw [pc]
  rcases eq_or_ne j i with rfl | other
  · left
    simpa using new
  · right
    simp [other]

section

omit [DecidableEq ι] [DecidableEq γ]

theorem release (reached : Reached s) (small : slot < 2 ^ 30) : Reached (s.freeEmptySlot slot) := by
  unfold State.freeEmptySlot
  split
  · exact reached
  · rename_i nonzero
    split
    · rename_i room
      refine { reached with short := room, fits := ?_ }
      intro x member
      rcases List.mem_cons.mp member with rfl | old
      · exact ⟨nonzero,small⟩
      · exact reached.fits x old
    · exact reached

theorem alloc (reached : Reached s) (taken : s.allocEmptySlot = some (slot,t)) : Reached t ∧ Fits slot := by
  obtain ⟨listed,fits,-⟩ := reached.toListed.alloc taken
  obtain ⟨-,-,-,-,-,-,-,-,pc⟩ := State.allocEmptySlot_eq taken
  exact ⟨⟨listed,by rw [pc]; exact reached.pcs⟩,fits⟩

theorem move (reached : Reached s) (moved : s.move dest src = some t) : Reached t := by
  obtain ⟨-,-,-,-,objects,-⟩ := State.move_eq moved
  obtain ⟨free,next,pc,-⟩ := State.move_rest moved
  exact reached.keep free next (le_of_eq objects.symm) fun i => .inr (by rw [pc])

end

theorem cancel (reached : Reached s) (o : Nat) : Reached (s.cancel o) := by
  unfold State.cancel
  split
  · exact reached
  · exact reached.goto rfl rfl le_rfl rfl (by simp [Pc.frees])
  · exact reached.keep rfl rfl le_rfl fun _ => .inr rfl

omit [DecidableEq ι] in
theorem answer (reached : Reached s) (slot : Nat) : Reached (s.answer slot).1 := by
  unfold State.answer
  split
  · exact reached.keep rfl rfl le_rfl fun _ => .inr rfl
  · exact reached

theorem delete (reached : Reached s) (slot : Nat) : Reached (s.delete slot) := by
  unfold State.delete
  split
  · exact reached
  · exact (reached.cancel _).keep rfl rfl le_rfl fun _ => .inr rfl

/-- A saved rcvid without the bulk bit names a slot of 30 bits. -/
theorem saved_small {rcvid : BitVec 32} (plain : rcvid &&& rcvidBulk = 0) :
    (rcvid &&& ~~~rcvidSaved).toNat < 2 ^ 30 := by
  have bulk : rcvid.getLsbD 30 = false := by
    have bit := congrArg (fun x : BitVec 32 => x.getLsbD 30) plain
    simpa [rcvidBulk] using bit
  apply Nat.lt_pow_two_of_testBit
  intro k high
  rw [BitVec.testBit_toNat,BitVec.getLsbD_and]
  obtain rfl | rfl | beyond : k = 30 ∨ k = 31 ∨ 32 ≤ k := by omega
  · rw [bulk,Bool.false_and]
  · have mask : (~~~rcvidSaved).getLsbD 31 = false := by decide
    rw [mask,Bool.and_false]
  · rw [BitVec.getLsbD_of_ge rcvid k beyond,Bool.false_and]

omit [DecidableEq γ] in
theorem callStep (reached : Reached s) (i : ι) (k : Call) : Reached (callStep s i k) := by
  cases k with
  | receive chan bytes =>
    simp only [Msg.callStep]
    split_ifs
    all_goals exact reached.goto rfl rfl le_rfl rfl (by simp [Pc.frees])
  | savereply rcvid =>
    simp only [Msg.callStep]
    split_ifs
    all_goals exact reached.goto rfl rfl le_rfl rfl (by simp [Pc.frees])
  | reply rcvid payload bytes =>
    simp only [Msg.callStep]
    split_ifs with negative bulk saved
    · exact reached.goto rfl rfl le_rfl rfl (by simp [Pc.frees])
    · exact reached.goto rfl rfl le_rfl rfl (by simp [Pc.frees])
    · refine reached.goto rfl rfl le_rfl rfl fun slot frees => ?_
      obtain rfl := Option.some.inj frees
      exact saved_small (by simpa using bulk)
    · exact reached.goto rfl rfl le_rfl rfl (by simp [Pc.frees])

omit [DecidableEq γ] in
theorem received (reached : Reached s) (i : ι) (badge : BitVec 64) (bulk : Bool) :
    Reached (received s i badge bulk) := by
  unfold Msg.received
  split
  all_goals exact reached.goto rfl rfl le_rfl rfl (by simp [Pc.frees])

theorem advance {S : Server ι} (reached : Reached s) (taken : advance S s i = some t) : Reached t := by
  unfold Msg.advance at taken
  split at taken
  · cases taken
  · cases taken
  · cases taken
  · split at taken
    · obtain rfl := Option.some.inj taken
      exact reached.goto rfl rfl le_rfl rfl (by simp [Pc.frees])
    · rename_i o _
      obtain rfl := Option.some.inj taken
      exact (reached.cancel o).goto rfl rfl le_rfl rfl (by simp [Pc.frees])
  · obtain rfl := Option.some.inj taken
    exact reached.goto rfl rfl le_rfl rfl (by simp [Pc.frees])
  · obtain rfl := Option.some.inj taken
    exact reached.goto rfl rfl le_rfl rfl (by simp [Pc.frees])
  · split at taken
    · obtain rfl := Option.some.inj taken
      exact reached.goto rfl rfl le_rfl rfl (by simp [Pc.frees])
    · rename_i slot drawn drawing
      obtain rfl := Option.some.inj taken
      obtain ⟨kept,fits⟩ := reached.alloc drawing
      exact kept.goto rfl rfl le_rfl rfl (by simpa [Pc.frees] using fits.2)
  · rename_i slot counter
    have small := reached.pcs i slot (by rw [counter]; rfl)
    split at taken
    · obtain rfl := Option.some.inj taken
      exact reached.goto rfl rfl le_rfl rfl (by simpa [Pc.frees] using small)
    · rename_i moving
      obtain rfl := Option.some.inj taken
      exact (reached.move moving).goto rfl rfl le_rfl rfl (by simpa [Pc.frees] using small)
  · rename_i slot counter
    have small := reached.pcs i slot (by rw [counter]; rfl)
    split at taken
    · obtain rfl := Option.some.inj taken
      exact reached.goto rfl rfl le_rfl rfl (by simpa [Pc.frees] using small)
    · rename_i making
      obtain rfl := Option.some.inj taken
      obtain ⟨-,-,-,objects,-⟩ := State.retype_eq making
      obtain ⟨free,next,pc,-⟩ := State.retype_rest making
      have kept := reached.keep free next (by omega) fun i => .inr (by rw [pc])
      exact kept.goto rfl rfl le_rfl rfl (by simp [Pc.frees])
  · rename_i slot counter
    have small := reached.pcs i slot (by rw [counter]; rfl)
    obtain rfl := Option.some.inj taken
    have back : Reached ((s.move capReply slot).getD s) := by
      cases moving : s.move capReply slot with
      | none => exact reached
      | some moved => exact reached.move moving
    exact back.goto rfl rfl le_rfl rfl (by simpa [Pc.frees] using small)
  · rename_i slot counter
    have small := reached.pcs i slot (by rw [counter]; rfl)
    obtain rfl := Option.some.inj taken
    exact (reached.release small).goto rfl rfl le_rfl rfl (by simp [Pc.frees])
  · obtain rfl := Option.some.inj taken
    exact reached.goto rfl rfl le_rfl rfl (by simp [Pc.frees])
  · obtain rfl := Option.some.inj taken
    exact (reached.answer capReply).goto rfl rfl le_rfl rfl (by simp [Pc.frees])
  · rename_i slot counter
    have small := reached.pcs i slot (by rw [counter]; rfl)
    obtain rfl := Option.some.inj taken
    exact (reached.answer slot).goto rfl rfl le_rfl rfl (by simpa [Pc.frees] using small)
  · rename_i slot counter
    have small := reached.pcs i slot (by rw [counter]; rfl)
    obtain rfl := Option.some.inj taken
    exact (reached.delete slot).goto rfl rfl le_rfl rfl (by simpa [Pc.frees] using small)
  · rename_i slot counter
    have small := reached.pcs i slot (by rw [counter]; rfl)
    obtain rfl := Option.some.inj taken
    exact (reached.release small).goto rfl rfl le_rfl rfl (by simp [Pc.frees])

theorem deliver (reached : Reached s) (taken : deliver s i c = some t) : Reached t := by
  unfold Msg.deliver at taken
  split at taken
  · rename_i o badge bulk _ _
    obtain rfl := Option.some.inj taken
    have tied : Reached (((s.setBind o (.caller c)).setClient c .waiting).setOpened i (some c)) :=
      reached.keep rfl rfl le_rfl fun _ => .inr rfl
    split
    · exact tied.goto rfl rfl le_rfl rfl (by simp [Pc.frees])
    · exact tied.received i badge bulk
  · cases taken

omit [DecidableEq γ] in
theorem pulse (reached : Reached s) (taken : pulse s i = some t) : Reached t := by
  unfold Msg.pulse at taken
  split at taken
  · obtain rfl := Option.some.inj taken
    exact reached.goto rfl rfl le_rfl rfl (by simp [Pc.frees])
  · cases taken

omit [DecidableEq γ] in
theorem refuse (reached : Reached s) (taken : refuse s i = some t) : Reached t := by
  unfold Msg.refuse at taken
  split at taken
  · obtain rfl := Option.some.inj taken
    exact reached.received i _ _
  · obtain rfl := Option.some.inj taken
    exact reached.goto rfl rfl le_rfl rfl (by simp [Pc.frees])
  · rename_i slot counter
    have small := reached.pcs i slot (by rw [counter]; rfl)
    obtain rfl := Option.some.inj taken
    exact reached.goto rfl rfl le_rfl rfl (by simpa [Pc.frees] using small)
  · obtain rfl := Option.some.inj taken
    split
    · exact reached.goto rfl rfl le_rfl rfl (by simp [Pc.frees])
    · exact reached.goto rfl rfl le_rfl rfl (by simp [Pc.frees])
  · cases taken

theorem step {S : Server ι} (s : State ι γ) (e : Event ι γ) (t : State ι γ) (reached : Reached s)
    (taken : step S s e = some t) : Reached t := by
  cases e with
  | send c badge bulk =>
    simp only [Msg.step] at taken
    split_ifs at taken
    obtain rfl := Option.some.inj taken
    exact reached.keep rfl rfl le_rfl fun _ => .inr rfl
  | call i k =>
    simp only [Msg.step] at taken
    split_ifs at taken
    obtain rfl := Option.some.inj taken
    exact reached.callStep i k
  | run i => exact reached.advance taken
  | deliver i c => exact reached.deliver taken
  | pulse i => exact reached.pulse taken
  | refuse i => exact reached.refuse taken

omit [DecidableEq ι] [DecidableEq γ] in
theorem start (S : Server ι) : Reached (start S : State ι γ) where
  short := Nat.zero_le _
  fits := by simp [Msg.start]
  next := by simp [Msg.start,emptySlotBase,emptySlotMax]
  objects := le_rfl
  pcs := by simp [Msg.start,Pc.frees]

end Reached

namespace Budget

/-- The reply object at hand counts as a child if it is one, and the allocator is in order. -/
structure Sound (b : Budget ι γ) : Prop extends Listed b.st where
  child : ∀ o, b.st.cap capReply = some o → isOwn o = true → b.untyped.children ≠ 0

def Ready (b : Budget ι γ) : Prop :=
  b.st.cap capReply ≠ none ∧ ∃ slot ∈ b.st.allocEmptySlot.map Prod.fst, b.st.cap slot = none

omit [DecidableEq ι] [DecidableEq γ] in
theorem alloc_congr (free : t.free = s.free) (next : t.next = s.next) :
    t.allocEmptySlot.map Prod.fst = s.allocEmptySlot.map Prod.fst := by
  unfold State.allocEmptySlot
  rw [free,next]
  split
  · rfl
  · split
    · rfl
    · rfl

omit [DecidableEq ι] in
theorem receive_rest (b : Budget ι γ) (c : γ) :
    (b.receive c).untyped = b.untyped ∧ (b.receive c).st.cap = b.st.cap ∧ (b.receive c).st.free = b.st.free ∧
    (b.receive c).st.next = b.st.next ∧ (b.receive c).st.objects = b.st.objects := by
  unfold receive
  split
  · exact ⟨rfl,rfl,rfl,rfl,rfl⟩
  · exact ⟨rfl,rfl,rfl,rfl,rfl⟩

omit [DecidableEq ι] [DecidableEq γ] in
theorem savereply_ok (fresh : rcvid &&& rcvidSaved = 0) (saved : b.savereply rcvid = (c,.ok r)) :
    ∃ slot drawn moved, b.st.allocEmptySlot = some (slot,drawn) ∧ drawn.move slot capReply = some moved ∧
      b.untyped.retype replyBytes = some c.untyped ∧ moved.retype capReply = some c.st ∧
      r = rcvidSaved ||| BitVec.ofNat 32 slot := by
  unfold savereply at saved
  rw [if_neg (by simpa using fresh)] at saved
  split at saved
  · cases saved
  · rename_i slot drawn drawing
    split at saved
    · cases saved
    · rename_i moved moving
      split at saved
      · rename_i u made carving making
        obtain ⟨rfl,rcvid⟩ := Prod.mk.inj saved
        obtain rfl := Except.ok.inj rcvid
        exact ⟨slot,drawn,moved,drawing,moving,carving,making,rfl⟩
      · cases saved

omit [DecidableEq ι] [DecidableEq γ] in
theorem savereply_error (ready : b.Ready) (stopped : b.savereply rcvid = (c,.error e)) :
    b.untyped.retype replyBytes = none := by
  obtain ⟨held,slot,first,empty⟩ := ready
  obtain ⟨⟨_,drawn⟩,drawing,rfl⟩ := Option.map_eq_some_iff.mp first
  rename_i slot
  obtain ⟨cap,-⟩ := State.allocEmptySlot_eq drawing
  unfold savereply at stopped
  split at stopped
  · cases stopped
  · rw [drawing] at stopped
    dsimp only at stopped
    rw [← cap] at held empty
    cases moving : drawn.move slot capReply with
    | none => simp [State.move,held,empty] at moving
    | some moved =>
      obtain ⟨-,-,caps,-⟩ := State.move_eq moving
      have bare : moved.cap capReply = none := by simp [caps]
      simp only [moving] at stopped
      cases carving : b.untyped.retype replyBytes with
      | none => rfl
      | some u => simp [carving,State.retype,bare] at stopped

theorem saved_bits : ∀ k < 32, rcvidBulk.getLsbD k = decide (k = 30) ∧ rcvidSaved.getLsbD k = decide (k = 31) := by
  decide

theorem saved_slot (fits : Fits slot) :
    (rcvidSaved ||| BitVec.ofNat 32 slot) &&& rcvidBulk = 0 ∧
      (rcvidSaved ||| BitVec.ofNat 32 slot) &&& rcvidSaved ≠ 0 ∧
    ((rcvidSaved ||| BitVec.ofNat 32 slot) &&& ~~~rcvidSaved).toNat = slot := by
  have small : slot < 2 ^ 32 := lt_trans fits.2 (by decide)
  have high : ∀ k, 30 ≤ k → slot.testBit k = false := by
    intro k above
    exact Nat.testBit_lt_two_pow (lt_of_lt_of_le fits.2 (Nat.pow_le_pow_right (by decide) above))
  refine ⟨?_,?_,?_⟩
  · apply BitVec.eq_of_getLsbD_eq
    intro k below
    obtain ⟨bulk,saved⟩ := saved_bits k below
    rw [BitVec.getLsbD_and,BitVec.getLsbD_or,BitVec.getLsbD_ofNat,bulk,saved]
    rcases eq_or_ne k 30 with rfl | other
    · simp [high]
    · simp [other]
  · intro nothing
    have bit := congrArg (fun x : BitVec 32 => x.getLsbD 31) nothing
    simp [rcvidSaved] at bit
  · have same : (rcvidSaved ||| BitVec.ofNat 32 slot) &&& ~~~rcvidSaved = BitVec.ofNat 32 slot := by
      apply BitVec.eq_of_getLsbD_eq
      intro k below
      obtain ⟨-,saved⟩ := saved_bits k below
      rw [BitVec.getLsbD_and,BitVec.getLsbD_or,BitVec.getLsbD_not,BitVec.getLsbD_ofNat,saved]
      rcases eq_or_ne k 31 with rfl | other
      · simp [high]
      · simp [other,below]
    rw [same,BitVec.toNat_ofNat,Nat.mod_eq_of_lt small]

theorem delete_rest (s : State ι γ) (slot : Nat) :
    (s.delete slot).free = s.free ∧ (s.delete slot).next = s.next ∧ (s.delete slot).objects = s.objects ∧
    ∀ x, (s.delete slot).cap x = if x = slot then none else s.cap x := by
  unfold State.delete
  split
  · rename_i empty
    refine ⟨rfl,rfl,rfl,fun x => ?_⟩
    split
    · rename_i same
      rw [same,empty]
    · rfl
  · rename_i o there
    unfold State.cancel
    split
    all_goals
      refine ⟨rfl,rfl,rfl,fun x => ?_⟩
      simp [Function.update_apply]

/-- What one cycle leaves: an own object at hand, and the slot on top of the free list. -/
structure Cycles (b t : Budget ι γ) : Prop where
  made : ∃ u, b.untyped.retype replyBytes = some u ∧ t.untyped.watermark = u.watermark ∧ t.untyped.size = u.size
  alive : t.untyped.children ≠ 0
  ready : b.Ready ∧ t.Ready
  sound : t.Sound

omit [DecidableEq ι] in
theorem receive_sound (sound : b.Sound) (c : γ) : (b.receive c).Sound := by
  obtain ⟨untyped,cap,free,next,objects⟩ := b.receive_rest c
  refine ⟨⟨?_,?_,?_,?_⟩,?_⟩
  · rw [free]
    exact sound.short
  · rw [free]
    exact sound.fits
  · rw [next]
    exact sound.next
  · rw [objects]
    exact sound.objects
  · rw [cap,untyped]
    exact sound.child

omit [DecidableEq ι] in
theorem receive_ready (b : Budget ι γ) (c : γ) : (b.receive c).Ready ↔ b.Ready := by
  obtain ⟨-,cap,free,next,-⟩ := b.receive_rest c
  rw [Ready,Ready,cap,alloc_congr free next]

/-- The saved branch of `MsgReply`, with room on the free list. -/
theorem reply_saved (fits : Fits slot) (room : b.st.free.length < emptySlotFreeMax)
    (rcvid : r = rcvidSaved ||| BitVec.ofNat 32 slot) :
    (b.reply r).untyped = (if (b.st.cap slot).any isOwn then b.untyped.delete else b.untyped) ∧
    (b.reply r).st.free = slot :: b.st.free ∧ (b.reply r).st.next = b.st.next ∧
    (b.reply r).st.objects = b.st.objects ∧ ∀ x, (b.reply r).st.cap x = if x = slot then none else b.st.cap x := by
  obtain ⟨plain,kept,decoded⟩ := saved_slot fits
  rw [← rcvid] at plain kept decoded
  obtain ⟨answered,answered',-,-,-,-,same,-⟩ := b.st.answer_rest slot
  obtain ⟨free,next,objects,cap⟩ := delete_rest (b.st.answer slot).1 slot
  have branch : ¬ (r &&& rcvidBulk ≠ 0 ∨ r &&& rcvidSaved = 0) := by
    rintro (bulk | unsaved)
    · exact bulk plain
    · exact kept unsaved
  have reply : b.reply r = ⟨((b.st.answer slot).1.delete slot).freeEmptySlot slot,
      if (b.st.cap slot).any isOwn then b.untyped.delete else b.untyped⟩ := by
    rw [Budget.reply,if_neg branch,decoded]
  have listed : ((b.st.answer slot).1.delete slot).freeEmptySlot slot =
      { (b.st.answer slot).1.delete slot with free := slot :: ((b.st.answer slot).1.delete slot).free } := by
    rw [State.freeEmptySlot,if_neg fits.1,if_pos (by rwa [free,answered])]
  have counted : (b.st.answer slot).1.objects = b.st.objects := by
    unfold State.answer
    split
    · rfl
    · rfl
  rw [reply]
  dsimp only
  rw [listed]
  refine ⟨rfl,?_,next.trans answered',objects.trans counted,fun x => ?_⟩
  · dsimp only
    rw [free,answered]
  · dsimp only
    rw [cap,same]

theorem answer_cycles (sound : b.Sound) (fresh : rcvid &&& rcvidSaved = 0)
    (saved : b.savereply rcvid = (c,.ok r)) : Cycles b (c.reply r) := by
  obtain ⟨slot,drawn,moved,drawing,moving,carved,making,word⟩ := savereply_ok fresh saved
  obtain ⟨listed,fits,room⟩ := sound.toListed.alloc drawing
  obtain ⟨cap,-⟩ := State.allocEmptySlot_eq drawing
  obtain ⟨held,empty,caps,-,objects,-⟩ := State.move_eq moving
  obtain ⟨free,next,-⟩ := State.move_rest moving
  obtain ⟨-,caps',-,objects',-⟩ := State.retype_eq making
  obtain ⟨free',next',-⟩ := State.retype_rest making
  obtain ⟨size,children⟩ := Untyped.retype_size carved
  rw [← free,← free'] at room
  obtain ⟨untyped,free'',next'',objects'',caps''⟩ := reply_saved fits room word
  have apart : slot ≠ capReply := by
    rintro rfl
    exact held empty
  have own : (c.reply r).st.cap capReply = some drawn.objects := by
    rw [caps'',if_neg apart.symm,caps',if_pos rfl,objects]
  have old : c.st.cap slot = b.st.cap capReply := by
    rw [caps',if_neg apart,caps,if_neg apart,if_pos rfl,cap]
  have kept : (c.reply r).untyped.watermark = c.untyped.watermark ∧ (c.reply r).untyped.size = c.untyped.size := by
    rw [untyped]
    split
    · exact ⟨rfl,rfl⟩
    · exact ⟨rfl,rfl⟩
  have alive : (c.reply r).untyped.children ≠ 0 := by
    rw [untyped,old]
    split
    · rename_i mine
      obtain ⟨o,there,ours⟩ := (Option.any_eq_true _ _).mp mine
      have before := sound.child o there ours
      simp only [Untyped.delete]
      omega
    · omega
  refine ⟨⟨c.untyped,carved,kept⟩,alive,⟨?_,?_⟩,?_⟩
  · rw [cap] at held empty
    exact ⟨held,slot,by rw [drawing]; rfl,empty⟩
  · refine ⟨by simp [own],slot,?_,by simp [caps'']⟩
    simp [State.allocEmptySlot,free'']
  · refine ⟨⟨?_,?_,?_,?_⟩,fun _ _ _ => alive⟩
    · rw [free'']
      exact room
    · intro x member
      rw [free'',free',free] at member
      rcases List.mem_cons.mp member with rfl | listed'
      · exact fits
      · exact listed.fits x listed'
    · rw [next'',next',next]
      exact listed.next
    · rw [objects'',objects',objects]
      exact le_trans listed.objects (Nat.le_succ _)

theorem cycle_cycles {c : Budget ι γ} (sound : b.Sound) (done : b.cycle job = some c) : Cycles b c := by
  unfold cycle at done
  split at done
  · cases done
  · rename_i saved rcvid saving
    obtain rfl := Option.some.inj done
    have cycles := answer_cycles (receive_sound sound job.client) job.fresh saving
    have untyped := (b.receive_rest job.client).1
    have made := cycles.made
    rw [untyped] at made
    exact ⟨made,cycles.alive,⟨(b.receive_ready job.client).mp cycles.ready.1,cycles.ready.2⟩,cycles.sound⟩

theorem cycle_none (ready : b.Ready) (stopped : b.cycle job = none) : b.untyped.retype replyBytes = none := by
  unfold cycle at stopped
  split at stopped
  · rename_i saving
    rw [← (b.receive_rest job.client).1]
    exact savereply_error ((b.receive_ready job.client).mpr ready) saving
  · cases stopped

theorem replyBytes_pos : 0 < replyBytes := by decide

/-- From a state in which one message can be saved and answered, so can as many as there is room
for reply objects above the watermark. -/
theorem cycles_isSome_iff (sound : b.Sound) {jobs : List (Job γ)} (one : ∀ job ∈ jobs, (b.cycle job).isSome) :
    (jobs.foldlM cycle b).isSome ↔ jobs.length ≤ b.untyped.room replyBytes := by
  cases jobs with
  | nil => simp
  | cons first rest =>
    obtain ⟨t,done⟩ := Option.isSome_iff_exists.mp (one first List.mem_cons_self)
    refine Lts.foldlM_isSome_iff (fun b : Budget ι γ => b.Sound ∧ b.Ready) (fun b => b.untyped.room replyBytes)
      (fun _ => True) ?_ ?_ (fun _ _ => trivial) ⟨sound,(cycle_cycles sound done).ready.1⟩
    · rintro b job ⟨-,ready⟩ - stopped
      exact Untyped.room_zero (cycle_none ready stopped) replyBytes_pos
    · rintro b job t ⟨sound,-⟩ - done
      have cycles := cycle_cycles sound done
      obtain ⟨u,made,watermark,size⟩ := cycles.made
      exact ⟨⟨cycles.sound,cycles.ready.2⟩,Untyped.retype_room made replyBytes_pos cycles.alive watermark
        (size.trans (Untyped.retype_size made).1)⟩

end Budget

end Qsoe.Msg
