import Qsoe.Msg.Landing

/-! Whose memory taskman touches for whom. `TM_REQ_MSG_XFER` is served as it is asked: the badge
picks the process, and the addresses of a PULL are the caller's word. -/
namespace Qsoe.Msg

open Qsoe.Taskman (Pid Word)

variable {τ ι : Type} {P : Parties τ ι} {s s' : Exchange τ ι} {sp : Space}
  {allowed : Pid → Word → Prop}

/-- A `TM_REQ_MSG_XFER` with the tables taskman looks it up in. -/
structure Request where
  caller : Pid
  names : Names
  granted : Word → Bool
  xfer : Xfer

namespace Request

def serve (q : Request) (sp : Space) : Space × Except XferErrno Word := sp.msgXfer q.names q.granted q.caller q.xfer

/-- Besides its own memory the caller sees, and taskman changes for it, at most what is allowed. -/
structure Confined (allowed : Pid → Word → Prop) (sp : Space) (q : Request) : Prop where
  written : ∀ p x, p ≠ q.caller → ¬ allowed p x → (q.serve sp).1.mem p x = sp.mem p x
  seen : ∀ m, Memory.Agree (fun p x => p = q.caller ∨ allowed p x) m sp.mem →
    (q.serve { sp with mem := m }).2 = (q.serve sp).2 ∧
    Memory.Agree (fun p x => p = q.caller ∨ allowed p x) (q.serve { sp with mem := m }).1.mem (q.serve sp).1.mem

/-- What a request names: the source of a PULL, in the process of the badge, or the buffer on record
that a PUSH fills. -/
def reach (q : Request) (sp : Space) (p : Pid) (x : Word) : Prop :=
  match q.xfer with
  | .pull badge src _ len _ _ => p = q.names.client badge ∧ ∃ i < len.toNat, src + BitVec.ofNat 64 i = x
  | .push badge src len => ∃ e, sp.pushExtent q.names q.caller (.push badge src len) = some e ∧ e.Has p x

theorem pull_agree {seen : Pid → Word → Prop} (sp : Space) (names : Names) (granted : Word → Bool)
    (server client : Pid)
    (src dst len rbuf rbytes : Word) (m : Pid → Word → Byte) (agree : Memory.Agree seen m sp.mem)
    (all : ∀ i < len.toNat, seen client (src + BitVec.ofNat 64 i)) :
    (({ sp with mem := m } : Space).msgXferPull names granted server client src dst len rbuf rbytes).2 =
      (sp.msgXferPull names granted server client src dst len rbuf rbytes).2 ∧
    Memory.Agree seen (({ sp with mem := m } : Space).msgXferPull names granted server client src dst len rbuf
      rbytes).1.mem
      (sp.msgXferPull names granted server client src dst len rbuf rbytes).1.mem := by
  obtain ⟨same,kept⟩ := sp.bulkCopy_agree granted client src server dst len m agree all
  have first := (({ sp with mem := m } : Space).bulkCopy_rest granted client src server dst len).1
  have second := (sp.bulkCopy_rest granted client src server dst len).1
  unfold Space.msgXferPull
  split
  · exact ⟨rfl,agree⟩
  · rcases copying : ({ sp with mem := m } : Space).bulkCopy granted client src server dst len with ⟨sp₁,r₁⟩
    rcases copying' : sp.bulkCopy granted client src server dst len with ⟨sp₂,r₂⟩
    rw [copying] at same kept first
    rw [copying'] at same kept second
    obtain rfl : r₁ = r₂ := same
    cases r₁ with
    | error e => exact ⟨rfl,kept⟩
    | ok r =>
      have slot : sp₁.pendingSlot client = sp₂.pendingSlot client :=
        pendingSlot_congr (first.trans second.symm) client
      dsimp only
      rw [slot]
      cases sp₂.pendingSlot client with
      | none => exact ⟨rfl,kept⟩
      | some k => exact ⟨rfl,kept⟩

theorem pull_written (sp : Space) (names : Names) (granted : Word → Bool) (server client : Pid)
    (src dst len rbuf rbytes : Word) (other : p ≠ server) :
    (sp.msgXferPull names granted server client src dst len rbuf rbytes).1.mem p x = sp.mem p x := by
  have kept := sp.bulkCopy_outside granted client src server dst len (q := p) (x := x) fun same => absurd same other
  unfold Space.msgXferPull
  split
  · rfl
  · rcases copying : sp.bulkCopy granted client src server dst len with ⟨copied,result⟩
    rw [copying] at kept
    cases result with
    | error e => exact kept
    | ok r =>
      dsimp only
      cases copied.pendingSlot client with
      | none => exact kept
      | some k => exact kept

theorem push_agree {seen : Pid → Word → Prop} (sp : Space) (names : Names) (granted : Word → Bool)
    (server client : Pid) (src len : Word)
    (m : Pid → Word → Byte) (agree : Memory.Agree seen m sp.mem) (all : ∀ x, seen server x) :
    (({ sp with mem := m } : Space).msgXferPush names granted server client src len).2 =
      (sp.msgXferPush names granted server client src len).2 ∧
    Memory.Agree seen (({ sp with mem := m } : Space).msgXferPush names granted server client src len).1.mem
      (sp.msgXferPush names granted server client src len).1.mem := by
  have same : ({ sp with mem := m } : Space).bulkPendingFind client = sp.bulkPendingFind client := rfl
  unfold Space.msgXferPush
  rw [same]
  cases sp.bulkPendingFind client with
  | none => exact ⟨rfl,agree⟩
  | some found =>
    dsimp only
    generalize (if found.2.rbytes < len then found.2.rbytes else len) = n
    by_cases unknown : (names.known client && names.known server) = false
    · rw [if_pos unknown,if_pos unknown]
      exact ⟨rfl,agree⟩
    · rw [if_neg unknown,if_neg unknown]
      by_cases empty : n = 0
      · rw [if_pos empty,if_pos empty]
        exact ⟨rfl,agree⟩
      · rw [if_neg empty,if_neg empty]
        exact sp.bulkCopy_agree granted server src client found.2.rbuf n m agree fun i _ => all _

theorem confined_of_reach (q : Request) (covers : ∀ p x, q.reach sp p x → allowed p x) : Confined allowed sp q := by
  rcases q with ⟨caller,names,granted,xfer⟩
  cases xfer with
  | pull badge src dst len rbuf rbytes =>
    refine ⟨fun p x other _ => ?_,fun m agree => ?_⟩
    · simp only [serve,Space.msgXfer]
      split
      · rfl
      · exact pull_written sp names granted caller _ src dst len rbuf rbytes other
    · simp only [serve,Space.msgXfer]
      split
      · exact ⟨rfl,agree⟩
      · exact pull_agree sp names granted caller _ src dst len rbuf rbytes m agree
          fun i below => .inr (covers _ _ ⟨rfl,i,below,rfl⟩)
  | push badge src len =>
    refine ⟨fun p x _ outside => ?_,fun m agree => ?_⟩
    · exact (push_effect sp names granted caller badge src len).2 p x fun e extent has =>
        outside (covers p x ⟨e,extent,has⟩)
    · simp only [serve,Space.msgXfer]
      split
      · exact ⟨rfl,agree⟩
      · exact push_agree sp names granted caller _ src len m agree fun x => .inl rfl

end Request

namespace Exchange

/-- The copy a step asks taskman for. -/
def request (P : Parties τ ι) (s : Exchange τ ι) : Move τ ι → Option Request
  | .pull i names granted msg bytes =>
    match s.stage i with
    | .pulling _ badge d => some ⟨P.proc i,names,granted,pullRequest badge msg bytes d⟩
    | _ => none
  | .push i rcvid r =>
    if rcvid &&& rcvidBulk = 0 then none else some ⟨P.proc i,r.names,r.granted,pushRequest rcvid r.msg r.bytes⟩
  | .xfer caller names granted request => some ⟨caller,names,granted,request⟩
  | .send _ _ | .receive _ _ | .finish _ | .reply _ | .savereply _ | .replySaved _ | .elapse _ _ => none

/-- The address lies in a buffer that a thread of the process has declared in a bulk `MsgSend` to a channel of
`server`, in which it is blocked. -/
def Open (P : Parties τ ι) (s : Exchange τ ι) (server p : Pid) (x : Word) : Prop :=
  ∃ t d, P.pid t = p ∧ (s.phase t).blocked = true ∧ (s.mail t).dest = server ∧
    (s.mail t).message.descriptor = some d ∧
    ((∃ i < d.sbytes.toNat, d.sbuf + BitVec.ofNat 64 i = x) ∨ ∃ i < d.rbytes.toNat, d.rbuf + BitVec.ofNat 64 i = x)

theorem Settled.open (settled : Settled P s) (tied : s.tied i = some t)
    (desc : (s.mail t).message.descriptor = some d)
    (inside : (∃ i < d.sbytes.toNat, d.sbuf + BitVec.ofNat 64 i = x) ∨ ∃ i < d.rbytes.toNat,
      d.rbuf + BitVec.ofNat 64 i = x) :
    Open P s (P.proc i) (P.pid t) x := by
  obtain ⟨held,dest⟩ := settled.held i t tied
  exact ⟨t,d,rfl,by rw [held]; rfl,dest,desc,inside⟩

theorem pull_reach (settled : Settled P s) (orderly : Orderly P s (.pull i names granted msg bytes))
    (pulling : s.stage i = .pulling t badge d)
    (reached : Request.reach ⟨P.proc i,names,granted,pullRequest badge msg bytes d⟩ s.sp p x) :
      Open P s (P.proc i) p x := by
  obtain ⟨named,-⟩ := orderly t badge d pulling
  obtain ⟨tied,-,desc⟩ := settled.pulling i t badge d pulling
  obtain ⟨own,k,below,place⟩ := reached
  rw [own,named]
  have short : (if BitVec.ofNat 64 bytes < d.sbytes then BitVec.ofNat 64 bytes else d.sbytes).toNat ≤
    d.sbytes.toNat := by
    split
    · rename_i less
      exact le_of_lt less
    · exact le_rfl
  refine settled.open tied desc (.inl ⟨k,?_,place⟩)
  generalize (if BitVec.ofNat 64 bytes < d.sbytes then BitVec.ofNat 64 bytes else d.sbytes) = want at below short
  split_ifs at below
  · omega
  · simp at below

theorem push_reach (settled : Settled P s) (orderly : Orderly P s (.push i rcvid r))
    (bulk : rcvid &&& rcvidBulk ≠ 0)
    (reached : Request.reach ⟨P.proc i,r.names,r.granted,pushRequest rcvid r.msg r.bytes⟩ s.sp p x) :
      Open P s (P.proc i) p x := by
  obtain ⟨src,len,request⟩ := pushRequest_push rcvid r.msg r.bytes
  rw [request] at reached
  obtain ⟨e,extent,own,k,below,place⟩ := reached
  obtain ⟨t,mail,d,holding,desc,pid,base,short⟩ := (settled.push_lands orderly bulk).2 e (by rw [request]; exact extent)
  obtain ⟨t',tied,same⟩ := Option.map_eq_some_iff.mp holding
  obtain ⟨rfl,rfl⟩ := Prod.mk.inj same
  rw [own,pid]
  exact settled.open tied desc (.inr ⟨k,by omega,base ▸ place⟩)

/-- Whatever it is asked, taskman keeps to what the request names; in a run of orderly steps that is a
buffer some thread has declared in a bulk `MsgSend` to the caller, in which it is blocked. -/
theorem bulk_copies_confined [DecidableEq τ] [DecidableEq ι] (P : Parties τ ι) (mem : Pid → Word → Byte)
    (frame : Pid → Nat → Bool) (mail : τ → Mail)
    (run : Lts.Run (step P) (Orderly P) (start mem frame mail) moves s) :
    (∀ (sp : Space) (q : Request), q.Confined (q.reach sp) sp) ∧
    ∀ m q, Orderly P s m → request P s m = some q → q.Confined (Open P s q.caller) s.sp := by
  have settled := run.invariant (Settled P) (fun _ m _ settled orderly taken => settled.step m orderly taken)
    (start_settled P mem frame mail)
  refine ⟨fun sp q => q.confined_of_reach fun _ _ reached => reached,fun m q orderly asked =>
    q.confined_of_reach fun p x reached => ?_⟩
  cases m with
  | pull i names granted msg bytes =>
    simp only [request] at asked
    split at asked
    · rename_i t badge d pulling
      obtain rfl := Option.some.inj asked
      exact pull_reach settled orderly pulling reached
    · cases asked
  | push i rcvid r =>
    simp only [request] at asked
    split_ifs at asked with plain
    obtain rfl := Option.some.inj asked
    exact push_reach settled orderly plain reached
  | xfer caller names granted request => exact orderly.elim
  | send | receive | finish | reply | savereply | replySaved | elapse => cases asked

/-- Server 4 replies to the bulk message of process 3. -/
theorem bulk_copies_confined_reply : ∃ s, Lts.Run (step duo) (Orderly duo) empty
      [.send false (letter false),.receive false false,.pull false Post.everyone (fun _ => true) none 0] s ∧
    Request.Confined (Open duo s 4) s.sp ⟨4,Post.everyone,fun _ => true,.push 7 0x20000000 64⟩ := by
  obtain ⟨s,run,-,tied,mail,-,-,last,-⟩ := pulled_alone
  have orderly : Orderly duo s (.push false 0x40000007 reply64) := ⟨rfl,last,false,tied,by rw [mail]; rfl,rfl⟩
  exact ⟨s,run,(bulk_copies_confined duo _ _ _ run).2 _ _ orderly rfl⟩

/-- Nobody has sent anything, and process 5 gets to see a byte of process 3. -/
theorem stranger_reads_memory : ¬ ∀ (P : Parties Bool Bool) (mem : Pid → Word → Byte) (frame : Pid → Nat → Bool)
    (mail : Bool → Mail) (moves : List (Move Bool Bool)) (s : Exchange Bool Bool) (q : Request),
    Lts.Run (step P) (fun _ _ => True) (start mem frame mail) moves s → q.Confined (Open P s q.caller) s.sp := by
  intro confines
  have confined := confines duo _ _ letter [] empty ⟨5,Post.everyone,fun _ =>
    true,.pull 7 0x10000000 0x20000000 1 0 0⟩ .nil
  have shut : ∀ p x, ¬ Open duo empty 5 p x := by
    rintro p x ⟨t,d,-,blocked,-⟩
    cases blocked
  have agree : Memory.Agree (fun p x => p = 5 ∨ Open duo empty 5 p x) (cell 3 0x10000000) empty.sp.mem := by
    rintro p x (rfl | opened)
    · exact if_neg fun same => absurd same.1 (by decide)
    · exact absurd opened (shut p x)
  have same := (confined.seen (cell 3 0x10000000) agree).2 5 0x20000000 (.inl rfl)
  have apart : Memory.Apart (3 : Pid) (0x10000000 : Word) (1 : Word).toNat 5 0x20000000 (1 : Word).toNat :=
    fun same => absurd same (by decide)
  obtain ⟨sp,first,mem,-⟩ := pull_full (m := cell 3 0x10000000) (fun _ => 3) 5 7 0x10000000 0x20000000
    0 0 (by decide) (by decide) apart
    (pendingSlot_empty _ 3)
  obtain ⟨sp',second,mem',-⟩ := pull_full (m := fun _ _ => 0) (fun _ => 3) 5 7 0x10000000 0x20000000
    0 0 (by decide) (by decide) apart
    (pendingSlot_empty _ 3)
  have left : (Request.serve ⟨5,Post.everyone,fun _ => true,.pull 7 0x10000000 0x20000000 1 0 0⟩
      { empty.sp with mem := cell 3 0x10000000 }) = (sp,.ok 1) := first
  have right : (Request.serve ⟨5,Post.everyone,fun _ => true,.pull 7 0x10000000 0x20000000 1 0 0⟩ empty.sp) =
    (sp',.ok 1) := second
  rw [left,right] at same
  dsimp only at same
  rw [mem,mem'] at same
  exact absurd same (by decide)

end Exchange

end Qsoe.Msg
