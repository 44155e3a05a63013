import Qsoe.Lib.Memory
import Qsoe.Lib.Slab
import Qsoe.Taskman.Registry

/-! The bulk half of message passing in taskman: `tm_bulk_copy` moves bytes between two address
spaces through a pair of scratch windows, and `s_bulk_pending` holds the reply buffer a blocked
client declared, from the PULL of its message to the PUSH of the answer. -/
namespace Qsoe.Msg

open Qsoe.Taskman (Pid Word)

abbrev Byte := BitVec 8

/-- `QSOE_MEGA_PAGE`, `TM_MSG_BULK_MAX` and `TM_BULK_PENDING_MAX`. -/
def megaPage : Nat := 2 ^ 21
def bulkMax : Nat := 16 * 1024 * 1024
def bulkPendingMax : Nat := 16

inductive XferErrno where
  | esrch | e2big | efault | enomem | eagain
  deriving DecidableEq, Repr

/-- An entry of `s_bulk_pending`; `rbuf` and `rbytes` are the client's reply buffer. -/
structure Pending where
  pid : Pid
  rbuf : Word
  rbytes : Word
  deriving DecidableEq, Repr

/-- `frame` says which megapages `tm_process_find_frame` finds. -/
structure Space where
  mem : Pid → Word → Byte
  frame : Pid → Nat → Bool
  pending : Slab.Table bulkPendingMax Pending

/-- The process table and the connection table as the bulk calls read them: `known` is
`tm_process_lookup` and `client` is `tm_connection_client_pid`. -/
structure Names where
  known : Pid → Bool
  client : Word → Pid

namespace Space

def mapped (sp : Space) (p : Pid) (va : Word) : Bool := sp.frame p (va.toNat / megaPage)

/-- Bytes left in whichever of the two megapages ends first. -/
def chunk (sva dva : Word) (left : Nat) : Nat :=
  min left (min (megaPage - sva.toNat % megaPage) (megaPage - dva.toNat % megaPage))

theorem chunk_pos (sva dva : Word) (more : 0 < left) : 0 < chunk sva dva left := by
  have page : 0 < megaPage := by decide
  have first := Nat.mod_lt sva.toNat page
  have second := Nat.mod_lt dva.toNat page
  unfold chunk
  omega

theorem chunk_le (sva dva : Word) (left : Nat) : chunk sva dva left ≤ left := Nat.min_le_left ..

/-- The loop of `tm_bulk_copy`; `granted` says which chunks the kernel lets taskman map. -/
def copyFrom (sp : Space) (granted : Word → Bool) (src : Pid) (sva : Word) (dst : Pid) (dva : Word) (left : Nat) :
    Space × Except XferErrno Unit :=
  if more : 0 < left then
    if (sp.mapped src sva && sp.mapped dst dva) = false then (sp,.error .efault)
    else if granted dva = false then (sp,.error .enomem)
    else
      let n := chunk sva dva left
      have : left - n < left := Nat.sub_lt more (chunk_pos sva dva more)
      copyFrom { sp with mem := Memory.store sp.mem dst dva (Memory.load sp.mem src sva n) } granted
        src (sva + BitVec.ofNat 64 n) dst (dva + BitVec.ofNat 64 n) (left - n)
  else (sp,.ok ())
termination_by left
decreasing_by exact this

/-- `tm_bulk_copy` -/
def bulkCopy (sp : Space) (granted : Word → Bool) (src : Pid) (sva : Word) (dst : Pid) (dva : Word) (len : Word) :
    Space × Except XferErrno Word :=
  if len = 0 then (sp,.ok 0)
  else if bulkMax < len.toNat then (sp,.error .e2big)
  else match sp.copyFrom granted src sva dst dva len.toNat with
    | (part,.error e) => (part,.error e)
    | (whole,.ok _) => (whole,.ok len)

def bulkPendingFind (sp : Space) (pid : Pid) : Option (Fin bulkPendingMax × Pending) :=
  Slab.find sp.pending fun e => e.pid == pid

/-- The entry of the client, or else the first free one. -/
def pendingSlot (sp : Space) (pid : Pid) : Option (Fin bulkPendingMax) :=
  match sp.bulkPendingFind pid with
  | some (i,_) => some i
  | none => Slab.free sp.pending

def msgXferPull (sp : Space) (names : Names) (granted : Word → Bool) (server client : Pid)
    (src dst len rbuf rbytes : Word) : Space × Except XferErrno Word :=
  if (names.known client && names.known server) = false then (sp,.error .esrch)
  else match sp.bulkCopy granted client src server dst len with
    | (part,.error e) => (part,.error e)
    | (copied,.ok r) =>
      match copied.pendingSlot client with
      | none => (copied,.error .eagain)
      | some i => ({ copied with pending := Slab.put copied.pending i ⟨client,rbuf,rbytes⟩ },.ok r)

def release (sp : Space) (i : Fin bulkPendingMax) : Space := { sp with pending := Slab.erase sp.pending i }

def msgXferPush (sp : Space) (names : Names) (granted : Word → Bool) (server client : Pid) (src len : Word) :
    Space × Except XferErrno Word :=
  match sp.bulkPendingFind client with
  | none => (sp,.error .esrch)
  | some (i,e) =>
    if (names.known client && names.known server) = false then (sp.release i,.error .esrch)
    else
      let n := if e.rbytes < len then e.rbytes else len
      if n = 0 then (sp.release i,.ok 0)
      else
        let copied := sp.bulkCopy granted server src client e.rbuf n
        (copied.1.release i,copied.2)

end Space

/-- The arguments of `TM_REQ_MSG_XFER`, all chosen by the caller. -/
inductive Xfer where
  | pull (badge src dst len rbuf rbytes : Word)
  | push (badge src len : Word)
  deriving DecidableEq, Repr

/-- The badge is looked up in the connection table; pid 0 is nobody. -/
def Space.msgXfer (sp : Space) (names : Names) (granted : Word → Bool) (caller : Pid) :
    Xfer → Space × Except XferErrno Word
  | .pull badge src dst len rbuf rbytes =>
    if names.client badge = 0 then (sp,.error .esrch)
    else sp.msgXferPull names granted caller (names.client badge) src dst len rbuf rbytes
  | .push badge src len =>
    if names.client badge = 0 then (sp,.error .esrch)
    else sp.msgXferPush names granted caller (names.client badge) src len

namespace Space

variable {sp sp' : Space} {granted : Word → Bool} {src dst : Pid} {sva dva len x : Word} {left : Nat} {r : Word}
    {pid q : Pid} {i : Fin bulkPendingMax}

theorem copyFrom_rest (sp : Space) (granted : Word → Bool) (src : Pid) (sva : Word) (dst : Pid) (dva : Word)
    (left : Nat) :
    (sp.copyFrom granted src sva dst dva left).1.pending = sp.pending ∧
    (sp.copyFrom granted src sva dst dva left).1.frame = sp.frame := by
  fun_induction copyFrom sp granted src sva dst dva left with
  | case1 => exact ⟨rfl,rfl⟩
  | case2 => exact ⟨rfl,rfl⟩
  | case3 _ _ _ _ _ _ _ _ _ ih => exact ih
  | case4 => exact ⟨rfl,rfl⟩

theorem copyFrom_ok (apart : Memory.Apart src sva left dst dva left) (fits : left ≤ 2 ^ 64)
    (done : sp.copyFrom granted src sva dst dva left = (sp',.ok ())) :
    sp'.mem = Memory.store sp.mem dst dva (Memory.load sp.mem src sva left) := by
  fun_induction copyFrom sp granted src sva dst dva left with
  | case1 => simp at done
  | case2 => simp at done
  | case3 sp sva dva left more _ _ n less ih =>
    have part : n ≤ left := chunk_le sva dva left
    have shift : ∀ a : Word, ∀ i, a + BitVec.ofNat 64 n + BitVec.ofNat 64 i = a + BitVec.ofNat 64 (n + i) := by
      intro a i
      rw [BitVec.ofNat_add,BitVec.add_assoc]
    have rest : Memory.Apart src (sva + BitVec.ofNat 64 n) (left - n) dst (dva + BitVec.ofNat 64 n) (left - n) := by
      intro same i first j second
      rw [shift,shift]
      exact apart same (n + i) (by omega) (n + j) (by omega)
    have kept : Memory.load (Memory.store sp.mem dst dva (Memory.load sp.mem src sva n)) src
        (sva + BitVec.ofNat 64 n) (left - n) = Memory.load sp.mem src (sva + BitVec.ofNat 64 n) (left - n) := by
      apply Memory.load_store_apart
      intro same i first j second
      rw [Memory.length_load] at first
      rw [shift]
      exact fun meets => apart same.symm (n + j) (by omega) i (by omega) meets.symm
    have whole : Memory.load sp.mem src sva left =
        Memory.load sp.mem src sva n ++ Memory.load sp.mem src (sva + BitVec.ofNat 64 n) (left - n) := by
      rw [← Memory.load_append,Nat.add_sub_cancel' part]
    rw [ih rest (by omega) done,whole,Memory.store_append _ _ _ _ _ (by simp only [Memory.length_load]; omega),
      Memory.length_load]
    exact congrArg _ kept
  | case4 sp sva dva left nothing =>
    obtain rfl : sp = sp' := by simpa using done
    obtain rfl : left = 0 := by omega
    funext q x
    simp [Memory.load,Memory.store]

theorem copyFrom_outside (sp : Space) (granted : Word → Bool) (src : Pid) (sva : Word) (dst : Pid) (dva : Word)
    (left : Nat) (outside : q = dst → ∀ i < left, dva + BitVec.ofNat 64 i ≠ x) :
    (sp.copyFrom granted src sva dst dva left).1.mem q x = sp.mem q x := by
  fun_induction copyFrom sp granted src sva dst dva left with
  | case1 => rfl
  | case2 => rfl
  | case3 sp sva dva left more _ _ n less ih =>
    have part : n ≤ left := chunk_le sva dva left
    rw [ih ?_]
    · apply Memory.store_outside
      intro same i inside
      rw [Memory.length_load] at inside
      exact outside same.symm i (by omega)
    · intro same i inside
      rw [BitVec.add_assoc,← BitVec.ofNat_add]
      exact outside same (n + i) (by omega)
  | case4 => rfl

theorem copyFrom_total (all : ∀ p page, sp.frame p page = true) (src : Pid) (sva : Word) (dst : Pid)
    (dva : Word) (left : Nat) :
    (sp.copyFrom (fun _ => true) src sva dst dva left).2 = .ok () := by
  fun_induction copyFrom sp (fun _ => true) src sva dst dva left with
  | case1 sp sva dva left more missing => simp [mapped,all] at missing
  | case2 => contradiction
  | case3 sp sva dva left more _ _ n less ih => exact ih all
  | case4 => rfl

theorem bulkCopy_ok (apart : Memory.Apart src sva len.toNat dst dva len.toNat)
    (done : sp.bulkCopy granted src sva dst dva len = (sp',.ok r)) :
    sp'.mem = Memory.store sp.mem dst dva (Memory.load sp.mem src sva len.toNat) ∧ sp'.pending = sp.pending ∧
    len.toNat ≤ bulkMax := by
  unfold bulkCopy at done
  split at done
  · rename_i empty
    obtain ⟨rfl,-⟩ : sp = sp' ∧ _ = r := by simpa using done
    subst empty
    refine ⟨?_,rfl,Nat.zero_le _⟩
    funext q x
    simp [Memory.load,Memory.store]
  · split at done
    · simp at done
    · rename_i bound
      have rest := sp.copyFrom_rest granted src sva dst dva len.toNat
      split at done
      · simp at done
      · rename_i copying
        rw [copying] at rest
        obtain ⟨rfl,-⟩ := Prod.mk.inj done
        exact ⟨copyFrom_ok apart len.isLt.le copying,rest.1,not_lt.mp bound⟩

theorem bulkCopy_rest (sp : Space) (granted : Word → Bool) (src : Pid) (sva : Word) (dst : Pid) (dva len : Word) :
    (sp.bulkCopy granted src sva dst dva len).1.pending = sp.pending ∧
    (sp.bulkCopy granted src sva dst dva len).1.frame = sp.frame := by
  have rest := sp.copyFrom_rest granted src sva dst dva len.toNat
  unfold bulkCopy
  split
  · exact ⟨rfl,rfl⟩
  · split
    · exact ⟨rfl,rfl⟩
    · split
      all_goals
        rename_i copying
        rw [copying] at rest
        exact rest

theorem bulkCopy_outside (sp : Space) (granted : Word → Bool) (src : Pid) (sva : Word) (dst : Pid) (dva len : Word)
    (outside : q = dst → ∀ i < len.toNat, dva + BitVec.ofNat 64 i ≠ x) :
    (sp.bulkCopy granted src sva dst dva len).1.mem q x = sp.mem q x := by
  have rest := sp.copyFrom_outside granted src sva dst dva len.toNat outside
  unfold bulkCopy
  split
  · rfl
  · split
    · rfl
    · split
      all_goals
        rename_i copying
        rw [copying] at rest
        exact rest

theorem bulkCopy_total (sp : Space) (all : ∀ p page, sp.frame p page = true) (src : Pid) (sva : Word)
    (dst : Pid) (dva : Word)
    (bound : len.toNat ≤ bulkMax) : ∃ sp', sp.bulkCopy (fun _ => true) src sva dst dva len = (sp',.ok len) := by
  have total := copyFrom_total all src sva dst dva len.toNat
  unfold bulkCopy
  split
  · rename_i empty
    exact ⟨sp,by rw [empty]⟩
  · rw [if_neg (not_lt.mpr bound)]
    rcases copying : sp.copyFrom (fun _ => true) src sva dst dva len.toNat with ⟨whole,result⟩
    rw [copying] at total
    obtain rfl : result = .ok () := total
    exact ⟨whole,rfl⟩

theorem copyFrom_agree {seen : Pid → Word → Prop} (sp : Space) (granted : Word → Bool) (src : Pid) (sva : Word)
    (dst : Pid) (dva : Word) (left : Nat) (m : Pid → Word → Byte) (agree : Memory.Agree seen m sp.mem)
    (all : ∀ i < left, seen src (sva + BitVec.ofNat 64 i)) :
    (({ sp with mem := m } : Space).copyFrom granted src sva dst dva left).2 =
      (sp.copyFrom granted src sva dst dva left).2 ∧
    Memory.Agree seen (({ sp with mem := m } : Space).copyFrom granted src sva dst dva left).1.mem
      (sp.copyFrom granted src sva dst dva left).1.mem := by
  fun_induction copyFrom sp granted src sva dst dva left generalizing m with
  | case1 sp sva dva left more unmapped =>
    rw [copyFrom,dif_pos more,if_pos (by exact unmapped)]
    exact ⟨rfl,agree⟩
  | case2 sp sva dva left more present refused =>
    rw [copyFrom,dif_pos more,if_neg (by exact present),if_pos refused]
    exact ⟨rfl,agree⟩
  | case3 sp sva dva left more present given n less ih =>
    have part : n ≤ left := chunk_le sva dva left
    have same : Memory.load m src sva n = Memory.load sp.mem src sva n :=
      agree.load src sva n fun i below => all i (by omega)
    rw [copyFrom,dif_pos more,if_neg (by exact present),if_neg given]
    apply ih
    · dsimp only
      rw [← same]
      exact agree.store dst dva _
    · intro i below
      rw [BitVec.add_assoc,← BitVec.ofNat_add]
      exact all (n + i) (by omega)
  | case4 sp sva dva left nothing =>
    rw [copyFrom,dif_neg nothing]
    exact ⟨rfl,agree⟩

theorem bulkCopy_agree {seen : Pid → Word → Prop} (sp : Space) (granted : Word → Bool) (src : Pid) (sva : Word)
    (dst : Pid) (dva len : Word) (m : Pid → Word → Byte) (agree : Memory.Agree seen m sp.mem)
    (all : ∀ i < len.toNat, seen src (sva + BitVec.ofNat 64 i)) :
    (({ sp with mem := m } : Space).bulkCopy granted src sva dst dva len).2 =
      (sp.bulkCopy granted src sva dst dva len).2 ∧
    Memory.Agree seen (({ sp with mem := m } : Space).bulkCopy granted src sva dst dva len).1.mem
      (sp.bulkCopy granted src sva dst dva len).1.mem := by
  obtain ⟨same,kept⟩ := sp.copyFrom_agree granted src sva dst dva len.toNat m agree all
  unfold bulkCopy
  split
  · exact ⟨rfl,agree⟩
  · split
    · exact ⟨rfl,agree⟩
    · rcases first : ({ sp with mem := m } : Space).copyFrom granted src sva dst dva len.toNat with ⟨sp₁,r₁⟩
      rcases second : sp.copyFrom granted src sva dst dva len.toNat with ⟨sp₂,r₂⟩
      rw [first,second] at same kept
      obtain rfl : r₁ = r₂ := same
      cases r₁ with
      | error e => exact ⟨rfl,kept⟩
      | ok _ => exact ⟨rfl,kept⟩

/-- The entry a PULL leaves is the one a PUSH for the same client finds. -/
theorem pendingSlot_find (slot : sp.pendingSlot pid = some i) (rbuf rbytes : Word) :
    Slab.find (Slab.put sp.pending i ⟨pid,rbuf,rbytes⟩) (fun e => e.pid == pid) = some (i,⟨pid,rbuf,rbytes⟩) := by
  unfold pendingSlot at slot
  split at slot
  · rename_i found
    obtain rfl := Option.some.inj slot
    exact Slab.find_put found (by simp)
  · rename_i missing
    have absent : Slab.find sp.pending (fun e => e.pid == pid) = none := missing
    apply Slab.find_put_only
    · intro k e used
      have other := Slab.find_none absent used
      exact other
    · simp

end Space

end Qsoe.Msg
