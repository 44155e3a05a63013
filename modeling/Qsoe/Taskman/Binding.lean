import Qsoe.Taskman.Board
import Qsoe.Lib.Pairing

/-! Which thread a channel's Notification wakes. The kernel binds one Notification to a TCB and
one TCB to a Notification; taskman binds at create, moves a binding to a worker on request and
takes it down with the channel, each time by way of the main TCB of the process. -/
namespace Qsoe.Taskman

variable {cfg : Config}

/-- `main` is `tm_process_t.tcb`, `workers` the `tcb_master` that `tm_thread_find` leads to; 0 is
no TCB. `bound` pairs TCBs with the Notifications of `Channel.ntfn`. -/
structure Bindings (cfg : Config) where
  base : State cfg
  main : Pid → Nat
  workers : Pid → BitVec 32 → Option Nat
  bound : Pairing Nat Nat

/-- Which of the kernel calls of `tm_channel_create` succeed; `granted` is false when the kernel
refuses a binding between two that are free. -/
structure BindKernel where
  retyped : Bool
  copied : Bool
  minted : Bool
  granted : Bool
  deriving DecidableEq, Repr

namespace Bindings

/-- The thread a create binds to. -/
def receiver (b : Bindings cfg) (owner : Pid) (tid : BitVec 32) : Nat :=
  if 1 < tid.toInt then (b.workers owner tid).getD (b.main owner) else b.main owner

/-- `qsoe_tcb_bind_notification`. -/
def bindNotification (b : Pairing Nat Nat) (tcb n : Nat) (granted : Bool) : Option (Pairing Nat Nat) :=
  if granted then b.join tcb n else none

/-- The Notification of a new channel, `none` when the channel goes without one. -/
def createNtfn (b : Bindings cfg) (owner : Pid) (tid : BitVec 32) (k : BindKernel) : Option (Pairing Nat Nat) :=
  if k.minted = false then none
  else if b.receiver owner tid = 0 then some b.bound
  else bindNotification b.bound (b.receiver owner tid) b.base.objects k.granted

/-- `tm_channel_create`. -/
def create (b : Bindings cfg) (owner : Pid) (chid flags tid : BitVec 32) (stale : Nat) (k : BindKernel) :
    Bindings cfg :=
  let ntfn := b.createNtfn owner tid k
  match b.base.channelCreate owner chid flags stale ⟨k.retyped,k.copied,ntfn.isSome⟩ with
  | (failed,.error _) => { b with base := failed }
  | (made,.ok _) => { b with base := made, bound := ntfn.getD b.bound }

def unbindMain (b : Bindings cfg) (pid : Pid) : Pairing Nat Nat :=
  if b.main pid = 0 then b.bound else b.bound.partLeft (b.main pid)

/-- The channel, Notification and TCB `tm_channel_bind_thread` goes on to rebind. -/
def rebinds (b : Bindings cfg) (owner : Pid) (chid tid : BitVec 32) : Option (Fin cfg.channels × Nat × Nat) :=
  (b.base.processLookup owner).bind fun _ =>
    (b.base.channelFind owner chid).bind fun (i,c) =>
      c.ntfn.bind fun n =>
        (b.workers owner tid).bind fun tcb => if tcb = 0 then none else some (i,n,tcb)

/-- `tm_channel_bind_thread`; the main TCB stays unbound when the bind fails. -/
def bindThread (b : Bindings cfg) (owner : Pid) (chid tid : BitVec 32) (granted : Bool) : Bindings cfg :=
  match b.rebinds owner chid tid with
  | none => b
  | some (_,n,tcb) =>
    { b with bound := (bindNotification (b.unbindMain owner) tcb n granted).getD (b.unbindMain owner) }

/-- The channel and Notification `tm_channel_destroy` takes down. -/
def takesDown (b : Bindings cfg) (owner : Pid) (recv : Nat) : Option (Fin cfg.channels × Pid × Nat) :=
  (Slab.find b.base.channels fun c => c.owner == owner && c.recv == recv).bind fun (i,c) =>
    c.ntfn.map fun n => (i,c.owner,n)

/-- `tm_channel_destroy`; deleting a Notification unbinds it. -/
def destroy (b : Bindings cfg) (owner : Pid) (recv : Nat) (revoked : Bool) : Bindings cfg :=
  let base := (b.base.channelDestroy owner recv revoked).1
  match b.takesDown owner recv with
  | none => { b with base := base }
  | some (_,pid,n) =>
    let unbound := if (b.base.processLookup pid).isSome then b.unbindMain pid else b.bound
    { b with base := base, bound := unbound.partRight n }

end Bindings

inductive BindOp where
  | create (owner : Pid) (chid flags tid : BitVec 32) (stale : Nat) (k : BindKernel)
  | bindThread (owner : Pid) (chid tid : BitVec 32) (granted : Bool)
  | destroy (owner : Pid) (recv : Nat) (revoked : Bool)
  | worker (pid : Pid) (tid : BitVec 32) (tcb : Nat)
  deriving DecidableEq, Repr

namespace Bindings

def apply (b : Bindings cfg) : BindOp → Bindings cfg
  | .create owner chid flags tid stale k => b.create owner chid flags tid stale k
  | .bindThread owner chid tid granted => b.bindThread owner chid tid granted
  | .destroy owner recv revoked => b.destroy owner recv revoked
  | .worker pid tid tcb =>
    { b with workers := Function.update b.workers pid (Function.update (b.workers pid) tid (some tcb)) }

def step (b : Bindings cfg) (op : BindOp) : Option (Bindings cfg) := some (b.apply op)

def subject (b : Bindings cfg) : BindOp → Option (Fin cfg.channels)
  | .bindThread owner chid _ _ => b.base.channelIndex owner chid
  | .destroy owner recv _ =>
    (Slab.find b.base.channels fun c => c.owner == owner && c.recv == recv).map Prod.fst
  | _ => none

/-- `tcb` is the thread that the Notification of the channel at `i` wakes. -/
def Wakes (b : Bindings cfg) (i : Fin cfg.channels) (tcb : Nat) : Prop :=
  ∃ c n, b.base.channels i = some c ∧ c.ntfn = some n ∧ b.bound.left tcb = some n

/-- No channel but the operation's own loses its thread. -/
def Unstolen (b : Bindings cfg) (op : BindOp) : Prop :=
  ∀ i tcb, b.subject op ≠ some i → b.Wakes i tcb → (b.apply op).Wakes i tcb

/-- The main thread of `pid` is not the one another channel than `i` wakes. -/
def mainFree (b : Bindings cfg) (pid : Pid) (i : Fin cfg.channels) : Bool :=
  b.main pid == 0 || (List.finRange cfg.channels).all fun k => k == i ||
    (b.base.channels k).all fun c => c.ntfn.all fun n => b.bound.left (b.main pid) != some n

/-- A rebind and the end of a channel with a Notification find the main thread free of the
other channels. -/
def Spares (b : Bindings cfg) : BindOp → Prop
  | .bindThread owner chid tid _ => (b.rebinds owner chid tid).all (fun hit => b.mainFree owner hit.1) = true
  | .destroy owner recv _ => (b.takesDown owner recv).all (fun hit =>
      (b.base.processLookup hit.2.1).isNone || b.mainFree hit.2.1 hit.1) = true
  | _ => True

instance : DecidableRel (@Spares cfg) := fun _ op => match op with
  | .create .. => .isTrue trivial
  | .bindThread .. => inferInstanceAs (Decidable (_ = true))
  | .destroy .. => inferInstanceAs (Decidable (_ = true))
  | .worker .. => .isTrue trivial

def AnyOp (_ : Bindings cfg) (_ : BindOp) : Prop := True

instance : DecidableRel (@AnyOp cfg) := fun _ _ => .isTrue trivial

end Bindings

/-- Channels in use have Notifications of their own, all of them made already. -/
structure Separate (s : State cfg) : Prop where
  apart : ∀ i k c c' n, s.channels i = some c → s.channels k = some c' → c.ntfn = some n →
    c'.ntfn = some n → i = k
  made : ∀ i c n, s.channels i = some c → c.ntfn = some n → n < s.objects

section

variable {s t : State cfg}

theorem channelCreate_error (failed : (s.channelCreate owner chid flags stale k) = (t,.error e)) :
    t.channels = s.channels ∧ t.objects = s.objects := by
  have named := (State.assignChid_quiet s chid flags).tables
  have channels := congrArg Tables.channels named
  have objects := congrArg Tables.objects named
  unfold State.channelCreate at failed
  split at failed
  · obtain ⟨rfl,-⟩ := Prod.mk.inj failed
    exact ⟨rfl,rfl⟩
  · dsimp only at failed
    split at failed
    · obtain ⟨rfl,-⟩ := Prod.mk.inj failed
      exact ⟨channels,objects⟩
    · split at failed
      · obtain ⟨rfl,-⟩ := Prod.mk.inj failed
        exact ⟨channels,objects⟩
      · split at failed
        · obtain ⟨rfl,-⟩ := Prod.mk.inj failed
          exact ⟨channels,objects⟩
        · split at failed
          · obtain ⟨rfl,-⟩ := Prod.mk.inj failed
            have drawn := (State.processAllocSlot_quiet (s.assignChid chid flags).1 owner).tables
            exact ⟨(congrArg Tables.channels drawn).trans channels,(congrArg Tables.objects drawn).trans objects⟩
          · cases (Prod.mk.inj failed).2

theorem channelCreate_ok (made : (s.channelCreate owner chid flags stale k) = (t,.ok r)) :
    ∃ idx c, s.channels idx = none ∧ t.channels = Slab.put s.channels idx c ∧
      c.ntfn = (if k.signalled then some s.objects else none) ∧ t.objects = s.objects + 1 := by
  have named := (State.assignChid_quiet s chid flags).tables
  unfold State.channelCreate at made
  split at made
  · cases (Prod.mk.inj made).2
  · dsimp only at made
    split at made
    · cases (Prod.mk.inj made).2
    · split at made
      · cases (Prod.mk.inj made).2
      · rename_i idx free
        split at made
        · cases (Prod.mk.inj made).2
        · have drawn := (State.processAllocSlot_quiet (s.assignChid chid flags).1 owner).tables
          split at made
          · cases (Prod.mk.inj made).2
          · rename_i held minted
            obtain ⟨rfl,-⟩ := Prod.mk.inj made
            have same := (State.mint_tables minted).trans (drawn.trans named)
            have channels : held.channels = s.channels := congrArg Tables.channels same
            have objects : held.objects = s.objects := congrArg Tables.objects same
            have empty : s.channels idx = none := by
              have channels' : (s.assignChid chid flags).1.channels = s.channels := congrArg Tables.channels named
              rw [← channels']
              exact Slab.free_some free
            refine ⟨idx,⟨owner,(s.assignChid chid flags).2,((s.assignChid chid flags).1.processAllocSlot owner).2,
              .endpoint s.objects,flags,if k.signalled then some s.objects else none,s.objects⟩,empty,?_,rfl,?_⟩
            · rw [State.addChannel,channels]
            · rw [State.addChannel,objects]

theorem channelDestroy_channels (owner : Pid) (recv : Nat) (revoked : Bool)
    (found : Slab.find s.channels (fun c => c.owner == owner && c.recv == recv) = some (idx,c)) :
    (∀ k, k ≠ idx → (s.channelDestroy owner recv revoked).1.channels k = s.channels k) ∧
    (∀ d, (s.channelDestroy owner recv revoked).1.channels idx = some d → d.ntfn = none) ∧
    (s.channelDestroy owner recv revoked).1.objects = s.objects := by
  have muted : (∀ k, k ≠ idx → (s.muteNtfn idx c).channels k = s.channels k) ∧
      (∀ d, (s.muteNtfn idx c).channels idx = some d → d.ntfn = none) ∧
      (s.muteNtfn idx c).objects = s.objects := by
    unfold State.muteNtfn
    split
    · rename_i silent
      refine ⟨fun _ _ => rfl,?_,rfl⟩
      intro d used
      obtain rfl : c = d := by simpa [(Slab.find_some found).1] using used
      exact silent
    · refine ⟨fun k other => Slab.put_other _ other,?_,rfl⟩
      intro d used
      obtain rfl : _ = d := Option.some.inj ((Slab.put_same _).symm.trans used)
      rfl
  rw [State.channelDestroy,found]
  dsimp only
  split
  · exact muted
  · refine ⟨?_,?_,muted.2.2⟩
    · intro k other
      exact (Slab.erase_other _ other).trans (muted.1 k other)
    · intro d used
      exact absurd used (by simp [State.connectionsDropForChannelIdx,State.revoke])

theorem channelDestroy_missing (revoked : Bool)
    (missing : Slab.find s.channels (fun c => c.owner == owner && c.recv == recv) = none) :
    (s.channelDestroy owner recv revoked).1 = s := by
  rw [State.channelDestroy,missing]

theorem Separate.fewer (separate : Separate s) (objects : t.objects = s.objects)
    (fewer : ∀ i c n, t.channels i = some c → c.ntfn = some n → ∃ d, s.channels i = some d ∧ d.ntfn = some n) :
    Separate t where
  apart i k c c' n used used' ntfn ntfn' := by
    obtain ⟨d,old,number⟩ := fewer i c n used ntfn
    obtain ⟨d',old',number'⟩ := fewer k c' n used' ntfn'
    exact separate.apart i k d d' n old old' number number'
  made i c n used ntfn := by
    obtain ⟨d,old,number⟩ := fewer i c n used ntfn
    exact objects ▸ separate.made i d n old number

theorem Separate.put (separate : Separate s) (channels : t.channels = Slab.put s.channels idx c)
    (ntfn : ∀ n, c.ntfn = some n → n = s.objects) (objects : t.objects = s.objects + 1) : Separate t where
  apart i k d d' n used used' number number' := by
    rw [channels] at used used'
    rcases Slab.put_cases used with ⟨rfl,rfl⟩ | old
    · rcases Slab.put_cases used' with ⟨rfl,rfl⟩ | old'
      · rfl
      · have less := separate.made k d' n old' number'
        have next := ntfn n number
        omega
    · rcases Slab.put_cases used' with ⟨rfl,rfl⟩ | old'
      · have less := separate.made i d n old number
        have next := ntfn n number'
        omega
      · exact separate.apart i k d d' n old old' number number'
  made i d n used number := by
    rw [channels] at used
    rcases Slab.put_cases used with ⟨rfl,rfl⟩ | old
    · have next := ntfn n number
      omega
    · have less := separate.made i d n old number
      omega

end

namespace Bindings

variable {b : Bindings cfg}

theorem create_cases (b : Bindings cfg) (owner : Pid) (chid flags tid : BitVec 32) (stale : Nat) (k : BindKernel) :
    ((b.create owner chid flags tid stale k).bound = b.bound ∧
      (b.create owner chid flags tid stale k).base.channels = b.base.channels ∧
      (b.create owner chid flags tid stale k).base.objects = b.base.objects) ∨
    ∃ idx c, b.base.channels idx = none ∧
      (b.create owner chid flags tid stale k).bound = (b.createNtfn owner tid k).getD b.bound ∧
      (b.create owner chid flags tid stale k).base.channels = Slab.put b.base.channels idx c ∧
      (∀ n, c.ntfn = some n → n = b.base.objects) ∧
      (b.create owner chid flags tid stale k).base.objects = b.base.objects + 1 := by
  unfold create
  dsimp only
  split
  · rename_i failed
    obtain ⟨channels,objects⟩ := channelCreate_error failed
    exact .inl ⟨rfl,channels,objects⟩
  · rename_i made
    obtain ⟨idx,c,free,channels,ntfn,objects⟩ := channelCreate_ok made
    refine .inr ⟨idx,c,free,rfl,channels,?_,objects⟩
    intro n number
    rw [ntfn] at number
    split at number
    · exact (Option.some.inj number).symm
    · cases number

theorem separate_apply (separate : Separate b.base) (op : BindOp) : Separate (b.apply op).base := by
  cases op with
  | create owner chid flags tid stale k =>
    rcases b.create_cases owner chid flags tid stale k with ⟨-,channels,objects⟩ | ⟨idx,c,-,-,channels,ntfn,objects⟩
    · exact separate.fewer objects fun i c n used number => ⟨c,channels ▸ used,number⟩
    · exact separate.put channels ntfn objects
  | bindThread owner chid tid granted =>
    rw [apply,bindThread]
    split <;> exact separate
  | destroy owner recv revoked =>
    have base : (b.apply (.destroy owner recv revoked)).base = (b.base.channelDestroy owner recv revoked).1 := by
      rw [apply,destroy]
      split <;> rfl
    rw [base]
    cases found : Slab.find b.base.channels fun c => c.owner == owner && c.recv == recv with
    | none =>
      rw [channelDestroy_missing revoked found]
      exact separate
    | some hit =>
      obtain ⟨others,own,objects⟩ := channelDestroy_channels owner recv revoked found
      refine separate.fewer objects ?_
      intro i c n used number
      by_cases same : i = hit.1
      · subst same
        simp [own c used] at number
      · rw [others i same] at used
        exact ⟨c,used,number⟩
  | worker pid tid tcb => exact separate

theorem mainFree_iff (b : Bindings cfg) (pid : Pid) (i : Fin cfg.channels) :
    b.mainFree pid i = true ↔ (b.main pid ≠ 0 → ∀ k, k ≠ i → ¬ b.Wakes k (b.main pid)) := by
  simp only [mainFree,Wakes,Bool.or_eq_true,beq_iff_eq,List.all_eq_true,List.mem_finRange,Option.all_eq_true,
    bne_iff_ne,ne_eq,true_implies,not_exists,not_and]
  constructor
  · intro free alive k other c n used ntfn
    exact ((free.resolve_left alive k).resolve_left other) c used n ntfn
  · intro free
    by_cases alive : b.main pid = 0
    · exact .inl alive
    · right
      intro k
      by_cases same : k = i
      · exact .inl same
      · exact .inr fun c used n ntfn => free alive k same c n used ntfn

theorem unbindMain_left (b : Bindings cfg) (pid : Pid) :
    (b.unbindMain pid).left tcb = some n ↔ b.bound.left tcb = some n ∧ (b.main pid = 0 ∨ tcb ≠ b.main pid) := by
  unfold unbindMain
  split
  · rename_i absent
    simp [absent]
  · rename_i alive
    rw [Pairing.partLeft_left]
    simp [alive,and_comm]

theorem bindNotification_left {p : Pairing Nat Nat} :
    ((bindNotification p tcb n granted).getD p).left x = some y ↔
      p.left x = some y ∨ ((bindNotification p tcb n granted).isSome = true ∧ x = tcb ∧ y = n) := by
  cases binding : bindNotification p tcb n granted with
  | none => simp
  | some q =>
    unfold bindNotification at binding
    split at binding
    · rw [Option.getD_some,Pairing.join_left binding]
      simp [or_comm]
    · cases binding

theorem create_unstolen (b : Bindings cfg) (owner : Pid) (chid flags tid : BitVec 32) (stale : Nat)
    (k : BindKernel) : b.Unstolen (.create owner chid flags tid stale k) := by
  rintro i tcb - ⟨c,n,used,ntfn,tied⟩
  rcases b.create_cases owner chid flags tid stale k with ⟨bound,channels,-⟩ | ⟨idx,d,free,bound,channels,-,-⟩
  · exact ⟨c,n,channels.symm ▸ used,ntfn,bound.symm ▸ tied⟩
  · have other : i ≠ idx := by
      rintro rfl
      simp [free] at used
    refine ⟨c,n,?_,ntfn,?_⟩
    · rw [apply,channels,Slab.put_other _ other,used]
    · rw [apply,bound,createNtfn]
      split
      · exact tied
      · split
        · exact tied
        · exact bindNotification_left.mpr (.inl tied)

theorem bindThread_unstolen (separate : Separate b.base) (owner : Pid) (chid tid : BitVec 32) (granted : Bool) :
    b.Unstolen (.bindThread owner chid tid granted) ↔ b.Spares (.bindThread owner chid tid granted) := by
  rw [Spares]
  cases rebinding : b.rebinds owner chid tid with
  | none =>
    have same : b.apply (.bindThread owner chid tid granted) = b := by rw [apply,bindThread,rebinding]
    simp only [Option.all_none,iff_true]
    intro i tcb _ wakes
    rwa [same]
  | some hit =>
    obtain ⟨i,n,worker⟩ := hit
    have after : b.apply (.bindThread owner chid tid granted) = { b with
        bound := (bindNotification (b.unbindMain owner) worker n granted).getD (b.unbindMain owner) } := by
      rw [apply,bindThread,rebinding]
    obtain ⟨own,subject⟩ : (∃ c, b.base.channels i = some c ∧ c.ntfn = some n) ∧
        b.base.channelIndex owner chid = some i := by
      obtain ⟨_,-,rest⟩ := Option.bind_eq_some_iff.mp rebinding
      obtain ⟨⟨i',c⟩,found,rest⟩ := Option.bind_eq_some_iff.mp rest
      obtain ⟨n',ntfn,rest⟩ := Option.bind_eq_some_iff.mp rest
      obtain ⟨tcb',-,rest⟩ := Option.bind_eq_some_iff.mp rest
      split at rest
      · cases rest
      · obtain ⟨rfl,rfl,-⟩ : i' = i ∧ n' = n ∧ tcb' = worker := by simpa using rest
        exact ⟨⟨c,(Slab.find_some found).1,ntfn⟩,by rw [State.channelIndex,found]; rfl⟩
    rw [Option.all_some,mainFree_iff]
    constructor
    · rintro unstolen alive k other wakes
      have named : b.subject (.bindThread owner chid tid granted) ≠ some k := by
        rw [Bindings.subject,subject]
        exact fun same => other (Option.some.inj same).symm
      obtain ⟨c,m,used,ntfn,tied⟩ := unstolen k (b.main owner) named wakes
      rw [after] at used tied
      rcases bindNotification_left.mp tied with kept | ⟨-,-,rfl⟩
      · exact ((b.unbindMain_left owner).mp kept).2.elim alive fun apart => apart rfl
      · obtain ⟨d,mine,number⟩ := own
        exact other (separate.apart k i c d m used mine ntfn number)
    · rintro free k tcb named ⟨c,m,used,ntfn,tied⟩
      rw [after]
      refine ⟨c,m,used,ntfn,bindNotification_left.mpr (.inl ((b.unbindMain_left owner).mpr ⟨tied,?_⟩))⟩
      by_cases alive : b.main owner = 0
      · exact .inl alive
      · right
        rintro rfl
        have other : k ≠ i := by
          rintro rfl
          exact named subject
        exact free alive k other ⟨c,m,used,ntfn,tied⟩

theorem destroy_unstolen (separate : Separate b.base) (owner : Pid) (recv : Nat) (revoked : Bool) :
    b.Unstolen (.destroy owner recv revoked) ↔ b.Spares (.destroy owner recv revoked) := by
  rw [Spares]
  cases found : Slab.find b.base.channels fun c => c.owner == owner && c.recv == recv with
  | none =>
    have nothing : b.takesDown owner recv = none := by rw [takesDown,found]; rfl
    have same : b.apply (.destroy owner recv revoked) = b := by
      rw [apply,destroy,nothing,channelDestroy_missing revoked found]
    rw [nothing]
    simp only [Option.all_none,iff_true]
    intro i tcb _ wakes
    rwa [same]
  | some hit =>
    obtain ⟨i,c⟩ := hit
    obtain ⟨others,-,-⟩ := channelDestroy_channels owner recv revoked found
    have subject : b.subject (.destroy owner recv revoked) = some i := by rw [Bindings.subject,found]; rfl
    cases ntfn : c.ntfn with
    | none =>
      have nothing : b.takesDown owner recv = none := by simp [takesDown,found,ntfn]
      have after : b.apply (.destroy owner recv revoked) =
          { b with base := (b.base.channelDestroy owner recv revoked).1 } := by rw [apply,destroy,nothing]
      rw [nothing]
      simp only [Option.all_none,iff_true]
      rintro k tcb named ⟨d,m,used,number,tied⟩
      have other : k ≠ i := fun same => named (same ▸ subject)
      rw [after]
      exact ⟨d,m,(others k other).trans used,number,tied⟩
    | some n =>
      have down : b.takesDown owner recv = some (i,c.owner,n) := by simp [takesDown,found,ntfn]
      obtain ⟨unbound,choice⟩ : ∃ p, p =
          if (b.base.processLookup c.owner).isSome then b.unbindMain c.owner else b.bound := ⟨_,rfl⟩
      have after : b.apply (.destroy owner recv revoked) = { b with
          base := (b.base.channelDestroy owner recv revoked).1, bound := unbound.partRight n } := by
        rw [apply,destroy,down,choice]
      have mine := (Slab.find_some found).1
      rw [down,Option.all_some,Bool.or_eq_true,mainFree_iff]
      constructor
      · intro unstolen
        by_cases alive : (b.base.processLookup c.owner).isSome = true
        · right
          intro main k other wakes
          have named : b.subject (.destroy owner recv revoked) ≠ some k := by
            rw [subject]
            exact fun same => other (Option.some.inj same).symm
          obtain ⟨d,m,used,number,tied⟩ := unstolen k (b.main c.owner) named wakes
          rw [after] at tied
          have left := (Pairing.partRight_left.mp tied).2
          rw [choice,if_pos alive,unbindMain_left] at left
          exact left.2.elim main fun apart => apart rfl
        · left
          simpa using alive
      · rintro free k tcb named ⟨d,m,used,number,tied⟩
        have other : k ≠ i := fun same => named (same ▸ subject)
        have different : m ≠ n := by
          rintro rfl
          exact other (separate.apart k i d c m used mine number ntfn)
        rw [after]
        refine ⟨d,m,(others k other).trans used,number,Pairing.partRight_left.mpr ⟨different,?_⟩⟩
        rw [choice]
        split
        · rename_i alive
          refine (b.unbindMain_left c.owner).mpr ⟨tied,?_⟩
          by_cases absent : b.main c.owner = 0
          · exact .inl absent
          · right
            rintro rfl
            rcases free with gone | free
            · simp [Option.isNone_iff_eq_none.mp gone] at alive
            · exact free absent k other ⟨d,m,used,number,tied⟩
        · exact tied

theorem unstolen_iff (separate : Separate b.base) (op : BindOp) : b.Unstolen op ↔ b.Spares op := by
  cases op with
  | create owner chid flags tid stale k =>
    exact ⟨fun _ => trivial,fun _ => b.create_unstolen owner chid flags tid stale k⟩
  | bindThread owner chid tid granted => exact bindThread_unstolen separate ..
  | destroy owner recv revoked => exact destroy_unstolen separate ..
  | worker pid tid tcb => exact ⟨fun _ => trivial,fun _ _ _ _ wakes => wakes⟩

theorem step_separate (b : Bindings cfg) (op : BindOp) (b' : Bindings cfg) (separate : Separate b.base)
    (taken : step b op = some b') : Separate b'.base := by
  obtain rfl := Option.some.inj taken
  exact separate_apply separate op

/-- Nothing is bound yet. -/
def start (s : State cfg) (main : Pid → Nat) : Bindings cfg := ⟨s,main,fun _ _ => none,.empty⟩

/-- From any state the operations lead to, a run takes no binding from another channel exactly
if each of its steps finds the main thread free of the other channels. -/
theorem bindings_unstolen (main : Pid → Nat) (silent : ∀ i c, s.channels i = some c → c.ntfn = none)
    (reached : Lts.Run step AnyOp (start s main) before b) :
    Lts.Run step Unstolen b ops b' ↔ Lts.Run step Spares b ops b' := by
  have first : Separate s := ⟨fun i k c c' n used _ ntfn => by simp [silent i c used] at ntfn,
    fun i c n used ntfn => by simp [silent i c used] at ntfn⟩
  have separate := reached.invariant (fun b => Separate b.base)
    (fun b op b' separate _ => step_separate b op b' separate) first
  constructor
  · intro run
    exact run.exchange (fun b => Separate b.base) step_separate (fun b op inv => (unstolen_iff inv op).mp) separate
  · intro run
    exact run.exchange (fun b => Separate b.base) step_separate (fun b op inv => (unstolen_iff inv op).mpr) separate

theorem smallBoot_silent (i : Fin small.channels) (c : Channel) (used : smallBoot.channels i = some c) :
    c.ntfn = none := by
  have checked : ((List.finRange small.channels).all fun i =>
      (smallBoot.channels i).all fun c => c.ntfn == none) = true := by decide +kernel
  have here := List.all_eq_true.mp checked i (List.mem_finRange i)
  rw [used] at here
  simpa using here

/-- The main thread of `/sbin/init` runs on TCB 50. -/
def threads : Pid → Nat := fun pid => if pid = 2 then 50 else 0

/-- A worker on TCB 60 starts, and both threads make a channel. -/
def twoChannels : List BindOp :=
  [.worker 2 2 60,.create 2 9 0 1 0 ⟨true,true,true,true⟩,.create 2 10 0 2 0 ⟨true,true,true,true⟩]

theorem bindings_unstolen_small : ∃ b b', Lts.Run step AnyOp (start smallBoot threads) twoChannels b ∧
    Lts.Run step Unstolen b [.destroy 2 16 true,.destroy 2 17 true] b' ∧ b'.bound.left 60 = none := by
  obtain ⟨b,reached,spares⟩ := Lts.Run.exists_of_replay step AnyOp (start smallBoot threads) twoChannels
    (fun b => (Lts.replay step Spares b [.destroy 2 16 true,.destroy 2 17 true]).any
      (fun b' => decide (b'.bound.left 60 = none)) = true) (by decide +kernel)
  obtain ⟨b',run,gone⟩ := Lts.Run.exists_of_replay step Spares b _ (fun b' => b'.bound.left 60 = none) spares
  exact ⟨b,b',reached,(bindings_unstolen threads smallBoot_silent reached).mpr run,gone⟩

/-- Taking down the worker's channel unbinds the main thread, whose channel is still there. -/
theorem worker_destroy_steals : ∃ b, Lts.Run step AnyOp (start smallBoot threads) twoChannels b ∧
    ¬ b.Unstolen (.destroy 2 17 true) := by
  obtain ⟨b,reached,bound,subject,after⟩ := Lts.Run.exists_of_replay step AnyOp
    (start smallBoot threads) twoChannels
    (fun b => ((b.base.channels ⟨8,by decide⟩).any fun c => c.ntfn.any fun n => b.bound.left 50 == some n) = true ∧
      b.subject (.destroy 2 17 true) ≠ some ⟨8,by decide⟩ ∧
      (b.apply (.destroy 2 17 true)).bound.left 50 = none) (by decide +kernel)
  refine ⟨b,reached,?_⟩
  intro unstolen
  obtain ⟨c,used,here⟩ := (Option.any_eq_true _ _).mp bound
  obtain ⟨n,ntfn,tied⟩ := (Option.any_eq_true _ _).mp here
  obtain ⟨_,_,-,-,kept⟩ := unstolen ⟨8,by decide⟩ 50 subject ⟨c,n,used,ntfn,by simpa using tied⟩
  rw [after] at kept
  cases kept

end Bindings

end Qsoe.Taskman
