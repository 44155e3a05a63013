import Qsoe.Taskman.Machine

/-! What the helpers of the handlers leave alone: the channel and connection tables with
their counters, and the CSpaces. -/
namespace Qsoe.Taskman

variable {cfg : Config} {s t : State cfg}

/-- The channel and connection tables, the counters badges are drawn from and the number of
channels created so far. -/
structure Tables (cfg : Config) where
  channels : Slab.Table cfg.channels Channel
  rows : Slab.Table cfg.connections (Row cfg)
  scoids : Nat
  pipes : Nat
  objects : Nat

def State.tables (s : State cfg) : Tables cfg := ⟨s.channels,s.rows,s.scoids,s.pipes,s.objects⟩

structure Quiet (s t : State cfg) : Prop where
  tables : t.tables = s.tables
  spaces : t.spaces = s.spaces

theorem Quiet.refl (s : State cfg) : Quiet s s := ⟨rfl,rfl⟩

namespace State

theorem setProcess_quiet (s : State cfg) (i : Fin maxProcesses) (p : Process) :
    Quiet s (s.setProcess i p) := ⟨rfl,rfl⟩

theorem pidFree_quiet (s : State cfg) (pid : Pid) : Quiet s (s.pidFree pid) := by
  unfold pidFree
  split
  · exact .refl s
  · split <;> exact ⟨rfl,rfl⟩

theorem pidAlloc_quiet (issued : s.pidAlloc = some (t,pid)) : Quiet s t := by
  unfold pidAlloc at issued
  split at issued
  · obtain ⟨rfl,-⟩ : _ = t ∧ _ = pid := by simpa using issued
    exact ⟨rfl,rfl⟩
  · split at issued
    · cases issued
    · obtain ⟨rfl,-⟩ : _ = t ∧ _ = pid := by simpa using issued
      exact ⟨rfl,rfl⟩

theorem processRegister_quiet (s : State cfg) (pid : Pid) (cnode slot : Nat) :
    Quiet s (s.processRegister pid cnode slot).1 := by
  unfold processRegister
  split
  · exact .refl s
  · split
    · exact .refl s
    · exact setProcess_quiet ..

theorem processAllocSlot_quiet (s : State cfg) (pid : Pid) : Quiet s (s.processAllocSlot pid).1 := by
  unfold processAllocSlot
  split
  · exact .refl s
  · exact setProcess_quiet ..

theorem processSetParent_quiet (s : State cfg) (child parent : Pid) :
    Quiet s (s.processSetParent child parent).1 := by
  unfold processSetParent
  split
  · exact .refl s
  · exact setProcess_quiet ..

theorem processDetach_quiet (s : State cfg) (pid : Pid) (status : BitVec 32) :
    Quiet s (s.processDetach pid status).1 := by
  unfold processDetach
  split
  · exact .refl s
  · split
    · exact .refl s
    · exact setProcess_quiet ..

theorem reap_quiet (s : State cfg) (i : Fin maxProcesses) (pid : Pid) : Quiet s (s.reap i pid) := by
  have freed := pidFree_quiet { s with processes := Slab.erase s.processes i } pid
  exact ⟨freed.tables,freed.spaces⟩

theorem processWaitpid_quiet (s : State cfg) (waiter child : Pid) (parked : Bool) :
    Quiet s (s.processWaitpid waiter child parked).1 := by
  unfold processWaitpid
  split
  · exact .refl s
  · split
    · exact .refl s
    · split
      · exact reap_quiet ..
      · split
        · exact setProcess_quiet ..
        · exact .refl s

theorem connectionSetCtx_quiet (s : State cfg) (badge : Word) (c : Word × Word) :
    Quiet s (s.connectionSetCtx badge c).1 := by
  unfold connectionSetCtx
  split
  · exact .refl s
  · exact ⟨rfl,rfl⟩

theorem assignChid_quiet (s : State cfg) (chid flags : BitVec 32) :
    Quiet s (s.assignChid chid flags).1 := by
  unfold assignChid
  split
  · exact ⟨rfl,rfl⟩
  · exact .refl s

theorem mint_tables (minted : s.mint cnode slot c granted = some t) : t.tables = s.tables := by
  unfold mint at minted
  split at minted
  · split at minted
    · obtain rfl := Option.some.inj minted
      rfl
    · cases minted
  · cases minted

theorem deleteCap_tables (s : State cfg) (cnode slot : Nat) :
    (s.deleteCap cnode slot).tables = s.tables := by
  unfold deleteCap
  split <;> rfl

theorem copyCap_tables (copied : s.copyCap cnode src dst granted = some t) : t.tables = s.tables := by
  unfold copyCap at copied
  split at copied
  · exact mint_tables copied
  · cases copied

theorem releaseSpace_tables (s : State cfg) (space : Option Nat) :
    (s.releaseSpace space).tables = s.tables := by
  cases space <;> rfl

theorem shareNtfn_tables (s : State cfg) (client : Pid) (cnode : Nat) (ch : Channel) (shared : Bool) :
    (s.shareNtfn client cnode ch shared).1.tables = s.tables := by
  unfold shareNtfn
  split
  · rfl
  · split
    · rfl
    · have drawn := (processAllocSlot_quiet s client).tables
      dsimp only
      split
      · exact drawn
      · rename_i minted
        exact (mint_tables minted).trans drawn

end State

structure BootFrame (s t : State cfg) : Prop where
  spaces : t.spaces = s.spaces
  scoids : t.scoids = s.scoids
  freePids : t.freePids = s.freePids
  nextPid : t.nextPid = s.nextPid

theorem channelRegisterExisting_frame (s : State cfg) (pid : Pid) (chid : BitVec 32) (master : Object)
    (recv : Nat) : BootFrame s (s.channelRegisterExisting pid chid master recv).1 := by
  unfold State.channelRegisterExisting
  split
  · exact ⟨rfl,rfl,rfl,rfl⟩
  · split
    · exact ⟨rfl,rfl,rfl,rfl⟩
    · split <;> exact ⟨rfl,rfl,rfl,rfl⟩

theorem registerBoot_frame (registered : registerBoot s chids = some t) : BootFrame s t := by
  induction chids generalizing s with
  | nil =>
    obtain rfl := Option.some.inj registered
    exact ⟨rfl,rfl,rfl,rfl⟩
  | cons chid rest ih =>
    have added := channelRegisterExisting_frame s pidTaskman chid .primary cfg.primaryEp
    rw [registerBoot] at registered
    split at registered
    · cases registered
    · rename_i adding
      rw [adding] at added
      have later := ih registered
      exact ⟨later.spaces.trans added.spaces,later.scoids.trans added.scoids,
        later.freePids.trans added.freePids,later.nextPid.trans added.nextPid⟩

end Qsoe.Taskman
