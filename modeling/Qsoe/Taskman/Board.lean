import Qsoe.Taskman.Handlers

/-! The channel table beside the counter of global chids. A create fills a free index, a
destroy and a teardown empty indices, and no other request touches either. -/
namespace Qsoe.Taskman

variable {cfg : Config} {s t : State cfg}

structure Board (cfg : Config) where
  channels : Slab.Table cfg.channels Channel
  globals : Nat

def State.board (s : State cfg) : Board cfg := ⟨s.channels,s.globals⟩

namespace State

theorem pidFree_board (s : State cfg) (pid : Pid) : (s.pidFree pid).board = s.board := by
  unfold pidFree
  split
  · rfl
  · split <;> rfl

theorem pidAlloc_board (issued : s.pidAlloc = some (t,pid)) : t.board = s.board := by
  unfold pidAlloc at issued
  split at issued
  · obtain ⟨rfl,-⟩ : _ = t ∧ _ = pid := by simpa using issued
    rfl
  · split at issued
    · cases issued
    · obtain ⟨rfl,-⟩ : _ = t ∧ _ = pid := by simpa using issued
      rfl

theorem processRegister_board (s : State cfg) (pid : Pid) (cnode slot : Nat) :
    (s.processRegister pid cnode slot).1.board = s.board := by
  unfold processRegister
  split
  · rfl
  · split <;> rfl

theorem processAllocSlot_board (s : State cfg) (pid : Pid) : (s.processAllocSlot pid).1.board = s.board := by
  unfold processAllocSlot
  split <;> rfl

theorem processSetParent_board (s : State cfg) (child parent : Pid) :
    (s.processSetParent child parent).1.board = s.board := by
  unfold processSetParent
  split <;> rfl

theorem processDetach_board (s : State cfg) (pid : Pid) (status : BitVec 32) :
    (s.processDetach pid status).1.board = s.board := by
  unfold processDetach
  split
  · rfl
  · split <;> rfl

theorem reap_board (s : State cfg) (i : Fin maxProcesses) (pid : Pid) : (s.reap i pid).board = s.board :=
  pidFree_board { s with processes := Slab.erase s.processes i } pid

theorem processWaitpid_board (s : State cfg) (waiter child : Pid) (parked : Bool) :
    (s.processWaitpid waiter child parked).1.board = s.board := by
  unfold processWaitpid
  split
  · rfl
  · split
    · rfl
    · split
      · exact reap_board ..
      · split <;> rfl

theorem mint_board (minted : s.mint cnode slot c granted = some t) : t.board = s.board := by
  unfold mint at minted
  split at minted
  · split at minted
    · obtain rfl := Option.some.inj minted
      rfl
    · cases minted
  · cases minted

theorem deleteCap_board (s : State cfg) (cnode slot : Nat) : (s.deleteCap cnode slot).board = s.board := by
  unfold deleteCap
  split <;> rfl

theorem copyCap_board (copied : s.copyCap cnode src dst granted = some t) : t.board = s.board := by
  unfold copyCap at copied
  split at copied
  · exact mint_board copied
  · cases copied

theorem releaseSpace_board (s : State cfg) (space : Option Nat) : (s.releaseSpace space).board = s.board := by
  cases space <;> rfl

theorem shareNtfn_board (s : State cfg) (client : Pid) (cnode : Nat) (ch : Channel) (shared : Bool) :
    (s.shareNtfn client cnode ch shared).1.board = s.board := by
  unfold shareNtfn
  split
  · rfl
  · split
    · rfl
    · have drawn := processAllocSlot_board s client
      dsimp only
      split
      · exact drawn
      · rename_i minted
        exact (mint_board minted).trans drawn

theorem connectionSetCtx_board (s : State cfg) (badge : Word) (c : Word × Word) :
    (s.connectionSetCtx badge c).1.board = s.board := by
  unfold connectionSetCtx
  split <;> rfl

theorem connectionRegisterExisting_board (s : State cfg) (pid : Pid) (slot : Nat)
    (idx : Fin cfg.channels) (σ : Source) (flags : BitVec 32) :
    (s.connectionRegisterExisting pid slot idx σ flags).1.board = s.board := by
  unfold connectionRegisterExisting
  split
  · rfl
  · split <;> rfl

theorem connectionCloneForDup_board (s : State cfg) (pid : Pid) (src dst : Nat) :
    (s.connectionCloneForDup pid src dst).1.board = s.board := by
  unfold connectionCloneForDup
  split
  · rfl
  · split <;> rfl

theorem connectAttach_board (s : State cfg) (client target : Pid) (chid flags : BitVec 32) (stale : Nat)
    (k : AttachKernel) : (s.connectAttach client target chid flags stale k).1.board = s.board := by
  unfold connectAttach
  split
  · rfl
  · split
    · rfl
    · split
      · rfl
      · have slot : (s.processAllocSlot client).1.allocScoid.1.board = s.board :=
          processAllocSlot_board s client
        dsimp only
        split
        · exact slot
        · rename_i held minted
          exact (shareNtfn_board held ..).trans ((mint_board minted).trans slot)

theorem connectDetach_board (s : State cfg) (client : Pid) (slot stale : Nat) (deleted : Bool) :
    (s.connectDetach client slot stale deleted).1.board = s.board := by
  unfold connectDetach
  split
  · rfl
  · split
    · rfl
    · split
      · rfl
      · have cut (cnode slot' : Nat) : ((s.deleteCap cnode slot).deleteCap cnode slot').board = s.board :=
          (deleteCap_board _ cnode slot').trans (deleteCap_board s cnode slot)
        dsimp only
        split
        · exact cut ..
        · exact deleteCap_board ..

theorem connectFlags_board (s : State cfg) (pid : Pid) (slot : Nat) (mask bits : BitVec 32) :
    (s.connectFlags pid slot mask bits).1.board = s.board := by
  unfold connectFlags
  split
  · rfl
  · split <;> rfl

theorem dupCap_board (s : State cfg) (caller : Pid) (src dst stale : Nat) (copied : Bool) :
    (s.dupCap caller src dst stale copied).1.board = s.board := by
  unfold dupCap
  split
  · rfl
  · split
    · rfl
    · split
      · rfl
      · split
        · rfl
        · rename_i held copying
          have cloned := (connectionCloneForDup_board held caller src dst).trans (copyCap_board copying)
          split
          · rename_i cloning
            rw [cloning] at cloned
            exact (deleteCap_board ..).trans cloned
          · rename_i cloning
            rw [cloning] at cloned
            exact cloned

theorem ioOpen_board (s : State cfg) (caller : Pid) (server : Option (Pid × BitVec 32)) (stale : Nat)
    (k : AttachKernel) (opened deleted : Bool) :
    (s.ioOpen caller server stale k opened deleted).1.board = s.board := by
  unfold ioOpen
  split
  · rfl
  · rename_i pid chid
    have made := connectAttach_board s caller pid chid 0 stale k
    split
    · rename_i attaching
      rw [attaching] at made
      exact made
    · rename_i attaching
      rw [attaching] at made
      split
      · exact made
      · exact (connectDetach_board ..).trans made

theorem registerPipe_board (s : State cfg) (caller : Pid) (idx : Fin cfg.channels)
    (n readSlot writeSlot : Nat) : (s.registerPipe caller idx n readSlot writeSlot).board = s.board :=
  (connectionRegisterExisting_board ..).trans (connectionRegisterExisting_board ..)

theorem pipeCreate_board (s : State cfg) (caller : Pid) (server : Option (Pid × BitVec 32))
    (stale : Nat) (readMinted writeMinted : Bool) :
    (s.pipeCreate caller server stale readMinted writeMinted).1.board = s.board := by
  unfold pipeCreate
  split
  · rfl
  · split
    · rfl
    · split
      · rfl
      · have first : (s.allocPipe.processAllocSlot caller).1.board = s.board :=
          processAllocSlot_board s.allocPipe caller
        have second := (processAllocSlot_board (s.allocPipe.processAllocSlot caller).1 caller).trans first
        dsimp only
        split
        · exact second
        · rename_i half readEnd
          have one := (mint_board readEnd).trans second
          split
          · exact one
          · rename_i full writeEnd
            exact (registerPipe_board full ..).trans ((mint_board writeEnd).trans one)

theorem spawnStdio_board (s : State cfg) (pid : Pid) (cnode : Nat) (idx : Fin cfg.channels)
    (master : Object) (l : List (Nat × Bool)) : (s.spawnStdio pid cnode idx master l).1.board = s.board := by
  induction l generalizing s with
  | nil => rfl
  | cons entry rest ih =>
    obtain ⟨slot,minted⟩ := entry
    have drawn : s.allocScoid.1.board = s.board := rfl
    rw [spawnStdio]
    split
    · exact drawn
    · rename_i held minting
      have added := (connectionRegisterExisting_board held pid slot idx (.scoid s.scoids) 0).trans
        ((mint_board minting).trans drawn)
      split
      · rename_i registering
        rw [registering] at added
        exact added
      · rename_i registering
        rw [registering] at added
        exact (ih _).trans added

theorem spawnRegister_board (s : State cfg) (pid : Pid) (cnode : Nat) (objects : Bool) :
    (s.spawnRegister pid cnode objects).1.board = s.board := by
  have recorded := processRegister_board s pid cnode capWellKnownEnd
  unfold spawnRegister
  split
  · rename_i registering
    rw [registering] at recorded
    exact recorded
  · rename_i next _ registering
    rw [registering] at recorded
    split
    · exact recorded
    · rename_i primary _ _
      have added := (connectionRegisterExisting_board next pid capTaskmanEp primary (.sysmgr pid) 0).trans
        recorded
      split
      · rename_i adding
        rw [adding] at added
        exact added
      · rename_i adding
        rw [adding] at added
        split <;> exact added

theorem spawn_board (s : State cfg) (pid : Pid) (k : SpawnKernel) : (s.spawn pid k).1.board = s.board := by
  have space : (s.newSpace pid).board = s.board := rfl
  unfold spawn
  split
  · rfl
  · split
    · exact space
    · rename_i held minting
      have one := (mint_board minting).trans space
      split
      · exact one
      · split
        · exact one
        · rename_i idx ch _
          have looped := (spawnStdio_board held pid s.spawned idx ch.master
            [(capStdinConnect,k.stdin),(capStdoutConnect,k.stdout),(capStderrConnect,k.stderr)]).trans one
          split
          · rename_i looping
            rw [looping] at looped
            exact looped
          · rename_i stdio looping
            rw [looping] at looped
            split
            · exact looped
            · exact (spawnRegister_board ..).trans looped

theorem loadImage_board (s : State cfg) (image : Image) : (s.loadImage image).1.board = s.board := by
  cases image with
  | absent => rfl
  | archive => rfl
  | mounted server chid k read deleted =>
    have made := connectAttach_board s pidTaskman server chid 0 0 k
    rw [loadImage]
    split
    · rename_i attaching
      rw [attaching] at made
      exact made
    · rename_i attaching
      rw [attaching] at made
      exact (connectDetach_board ..).trans made

theorem processCreateByName_board (s : State cfg) (k : SpawnKernel) :
    (s.processCreateByName k).1.board = s.board := by
  have loaded := loadImage_board s k.image
  unfold processCreateByName
  split
  · rename_i loading
    rw [loading] at loaded
    exact loaded
  · rename_i next loading
    rw [loading] at loaded
    split
    · exact loaded
    · rename_i issued pid allocating
      have numbered := (pidAlloc_board allocating).trans loaded
      split
      · exact (pidFree_board ..).trans numbered
      · have started := (spawn_board issued pid k).trans numbered
        split
        · rename_i starting
          rw [starting] at started
          exact (pidFree_board ..).trans started
        · rename_i starting
          rw [starting] at started
          exact started

theorem processCreate_board (s : State cfg) (caller : Pid) (k : SpawnKernel) :
    (s.processCreate caller k).1.board = s.board := by
  have child := processCreateByName_board s k
  unfold processCreate
  split
  · rename_i creating
    rw [creating] at child
    exact child
  · rename_i creating
    rw [creating] at child
    exact (processSetParent_board ..).trans child

end State

/-- The channels of `w` are channels of `v`, perhaps without their Notification. -/
structure Board.Fewer (v w : Board cfg) : Prop where
  globals : w.globals = v.globals
  channels : ∀ i c, w.channels i = some c → ∃ c', v.channels i = some c' ∧ c'.owner = c.owner ∧
    c'.chid = c.chid ∧ c'.flags = c.flags

theorem Board.Fewer.of_eq {v w : Board cfg} (same : w = v) : v.Fewer w := by
  rw [same]
  exact ⟨rfl,fun i c used => ⟨c,used,rfl,rfl,rfl⟩⟩

theorem Board.Fewer.trans {u v w : Board cfg} (first : u.Fewer v) (second : v.Fewer w) : u.Fewer w where
  globals := second.globals.trans first.globals
  channels i c used := by
    obtain ⟨d,between,owner,chid,flags⟩ := second.channels i c used
    obtain ⟨e,before,owner',chid',flags'⟩ := first.channels i d between
    exact ⟨e,before,owner'.trans owner,chid'.trans chid,flags'.trans flags⟩

namespace State

theorem muteNtfn_fewer (used : s.channels idx = some c) : s.board.Fewer (s.muteNtfn idx c).board := by
  unfold muteNtfn
  split
  · exact .of_eq rfl
  · refine ⟨rfl,?_⟩
    intro i d put
    rcases Slab.put_cases put with ⟨rfl,rfl⟩ | old
    · exact ⟨c,used,rfl,rfl,rfl⟩
    · exact ⟨d,old,rfl,rfl,rfl⟩

theorem channelDestroy_fewer (s : State cfg) (owner : Pid) (recv : Nat) (revoked : Bool) :
    s.board.Fewer (s.channelDestroy owner recv revoked).1.board := by
  unfold channelDestroy
  split
  · exact .of_eq rfl
  · rename_i idx c found
    have muted := muteNtfn_fewer (Slab.find_some found).1
    dsimp only
    split
    · exact muted
    · refine muted.trans ⟨rfl,?_⟩
      intro i d left
      exact ⟨d,(Slab.erase_some left).2,rfl,rfl,rfl⟩

theorem teardown_fewer (s : State cfg) (i : Fin maxProcesses) (p : Process) (status : BitVec 32) :
    s.board.Fewer (s.teardown i p status).board := by
  have bare : s.board.Fewer
      (((s.endProcess i p status).dropChannels p.pid).connectionsDropForPid p.pid).board :=
    ⟨rfl,fun k c used => ⟨c,(Slab.drop_some.mp used).1,rfl,rfl,rfl⟩⟩
  unfold teardown
  dsimp only
  split
  · exact bare.trans (.of_eq ((reap_board ..).trans (releaseSpace_board ..)))
  · exact bare.trans (.of_eq (releaseSpace_board ..))

theorem processTerminate_fewer (s : State cfg) (target : Pid) (status : BitVec 32) :
    s.board.Fewer (s.processTerminate target status).1.board := by
  unfold processTerminate
  split
  · exact .of_eq rfl
  · split
    · exact .of_eq rfl
    · split
      · exact .of_eq rfl
      · exact teardown_fewer ..

theorem dispatch_fewer (s : State cfg) (caller : Pid) (badge : Word) (stale : Nat) (r : Request)
    (other : ∀ chid flags k, r ≠ .channelCreate chid flags k) :
    s.board.Fewer (s.dispatch caller badge stale r).board := by
  cases r with
  | channelCreate chid flags k => exact absurd rfl (other chid flags k)
  | channelDestroy recv revoked => exact channelDestroy_fewer ..
  | processTerminate target status => exact processTerminate_fewer ..
  | connectAttach pid chid flags k => exact .of_eq (connectAttach_board ..)
  | connectDetach slot deleted => exact .of_eq (connectDetach_board ..)
  | connectFlags slot mask bits => exact .of_eq (connectFlags_board ..)
  | openPath server k opened deleted => exact .of_eq (ioOpen_board ..)
  | pipeCreate server readMinted writeMinted => exact .of_eq (pipeCreate_board ..)
  | dupCap src dst copied => exact .of_eq (dupCap_board ..)
  | processCreate k => exact .of_eq (processCreate_board ..)
  | processDetach status => exact .of_eq (processDetach_board ..)
  | waitpid child parked => exact .of_eq (processWaitpid_board ..)
  | io ctx => exact .of_eq (connectionSetCtx_board ..)
  | claim => exact .of_eq (processAllocSlot_board ..)
  | other => exact .of_eq rfl

/-- A create gives its chid out first, so a failed one may have moved the counter. -/
theorem channelCreate_board (s : State cfg) (owner : Pid) (chid flags : BitVec 32) (stale : Nat)
    (k : CreateKernel) :
    (s.channelCreate owner chid flags stale k).1.board = s.board ∨
    (s.channelCreate owner chid flags stale k).1.board = (s.assignChid chid flags).1.board ∨
    ∃ idx recv ntfn, s.channels idx = none ∧
      (s.channelCreate owner chid flags stale k).1.board =
        ⟨Slab.put s.channels idx
          ⟨owner,(s.assignChid chid flags).2,recv,.endpoint s.objects,flags,ntfn,s.objects⟩,
          (s.assignChid chid flags).1.globals⟩ := by
  have named : (s.assignChid chid flags).1.channels = s.channels :=
    congrArg Tables.channels (assignChid_quiet s chid flags).tables
  unfold channelCreate
  split
  · exact .inl rfl
  · right
    dsimp only
    split
    · exact .inl rfl
    · split
      · exact .inl rfl
      · rename_i idx free
        split
        · exact .inl rfl
        · have drawn := processAllocSlot_board (s.assignChid chid flags).1 owner
          split
          · exact .inl drawn
          · rename_i held minted
            have same := (mint_board minted).trans drawn
            have channels : held.channels = s.channels := (congrArg Board.channels same).trans named
            have globals : held.globals = (s.assignChid chid flags).1.globals := congrArg Board.globals same
            right
            refine ⟨idx,((s.assignChid chid flags).1.processAllocSlot owner).2,
              if k.signalled then some s.objects else none,named ▸ Slab.free_some free,?_⟩
            rw [board,addChannel,channels,globals]

end State

/-- Channels appear only where a create put them. -/
theorem step_board (taken : step s e = some t) : s.board.Fewer t.board ∨
    ∃ i slot stale chid flags k caller, e = .message i slot stale (.channelCreate chid flags k) ∧
      t = (s.channelCreate caller chid flags stale k).1 := by
  cases e with
  | message i slot stale r =>
    simp only [step] at taken
    split at taken
    · rename_i c _
      split at taken
      · obtain rfl := Option.some.inj taken
        rw [State.receive]
        split
        · exact .inl (State.processTerminate_fewer ..)
        · rename_i caller _
          by_cases creates : ∃ chid flags k, r = .channelCreate chid flags k
          · obtain ⟨chid,flags,k,rfl⟩ := creates
            exact .inr ⟨i,slot,stale,chid,flags,k,caller,rfl,rfl⟩
          · left
            exact State.dispatch_fewer s caller c.badge stale r fun chid flags k same =>
              creates ⟨chid,flags,k,same⟩
      · cases taken
    · cases taken
  | fault i =>
    simp only [step] at taken
    split at taken
    · split at taken
      · obtain rfl := Option.some.inj taken
        rw [State.receive]
        split
        · exact .inl (State.processTerminate_fewer ..)
        · exact .inl (.of_eq rfl)
      · cases taken
    · cases taken
  | copy i src dst =>
    simp only [step] at taken
    split at taken
    · exact .inl (.of_eq (State.copyCap_board taken))
    · cases taken
  | delete i slot =>
    simp only [step] at taken
    split at taken
    · obtain rfl := Option.some.inj taken
      exact .inl (.of_eq (State.deleteCap_board ..))
    · cases taken

end Qsoe.Taskman
