import Qsoe.Taskman.Moves

/-! The path each handler takes through the tables, and the one change that is no path of
moves: the teardown of a process. -/
namespace Qsoe.Taskman

variable {cfg : Config} {s t : State cfg} {v w : Tables cfg}

namespace Tables

theorem Wf.scoid_unused (wf : Wf v) : ∀ k r, v.rows k = some r → r.source ≠ .scoid v.scoids := by
  intro k r used drawn
  have counted := wf.counted k r used
  simp [Counted,drawn] at counted

theorem Wf.pipe_unused (wf : Wf v) (write : Bool) :
    ∀ k r, v.rows k = some r → r.source ≠ .pipe v.pipes write := by
  intro k r used drawn
  have counted := wf.counted k r used
  simp [Counted,drawn] at counted

/-- What `tm_process_terminate` leaves of the tables. -/
def teardown (v : Tables cfg) (pid : Pid) : Tables cfg :=
  { v with
    channels := Slab.drop v.channels fun c => c.owner == pid
    rows := Slab.drop v.rows fun r => r.clientPid == pid }

theorem Wf.teardown (wf : Wf v) (other : pid ≠ pidTaskman) : Wf (v.teardown pid) := by
  refine wf.of_like ?_ le_rfl le_rfl (wf.keys_sub ?_)
  · intro j r used
    obtain ⟨used,-⟩ := Slab.drop_some.mp used
    refine ⟨j,r,used,.refl r,?_⟩
    intro c live primary
    refine ⟨c,Slab.drop_some.mpr ⟨live,?_⟩,primary⟩
    simpa [primary.1] using other.symm
  · intro i c used
    exact ⟨c,(Slab.drop_some.mp used).1,rfl,rfl⟩

end Tables

open Tables

namespace State

theorem addRow_draws (s : State cfg) (j : Fin cfg.connections) (r : Row cfg) (c : Channel)
    (enters : s.tables.Enters r c) (source : r.source = σ) : Draws s.tables [σ] (s.addRow j r).tables := by
  rw [← source]
  exact (Move.register enters).draws

theorem allocScoid_tables (same : t.tables = s.tables) : t.allocScoid.1.tables = s.allocScoid.1.tables :=
  congrArg (fun v : Tables cfg => { v with scoids := v.scoids + 1 }) same

theorem addChannel_tables (s : State cfg) (i : Fin cfg.channels) (c : Channel) :
    (s.addChannel i c).tables =
      { s.tables with channels := Slab.put s.tables.channels i c, objects := s.tables.objects + 1 } := rfl

theorem connectionRegisterExisting_cases (s : State cfg) (pid : Pid) (slot : Nat)
    (idx : Fin cfg.channels) (σ : Source) (flags : BitVec 32) :
    (s.connectionRegisterExisting pid slot idx σ flags).1.tables = s.tables ∨
      ∃ c j, s.tables.channels idx = some c ∧
        (s.connectionRegisterExisting pid slot idx σ flags).1.tables =
          { s.tables with rows := Slab.put s.tables.rows j ⟨idx,σ.badge,pid,slot,0,flags,σ,c.born⟩ } := by
  unfold connectionRegisterExisting
  split
  · exact .inl rfl
  · rename_i c live
    split
    · exact .inl rfl
    · rename_i j _
      exact .inr ⟨c,j,live,rfl⟩

theorem connectionRegisterExisting_draws (s : State cfg) (pid : Pid) (slot : Nat)
    (idx : Fin cfg.channels) (σ : Source) (flags : BitVec 32) (counted : ∀ c, s.tables.channels idx = some c →
      s.tables.Counted ⟨idx,σ.badge,pid,slot,0,flags,σ,c.born⟩)
    (unused : (∃ p, σ = .sysmgr p) ∨ ∀ k r, s.tables.rows k = some r → r.source ≠ σ) :
    Draws s.tables [σ] (s.connectionRegisterExisting pid slot idx σ flags).1.tables := by
  rcases connectionRegisterExisting_cases s pid slot idx σ flags with same | ⟨c,j,live,added⟩
  · rw [same]
    exact .refl ..
  · rw [added]
    exact (Move.register ⟨live,rfl,rfl,counted c live,unused⟩).draws

theorem connectAttach_draws (wf : Wf s.tables) (client target : Pid) (chid flags : BitVec 32)
    (stale : Nat) (k : AttachKernel) :
    Draws s.tables [.scoid s.scoids] (s.connectAttach client target chid flags stale k).1.tables := by
  unfold connectAttach
  split
  · exact .refl ..
  · rename_i p _
    split
    · exact .refl ..
    · rename_i idx c found
      split
      · exact .refl ..
      · rename_i j free
        have slot := (processAllocSlot_quiet s client).tables
        have count := allocScoid_tables slot
        have number : (s.processAllocSlot client).1.allocScoid.2 = (Source.scoid s.scoids).badge := by
          have same : (s.processAllocSlot client).1.scoids = s.scoids := congrArg Tables.scoids slot
          rw [allocScoid,same]
          rfl
        have drawn : Draws s.tables [] s.allocScoid.1.tables := Move.draws .scoid
        dsimp only
        split
        · rw [count]
          exact drawn.mono (List.nil_sublist _)
        · rename_i held minted
          have shared := (shareNtfn_tables held client (p.cnode stale) c k.shared).trans
            ((mint_tables minted).trans count)
          rw [← shared] at drawn
          refine drawn.append (addRow_draws _ j _ c ?_ rfl)
          rw [shared]
          exact ⟨(Slab.find_some found).1,rfl,number,Nat.lt_succ_self _,.inr wf.scoid_unused⟩

theorem connectDetach_draws (s : State cfg) (client : Pid) (slot stale : Nat) (deleted : Bool) :
    Draws s.tables [] (s.connectDetach client slot stale deleted).1.tables := by
  unfold connectDetach
  split
  · exact .refl ..
  · split
    · exact .refl ..
    · rename_i p _ _ j r _
      split
      · exact .refl ..
      · have bare : (if r.ntfnSlot ≠ 0 then (s.deleteCap (p.cnode stale) slot).deleteCap (p.cnode stale)
            r.ntfnSlot else s.deleteCap (p.cnode stale) slot).tables = s.tables := by
          split
          · rw [deleteCap_tables,deleteCap_tables]
          · rw [deleteCap_tables]
        have gone : Move s.tables [] { s.tables with rows := Slab.erase s.tables.rows j } := .unregister
        rw [← bare] at gone ⊢
        exact gone.draws

theorem connectFlags_draws (s : State cfg) (pid : Pid) (slot : Nat) (mask bits : BitVec 32) :
    Draws s.tables [] (s.connectFlags pid slot mask bits).1.tables := by
  unfold connectFlags
  split
  · exact .refl ..
  · rename_i j r found
    split
    · exact .refl ..
    · have used : s.tables.rows j = some r := (Slab.find_some found).1
      exact Move.draws (.alter used ⟨rfl,rfl,rfl,rfl,rfl⟩)

theorem connectionCloneForDup_draws (s : State cfg) (pid : Pid) (src dst : Nat) :
    Draws s.tables [] (s.connectionCloneForDup pid src dst).1.tables := by
  unfold connectionCloneForDup
  split
  · exact .refl ..
  · rename_i j r found
    split
    · exact .refl ..
    · obtain ⟨used,tested⟩ := Slab.find_some found
      have client : r.clientPid = pid := by
        simp only [Bool.and_eq_true,beq_iff_eq] at tested
        exact tested.1
      have row : s.tables.rows j = some r := used
      exact Move.draws (.alter row ⟨rfl,rfl,client.symm,rfl,rfl⟩)

theorem channelCreate_draws (s : State cfg) (owner : Pid) (chid flags : BitVec 32) (stale : Nat)
    (k : CreateKernel) : Draws s.tables [] (s.channelCreate owner chid flags stale k).1.tables := by
  unfold channelCreate
  split
  · exact .refl ..
  · have named := (assignChid_quiet s chid flags).tables
    dsimp only
    split
    · rw [named]
      exact .refl ..
    · rename_i missing
      split
      · rw [named]
        exact .refl ..
      · rename_i idx free
        split
        · rw [named]
          exact .refl ..
        · have drawn := (processAllocSlot_quiet (s.assignChid chid flags).1 owner).tables
          split
          · rw [drawn,named]
            exact .refl ..
          · rename_i held minted
            have same := (mint_tables minted).trans drawn
            rw [addChannel_tables,same,← named]
            refine (Move.create (Slab.free_some free) ?_ (congrArg Tables.objects named).symm).draws
            intro i c used
            exact Slab.find_none missing used

theorem channelRegisterExisting_draws (s : State cfg) (pid : Pid) (chid : BitVec 32) (master : Object)
    (recv : Nat) : Draws s.tables [] (s.channelRegisterExisting pid chid master recv).1.tables := by
  unfold channelRegisterExisting
  split
  · exact .refl ..
  · split
    · exact .refl ..
    · rename_i missing
      split
      · exact .refl ..
      · rename_i idx free
        refine (Move.create (Slab.free_some free) ?_ rfl).draws
        intro i c used
        exact Slab.find_none missing used

theorem muteNtfn_draws (s : State cfg) (idx : Fin cfg.channels) (c : Channel)
    (used : s.tables.channels idx = some c) : Draws s.tables [] (s.muteNtfn idx c).tables := by
  unfold muteNtfn
  split
  · exact .refl ..
  · exact (Move.mute used).draws

theorem channelDestroy_draws (s : State cfg) (owner : Pid) (recv : Nat) (revoked : Bool) :
    Draws s.tables [] (s.channelDestroy owner recv revoked).1.tables := by
  unfold channelDestroy
  split
  · exact .refl ..
  · rename_i idx c found
    have muted := muteNtfn_draws s idx c (Slab.find_some found).1
    dsimp only
    split
    · exact muted
    · exact muted.append (Move.destroy (i := idx)).draws

theorem dupCap_draws (s : State cfg) (caller : Pid) (src dst stale : Nat) (copied : Bool) :
    Draws s.tables [] (s.dupCap caller src dst stale copied).1.tables := by
  unfold dupCap
  split
  · exact .refl ..
  · split
    · exact .refl ..
    · split
      · exact .refl ..
      · split
        · exact .refl ..
        · rename_i held copying
          have cloned := connectionCloneForDup_draws held caller src dst
          rw [copyCap_tables copying] at cloned
          split
          · rename_i cloning
            rw [cloning] at cloned
            rw [deleteCap_tables]
            exact cloned
          · rename_i cloning
            rw [cloning] at cloned
            exact cloned

theorem ioOpen_draws (wf : Wf s.tables) (caller : Pid) (server : Option (Pid × BitVec 32)) (stale : Nat)
    (k : AttachKernel) (opened deleted : Bool) :
    Draws s.tables [.scoid s.scoids] (s.ioOpen caller server stale k opened deleted).1.tables := by
  unfold ioOpen
  split
  · exact .refl ..
  · rename_i pid chid
    have made := connectAttach_draws wf caller pid chid 0 stale k
    split
    · rename_i attaching
      rw [attaching] at made
      exact made
    · rename_i next slot _ attaching
      rw [attaching] at made
      split
      · exact made
      · exact made.append (connectDetach_draws next caller slot stale deleted)

theorem registerPipe_draws (s : State cfg) (caller : Pid) (idx : Fin cfg.channels)
    (n readSlot writeSlot : Nat) (counted : n < s.pipes)
    (unused : ∀ write k r, s.tables.rows k = some r → r.source ≠ .pipe n write) :
    Draws s.tables [.pipe n false,.pipe n true] (s.registerPipe caller idx n readSlot writeSlot).tables := by
  have first := connectionRegisterExisting_draws s caller readSlot idx (.pipe n false) 0
    (fun _ _ => counted) (.inr (unused false))
  refine first.append (connectionRegisterExisting_draws _ caller writeSlot idx (.pipe n true) 0 ?_ (.inr ?_))
  all_goals
    rcases connectionRegisterExisting_cases s caller readSlot idx (.pipe n false) 0
      with same | ⟨c,j,-,added⟩
  · rw [same]
    exact fun _ _ => counted
  · rw [added]
    exact fun _ _ => counted
  · rw [same]
    exact unused true
  · rw [added]
    intro k r used
    rcases Slab.put_cases used with ⟨-,rfl⟩ | old
    · simp
    · exact unused true k r old

theorem pipeCreate_draws (wf : Wf s.tables) (caller : Pid) (server : Option (Pid × BitVec 32))
    (stale : Nat) (readMinted writeMinted : Bool) :
    Draws s.tables [.pipe s.pipes false,.pipe s.pipes true]
      (s.pipeCreate caller server stale readMinted writeMinted).1.tables := by
  unfold pipeCreate
  split
  · exact .refl ..
  · split
    · exact .refl ..
    · split
      · exact .refl ..
      · have first := (processAllocSlot_quiet s.allocPipe caller).tables
        have second := (processAllocSlot_quiet (s.allocPipe.processAllocSlot caller).1 caller).tables.trans first
        have counted : Draws s.tables [] s.allocPipe.tables := Move.draws .pipe
        dsimp only
        split
        · rw [second]
          exact counted.mono (List.nil_sublist _)
        · rename_i half readEnd
          have one := (mint_tables readEnd).trans second
          split
          · rw [one]
            exact counted.mono (List.nil_sublist _)
          · rename_i full writeEnd
            have two := (mint_tables writeEnd).trans one
            rw [← two] at counted
            refine counted.append (registerPipe_draws full caller _ s.pipes _ _ ?_ ?_)
            · have same : full.pipes = s.pipes + 1 := congrArg Tables.pipes two
              omega
            · intro write
              rw [two]
              exact wf.pipe_unused write

theorem connectionRegisterExisting_scoids (s : State cfg) (pid : Pid) (slot : Nat)
    (idx : Fin cfg.channels) (σ : Source) (flags : BitVec 32) :
    (s.connectionRegisterExisting pid slot idx σ flags).1.scoids = s.scoids := by
  rcases connectionRegisterExisting_cases s pid slot idx σ flags with same | ⟨c,j,-,added⟩
  · exact congrArg Tables.scoids same
  · exact congrArg Tables.scoids added

theorem spawnStdio_draws (wf : Wf s.tables) (pid : Pid) (cnode : Nat) (idx : Fin cfg.channels)
    (master : Object) (slots : List (Nat × Bool)) :
    Draws s.tables (scoidsFrom s.scoids slots.length) (s.spawnStdio pid cnode idx master slots).1.tables := by
  induction slots generalizing s with
  | nil => exact .refl ..
  | cons head rest ih =>
    obtain ⟨slot,minted⟩ := head
    have drawn : Draws s.tables [] s.allocScoid.1.tables := Move.draws .scoid
    rw [spawnStdio]
    split
    · exact drawn.mono (List.nil_sublist _)
    · rename_i held minting
      have kept := mint_tables minting
      have added := connectionRegisterExisting_draws held pid slot idx (.scoid s.scoids) 0
        (fun _ _ => by
          rw [kept]
          exact Nat.lt_succ_self s.scoids)
        (.inr (by
          rw [kept]
          exact wf.scoid_unused))
      rw [← kept] at drawn
      have first := drawn.append added
      split
      · rename_i registering
        rw [registering] at first
        exact first.mono (List.singleton_sublist.mpr List.mem_cons_self)
      · rename_i next _ registering
        have count : next.scoids = s.scoids + 1 := by
          have same := connectionRegisterExisting_scoids held pid slot idx (.scoid s.scoids) 0
          rw [registering] at same
          exact same.trans (congrArg Tables.scoids kept)
        rw [registering] at first
        have later := ih (first.wf wf)
        rw [count] at later
        exact first.append later

theorem channelFind_primary (found : s.channelFind pidTaskman 1 = some (idx,c)) :
    s.tables.channels idx = some c ∧ c.Primary := by
  obtain ⟨live,hit⟩ := Slab.find_some found
  have plain : isGlobal cfg 1 = false := by
    simpa [isGlobal] using cfg.plain
  simp only [Channel.matches,plain,Bool.false_or,Bool.and_eq_true,beq_iff_eq] at hit
  exact ⟨live,hit.2,hit.1⟩

theorem spawnRegister_draws (s : State cfg) (pid : Pid) (cnode : Nat) (objects : Bool) :
    Draws s.tables [.sysmgr pid] (s.spawnRegister pid cnode objects).1.tables := by
  have recorded := (processRegister_quiet s pid cnode capWellKnownEnd).tables
  unfold spawnRegister
  split
  · rename_i registering
    rw [registering] at recorded
    rw [recorded]
    exact .refl ..
  · rename_i next _ registering
    rw [registering] at recorded
    split
    · rw [recorded]
      exact .refl ..
    · rename_i primary c found
      obtain ⟨live,is⟩ := channelFind_primary found
      have added := connectionRegisterExisting_draws next pid capTaskmanEp primary (.sysmgr pid) 0
        (fun _ _ => ⟨rfl,c,live,is⟩) (.inl ⟨pid,rfl⟩)
      rw [recorded] at added
      split
      · rename_i connecting
        rw [connecting] at added
        exact added
      · rename_i connecting
        rw [connecting] at added
        split <;> exact added

theorem spawn_draws (wf : Wf s.tables) (pid : Pid) (k : SpawnKernel) :
    Draws s.tables (scoidsFrom s.scoids 3 ++ [.sysmgr pid]) (s.spawn pid k).1.tables := by
  unfold spawn
  split
  · exact .refl ..
  · split
    · exact .refl ..
    · rename_i held minting
      have minted := mint_tables minting
      have kept : held.tables = s.tables := minted
      split
      · rw [kept]
        exact .refl ..
      · split
        · rw [kept]
          exact .refl ..
        · rename_i idx ch _
          have loop := spawnStdio_draws (s := held) (kept ▸ wf) pid s.spawned idx ch.master
            [(capStdinConnect,k.stdin),(capStdoutConnect,k.stdout),(capStderrConnect,k.stderr)]
          rw [kept,show held.scoids = s.scoids from congrArg Tables.scoids kept] at loop
          split
          · rename_i looping
            rw [looping] at loop
            exact loop.mono (List.sublist_append_left _ _)
          · rename_i stdio _ looping
            rw [looping] at loop
            split
            · exact loop.mono (List.sublist_append_left _ _)
            · exact loop.append (spawnRegister_draws (stdio.setFault s.spawned pid) pid s.spawned k.objects)

theorem loadImage_draws (wf : Wf s.tables) (image : Image) :
    Draws s.tables (image.draws s) (s.loadImage image).1.tables := by
  cases image with
  | absent => exact .refl ..
  | archive => exact .refl ..
  | mounted server chid k read deleted =>
    have made := connectAttach_draws wf pidTaskman server chid 0 0 k
    rw [loadImage]
    split
    · rename_i attaching
      rw [attaching] at made
      exact made
    · rename_i next slot _ attaching
      rw [attaching] at made
      exact made.append (connectDetach_draws next pidTaskman slot 0 deleted)

theorem processCreateByName_draws (wf : Wf s.tables) (k : SpawnKernel) :
    Draws s.tables (k.image.draws s ++ (s.loadImage k.image).1.spawnDraws)
      (s.processCreateByName k).1.tables := by
  have image := loadImage_draws wf k.image
  have whole := image.mono (List.sublist_append_left _ (s.loadImage k.image).1.spawnDraws)
  unfold processCreateByName
  split
  · rename_i loading
    rw [loading] at whole
    simpa [loading] using whole
  · rename_i loaded _ loading
    rw [loading] at image whole
    split
    · simpa [loading] using whole
    · rename_i issued pid allocating
      have same := (pidAlloc_quiet allocating).tables
      have sources : (s.loadImage k.image).1.spawnDraws = scoidsFrom issued.scoids 3 ++ [.sysmgr pid] := by
        rw [loading,spawnDraws]
        simp only [allocating]
        rw [show issued.scoids = loaded.scoids from congrArg Tables.scoids same]
      rw [sources]
      rw [← same] at image
      split
      · rw [(pidFree_quiet issued pid).tables]
        exact image.mono (List.sublist_append_left _ _)
      · have child := image.append (spawn_draws (image.wf wf) pid k)
        split
        · rename_i spawning
          rw [spawning] at child
          rw [(pidFree_quiet _ pid).tables]
          exact child
        · rename_i spawning
          rw [spawning] at child
          exact child

theorem processCreate_draws (wf : Wf s.tables) (caller : Pid) (k : SpawnKernel) :
    Draws s.tables (k.image.draws s ++ (s.loadImage k.image).1.spawnDraws)
      (s.processCreate caller k).1.tables := by
  have child := processCreateByName_draws wf k
  unfold processCreate
  split
  · rename_i creating
    rw [creating] at child
    exact child
  · rename_i spawned pid creating
    rw [creating] at child
    rw [(processSetParent_quiet spawned pid caller).tables]
    exact child

theorem teardown_tables (s : State cfg) (i : Fin maxProcesses) (p : Process) (status : BitVec 32) :
    (s.teardown i p status).tables = s.tables.teardown p.pid := by
  have bare : (((s.endProcess i p status).dropChannels p.pid).connectionsDropForPid p.pid).tables =
      s.tables.teardown p.pid := rfl
  unfold teardown
  dsimp only
  split
  · rw [(reap_quiet _ i p.pid).tables,releaseSpace_tables,bare]
  · rw [releaseSpace_tables,bare]

theorem processTerminate_tables (s : State cfg) (target : Pid) (status : BitVec 32) :
    (s.processTerminate target status).1.tables = s.tables ∨
      (s.tearsDown target = true ∧
        (s.processTerminate target status).1.tables = s.tables.teardown target) := by
  unfold processTerminate
  split
  · exact .inl rfl
  · rename_i other
    split
    · exact .inl rfl
    · rename_i i p found
      split
      · exact .inl rfl
      · rename_i live
        right
        have pid : p.pid = target := by simpa using (Slab.find_some found).2
        have exit : p.exit = .live := by simpa using live
        refine ⟨by simp [tearsDown,found,exit,other],?_⟩
        rw [teardown_tables,pid]

theorem dispatch_draws (wf : Wf s.tables) (caller : Pid) (badge : Word) (stale : Nat) (r : Request)
    (stays : ∀ target status, r ≠ .processTerminate target status) :
    Draws s.tables (r.draws s) (s.dispatch caller badge stale r).tables := by
  cases r with
  | channelCreate chid flags k => exact channelCreate_draws ..
  | channelDestroy recv revoked => exact channelDestroy_draws ..
  | connectAttach pid chid flags k => exact connectAttach_draws wf ..
  | connectDetach slot deleted => exact connectDetach_draws ..
  | connectFlags slot mask bits => exact connectFlags_draws ..
  | openPath server k opened deleted => exact ioOpen_draws wf ..
  | pipeCreate server readMinted writeMinted => exact pipeCreate_draws wf ..
  | dupCap src dst copied => exact dupCap_draws ..
  | processCreate k => exact processCreate_draws wf ..
  | processTerminate target status => exact absurd rfl (stays target status)
  | processDetach status =>
    rw [dispatch,(processDetach_quiet s caller status).tables]
    exact .refl ..
  | waitpid child parked =>
    rw [dispatch,(processWaitpid_quiet s caller child parked).tables]
    exact .refl ..
  | io ctx =>
    rw [dispatch,(connectionSetCtx_quiet s badge ctx).tables]
    exact .refl ..
  | claim =>
    rw [dispatch,(processAllocSlot_quiet s caller).tables]
    exact .refl ..
  | other => exact .refl ..

end State

/-- What a step does to the tables: the request's path, or the teardown it asked for. -/
theorem step_tables (wf : Wf s.tables) (taken : step s e = some t) :
    Draws s.tables (e.draws s) t.tables ∨
      ∃ pid, e.target s = some pid ∧ s.tearsDown pid = true ∧ t.tables = s.tables.teardown pid := by
  cases e with
  | message i slot stale r =>
    simp only [step] at taken
    split at taken
    · rename_i c cap
      split at taken
      · obtain rfl := Option.some.inj taken
        rw [State.receive]
        split
        · rename_i pid arrives
          rcases State.processTerminate_tables s pid sigSegv with same | torn
          · left
            rw [State.handleFault,same]
            exact .refl ..
          · exact .inr ⟨pid,by simp [Event.target,cap,arrives],torn⟩
        · rename_i caller arrives
          by_cases ends : ∃ target status, r = .processTerminate target status
          · obtain ⟨target,status,rfl⟩ := ends
            rcases State.processTerminate_tables s (terminateTarget caller target) status with same | torn
            · left
              rw [State.dispatch,same]
              exact .refl ..
            · exact .inr ⟨terminateTarget caller target,by simp [Event.target,cap,arrives],torn⟩
          · left
            have sources : Event.draws s (.message i slot stale r) = r.draws s := by
              simp [Event.draws,cap,arrives]
            rw [sources]
            exact State.dispatch_draws wf caller c.badge stale r fun target status same =>
              ends ⟨target,status,same⟩
      · cases taken
    · cases taken
  | fault i =>
    simp only [step] at taken
    split at taken
    · rename_i c cap
      split at taken
      · obtain rfl := Option.some.inj taken
        rw [State.receive]
        split
        · rename_i pid arrives
          rcases State.processTerminate_tables s pid sigSegv with same | torn
          · left
            rw [State.handleFault,same]
            exact .refl ..
          · exact .inr ⟨pid,by simp [Event.target,cap,arrives],torn⟩
        · exact .inl (.refl ..)
      · cases taken
    · cases taken
  | copy i src dst =>
    simp only [step] at taken
    split at taken
    · left
      rw [State.copyCap_tables taken]
      exact .refl ..
    · cases taken
  | delete i slot =>
    simp only [step] at taken
    split at taken
    · obtain rfl := Option.some.inj taken
      left
      rw [State.deleteCap_tables]
      exact .refl ..
    · cases taken

theorem tearsDown_other (torn : s.tearsDown pid = true) : pid ≠ pidTaskman := by
  simp only [State.tearsDown,Bool.and_eq_true,bne_iff_ne] at torn
  exact torn.1

theorem step_wf (s : State cfg) (e : Event) (t : State cfg) (wf : Wf s.tables) (taken : step s e = some t) :
    Wf t.tables := by
  rcases step_tables wf taken with path | ⟨pid,-,torn,gone⟩
  · exact path.wf wf
  · rw [gone]
    exact wf.teardown (tearsDown_other torn)

theorem registerBoot_draws (registered : registerBoot s chids = some t) :
    Draws s.tables [] t.tables := by
  induction chids generalizing s with
  | nil =>
    obtain rfl := Option.some.inj registered
    exact .refl ..
  | cons chid rest ih =>
    have added := State.channelRegisterExisting_draws s pidTaskman chid .primary cfg.primaryEp
    rw [registerBoot] at registered
    split at registered
    · cases registered
    · rename_i adding
      rw [adding] at added
      exact added.append (ih registered)

theorem init_wf (cfg : Config) : Wf (State.init cfg).tables where
  number := by simp [State.init,State.tables]
  counted := by simp [State.init,State.tables]
  same := by simp [State.init,State.tables]
  keys := by simp [State.init,State.tables]

theorem boot_draws (booted : boot cfg = some s) : ∃ l, Draws (State.init cfg).tables l s.tables := by
  obtain ⟨registered,registering,rest⟩ := Option.bind_eq_some_iff.mp booted
  obtain ⟨⟨issued,pid⟩,allocating,spawning⟩ := Option.bind_eq_some_iff.mp rest
  have first := registerBoot_draws registering
  rw [← (State.pidAlloc_quiet allocating).tables] at first
  have second := first.append (State.spawn_draws (first.wf (init_wf cfg)) pid bootSpawn)
  dsimp only at spawning
  split at spawning
  · cases spawning
  · rename_i done
    obtain rfl := Option.some.inj spawning
    rw [done] at second
    exact ⟨_,second⟩

theorem boot_wf (booted : boot cfg = some s) : Wf s.tables := by
  obtain ⟨l,path⟩ := boot_draws booted
  exact path.wf (init_wf cfg)

end Qsoe.Taskman
