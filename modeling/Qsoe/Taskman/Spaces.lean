import Qsoe.Taskman.Pids

/-! What a CSpace can come to hold. Taskman changes a CSpace by minting caps of a few kinds,
by deleting and revoking, and by setting its fault handler once; a process can copy and
delete. A property of single CSpaces that each of these keeps holds in every state. -/
namespace Qsoe.Taskman

variable {cfg : Config} {s t : State cfg} {Q : Space → Prop}

/-- What taskman has minted into the CSpace of `pid`. -/
structure Cap.Sound (pid : Pid) (c : Cap) : Prop where
  number : ∀ σ, c.source = some σ → c.badge = σ.badge
  own : ∀ p, c.source = some (.sysmgr p) → p = pid
  request : ∀ p, c.source ≠ some (.fault p)
  primary : c.object = .primary → ∃ σ, c.source = some σ

theorem Cap.Sound.scoid (pid : Pid) (o : Object) (n : Nat) :
    Cap.Sound pid ⟨o,BitVec.ofNat 64 (n + 1),some (.scoid n)⟩ := by
  constructor <;> simp [Source.badge]

theorem Cap.Sound.pipe (pid : Pid) (o : Object) (n : Nat) (write : Bool) :
    Cap.Sound pid ⟨o,(Source.pipe n write).badge,some (.pipe n write)⟩ := by
  constructor <;> simp

theorem Cap.Sound.sysmgr (pid : Pid) (o : Object) :
    Cap.Sound pid ⟨o,(Source.sysmgr pid).badge,some (.sysmgr pid)⟩ := by
  constructor <;> simp

theorem Cap.Sound.unbadged (pid : Pid) (o : Object) (other : o ≠ .primary) :
    Cap.Sound pid ⟨o,0,none⟩ := by
  constructor <;> simp [other]

structure Stable (Q : Space → Prop) : Prop where
  caps : ∀ sp caps, Q sp → (∀ slot c, caps slot = some c → (∃ k, sp.caps k = some c) ∨ c.Sound sp.pid) →
    Q { sp with caps := caps }
  muted : ∀ sp keep, Q sp → Q { sp with fault := sp.fault.filter keep }
  faulting : ∀ sp, Q sp →
    Q { sp with fault := some ⟨.primary,(Source.fault sp.pid).badge,some (.fault sp.pid)⟩ }

structure Holds (Q : Space → Prop) (s : State cfg) : Prop where
  stable : Stable Q
  space : ∀ i sp, s.spaces i = some sp → Q sp

theorem Holds.of_spaces (holds : Holds Q s) (same : t.spaces = s.spaces) : Holds Q t := by
  refine ⟨holds.stable,?_⟩
  intro i sp used
  rw [same] at used
  exact holds.space i sp used

theorem Quiet.holds (quiet : Quiet s t) (holds : Holds Q s) : Holds Q t :=
  holds.of_spaces quiet.spaces

theorem Holds.setSpace (holds : Holds Q s) (i : Nat) (sp : Space) (kept : Q sp) :
    Holds Q (s.setSpace i (some sp)) := by
  refine ⟨holds.stable,?_⟩
  intro k sp' used
  rcases eq_or_ne k i with rfl | other
  · obtain rfl : sp = sp' := by simpa [State.setSpace] using used
    exact kept
  · exact holds.space k sp' (by simpa [State.setSpace,other] using used)

namespace State

theorem mint_holds (holds : Holds Q s)
    (sound : ∀ sp, s.spaces cnode = some sp → (∃ k, sp.caps k = some c) ∨ c.Sound sp.pid)
    (minted : s.mint cnode slot c granted = some t) : Holds Q t := by
  unfold mint at minted
  split at minted
  · rename_i sp used
    split at minted
    · obtain rfl := Option.some.inj minted
      apply holds.setSpace
      apply holds.stable.caps sp _ (holds.space cnode sp used)
      intro k d there
      rcases eq_or_ne k slot with rfl | other
      · obtain rfl : c = d := by simpa using there
        exact sound sp used
      · exact .inl ⟨k,by simpa [other] using there⟩
    · cases minted
  · cases minted

theorem deleteCap_holds (holds : Holds Q s) (cnode slot : Nat) : Holds Q (s.deleteCap cnode slot) := by
  unfold deleteCap
  split
  · rename_i sp used
    apply holds.setSpace
    apply holds.stable.caps sp _ (holds.space cnode sp used)
    intro k d there
    rcases eq_or_ne k slot with rfl | other
    · simp at there
    · exact .inl ⟨k,by simpa [other] using there⟩
  · exact holds

theorem copyCap_holds (holds : Holds Q s) (copied : s.copyCap cnode src dst granted = some t) :
    Holds Q t := by
  unfold copyCap at copied
  split at copied
  · rename_i c found
    obtain ⟨sp,used,there⟩ := Option.bind_eq_some_iff.mp found
    apply mint_holds holds _ copied
    intro sp' used'
    obtain rfl : sp = sp' := by simpa [used] using used'
    exact .inl ⟨src,there⟩
  · cases copied

theorem revoke_holds (holds : Holds Q s) (gone : Object → Bool) : Holds Q (s.revoke gone) := by
  refine ⟨holds.stable,?_⟩
  intro i sp used
  obtain ⟨old,used',rfl⟩ := Option.map_eq_some_iff.mp used
  have muted := holds.stable.muted old (fun c => !gone c.object) (holds.space i old used')
  refine holds.stable.caps { old with fault := old.fault.filter fun c => !gone c.object } _ muted ?_
  intro slot c there
  exact .inl ⟨slot,(Option.filter_eq_some_iff.mp there).1⟩

theorem destroySpace_holds (holds : Holds Q s) (i : Nat) : Holds Q (s.destroySpace i) := by
  refine ⟨holds.stable,?_⟩
  intro k sp used
  rcases eq_or_ne k i with rfl | other
  · simp [destroySpace,setSpace] at used
  · exact holds.space k sp (by simpa [destroySpace,setSpace,other] using used)

theorem newSpace_holds (holds : Holds Q s) (fresh : Q ⟨pid,fun _ => none,none⟩) : Holds Q (s.newSpace pid) := by
  have made := holds.setSpace s.spawned ⟨pid,fun _ => none,none⟩ fresh
  exact made.of_spaces rfl

theorem setFault_holds (holds : Holds Q s) (own : ∀ sp, s.spaces cnode = some sp → sp.pid = pid) :
    Holds Q (s.setFault cnode pid) := by
  refine ⟨holds.stable,?_⟩
  intro k sp used
  rcases eq_or_ne k cnode with rfl | other
  · obtain ⟨old,used',rfl⟩ : ∃ old, s.spaces k = some old ∧ _ = sp := by simpa [setFault] using used
    rw [← own old used']
    exact holds.stable.faulting old (holds.space k old used')
  · exact holds.space k sp (by simpa [setFault,other] using used)

theorem mint_owner (minted : s.mint cnode slot c granted = some t) (own : ∀ sp, s.spaces i = some sp →
    sp.pid = pid) :
    ∀ sp, t.spaces i = some sp → sp.pid = pid := by
  unfold mint at minted
  split at minted
  · rename_i old used
    split at minted
    · obtain rfl := Option.some.inj minted
      intro sp there
      rcases eq_or_ne i cnode with rfl | other
      · obtain rfl : _ = sp := by simpa [setSpace] using there
        exact own old used
      · exact own sp (by simpa [setSpace,other] using there)
    · cases minted
  · cases minted

@[simp] theorem connectionRegisterExisting_spaces (s : State cfg) (pid : Pid) (slot : Nat)
    (idx : Fin cfg.channels) (σ : Source) (flags : BitVec 32) :
    (s.connectionRegisterExisting pid slot idx σ flags).1.spaces = s.spaces := by
  unfold connectionRegisterExisting
  split
  · rfl
  · split <;> rfl

@[simp] theorem connectionCloneForDup_spaces (s : State cfg) (pid : Pid) (src dst : Nat) :
    (s.connectionCloneForDup pid src dst).1.spaces = s.spaces := by
  unfold connectionCloneForDup
  split
  · rfl
  · split <;> rfl

theorem shareNtfn_holds (holds : Holds Q s) (client : Pid) (cnode : Nat) (ch : Channel) (shared : Bool) :
    Holds Q (s.shareNtfn client cnode ch shared).1 := by
  unfold shareNtfn
  split
  · exact holds
  · split
    · exact holds
    · have drawn := (processAllocSlot_quiet s client).holds holds
      dsimp only
      split
      · exact drawn
      · rename_i minted
        exact mint_holds drawn (fun sp _ => .inr <| .unbadged sp.pid _ (by simp)) minted

theorem channelCreate_holds (holds : Holds Q s) (owner : Pid) (chid flags : BitVec 32) (stale : Nat)
    (k : CreateKernel) : Holds Q (s.channelCreate owner chid flags stale k).1 := by
  unfold channelCreate
  split
  · exact holds
  · have named := (assignChid_quiet s chid flags).holds holds
    dsimp only
    split
    · exact named
    · split
      · exact named
      · split
        · exact named
        · have drawn := (processAllocSlot_quiet (s.assignChid chid flags).1 owner).holds named
          split
          · exact drawn
          · rename_i minted
            have held := mint_holds drawn (fun sp _ => .inr <| .unbadged sp.pid _ (by simp)) minted
            exact held.of_spaces rfl

theorem connectAttach_holds (holds : Holds Q s) (client target : Pid) (chid flags : BitVec 32)
    (stale : Nat) (k : AttachKernel) : Holds Q (s.connectAttach client target chid flags stale k).1 := by
  unfold connectAttach
  split
  · exact holds
  · split
    · exact holds
    · split
      · exact holds
      · have slot := (processAllocSlot_quiet s client).holds holds
        have badge : Holds Q (s.processAllocSlot client).1.allocScoid.1 := slot.of_spaces rfl
        have same : (s.processAllocSlot client).1.scoids = s.scoids :=
          congrArg Tables.scoids (processAllocSlot_quiet s client).tables
        dsimp only
        split
        · exact badge
        · rename_i minted
          have held := mint_holds badge (fun sp _ => by
            simpa [allocScoid,same] using Or.inr (Cap.Sound.scoid sp.pid _ s.scoids)) minted
          exact (shareNtfn_holds held ..).of_spaces rfl

theorem connectDetach_holds (holds : Holds Q s) (client : Pid) (slot stale : Nat) (deleted : Bool) :
    Holds Q (s.connectDetach client slot stale deleted).1 := by
  unfold connectDetach
  split
  · exact holds
  · split
    · exact holds
    · split
      · exact holds
      · dsimp only
        split
        · exact (deleteCap_holds (deleteCap_holds holds ..) ..).of_spaces rfl
        · exact (deleteCap_holds holds ..).of_spaces rfl

theorem connectFlags_holds (holds : Holds Q s) (pid : Pid) (slot : Nat) (mask bits : BitVec 32) :
    Holds Q (s.connectFlags pid slot mask bits).1 := by
  unfold connectFlags
  split
  · exact holds
  · split
    · exact holds
    · exact holds.of_spaces rfl

theorem muteNtfn_holds (holds : Holds Q s) (idx : Fin cfg.channels) (c : Channel) :
    Holds Q (s.muteNtfn idx c) := by
  unfold muteNtfn
  split
  · exact holds
  · rename_i n _
    exact (revoke_holds holds (· == .notification n)).of_spaces rfl

theorem channelDestroy_holds (holds : Holds Q s) (owner : Pid) (recv : Nat) (revoked : Bool) :
    Holds Q (s.channelDestroy owner recv revoked).1 := by
  unfold channelDestroy
  split
  · exact holds
  · rename_i idx c _
    have muted := muteNtfn_holds holds idx c
    dsimp only
    split
    · exact muted
    · exact (revoke_holds muted (· == c.master)).of_spaces rfl

theorem releaseSpace_holds (holds : Holds Q s) (space : Option Nat) : Holds Q (s.releaseSpace space) := by
  cases space with
  | none => exact holds
  | some i => exact destroySpace_holds holds i

theorem dropChannels_holds (holds : Holds Q s) (pid : Pid) : Holds Q (s.dropChannels pid) :=
  (revoke_holds holds fun o => (Slab.find s.channels (Channel.owns pid o)).isSome).of_spaces rfl

theorem teardown_holds (holds : Holds Q s) (i : Fin maxProcesses) (p : Process) (status : BitVec 32) :
    Holds Q (s.teardown i p status) := by
  have ended : Holds Q (s.endProcess i p status) := holds.of_spaces rfl
  have bare : Holds Q (((s.endProcess i p status).dropChannels p.pid).connectionsDropForPid p.pid) :=
    (dropChannels_holds ended p.pid).of_spaces rfl
  have freed := releaseSpace_holds bare p.space
  unfold teardown
  dsimp only
  split
  · exact (reap_quiet _ i p.pid).holds freed
  · exact freed

theorem processTerminate_holds (holds : Holds Q s) (target : Pid) (status : BitVec 32) :
    Holds Q (s.processTerminate target status).1 := by
  unfold processTerminate
  split
  · exact holds
  · split
    · exact holds
    · split
      · exact holds
      · exact teardown_holds holds ..

theorem dupCap_holds (holds : Holds Q s) (caller : Pid) (src dst stale : Nat) (copied : Bool) :
    Holds Q (s.dupCap caller src dst stale copied).1 := by
  unfold dupCap
  split
  · exact holds
  · split
    · exact holds
    · split
      · exact holds
      · split
        · exact holds
        · rename_i held copying
          have kept := copyCap_holds holds copying
          have cloned := kept.of_spaces (connectionCloneForDup_spaces held caller src dst)
          split
          · rename_i cloning
            rw [cloning] at cloned
            exact deleteCap_holds cloned ..
          · rename_i cloning
            rw [cloning] at cloned
            exact cloned

theorem pipeCreate_holds (holds : Holds Q s) (caller : Pid) (server : Option (Pid × BitVec 32))
    (stale : Nat) (readMinted writeMinted : Bool) :
    Holds Q (s.pipeCreate caller server stale readMinted writeMinted).1 := by
  unfold pipeCreate
  split
  · exact holds
  · split
    · exact holds
    · split
      · exact holds
      · have counted : Holds Q s.allocPipe := holds.of_spaces rfl
        have first := (processAllocSlot_quiet s.allocPipe caller).holds counted
        have second := (processAllocSlot_quiet _ caller).holds first
        dsimp only
        split
        · exact second
        · rename_i readEnd
          have half := mint_holds second (fun sp _ => .inr <| .pipe sp.pid _ s.pipes false) readEnd
          split
          · exact half
          · rename_i writeEnd
            have full := mint_holds half (fun sp _ => .inr <| .pipe sp.pid _ s.pipes true) writeEnd
            exact full.of_spaces (by simp [registerPipe])

theorem ioOpen_holds (holds : Holds Q s) (caller : Pid) (server : Option (Pid × BitVec 32)) (stale : Nat)
    (k : AttachKernel) (opened deleted : Bool) :
    Holds Q (s.ioOpen caller server stale k opened deleted).1 := by
  unfold ioOpen
  split
  · exact holds
  · rename_i pid chid
    have made := connectAttach_holds holds caller pid chid 0 stale k
    split
    · rename_i attaching
      rw [attaching] at made
      exact made
    · rename_i attaching
      rw [attaching] at made
      split
      · exact made
      · exact connectDetach_holds made ..

theorem spawnStdio_holds (holds : Holds Q s) (pid : Pid) (cnode : Nat) (idx : Fin cfg.channels)
    (master : Object) (slots : List (Nat × Bool)) :
    Holds Q (s.spawnStdio pid cnode idx master slots).1 := by
  induction slots generalizing s with
  | nil => exact holds
  | cons head rest ih =>
    obtain ⟨slot,minted⟩ := head
    have drawn : Holds Q s.allocScoid.1 := holds.of_spaces rfl
    rw [spawnStdio]
    split
    · exact drawn
    · rename_i held minting
      have kept := mint_holds drawn (fun sp _ => .inr <| .scoid sp.pid _ s.scoids) minting
      have added := kept.of_spaces
        (connectionRegisterExisting_spaces held pid slot idx (.scoid s.scoids) 0)
      split
      · rename_i registering
        rw [registering] at added
        exact added
      · rename_i registering
        rw [registering] at added
        exact ih added

theorem spawnStdio_owner (pid : Pid) (cnode : Nat) (idx : Fin cfg.channels) (master : Object)
    (slots : List (Nat × Bool)) (own : ∀ sp, s.spaces cnode = some sp → sp.pid = pid) :
    ∀ sp, (s.spawnStdio pid cnode idx master slots).1.spaces cnode = some sp → sp.pid = pid := by
  induction slots generalizing s with
  | nil => exact own
  | cons head rest ih =>
    rw [spawnStdio]
    split
    · exact own
    · rename_i held minting
      have added : ∀ sp, (held.connectionRegisterExisting pid head.1 idx (.scoid s.scoids) 0).1.spaces cnode =
          some sp → sp.pid = pid := by
        rw [connectionRegisterExisting_spaces]
        exact mint_owner minting own
      split
      · rename_i registering
        rw [registering] at added
        exact added
      · rename_i registering
        rw [registering] at added
        exact ih added

theorem spawnRegister_holds (holds : Holds Q s) (pid : Pid) (cnode : Nat) (objects : Bool) :
    Holds Q (s.spawnRegister pid cnode objects).1 := by
  have recorded := (processRegister_quiet s pid cnode capWellKnownEnd).holds holds
  unfold spawnRegister
  split
  · rename_i registering
    rw [registering] at recorded
    exact recorded
  · rename_i next _ registering
    rw [registering] at recorded
    split
    · exact recorded
    · rename_i primary _ _
      have added := recorded.of_spaces
        (connectionRegisterExisting_spaces next pid capTaskmanEp primary (.sysmgr pid) 0)
      split
      · rename_i connecting
        rw [connecting] at added
        exact added
      · rename_i connecting
        rw [connecting] at added
        split <;> exact added

theorem spawn_holds (holds : Holds Q s) (k : SpawnKernel) (fresh : Q ⟨pid,fun _ => none,none⟩) :
    Holds Q (s.spawn pid k).1 := by
  have made := newSpace_holds holds fresh
  have own : ∀ sp, (s.newSpace pid).spaces s.spawned = some sp → sp.pid = pid := by
    intro sp used
    obtain rfl : _ = sp := by simpa [newSpace,setSpace] using used
    rfl
  unfold spawn
  split
  · exact holds
  · split
    · exact made
    · rename_i held minting
      have kept := mint_holds made (fun sp used => .inr (own sp used ▸ .sysmgr sp.pid _)) minting
      split
      · exact kept
      · split
        · exact kept
        · rename_i idx ch _
          have stdio := spawnStdio_holds kept pid s.spawned idx ch.master
            [(capStdinConnect,k.stdin),(capStdoutConnect,k.stdout),(capStderrConnect,k.stderr)]
          have owned := spawnStdio_owner pid s.spawned idx ch.master
            [(capStdinConnect,k.stdin),(capStdoutConnect,k.stdout),(capStderrConnect,k.stderr)]
            (mint_owner minting own)
          split
          · rename_i looping
            rw [looping] at stdio
            exact stdio
          · rename_i looping
            rw [looping] at stdio owned
            split
            · exact stdio
            · exact spawnRegister_holds (setFault_holds stdio owned) ..

theorem loadImage_holds (holds : Holds Q s) (image : Image) : Holds Q (s.loadImage image).1 := by
  unfold loadImage
  split
  · exact holds
  · exact holds
  · rename_i server chid k read deleted
    have made := connectAttach_holds holds pidTaskman server chid 0 0 k
    split
    · rename_i attaching
      rw [attaching] at made
      exact made
    · rename_i attaching
      rw [attaching] at made
      exact connectDetach_holds made ..

theorem processCreateByName_holds (holds : Holds Q s) (k : SpawnKernel)
    (fresh : ∀ r pid, s.roster.issue = some (r,pid) → Q ⟨pid,fun _ => none,none⟩) :
    Holds Q (s.processCreateByName k).1 := by
  have image := loadImage_holds holds k.image
  have same := loadImage_roster s k.image
  unfold processCreateByName
  split
  · rename_i loading
    rw [loading] at image
    exact image
  · rename_i loaded _ loading
    rw [loading] at image same
    split
    · exact image
    · rename_i issued pid allocating
      have fresh' := fresh issued.roster pid (by rw [← same,pidAlloc_roster,allocating]; rfl)
      have drawn := (pidAlloc_quiet allocating).holds image
      split
      · exact (pidFree_quiet issued pid).holds drawn
      · have child := spawn_holds drawn k fresh'
        split
        · rename_i failed _ spawning
          rw [spawning] at child
          exact (pidFree_quiet _ pid).holds (destroySpace_holds child _)
        · rename_i spawning
          rw [spawning] at child
          exact child

theorem processCreate_holds (holds : Holds Q s) (caller : Pid) (k : SpawnKernel)
    (fresh : ∀ r pid, s.roster.issue = some (r,pid) → Q ⟨pid,fun _ => none,none⟩) :
    Holds Q (s.processCreate caller k).1 := by
  have child := processCreateByName_holds holds k fresh
  unfold processCreate
  split
  · rename_i creating
    rw [creating] at child
    exact child
  · rename_i spawned pid creating
    rw [creating] at child
    exact (processSetParent_quiet spawned pid caller).holds child

theorem dispatch_holds (holds : Holds Q s) (caller : Pid) (badge : Word) (stale : Nat) (r : Request)
    (fresh : ∀ r pid, s.roster.issue = some (r,pid) → Q ⟨pid,fun _ => none,none⟩) :
    Holds Q (s.dispatch caller badge stale r) := by
  cases r with
  | channelCreate chid flags k => exact channelCreate_holds holds ..
  | channelDestroy recv revoked => exact channelDestroy_holds holds ..
  | connectAttach pid chid flags k => exact connectAttach_holds holds ..
  | connectDetach slot deleted => exact connectDetach_holds holds ..
  | connectFlags slot mask bits => exact connectFlags_holds holds ..
  | openPath server k opened deleted => exact ioOpen_holds holds ..
  | pipeCreate server readMinted writeMinted => exact pipeCreate_holds holds ..
  | dupCap src dst copied => exact dupCap_holds holds ..
  | processCreate k => exact processCreate_holds holds caller k fresh
  | processTerminate target status => exact processTerminate_holds holds ..
  | processDetach status => exact (processDetach_quiet s caller status).holds holds
  | waitpid child parked => exact (processWaitpid_quiet s caller child parked).holds holds
  | io ctx => exact (connectionSetCtx_quiet s badge ctx).holds holds
  | claim => exact (processAllocSlot_quiet s caller).holds holds
  | other => exact holds

theorem receive_holds (holds : Holds Q s) (badge : Word) (stale : Nat) (r : Request)
    (fresh : ∀ r pid, s.roster.issue = some (r,pid) → Q ⟨pid,fun _ => none,none⟩) :
    Holds Q (s.receive badge stale r) := by
  unfold receive
  split
  · exact processTerminate_holds holds ..
  · exact dispatch_holds holds _ badge stale r fresh

end State

theorem step_holds (holds : Holds Q s)
    (fresh : ∀ r pid, s.roster.issue = some (r,pid) → Q ⟨pid,fun _ => none,none⟩)
    (taken : step s e = some t) : Holds Q t := by
  cases e with
  | message i slot stale r =>
    simp only [step] at taken
    split at taken
    · split at taken
      · obtain rfl := Option.some.inj taken
        exact State.receive_holds holds _ _ _ fresh
      · cases taken
    · cases taken
  | fault i =>
    simp only [step] at taken
    split at taken
    · split at taken
      · obtain rfl := Option.some.inj taken
        exact State.receive_holds holds _ _ _ fresh
      · cases taken
    · cases taken
  | copy i src dst =>
    simp only [step] at taken
    split at taken
    · exact State.copyCap_holds holds taken
    · cases taken
  | delete i slot =>
    simp only [step] at taken
    split at taken
    · obtain rfl := Option.some.inj taken
      exact State.deleteCap_holds holds ..
    · cases taken

theorem boot_holds (stable : Stable Q) (taskman : Q ⟨pidTaskman,fun _ => none,none⟩)
    (fresh : ∀ r pid, (State.init cfg).roster.issue = some (r,pid) → Q ⟨pid,fun _ => none,none⟩)
    (booted : boot cfg = some s) : Holds Q s := by
  obtain ⟨registered,registering,rest⟩ := Option.bind_eq_some_iff.mp booted
  obtain ⟨⟨issued,pid⟩,allocating,spawning⟩ := Option.bind_eq_some_iff.mp rest
  have initial : Holds Q (State.init cfg) := by
    refine ⟨stable,?_⟩
    intro i sp used
    simp only [State.init] at used
    split at used
    · obtain rfl := Option.some.inj used
      exact taskman
    · cases used
  have first := initial.of_spaces (registerBoot_frame registering).spaces
  have drawn := fresh issued.roster pid (by
    rw [← registerBoot_roster registering,State.pidAlloc_roster,allocating]
    rfl)
  have second := State.spawn_holds ((State.pidAlloc_quiet allocating).holds first) bootSpawn drawn
  dsimp only at spawning
  split at spawning
  · cases spawning
  · rename_i done
    obtain rfl := Option.some.inj spawning
    rw [done] at second
    exact second

end Qsoe.Taskman
