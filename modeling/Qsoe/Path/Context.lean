import Qsoe.Path.Files
import Qsoe.Taskman.Handlers
import Qsoe.Taskman.Roster

/-! What the registry handlers do to the context words of the rows that are routed to cpiofs. A
row keeps the words of its last use until something writes them, and `tm_connect_attach` does
not. -/
namespace Qsoe.Path

open Taskman

variable {cfg : Config} {a : Archive} {s t u : State cfg}

/-- A read through these words stays inside the archive, whatever position is sought first. -/
def Archive.Confined (a : Archive) (c : Word × Word) : Prop :=
  c.1 = 0 ∨ fileSize c.2 = 0 ∨ a.start ≤ c.1.toNat ∧ c.1.toNat + (fileSize c.2).toNat ≤ a.stop

instance (a : Archive) (c : Word × Word) : Decidable (a.Confined c) :=
  inferInstanceAs (Decidable (_ ∨ _ ∨ _ ∧ _))

theorem Archive.confined_zero (a : Archive) : a.Confined (0,0) := .inl rfl

/-- The channel is that of cpiofs. -/
def cpiofsChannel (c : Channel) : Bool := c.owner == pidTaskman && c.chid == cpiofsChid

/-- Reads over the connection go to cpiofs. -/
def Routed (s : State cfg) (r : Row cfg) : Prop := (s.channels r.channelIdx).any cpiofsChannel = true

structure Guarded (a : Archive) (s : State cfg) : Prop where
  confined : ∀ j r, s.rows j = some r → Routed s r → a.Confined (s.ctx j)

structure Shrinks (s t : State cfg) : Prop where
  rows : ∀ j r, t.rows j = some r → ∃ r', s.rows j = some r' ∧ r'.channelIdx = r.channelIdx
  channels : ∀ i, (t.channels i).any cpiofsChannel = true → (s.channels i).any cpiofsChannel = true
  ctx : t.ctx = s.ctx

theorem Shrinks.of_tables (tables : t.tables = s.tables) (ctx : t.ctx = s.ctx) : Shrinks s t := by
  have rows : t.rows = s.rows := congrArg Tables.rows tables
  have channels : t.channels = s.channels := congrArg Tables.channels tables
  refine ⟨?_,?_,ctx⟩
  · intro j r used
    exact ⟨r,by rw [← rows,used],rfl⟩
  · intro i serves
    rw [← channels]
    exact serves

theorem Shrinks.refl (s : State cfg) : Shrinks s s := .of_tables rfl rfl

theorem Shrinks.trans (first : Shrinks s t) (second : Shrinks t u) : Shrinks s u := by
  refine ⟨?_,fun i serves => first.channels i (second.channels i serves),second.ctx.trans first.ctx⟩
  intro j r used
  obtain ⟨q,used',same'⟩ := second.rows j r used
  obtain ⟨p,used'',same''⟩ := first.rows j q used'
  exact ⟨p,used'',same''.trans same'⟩

theorem Shrinks.guarded (shrinks : Shrinks s t) (guarded : Guarded a s) : Guarded a t := by
  constructor
  intro j r used routed
  obtain ⟨r',used',same⟩ := shrinks.rows j r used
  have serves := shrinks.channels _ routed
  rw [shrinks.ctx]
  apply guarded.confined j r' used'
  unfold Routed
  rw [same]
  exact serves

namespace Registry

theorem processAllocSlot_ctx (s : State cfg) (pid : Pid) : (s.processAllocSlot pid).1.ctx = s.ctx := by
  unfold State.processAllocSlot
  split <;> rfl

theorem mint_ctx (minted : s.mint cnode slot c granted = some t) : t.ctx = s.ctx := by
  unfold State.mint at minted
  split at minted
  · split at minted
    · obtain rfl := Option.some.inj minted
      rfl
    · cases minted
  · cases minted

theorem deleteCap_ctx (s : State cfg) (cnode slot : Nat) : (s.deleteCap cnode slot).ctx = s.ctx := by
  unfold State.deleteCap
  split <;> rfl

theorem copyCap_ctx (copied : s.copyCap cnode src dst granted = some t) : t.ctx = s.ctx := by
  unfold State.copyCap at copied
  split at copied
  · exact mint_ctx copied
  · cases copied

theorem pidFree_ctx (s : State cfg) (pid : Pid) : (s.pidFree pid).ctx = s.ctx := by
  unfold State.pidFree
  split
  · rfl
  · split <;> rfl

theorem pidAlloc_ctx (issued : s.pidAlloc = some (t,pid)) : t.ctx = s.ctx := by
  unfold State.pidAlloc at issued
  split at issued
  · obtain ⟨rfl,-⟩ : _ = t ∧ _ = pid := by simpa using issued
    rfl
  · split at issued
    · cases issued
    · obtain ⟨rfl,-⟩ : _ = t ∧ _ = pid := by simpa using issued
      rfl

theorem processRegister_ctx (s : State cfg) (pid : Pid) (cnode slot : Nat) :
    (s.processRegister pid cnode slot).1.ctx = s.ctx := by
  unfold State.processRegister
  split
  · rfl
  · split <;> rfl

theorem processSetParent_ctx (s : State cfg) (child parent : Pid) :
    (s.processSetParent child parent).1.ctx = s.ctx := by
  unfold State.processSetParent
  split <;> rfl

theorem processDetach_ctx (s : State cfg) (pid : Pid) (status : BitVec 32) :
    (s.processDetach pid status).1.ctx = s.ctx := by
  unfold State.processDetach
  split
  · rfl
  · split <;> rfl

theorem reap_ctx (s : State cfg) (i : Fin maxProcesses) (pid : Pid) : (s.reap i pid).ctx = s.ctx :=
  pidFree_ctx ..

theorem processWaitpid_ctx (s : State cfg) (waiter child : Pid) (parked : Bool) :
    (s.processWaitpid waiter child parked).1.ctx = s.ctx := by
  unfold State.processWaitpid
  split
  · rfl
  · split
    · rfl
    · split
      · exact reap_ctx ..
      · split <;> rfl

theorem assignChid_ctx (s : State cfg) (chid flags : BitVec 32) : (s.assignChid chid flags).1.ctx = s.ctx := by
  unfold State.assignChid
  split <;> rfl

theorem shareNtfn_ctx (s : State cfg) (client : Pid) (cnode : Nat) (ch : Channel) (shared : Bool) :
    (s.shareNtfn client cnode ch shared).1.ctx = s.ctx := by
  unfold State.shareNtfn
  split
  · rfl
  · split
    · rfl
    · dsimp only
      split
      · exact processAllocSlot_ctx s client
      · rename_i minted
        exact (mint_ctx minted).trans (processAllocSlot_ctx s client)

theorem releaseSpace_ctx (s : State cfg) (space : Option Nat) : (s.releaseSpace space).ctx = s.ctx := by
  cases space <;> rfl

theorem processTerminate_ctx (s : State cfg) (target : Pid) (status : BitVec 32) :
    (s.processTerminate target status).1.ctx = s.ctx := by
  unfold State.processTerminate
  split
  · rfl
  · split
    · rfl
    · split
      · rfl
      · dsimp only [State.teardown]
        split
        · rw [reap_ctx,releaseSpace_ctx]
          rfl
        · rw [releaseSpace_ctx]
          rfl

theorem addRow_guarded (guarded : Guarded a s) (j : Fin cfg.connections) (r : Row cfg)
    (confined : Routed s r → a.Confined (s.ctx j)) : Guarded a (s.addRow j r) := by
  constructor
  intro k q used routed
  rcases Slab.put_cases used with ⟨rfl,rfl⟩ | old
  · exact confined routed
  · exact guarded.confined k q old routed

theorem setCtx_guarded (guarded : Guarded a s) (j : Fin cfg.connections) (confined : a.Confined c) :
    Guarded a (s.setCtx j c) := by
  constructor
  intro k r used routed
  rcases eq_or_ne k j with rfl | other
  · simpa [State.setCtx] using confined
  · have kept := guarded.confined k r used routed
    simpa [State.setCtx,other] using kept

theorem addRow_setCtx_guarded (guarded : Guarded a s) (j : Fin cfg.connections) (r : Row cfg)
    (confined : Routed s r → a.Confined c) : Guarded a ((s.addRow j r).setCtx j c) := by
  constructor
  intro k q used routed
  rcases eq_or_ne k j with rfl | other
  · obtain rfl : r = q := by simpa [State.setCtx,State.addRow] using used
    simpa [State.setCtx] using confined routed
  · have old : s.rows k = some q := by simpa [State.setCtx,State.addRow,other] using used
    have kept := guarded.confined k q old routed
    simpa [State.setCtx,State.addRow,other] using kept

theorem connectionRegisterExisting_guarded (guarded : Guarded a s) (pid : Pid) (slot : Nat)
    (idx : Fin cfg.channels) (σ : Source) (flags : BitVec 32) :
    Guarded a (s.connectionRegisterExisting pid slot idx σ flags).1 := by
  unfold State.connectionRegisterExisting
  split
  · exact guarded
  · split
    · exact guarded
    · exact addRow_setCtx_guarded guarded _ _ fun _ => a.confined_zero

theorem connectionCloneForDup_guarded (guarded : Guarded a s) (pid : Pid) (src dst : Nat) :
    Guarded a (s.connectionCloneForDup pid src dst).1 := by
  unfold State.connectionCloneForDup
  split
  · exact guarded
  · rename_i i r found
    split
    · exact guarded
    · apply addRow_setCtx_guarded guarded
      intro routed
      exact guarded.confined i r (Slab.find_some found).1 routed

theorem connectDetach_shrinks (s : State cfg) (client : Pid) (slot stale : Nat) (deleted : Bool) :
    Shrinks s (s.connectDetach client slot stale deleted).1 := by
  unfold State.connectDetach
  split
  · exact .refl s
  · split
    · exact .refl s
    · rename_i p _ _ j r _
      split
      · exact .refl s
      · have bare : Shrinks s (if r.ntfnSlot ≠ 0 then (s.deleteCap (p.cnode stale) slot).deleteCap
            (p.cnode stale) r.ntfnSlot else s.deleteCap (p.cnode stale) slot) := by
          split
          · apply Shrinks.of_tables
            · rw [State.deleteCap_tables,State.deleteCap_tables]
            · rw [deleteCap_ctx,deleteCap_ctx]
          · exact .of_tables (State.deleteCap_tables ..) (deleteCap_ctx ..)
        refine ⟨?_,bare.channels,bare.ctx⟩
        intro k q used
        exact bare.rows k q (Slab.erase_some used).2

theorem connectFlags_shrinks (s : State cfg) (pid : Pid) (slot : Nat) (mask bits : BitVec 32) :
    Shrinks s (s.connectFlags pid slot mask bits).1 := by
  unfold State.connectFlags
  split
  · exact .refl s
  · rename_i j r found
    split
    · exact .refl s
    · refine ⟨?_,fun _ serves => serves,rfl⟩
      intro k q used
      rcases Slab.put_cases used with ⟨rfl,rfl⟩ | old
      · exact ⟨r,(Slab.find_some found).1,rfl⟩
      · exact ⟨q,old,rfl⟩

/-- An attach that succeeded: the row that was free gets a channel, a badge and a slot. -/
structure Attached (s : State cfg) (client target : Pid) (chid : BitVec 32) (t : State cfg)
    (j : Fin cfg.connections) (r : Row cfg) : Prop where
  rows : t.rows = s.rows
  channels : t.channels = s.channels
  ctx : t.ctx = s.ctx
  free : Slab.free s.rows = some j
  channel : (s.channelFind target chid).map Prod.fst = some r.channelIdx
  badge : r.badge = (Source.scoid s.scoids).badge
  owner : r.clientPid = client
  slot : r.clientSlot = (s.processAllocSlot client).2
  known : (s.processLookup client).isSome = true

theorem connectAttach_cases (s : State cfg) (client target : Pid) (chid flags : BitVec 32) (stale : Nat)
    (k : AttachKernel) :
    (∃ t e, s.connectAttach client target chid flags stale k = (t,.error e) ∧ Shrinks s t) ∨
      ∃ t j r, s.connectAttach client target chid flags stale k =
          (t.addRow j r,.ok (r.clientSlot,r.ntfnSlot)) ∧ Attached s client target chid t j r := by
  have slot := (State.processAllocSlot_quiet s client).tables
  have same : (s.processAllocSlot client).1.scoids = s.scoids := congrArg Tables.scoids slot
  have number : (s.processAllocSlot client).1.allocScoid.2 = (Source.scoid s.scoids).badge := by
    rw [State.allocScoid,same]
    rfl
  have rows : (s.processAllocSlot client).1.allocScoid.1.rows = s.rows := congrArg Tables.rows slot
  have channels : (s.processAllocSlot client).1.allocScoid.1.channels = s.channels :=
    congrArg Tables.channels slot
  have words : (s.processAllocSlot client).1.allocScoid.1.ctx = s.ctx := processAllocSlot_ctx s client
  unfold State.connectAttach
  split
  · exact .inl ⟨s,_,rfl,.refl s⟩
  · rename_i p record
    split
    · exact .inl ⟨s,_,rfl,.refl s⟩
    · rename_i idx ch found
      split
      · exact .inl ⟨s,_,rfl,.refl s⟩
      · rename_i j free
        dsimp only
        split
        · refine .inl ⟨_,_,rfl,?_,?_,words⟩
          · rw [rows]
            exact (Shrinks.refl s).rows
          · rw [channels]
            exact fun _ serves => serves
        · rename_i held minted
          have shared := (State.shareNtfn_tables held client (p.cnode stale) ch k.shared).trans
            (State.mint_tables minted)
          have kept := (shareNtfn_ctx held client (p.cnode stale) ch k.shared).trans (mint_ctx minted)
          have table : (held.shareNtfn client (p.cnode stale) ch k.shared).1.rows = s.rows :=
            (congrArg Tables.rows shared).trans rows
          have board : (held.shareNtfn client (p.cnode stale) ch k.shared).1.channels = s.channels :=
            (congrArg Tables.channels shared).trans channels
          exact .inr ⟨_,j,_,rfl,table,board,kept.trans words,free,by simp [found],number,rfl,rfl,by simp [record]⟩

/-- An attach to the channel makes no row with words that lead out of the archive: it is not
cpiofs's, or the words its row takes over are confined. -/
def gives (a : Archive) (s : State cfg) (target : Pid) (chid : BitVec 32) : Bool :=
  match s.channelFind target chid, Slab.free s.rows with
  | some (_,ch), some j => !cpiofsChannel ch || decide (a.Confined (s.ctx j))
  | _, _ => true

theorem Attached.base (attached : Attached s client target chid t j r) (guarded : Guarded a s) : Guarded a t := by
  constructor
  intro k q used routed
  rw [attached.ctx]
  refine guarded.confined k q (by rw [← attached.rows,used]) ?_
  unfold Routed at routed ⊢
  rw [← attached.channels]
  exact routed

theorem Attached.guarded (attached : Attached s client target chid t j r) (guarded : Guarded a s)
    (given : gives a s target chid = true) : Guarded a (t.addRow j r) := by
  apply addRow_guarded (attached.base guarded)
  intro routed
  obtain ⟨⟨idx,ch⟩,found,same⟩ := Option.map_eq_some_iff.mp attached.channel
  have live : s.channels r.channelIdx = some ch := by
    rw [← same]
    exact (Slab.find_some found).1
  have serves : cpiofsChannel ch = true := by
    simpa [Routed,attached.channels,live] using routed
  have confined : a.Confined (s.ctx j) := by
    simpa [gives,found,attached.free,serves] using given
  rw [attached.ctx]
  exact confined

theorem connectAttach_guarded (guarded : Guarded a s) (client target : Pid) (chid flags : BitVec 32)
    (stale : Nat) (k : AttachKernel) (given : gives a s target chid = true) :
    Guarded a (s.connectAttach client target chid flags stale k).1 := by
  rcases connectAttach_cases s client target chid flags stale k with
    ⟨t,e,failed,shrinks⟩ | ⟨t,j,r,made,attached⟩
  · rw [failed]
    exact shrinks.guarded guarded
  · rw [made]
    exact attached.guarded guarded given

theorem channelCreate_guarded (guarded : Guarded a s) (owner : Pid) (chid flags : BitVec 32) (stale : Nat)
    (k : CreateKernel) (other : ¬(owner = pidTaskman ∧ (s.assignChid chid flags).2 = cpiofsChid)) :
    Guarded a (s.channelCreate owner chid flags stale k).1 := by
  have named : Shrinks s (s.assignChid chid flags).1 :=
    .of_tables (State.assignChid_quiet ..).tables (assignChid_ctx ..)
  have drawn : Shrinks s ((s.assignChid chid flags).1.processAllocSlot owner).1 :=
    named.trans (.of_tables (State.processAllocSlot_quiet ..).tables (processAllocSlot_ctx ..))
  unfold State.channelCreate
  split
  · exact guarded
  · dsimp only
    split
    · exact named.guarded guarded
    · split
      · exact named.guarded guarded
      · split
        · exact named.guarded guarded
        · split
          · exact drawn.guarded guarded
          · rename_i idx _ _ _ held minted
            have base : Guarded a held :=
              (drawn.trans (.of_tables (State.mint_tables minted) (mint_ctx minted))).guarded guarded
            constructor
            intro j r used routed
            refine base.confined j r used ?_
            unfold Routed at routed ⊢
            rcases eq_or_ne r.channelIdx idx with same | apart
            · -- the new channel is not cpiofs's
              simp only [State.addChannel,same,Slab.put_same,Option.any_some,cpiofsChannel,Bool.and_eq_true,
                beq_iff_eq] at routed
              exact absurd routed other
            · simpa [State.addChannel,apart] using routed

theorem muteNtfn_shrinks (s : State cfg) (idx : Fin cfg.channels) (c : Channel) (live : s.channels idx = some c) :
    Shrinks s (s.muteNtfn idx c) := by
  unfold State.muteNtfn
  split
  · exact .refl s
  · refine ⟨fun j r used => ⟨r,used,rfl⟩,?_,rfl⟩
    intro i serves
    rcases eq_or_ne i idx with rfl | other
    · simpa [live,cpiofsChannel] using serves
    · simpa [other,State.revoke] using serves

theorem channelDestroy_shrinks (s : State cfg) (owner : Pid) (recv : Nat) (revoked : Bool) :
    Shrinks s (s.channelDestroy owner recv revoked).1 := by
  unfold State.channelDestroy
  split
  · exact .refl s
  · rename_i idx c found
    have muted := muteNtfn_shrinks s idx c (Slab.find_some found).1
    dsimp only
    split
    · exact muted
    · refine muted.trans ⟨?_,?_,rfl⟩
      · intro j r used
        exact ⟨r,(Slab.drop_some.mp used).1,rfl⟩
      · intro i serves
        rcases eq_or_ne i idx with rfl | other
        · simp at serves
        · simpa [other,State.revoke,State.connectionsDropForChannelIdx] using serves

theorem dupCap_guarded (guarded : Guarded a s) (caller : Pid) (src dst stale : Nat) (copied : Bool) :
    Guarded a (s.dupCap caller src dst stale copied).1 := by
  unfold State.dupCap
  split
  · exact guarded
  · split
    · exact guarded
    · split
      · exact guarded
      · split
        · exact guarded
        · rename_i held copying
          have base : Guarded a held :=
            (Shrinks.of_tables (State.copyCap_tables copying) (copyCap_ctx copying)).guarded guarded
          have cloned := connectionCloneForDup_guarded base caller src dst
          split
          · rename_i same e failing
            rw [failing] at cloned
            exact (Shrinks.of_tables (State.deleteCap_tables ..) (deleteCap_ctx ..)).guarded cloned
          · rename_i done cloning
            rw [cloning] at cloned
            exact cloned

theorem pipeCreate_guarded (guarded : Guarded a s) (caller : Pid) (server : Option (Pid × BitVec 32))
    (stale : Nat) (readMinted writeMinted : Bool) :
    Guarded a (s.pipeCreate caller server stale readMinted writeMinted).1 := by
  have first : Shrinks s.allocPipe (s.allocPipe.processAllocSlot caller).1 :=
    .of_tables (State.processAllocSlot_quiet ..).tables (processAllocSlot_ctx ..)
  have second : Shrinks s.allocPipe ((s.allocPipe.processAllocSlot caller).1.processAllocSlot caller).1 :=
    first.trans (.of_tables (State.processAllocSlot_quiet ..).tables (processAllocSlot_ctx ..))
  have base : Guarded a _ := second.guarded ⟨guarded.confined⟩
  unfold State.pipeCreate
  split
  · exact guarded
  · split
    · exact guarded
    · split
      · exact guarded
      · dsimp only
        split
        · exact base
        · rename_i half minted
          have one : Guarded a half :=
            (Shrinks.of_tables (State.mint_tables minted) (mint_ctx minted)).guarded base
          split
          · exact one
          · rename_i full minted'
            have two : Guarded a full :=
              (Shrinks.of_tables (State.mint_tables minted') (mint_ctx minted')).guarded one
            exact connectionRegisterExisting_guarded (connectionRegisterExisting_guarded two ..) ..

theorem spawnStdio_guarded (guarded : Guarded a s) (pid : Pid) (cnode : Nat) (idx : Fin cfg.channels)
    (master : Object) (stdio : List (Nat × Bool)) :
    Guarded a (s.spawnStdio pid cnode idx master stdio).1 := by
  induction stdio generalizing s with
  | nil => exact guarded
  | cons head rest ih =>
    have drawn : Guarded a s.allocScoid.1 := ⟨guarded.confined⟩
    rw [State.spawnStdio]
    split
    · exact drawn
    · rename_i held minted
      have base : Guarded a held :=
        (Shrinks.of_tables (State.mint_tables minted) (mint_ctx minted)).guarded drawn
      have added := connectionRegisterExisting_guarded base pid head.1 idx (.scoid s.scoids) 0
      split
      · rename_i full e failing
        rw [failing] at added
        exact added
      · rename_i more adding
        rw [adding] at added
        exact ih added

theorem spawnRegister_guarded (guarded : Guarded a s) (pid : Pid) (cnode : Nat) (objects : Bool) :
    Guarded a (s.spawnRegister pid cnode objects).1 := by
  have recorded := (Shrinks.of_tables (State.processRegister_quiet s pid cnode capWellKnownEnd).tables
    (processRegister_ctx s pid cnode capWellKnownEnd)).guarded guarded
  unfold State.spawnRegister
  split
  · rename_i same e failing
    rw [failing] at recorded
    exact recorded
  · rename_i next registering
    rw [registering] at recorded
    split
    · exact recorded
    · rename_i primary _ _
      have added := connectionRegisterExisting_guarded recorded pid capTaskmanEp primary (.sysmgr pid) 0
      split
      · rename_i full e failing
        rw [failing] at added
        exact added
      · rename_i more adding
        rw [adding] at added
        split <;> exact added

theorem spawn_guarded (guarded : Guarded a s) (pid : Pid) (k : SpawnKernel) : Guarded a (s.spawn pid k).1 := by
  have space : Guarded a (s.newSpace pid) := ⟨guarded.confined⟩
  unfold State.spawn
  split
  · exact guarded
  · split
    · exact space
    · rename_i held minted
      have base : Guarded a held :=
        (Shrinks.of_tables (State.mint_tables minted) (mint_ctx minted)).guarded space
      split
      · exact base
      · split
        · exact base
        · rename_i idx ch _
          have stdio := spawnStdio_guarded base pid s.spawned idx ch.master
            [(capStdinConnect,k.stdin),(capStdoutConnect,k.stdout),(capStderrConnect,k.stderr)]
          split
          · rename_i part e failing
            rw [failing] at stdio
            exact stdio
          · rename_i made _ making
            rw [making] at stdio
            split
            · exact stdio
            · have faulting : Guarded a (made.setFault s.spawned pid) := ⟨stdio.confined⟩
              exact spawnRegister_guarded faulting pid s.spawned k.objects

/-- Only an image from a mounted file system takes a row. -/
def loads (a : Archive) (s : State cfg) : Image → Bool
  | .mounted server chid _ _ _ => gives a s server chid
  | _ => true

theorem loadImage_guarded (guarded : Guarded a s) (image : Image) (given : loads a s image = true) :
    Guarded a (s.loadImage image).1 := by
  cases image with
  | absent => exact guarded
  | archive => exact guarded
  | mounted server chid k read deleted =>
    have attached := connectAttach_guarded guarded pidTaskman server chid 0 0 k given
    rw [State.loadImage]
    split
    · rename_i refused e failing
      rw [failing] at attached
      exact attached
    · rename_i made slot ntfn making
      rw [making] at attached
      exact (connectDetach_shrinks ..).guarded attached

theorem processCreateByName_guarded (guarded : Guarded a s) (k : SpawnKernel)
    (given : loads a s k.image = true) : Guarded a (s.processCreateByName k).1 := by
  have loaded := loadImage_guarded guarded k.image given
  unfold State.processCreateByName
  split
  · rename_i same e failing
    rw [failing] at loaded
    exact loaded
  · rename_i next loading
    rw [loading] at loaded
    split
    · exact loaded
    · rename_i issued pid issuing
      have base : Guarded a issued :=
        (Shrinks.of_tables (State.pidAlloc_quiet issuing).tables (pidAlloc_ctx issuing)).guarded loaded
      split
      · exact (Shrinks.of_tables (State.pidFree_quiet ..).tables (pidFree_ctx ..)).guarded base
      · have spawned := spawn_guarded base pid k
        split
        · rename_i failed e failing
          rw [failing] at spawned
          have cut : Guarded a (failed.destroySpace issued.spawned) := ⟨spawned.confined⟩
          exact (Shrinks.of_tables (State.pidFree_quiet ..).tables (pidFree_ctx ..)).guarded cut
        · rename_i done spawning
          rw [spawning] at spawned
          exact spawned

theorem processCreate_guarded (guarded : Guarded a s) (caller : Pid) (k : SpawnKernel)
    (given : loads a s k.image = true) : Guarded a (s.processCreate caller k).1 := by
  have created := processCreateByName_guarded guarded k given
  unfold State.processCreate
  split
  · rename_i failed e failing
    rw [failing] at created
    exact created
  · rename_i spawned pid spawning
    rw [spawning] at created
    exact (Shrinks.of_tables (State.processSetParent_quiet ..).tables (processSetParent_ctx ..)).guarded created

theorem processTerminate_shrinks (s : State cfg) (target : Pid) (status : BitVec 32) :
    Shrinks s (s.processTerminate target status).1 := by
  have words := processTerminate_ctx s target status
  rcases State.processTerminate_tables s target status with same | ⟨-,torn⟩
  · exact .of_tables same words
  · have rows : (s.processTerminate target status).1.rows = _ := congrArg Tables.rows torn
    have channels : (s.processTerminate target status).1.channels = _ := congrArg Tables.channels torn
    refine ⟨?_,?_,words⟩
    · intro j r used
      rw [rows] at used
      exact ⟨r,(Slab.drop_some.mp used).1,rfl⟩
    · intro i serves
      rw [channels] at serves
      obtain ⟨c,left,serves⟩ := (Option.any_eq_true _ _).mp serves
      have live : s.channels i = some c := (Slab.drop_some.mp left).1
      simp [live,serves]

/-- What a request is asked for: attaches take confined words, and nobody makes a second cpiofs
channel in taskman's name. -/
def admits (a : Archive) (s : State cfg) (caller : Pid) : Request → Bool
  | .connectAttach pid chid _ _ => gives a s pid chid
  | .processCreate k => loads a s k.image
  | .channelCreate chid flags _ => !(caller == pidTaskman && (s.assignChid chid flags).2 == cpiofsChid)
  | _ => true

theorem dispatch_guarded (guarded : Guarded a s) (caller : Pid) (badge : Word) (stale : Nat) (r : Request)
    (fine : coarse r = false) (admitted : admits a s caller r = true) :
    Guarded a (s.dispatch caller badge stale r) := by
  cases r with
  | channelCreate chid flags k =>
    exact channelCreate_guarded guarded caller chid flags stale k (by simpa [admits,imp_iff_not_or] using admitted)
  | channelDestroy recv revoked => exact (channelDestroy_shrinks ..).guarded guarded
  | connectAttach pid chid flags k => exact connectAttach_guarded guarded caller pid chid flags stale k admitted
  | connectDetach slot deleted => exact (connectDetach_shrinks ..).guarded guarded
  | connectFlags slot mask bits => exact (connectFlags_shrinks ..).guarded guarded
  | openPath => cases fine
  | pipeCreate server readMinted writeMinted => exact pipeCreate_guarded guarded ..
  | dupCap src dst copied => exact dupCap_guarded guarded ..
  | processCreate k => exact processCreate_guarded guarded caller k admitted
  | processTerminate target status => exact (processTerminate_shrinks ..).guarded guarded
  | processDetach status =>
    exact (Shrinks.of_tables (State.processDetach_quiet ..).tables (processDetach_ctx ..)).guarded guarded
  | waitpid child parked =>
    exact (Shrinks.of_tables (State.processWaitpid_quiet ..).tables (processWaitpid_ctx ..)).guarded guarded
  | io => cases fine
  | claim =>
    exact (Shrinks.of_tables (State.processAllocSlot_quiet ..).tables (processAllocSlot_ctx ..)).guarded guarded
  | other => exact guarded

theorem registerBoot_rows (registered : registerBoot s chids = some t) : t.rows = s.rows := by
  induction chids generalizing s with
  | nil =>
    obtain rfl := Option.some.inj registered
    rfl
  | cons chid rest ih =>
    have added : (s.channelRegisterExisting pidTaskman chid .primary cfg.primaryEp).1.rows = s.rows := by
      unfold State.channelRegisterExisting
      split
      · rfl
      · split
        · rfl
        · split <;> rfl
    rw [registerBoot] at registered
    split at registered
    · cases registered
    · rename_i next adding
      rw [adding] at added
      exact (ih registered).trans added

theorem boot_guarded (booted : boot cfg = some s) : Guarded a s := by
  obtain ⟨registered,registering,booted⟩ := Option.bind_eq_some_iff.mp booted
  obtain ⟨⟨issued,pid⟩,issuing,booted⟩ := Option.bind_eq_some_iff.mp booted
  have empty : Guarded a registered := by
    constructor
    intro j r used
    rw [registerBoot_rows registering] at used
    cases used
  have base : Guarded a issued :=
    (Shrinks.of_tables (State.pidAlloc_quiet issuing).tables (pidAlloc_ctx issuing)).guarded empty
  have spawned := spawn_guarded base pid bootSpawn
  dsimp only at booted
  split at booted
  · cases booted
  · rename_i done spawning
    obtain rfl := Option.some.inj booted
    rw [spawning] at spawned
    exact spawned

end Registry

end Qsoe.Path
