import Qsoe.Taskman.Estate
import Qsoe.Taskman.Handlers

/-! A spawn that fails. The caller of `tm_spawn` gives the pid and the staged blocks back; the
connection rows and the record that `tm_spawn` registered midway stay. -/
namespace Qsoe.Taskman

variable {cfg : Config} {s t : State cfg}

namespace Roster

def Issuable (r : Roster) (pid : Pid) : Prop :=
  pid ∈ r.freePids ∨ ∃ m, r.nextPid ≤ m ∧ m < maxProcesses ∧ pid = BitVec.ofNat 32 m

theorem Wf.reissue {r : Roster} (wf : Wf r) (issued : r.issue = some (r',pid)) (q : Pid) :
    (r'.release pid).Issuable q ↔ r.Issuable q := by
  have ranged := (wf.issue issued).2
  have above : ¬ pid.toInt ≤ pidTaskman.toInt := by
    rw [toInt_small pid ranged.2]
    have low := ranged.1
    have one : pidTaskman.toInt = 1 := by decide
    omega
  have length := wf.length
  unfold Roster.issue at issued
  split at issued
  · rename_i head rest free
    obtain ⟨rfl,rfl⟩ : _ = r' ∧ head = pid := by simpa using issued
    rw [free,List.length_cons] at length
    have room : rest.length < maxProcesses := by omega
    simp [Roster.release,above,room,Issuable,free]
  · rename_i free
    split at issued
    · cases issued
    · rename_i room
      obtain ⟨rfl,rfl⟩ : _ = r' ∧ _ = pid := by simpa using issued
      have empty : (0 : Nat) < maxProcesses := by decide
      simp only [Roster.release,above,if_false,free,List.length_nil,empty,if_true,Issuable,List.mem_singleton,
        List.not_mem_nil,false_or]
      constructor
      · rintro (rfl | ⟨m,low,high,rfl⟩)
        · exact ⟨r.nextPid,le_rfl,by omega,rfl⟩
        · exact ⟨m,by omega,high,rfl⟩
      · rintro ⟨m,low,high,rfl⟩
        rcases Nat.eq_or_lt_of_le low with rfl | more
        · exact .inl rfl
        · exact .inr ⟨m,by omega,high,rfl⟩

end Roster

namespace State

theorem connectAttach_rows (s : State cfg) (client target : Pid) (chid flags : BitVec 32) (stale : Nat)
    (k : AttachKernel) :
    (∃ e, (s.connectAttach client target chid flags stale k).2 = .error e ∧
      (s.connectAttach client target chid flags stale k).1.rows = s.rows) ∨
    ∃ j r ntfn, Slab.free s.rows = some j ∧ r.clientPid = client ∧ r.clientSlot = (s.processAllocSlot client).2 ∧
      (s.connectAttach client target chid flags stale k).2 = .ok ((s.processAllocSlot client).2,ntfn) ∧
      (s.connectAttach client target chid flags stale k).1.rows = Slab.put s.rows j r := by
  unfold connectAttach
  split
  · exact .inl ⟨_,rfl,rfl⟩
  · rename_i p _
    split
    · exact .inl ⟨_,rfl,rfl⟩
    · rename_i idx c _
      split
      · exact .inl ⟨_,rfl,rfl⟩
      · rename_i j free
        have count := allocScoid_tables (processAllocSlot_quiet s client).tables
        dsimp only
        split
        · exact .inl ⟨_,rfl,congrArg Tables.rows count⟩
        · rename_i held minted
          have kept := (shareNtfn_tables held client (p.cnode stale) c k.shared).trans
            ((mint_tables minted).trans count)
          have rows := congrArg Tables.rows kept
          let row : Row cfg := ⟨idx,(s.processAllocSlot client).1.allocScoid.2,client,(s.processAllocSlot client).2,
            (held.shareNtfn client (p.cnode stale) c k.shared).2,flags &&& ~~~cfg.sideChannel,.scoid s.scoids,c.born⟩
          exact .inr ⟨j,row,_,free,rfl,rfl,rfl,congrArg (Slab.put · j row) rows⟩

theorem connectDetach_rows (s : State cfg) (client : Pid) (slot stale : Nat) (deleted : Bool)
    (there : (s.processLookup client).isSome) (found : s.connectionFindBySlot client slot = some (j,r)) :
    (s.connectDetach client slot stale deleted).1.rows = if deleted then Slab.erase s.rows j else s.rows := by
  obtain ⟨⟨i,p⟩,record⟩ := Option.isSome_iff_exists.mp there
  unfold connectDetach
  rw [record,found]
  cases deleted with
  | false => rfl
  | true =>
    have cut : ∀ t : State cfg, ∀ n, (t.deleteCap (p.cnode stale) n).rows = t.rows := fun t n =>
      congrArg Tables.rows (deleteCap_tables t _ n)
    simp only [Bool.true_eq_false,if_false,if_true]
    split
    · rw [cut,cut]
    · rw [cut]

/-- Taskman's own connection is closed again: the delete succeeds, and no row of taskman's at a
lower index has the slot it draws for it. -/
def Tidied (s : State cfg) : Image → Prop
  | .mounted server chid k _ deleted =>
    (s.connectAttach pidTaskman server chid 0 0 k).2.toOption.isSome →
      deleted = true ∧ ∀ j i r, Slab.free s.rows = some j → i < j → s.rows i = some r → r.clientPid = pidTaskman →
        r.clientSlot ≠ (s.processAllocSlot pidTaskman).2
  | _ => True

def Gains (s t : State cfg) : Prop := ∃ j, s.rows j = none ∧ t.rows j ≠ none

theorem loadImage_rows (s : State cfg) (image : Image) :
    (s.Tidied image ∧ (s.loadImage image).1.rows = s.rows) ∨
      (¬ s.Tidied image ∧ s.Gains (s.loadImage image).1) := by
  cases image with
  | absent => exact .inl ⟨trivial,rfl⟩
  | archive => exact .inl ⟨trivial,rfl⟩
  | mounted server chid k read deleted =>
    have there := connectAttach_roster s pidTaskman server chid 0 0 k
    simp only [loadImage,Tidied]
    rcases connectAttach_rows s pidTaskman server chid 0 0 k with
      ⟨e,failed,same⟩ | ⟨j,r,ntfn,free,client,slot,done,added⟩
    · left
      split
      · rename_i attaching
        rw [attaching] at same failed
        refine ⟨?_,same⟩
        intro made
        rw [attaching] at made
        cases made
      · rename_i attaching
        rw [attaching] at failed
        cases failed
    · split
      · rename_i attaching
        rw [attaching] at done
        cases done
      · rename_i made drawn _ attaching
        rw [attaching] at there done added
        obtain ⟨rfl,rfl⟩ : drawn = (s.processAllocSlot pidTaskman).2 ∧ _ = ntfn := by simpa using done
        have record : (made.processLookup pidTaskman).isSome := by
          have before : (s.processLookup pidTaskman).isSome := by
            unfold connectAttach at attaching
            cases found : s.processLookup pidTaskman with
            | none => simp [found] at attaching
            | some hit => rfl
          have view : made.roster.lookup pidTaskman = s.roster.lookup pidTaskman := by rw [there]
          rw [lookup_roster,lookup_roster] at view
          have same := congrArg Option.isSome view
          simpa [before] using same
        have passes : (r.clientPid == pidTaskman && r.clientSlot == (s.processAllocSlot pidTaskman).2) = true := by
          simp [client,slot]
        obtain ⟨i,hit,found⟩ := Slab.find_of_used (fun r : Row cfg => r.clientPid == pidTaskman &&
          r.clientSlot == (s.processAllocSlot pidTaskman).2) (Slab.put_same (i := j) (a := r) s.rows) passes
        have first := Slab.find_put_iff (t := s.rows) (i := j) (fun r : Row cfg => r.clientPid == pidTaskman &&
          r.clientSlot == (s.processAllocSlot pidTaskman).2) passes
        rw [← added] at found first
        have closed := connectDetach_rows made pidTaskman (s.processAllocSlot pidTaskman).2 0 deleted record found
        have below : (∀ i r, i < j → s.rows i = some r → r.clientPid = pidTaskman →
            r.clientSlot ≠ (s.processAllocSlot pidTaskman).2) ↔ i = j := by
          constructor
          · intro nothing
            obtain ⟨b,lowest⟩ := first.mpr fun i r before used => by
              by_contra same
              simp only [Bool.not_eq_false,Bool.and_eq_true,beq_iff_eq] at same
              exact nothing i r before used same.1 same.2
            rw [lowest] at found
            exact (Prod.mk.inj (Option.some.inj found)).1.symm
          · rintro rfl i' r' before used client' slot'
            have fails := first.mp ⟨hit,found⟩ i' r' before used
            simp [client',slot'] at fails
        have empty := Slab.free_some free
        by_cases tidy : deleted = true ∧ i = j
        · obtain ⟨rfl,rfl⟩ := tidy
          left
          refine ⟨fun _ => ⟨rfl,?_⟩,?_⟩
          · intro j' i' r' free' before used client'
            obtain rfl : i = j' := Option.some.inj (free.symm.trans free')
            exact below.mpr rfl i' r' before used client'
          · rw [closed,if_pos rfl,added,Slab.erase_put empty]
        · right
          refine ⟨?_,j,empty,?_⟩
          · intro tidied
            obtain ⟨gone,lowest⟩ := tidied (by rw [attaching]; rfl)
            exact tidy ⟨gone,below.mp fun i' r' => lowest j i' r' free⟩
          · rw [closed]
            split
            · rename_i gone
              have other : j ≠ i := fun same => tidy ⟨gone,same.symm⟩
              rw [Slab.erase_other _ other,added]
              simp
            · rw [added]
              simp

structure Keeps (s t : State cfg) : Prop where
  row : ∀ j r, s.rows j = some r → t.rows j = some r

theorem Keeps.of_rows (same : t.rows = s.rows) : s.Keeps t where
  row j r used := by
    rw [same]
    exact used

theorem Keeps.trans {u : State cfg} (first : s.Keeps t) (second : t.Keeps u) : s.Keeps u where
  row j r used := second.row j r (first.row j r used)

theorem Gains.keeps {u : State cfg} (more : s.Gains t) (kept : t.Keeps u) : s.Gains u := by
  obtain ⟨j,free,used⟩ := more
  obtain ⟨r,row⟩ := Option.ne_none_iff_exists'.mp used
  exact ⟨j,free,by simp [kept.row j r row]⟩

theorem Gains.of_rows {u : State cfg} (same : t.rows = s.rows) (more : t.Gains u) : s.Gains u := by
  obtain ⟨j,free,used⟩ := more
  exact ⟨j,same ▸ free,used⟩

theorem Gains.rows_ne (more : s.Gains t) : t.rows ≠ s.rows := by
  obtain ⟨j,free,used⟩ := more
  intro same
  exact used (same ▸ free)

/-- Rows in use stay as they are, and those that come are the process's. -/
structure Adds (s t : State cfg) (pid : Pid) : Prop where
  row : ∀ j, t.rows j = s.rows j ∨ s.rows j = none ∧ ∃ r, t.rows j = some r ∧ r.clientPid = pid

theorem Adds.of_rows (same : t.rows = s.rows) : s.Adds t pid where
  row j := .inl (congrFun same j)

theorem Adds.trans {u : State cfg} (first : s.Adds t pid) (second : t.Adds u pid) : s.Adds u pid where
  row j := by
    rcases second.row j with same | ⟨free,added⟩
    · rw [same]
      exact first.row j
    · rcases first.row j with same | ⟨-,r,used,-⟩
      · exact .inr ⟨same ▸ free,added⟩
      · rw [free] at used
        cases used

theorem Adds.keeps (adds : s.Adds t pid) : s.Keeps t where
  row j r used := by
    rcases adds.row j with same | ⟨free,-⟩
    · rwa [same]
    · rw [free] at used
      cases used

theorem connectionRegisterExisting_adds (s : State cfg) (pid : Pid) (slot : Nat) (idx : Fin cfg.channels)
    (σ : Source) (flags : BitVec 32) : s.Adds (s.connectionRegisterExisting pid slot idx σ flags).1 pid := by
  unfold connectionRegisterExisting
  split
  · exact .of_rows rfl
  · split
    · exact .of_rows rfl
    · rename_i j free
      constructor
      intro i
      by_cases same : i = j
      · subst same
        exact .inr ⟨Slab.free_some free,_,Slab.put_same s.rows,rfl⟩
      · exact .inl (Slab.put_other s.rows same)

theorem spawnStdio_adds (s : State cfg) (pid : Pid) (cnode : Nat) (idx : Fin cfg.channels) (master : Object)
    (slots : List (Nat × Bool)) : s.Adds (s.spawnStdio pid cnode idx master slots).1 pid := by
  induction slots generalizing s with
  | nil => exact .of_rows rfl
  | cons head rest ih =>
    rw [spawnStdio]
    split
    · exact .of_rows rfl
    · rename_i held minting
      have made : s.Adds held pid := .of_rows (congrArg Tables.rows (mint_tables minting))
      have added := made.trans (connectionRegisterExisting_adds held pid head.1 idx (.scoid s.scoids) 0)
      split
      · rename_i registering
        rw [registering] at added
        exact added
      · rename_i registering
        rw [registering] at added
        exact added.trans (ih _)

theorem spawnRegister_adds (s : State cfg) (pid : Pid) (cnode : Nat) (objects : Bool) :
    s.Adds (s.spawnRegister pid cnode objects).1 pid := by
  have recorded := (processRegister_quiet s pid cnode capWellKnownEnd).tables
  unfold spawnRegister
  split
  · rename_i registering
    rw [registering] at recorded
    exact .of_rows (congrArg Tables.rows recorded)
  · rename_i next _ registering
    rw [registering] at recorded
    have kept : s.Adds next pid := .of_rows (congrArg Tables.rows recorded)
    split
    · exact kept
    · rename_i primary _ _
      have added := kept.trans (connectionRegisterExisting_adds next pid capTaskmanEp primary (.sysmgr pid) 0)
      split
      · rename_i connecting
        rw [connecting] at added
        exact added
      · rename_i connecting
        rw [connecting] at added
        split <;> exact added

theorem spawn_adds (s : State cfg) (pid : Pid) (k : SpawnKernel) : s.Adds (s.spawn pid k).1 pid := by
  unfold spawn
  split
  · exact .of_rows rfl
  · split
    · exact .of_rows rfl
    · rename_i held minting
      have minted := mint_tables minting
      have kept : s.Adds held pid := .of_rows (congrArg Tables.rows minted)
      split
      · exact kept
      · split
        · exact kept
        · rename_i idx ch _
          have stdio := kept.trans (spawnStdio_adds held pid s.spawned idx ch.master
            [(capStdinConnect,k.stdin),(capStdoutConnect,k.stdout),(capStderrConnect,k.stderr)])
          split
          · rename_i looping
            rw [looping] at stdio
            exact stdio
          · rename_i ready _ looping
            rw [looping] at stdio
            split
            · exact stdio
            · have faulting : ready.Adds (ready.setFault s.spawned pid) pid := .of_rows rfl
              exact stdio.trans (faulting.trans (spawnRegister_adds ..))

structure Reaches (s : State cfg) (k : SpawnKernel) : Prop where
  loaded : k.loaded = none
  endpoint : k.endpoint = true
  budget : k.budget = true
  console : ∃ obj ∈ k.console, (s.channelFind obj.1 obj.2).isSome
  stdin : k.stdin = true
  row : (Slab.free s.rows).isSome

theorem mint_newSpace (s : State cfg) (pid : Pid) (slot : Nat) (c : Cap) (granted : Bool) :
    ((s.newSpace pid).mint s.spawned slot c granted).isSome = granted := by
  cases granted <;> simp [newSpace,mint,setSpace]

theorem mint_twice {u : State cfg} (first : (s.newSpace pid).mint s.spawned slot c granted = some t)
    (same : u.spaces = t.spaces) (other : slot' ≠ slot) (d : Cap) (again : Bool) :
    (u.mint s.spawned slot' d again).isSome = again := by
  unfold mint at first
  split at first
  · rename_i sp fresh
    obtain rfl : sp = ⟨pid,fun _ => none,none⟩ := by simpa [newSpace,setSpace] using fresh.symm
    split at first
    · obtain rfl := Option.some.inj first
      cases again <;> simp [mint,same,setSpace,other]
    · cases first
  · cases first

theorem connectionRegisterExisting_row (s : State cfg) (pid : Pid) (slot : Nat) (idx : Fin cfg.channels)
    (σ : Source) (flags : BitVec 32) (used : (s.channels idx).isSome) :
    ((Slab.free s.rows).isSome ∧ s.Gains (s.connectionRegisterExisting pid slot idx σ flags).1 ∧
      (s.connectionRegisterExisting pid slot idx σ flags).2 = .ok ()) ∨
    (¬ (Slab.free s.rows).isSome ∧ s.connectionRegisterExisting pid slot idx σ flags = (s,.error .enomem)) := by
  obtain ⟨c,live⟩ := Option.isSome_iff_exists.mp used
  simp only [connectionRegisterExisting,live]
  cases free : Slab.free s.rows with
  | none => exact .inr ⟨by simp,rfl⟩
  | some j => exact .inl ⟨rfl,⟨j,Slab.free_some free,by simp [addRow,setCtx]⟩,rfl⟩

theorem spawnStdio_first (pid : Pid) (rest : List (Nat × Bool)) (live : (s.channels idx).isSome)
    (stdin : (s.allocScoid.1.mint cnode slot ⟨master,s.allocScoid.2,some (.scoid s.scoids)⟩ granted).isSome =
      granted) :
    (granted = true ∧ (Slab.free s.rows).isSome ∧
      s.Gains (s.spawnStdio pid cnode idx master ((slot,granted) :: rest)).1) ∨
    (¬ (granted = true ∧ (Slab.free s.rows).isSome) ∧
      ∃ e, (s.spawnStdio pid cnode idx master ((slot,granted) :: rest)).2 = .error e ∧
        (s.spawnStdio pid cnode idx master ((slot,granted) :: rest)).1.rows = s.rows) := by
  rw [spawnStdio]
  split
  · rename_i refused
    rw [refused] at stdin
    exact .inr ⟨fun reached => by simp [reached.1] at stdin,_,rfl,rfl⟩
  · rename_i held minted
    rw [minted] at stdin
    have table : held.tables = s.allocScoid.1.tables := mint_tables minted
    have same : held.rows = s.rows := congrArg Tables.rows table
    have there : (held.channels idx).isSome := by
      rw [show held.channels = s.channels from congrArg Tables.channels table]
      exact live
    rcases connectionRegisterExisting_row held pid slot idx (.scoid s.scoids) 0 there
      with ⟨room,more,done⟩ | ⟨full,failed⟩
    · left
      refine ⟨stdin.symm,same ▸ room,?_⟩
      split
      · rename_i registering
        rw [registering] at done
        cases done
      · rename_i registering
        rw [registering] at more
        exact (more.of_rows same).keeps (spawnStdio_adds ..).keeps
    · right
      rw [failed]
      exact ⟨fun reached => full (same ▸ reached.2),_,rfl,same⟩

/-- A spawn leaves the rows and the roster alone unless it registers the row of stdin. -/
theorem spawn_rows (s : State cfg) (pid : Pid) (k : SpawnKernel) :
    (s.Reaches k ∧ s.Gains (s.spawn pid k).1) ∨
    (¬ s.Reaches k ∧ (s.spawn pid k).1.rows = s.rows ∧ (s.spawn pid k).1.roster = s.roster ∧
      ∃ e, (s.spawn pid k).2 = .error e) := by
  unfold spawn
  split
  · rename_i e refused
    exact .inr ⟨fun reached => by simp [reached.loaded] at refused,rfl,rfl,e,rfl⟩
  · rename_i fine
    have first := mint_newSpace s pid capTaskmanEp ⟨.primary,(Source.sysmgr pid).badge,some (.sysmgr pid)⟩
      k.endpoint
    split
    · rename_i refused
      rw [refused] at first
      exact .inr ⟨fun reached => by simp [reached.endpoint] at first,rfl,rfl,_,rfl⟩
    · rename_i held minting
      rw [minting] at first
      have endpoint : k.endpoint = true := first.symm
      have minted := mint_tables minting
      have kept : held.tables = s.tables := minted
      have rows : held.rows = s.rows := congrArg Tables.rows kept
      have roster : held.roster = s.roster := (mint_roster minting).trans rfl
      have lookup : ∀ obj : Pid × BitVec 32, held.channelFind obj.1 obj.2 = s.channelFind obj.1 obj.2 := by
        intro obj
        rw [channelFind,channelFind,show held.channels = s.channels from congrArg Tables.channels kept]
      split
      · rename_i refused
        exact .inr ⟨fun reached => by simp [reached.budget] at refused,rows,roster,_,rfl⟩
      · rename_i paid
        have budget : k.budget = true := by simpa using paid
        split
        · rename_i missing
          refine .inr ⟨?_,rows,roster,_,rfl⟩
          intro reached
          obtain ⟨obj,named,found⟩ := reached.console
          obtain ⟨hit,there⟩ := Option.isSome_iff_exists.mp found
          rw [Option.mem_def.mp named,Option.bind_some,lookup obj,there] at missing
          cases missing
        · rename_i idx ch found
          obtain ⟨obj,named,there⟩ := Option.bind_eq_some_iff.mp found
          have console : ∃ obj ∈ k.console, (s.channelFind obj.1 obj.2).isSome :=
            ⟨obj,named,by rw [← lookup obj,there]; rfl⟩
          have live : (held.channels idx).isSome := by rw [(Slab.find_some there).1]; rfl
          have stdin := mint_twice minting (u := held.allocScoid.1) rfl
            (show capStdinConnect ≠ capTaskmanEp by decide)
            ⟨ch.master,held.allocScoid.2,some (.scoid held.scoids)⟩ k.stdin
          have outcome := spawnStdio_first pid [(capStdoutConnect,k.stdout),(capStderrConnect,k.stderr)] live stdin
          rw [rows] at outcome
          have stayed := (spawnStdio_roster held pid s.spawned idx ch.master
            [(capStdinConnect,k.stdin),(capStdoutConnect,k.stdout),(capStderrConnect,k.stderr)]).trans roster
          split
          · rename_i looping
            rw [looping] at outcome stayed
            rcases outcome with ⟨minted,room,more⟩ | ⟨stopped,e,-,same⟩
            · exact .inl ⟨⟨fine,endpoint,budget,console,minted,room⟩,more.of_rows rows⟩
            · exact .inr ⟨fun reached => stopped ⟨reached.stdin,reached.row⟩,same,stayed,_,rfl⟩
          · rename_i ready _ looping
            rw [looping] at outcome
            rcases outcome with ⟨minted,room,more⟩ | ⟨-,e,failed,-⟩
            · left
              refine ⟨⟨fine,endpoint,budget,console,minted,room⟩,?_⟩
              have more := more.of_rows rows
              split
              · exact more
              · have faulting : ready.Keeps (ready.setFault s.spawned pid) := .of_rows rfl
                exact more.keeps (faulting.trans (spawnRegister_adds ..).keeps)
            · cases failed

theorem connectAttach_channels (s : State cfg) (client target : Pid) (chid flags : BitVec 32) (stale : Nat)
    (k : AttachKernel) : (s.connectAttach client target chid flags stale k).1.channels = s.channels := by
  unfold connectAttach
  split
  · rfl
  · rename_i p _
    split
    · rfl
    · rename_i c _
      split
      · rfl
      · have count := allocScoid_tables (processAllocSlot_quiet s client).tables
        dsimp only
        split
        · exact congrArg Tables.channels count
        · rename_i held minted
          have kept := (shareNtfn_tables held client (p.cnode stale) c k.shared).trans
            ((mint_tables minted).trans count)
          exact congrArg Tables.channels kept

theorem connectDetach_channels (s : State cfg) (client : Pid) (slot stale : Nat) (deleted : Bool) :
    (s.connectDetach client slot stale deleted).1.channels = s.channels := by
  unfold connectDetach
  split
  · rfl
  · split
    · rfl
    · split
      · rfl
      · dsimp only
        split
        · exact congrArg Tables.channels ((deleteCap_tables ..).trans (deleteCap_tables ..))
        · exact congrArg Tables.channels (deleteCap_tables ..)

theorem loadImage_channels (s : State cfg) (image : Image) : (s.loadImage image).1.channels = s.channels := by
  cases image with
  | absent => rfl
  | archive => rfl
  | mounted server chid k read deleted =>
    have made := connectAttach_channels s pidTaskman server chid 0 0 k
    rw [loadImage]
    split
    · rename_i attaching
      rw [attaching] at made
      exact made
    · rename_i attaching
      rw [attaching] at made
      exact (connectDetach_channels ..).trans made

/-- The spawn registers its first row. -/
structure Enters (s : State cfg) (k : SpawnKernel) : Prop where
  image : (s.loadImage k.image).2 = .ok ()
  pid : s.pidAlloc.isSome
  staged : k.staged = true
  reaches : s.Reaches k

/-- What a failed spawn must leave as it was: the records in use, the rows in use and the pids
the allocator may issue. -/
structure Unchanged (s t : State cfg) : Prop where
  people : t.roster.people = s.roster.people
  rows : t.rows = s.rows
  pids : ∀ q, t.roster.Issuable q ↔ s.roster.Issuable q

theorem Unchanged.of_roster (roster : t.roster = s.roster) (rows : t.rows = s.rows) : s.Unchanged t where
  people := congrArg Roster.people roster
  rows := rows
  pids q := by rw [roster]

theorem Unchanged.unwound {u : State cfg} (wf : s.roster.Wf) (drawn : s.roster.issue = some (issued,pid))
    (roster : u.roster = issued) (rows : u.rows = s.rows) : s.Unchanged (u.pidFree pid) where
  people := by rw [pidFree_roster,roster,Roster.release_people,Roster.issue_people drawn]
  rows := (congrArg Tables.rows (pidFree_quiet u pid).tables).trans rows
  pids q := by
    rw [pidFree_roster,roster]
    exact wf.reissue drawn q

theorem Reaches.of_tables (channels : t.channels = s.channels) (rows : t.rows = s.rows) (k : SpawnKernel) :
    t.Reaches k ↔ s.Reaches k := by
  have lookup : ∀ pid chid, t.channelFind pid chid = s.channelFind pid chid := fun pid chid => by
    rw [channelFind,channelFind,channels]
  constructor
  · intro reached
    obtain ⟨obj,named,found⟩ := reached.console
    exact { reached with console := ⟨obj,named,lookup obj.1 obj.2 ▸ found⟩, row := rows ▸ reached.row }
  · intro reached
    obtain ⟨obj,named,found⟩ := reached.console
    exact { reached with console := ⟨obj,named,(lookup obj.1 obj.2).symm ▸ found⟩, row := rows.symm ▸ reached.row }

theorem processCreateByName_keeps (s : State cfg) (k : SpawnKernel) :
    (s.loadImage k.image).1.Keeps (s.processCreateByName k).1 := by
  unfold processCreateByName
  split
  · rename_i loading
    rw [loading]
    exact .of_rows rfl
  · rename_i loaded _ loading
    rw [loading]
    split
    · exact .of_rows rfl
    · rename_i issued pid allocating
      have drawn : loaded.Keeps issued := .of_rows (congrArg Tables.rows (pidAlloc_quiet allocating).tables)
      split
      · exact drawn.trans (.of_rows (congrArg Tables.rows (pidFree_quiet issued pid).tables))
      · have child := drawn.trans (spawn_adds issued pid k).keeps
        split
        · rename_i spawning
          rw [spawning] at child
          exact child.trans (.of_rows (congrArg Tables.rows (pidFree_quiet _ pid).tables))
        · rename_i spawning
          rw [spawning] at child
          exact child

theorem processCreateByName_unchanged (wf : s.roster.Wf) (failed : (s.processCreateByName k).2 = .error e) :
    s.Unchanged (s.processCreateByName k).1 ↔ s.Tidied k.image ∧ ¬ s.Enters k := by
  rcases loadImage_rows s k.image with ⟨tidied,same⟩ | ⟨untidy,more⟩
  · have roster := loadImage_roster s k.image
    have channels := loadImage_channels s k.image
    rw [and_iff_right tidied]
    unfold processCreateByName at failed ⊢
    split at failed
    · rename_i loaded err loading
      rw [loading] at same roster
      refine iff_of_true (.of_roster roster same) ?_
      intro entered
      have fine := entered.image
      rw [loading] at fine
      cases fine
    · rename_i loaded _ loading
      rw [loading] at same roster channels
      have drawing : s.roster.issue = loaded.pidAlloc.map fun hit => (hit.1.roster,hit.2) := by
        rw [← roster,pidAlloc_roster]
      split at failed
      · rename_i exhausted
        refine iff_of_true (.of_roster roster same) ?_
        intro entered
        have drawn := entered.pid
        rw [exhausted,Option.map_none,pidAlloc_roster,Option.map_eq_none_iff] at drawing
        rw [drawing] at drawn
        cases drawn
      · rename_i issued pid allocating
        rw [allocating,Option.map_some] at drawing
        have quiet := (pidAlloc_quiet allocating).tables
        have rows : issued.rows = s.rows := (congrArg Tables.rows quiet).trans same
        have reaches := Reaches.of_tables ((congrArg Tables.channels quiet).trans channels) rows k
        have drawn : s.pidAlloc.isSome := by
          rw [pidAlloc_roster] at drawing
          obtain ⟨hit,there,-⟩ := Option.map_eq_some_iff.mp drawing
          rw [there]
          rfl
        split at failed
        · rename_i refused
          rw [if_pos refused]
          refine iff_of_true (.unwound wf drawing rfl rows) ?_
          intro entered
          simp [entered.staged] at refused
        · rename_i staged
          have ready : k.staged = true := by simpa using staged
          rw [if_neg staged]
          have child := spawn_rows issued pid k
          split at failed
          · rename_i left err spawning
            rw [spawning] at child
            rcases child with ⟨reached,more⟩ | ⟨stopped,kept,stayed,-⟩
            · refine iff_of_false ?_ fun entered => entered ⟨by rw [loading],drawn,ready,reaches.mp reached⟩
              intro unchanged
              have freed : left.Keeps ((left.destroySpace issued.spawned).pidFree pid) :=
                .of_rows (congrArg Tables.rows (pidFree_quiet _ pid).tables)
              exact ((more.of_rows rows).keeps freed).rows_ne unchanged.rows
            · refine iff_of_true (.unwound wf drawing ?_ ?_) fun entered => stopped (reaches.mpr entered.reaches)
              · rw [destroySpace_roster]
                exact stayed
              · exact kept.trans rows
          · cases failed
  · refine iff_of_false ?_ fun both => untidy both.1
    intro unchanged
    exact (more.keeps (processCreateByName_keeps s k)).rows_ne unchanged.rows

end State

namespace Pool

variable {p p' q : Pool}

/-- `held` are the blocks taken from the pool since `q`; all of them fit back. -/
structure Taken (q p : Pool) (held : List Nat) : Prop where
  same : ∃ fresh, (held ++ p.free).Perm (q.free ++ fresh) ∧ ∀ b ∈ fresh, q.carved ≤ b
  carved : q.carved ≤ p.carved
  fits : held.length + p.free.length ≤ ppUtFreeMax

theorem Taken.refl (q : Pool) : Taken q q [] where
  same := ⟨[],by simp,by simp⟩
  carved := le_rfl
  fits := by simpa using q.bounded

theorem Taken.acquire (taken : Taken q p held) (room : held.length < ppUtFreeMax)
    (got : p.acquire = some (p',b)) : Taken q p' (held ++ [b]) := by
  obtain ⟨fresh,same,new⟩ := taken.same
  have fits := taken.fits
  have carved := taken.carved
  rcases acquire_cases got with ⟨popped,kept⟩ | ⟨empty,empty',rfl,more⟩
  · rw [popped] at same fits
    refine ⟨⟨fresh,by simpa using same,new⟩,kept ▸ carved,?_⟩
    simp only [List.length_append,List.length_cons,List.length_nil] at fits ⊢
    omega
  · rw [empty,List.append_nil] at same
    refine ⟨⟨fresh ++ [p.carved],?_,?_⟩,by omega,?_⟩
    · rw [empty',List.append_nil,← List.append_assoc]
      exact same.append_right _
    · intro b member
      rcases List.mem_append.mp member with old | last
      · exact new b old
      · rw [List.mem_singleton.mp last]
        exact carved
    · rw [empty',List.length_append]
      exact room

theorem Taken.release (taken : Taken q p (b :: held)) : Taken q (p.release b) held := by
  obtain ⟨fresh,same,new⟩ := taken.same
  have fits := taken.fits
  rw [List.length_cons] at fits
  have room : p.free.length < ppUtFreeMax := by omega
  rw [Pool.release,dif_pos room]
  refine ⟨⟨fresh,?_,new⟩,taken.carved,?_⟩
  · exact List.perm_middle.trans same
  · simp only [List.length_cons]
    omega

theorem Taken.releaseList (taken : Taken q p (blocks ++ held)) : Taken q (p.releaseList blocks) held := by
  induction blocks generalizing p with
  | nil => exact taken
  | cons b rest ih => exact ih taken.release

theorem Taken.grow {blocks : List Nat} (taken : Taken q p (held ++ blocks)) (room : held.length ≤ ppUtPerProc)
    (short : blocks.length ≤ ppUtPerProc) (times : Nat) :
    Taken q (p.grow blocks times).1 (held ++ (p.grow blocks times).2) ∧
      (p.grow blocks times).2.length ≤ ppUtPerProc := by
  induction times generalizing p blocks with
  | zero => exact ⟨taken,short⟩
  | succ times ih =>
    rw [Pool.grow]
    split
    · rename_i less
      split
      · exact ⟨taken,short⟩
      · rename_i rest b got
        apply ih
        · rw [← List.append_assoc]
          refine taken.acquire ?_ got
          rw [List.length_append]
          unfold ppUtPerProc at room less
          unfold ppUtFreeMax
          omega
        · rw [List.length_append]
          exact less
    · exact ⟨taken,short⟩

theorem Taken.bracket (taken : Taken q p held) (room : held.length ≤ ppUtPerProc)
    (begun : p.bracket times = some (p',blocks)) : Taken q p' (held ++ blocks) ∧ blocks.length ≤ ppUtPerProc := by
  obtain ⟨⟨rest,b⟩,got,grown⟩ := Option.map_eq_some_iff.mp begun
  have first : Taken q rest (held ++ [b]) := by
    refine taken.acquire ?_ got
    unfold ppUtPerProc at room
    unfold ppUtFreeMax
    omega
  have one : [b].length ≤ ppUtPerProc := show 1 ≤ 32 by omega
  have more := first.grow room one times
  dsimp only at grown
  rw [grown] at more
  exact more

/-- Once everything is given back, a block that was carved before is on the list exactly if it
was. -/
theorem Taken.restored (taken : Taken q p []) (old : b < q.carved) : b ∈ p.free ↔ b ∈ q.free := by
  obtain ⟨fresh,same,new⟩ := taken.same
  rw [List.nil_append] at same
  rw [same.mem_iff,List.mem_append]
  constructor
  · rintro (there | carved)
    · exact there
    · have above := new b carved
      omega
  · exact .inl

end Pool

namespace Estate

variable {n : Nat} {e e' : Estate cfg n}

/-- Record `i` is in use and holds block `b`. -/
def Owns (e : Estate cfg n) (i : Fin maxProcesses) (b : Nat) : Prop := (e.reg.processes i).isSome ∧ b ∈ e.pput i

/-- What the caller of a failed spawn may rely on: records, rows, pids and the ownership of every
block carved so far are as before, and every registration ends as it would have. -/
structure Atomic (e e' : Estate cfg n) : Prop where
  reg : e.reg.Unchanged e'.reg
  owners : ∀ i b, e'.Owns i b ↔ e.Owns i b
  pool : ∀ b, b < e.pool.carved → (b ∈ e'.pool.free ↔ b ∈ e.pool.free)
  admits : ∀ pid cnode slot, (e'.reg.processRegister pid cnode slot).2 = (e.reg.processRegister pid cnode slot).2

theorem people_isSome (people : t.roster.people = s.roster.people) (i : Fin maxProcesses) :
    (t.processes i).isSome = (s.processes i).isSome := by
  have same := congrArg (fun table => (table i).isSome) people
  simpa [State.roster,Slab.map] using same

theorem settle_pput (used : (e.reg.processes i).isSome) (s : State cfg) : (e.settle s).pput i = e.pput i := by
  obtain ⟨p,record⟩ := Option.isSome_iff_exists.mp used
  simp [settle,record]

theorem processRegister_people (people : t.roster.people = s.roster.people) (pid : Pid) (cnode slot : Nat) :
    (t.processRegister pid cnode slot).2 = (s.processRegister pid cnode slot).2 := by
  have free : Slab.free t.processes = Slab.free s.processes := by
    rw [← Slab.free_map Process.person t.processes,← Slab.free_map Process.person s.processes]
    exact congrArg Slab.free people
  have there : (t.processLookup pid).isSome = (s.processLookup pid).isSome := by
    have same := congrArg (fun table => (Slab.find table fun p : Person => p.pid == pid).isSome) people
    simpa [State.roster,Slab.find_map,State.processLookup] using same
  unfold State.processRegister
  cases found : s.processLookup pid with
  | some hit =>
    obtain ⟨other,found'⟩ := Option.isSome_iff_exists.mp (there.trans (by rw [found]; rfl))
    rw [found']
  | none =>
    have missing : t.processLookup pid = none := by simpa [found] using there
    rw [missing,free]
    cases Slab.free s.processes <;> rfl

theorem loadImage_taken (e : Estate cfg n) (times : Nat) (image : Image) :
    (∃ err, (e.loadImage times image).2 = .error err ∧ e.pool.Taken (e.loadImage times image).1.pool []) ∨
    ∃ blocks, (e.loadImage times image).2 = .ok blocks ∧ blocks.length ≤ ppUtPerProc ∧
      e.pool.Taken (e.loadImage times image).1.pool blocks := by
  cases image with
  | absent => exact .inl ⟨_,rfl,.refl _⟩
  | archive => exact .inr ⟨_,rfl,by simp,.refl _⟩
  | mounted server chid attach read deleted =>
    rw [loadImage]
    split
    · exact .inl ⟨_,rfl,.refl _⟩
    · split
      · exact .inl ⟨_,rfl,.refl _⟩
      · rename_i pool blocks begun
        obtain ⟨taken,short⟩ := (Pool.Taken.refl e.pool).bracket (by simp) begun
        rw [List.nil_append] at taken
        cases read with
        | true => exact .inr ⟨blocks,rfl,short,taken⟩
        | false =>
          left
          refine ⟨_,rfl,?_⟩
          have back : e.pool.Taken pool (blocks ++ []) := by rwa [List.append_nil]
          exact back.releaseList

theorem processCreateByName_taken (failed : e.processCreateByName k times = (e',.error err)) :
    e.pool.Taken e'.pool [] := by
  have image := loadImage_taken e times.loading k.image
  unfold processCreateByName at failed
  split at failed
  · rename_i same _ loading
    obtain ⟨rfl,-⟩ : same = e' ∧ _ = err := by simpa using failed
    rw [loading] at image
    rcases image with ⟨-,-,taken⟩ | ⟨blocks,done,-⟩
    · exact taken
    · cases done
  · rename_i loaded blocks loading
    rw [loading] at image
    rcases image with ⟨_,stopped,-⟩ | ⟨_,done,short,taken⟩
    · cases stopped
    · obtain rfl := Except.ok.inj done
      have given : e.pool.Taken (loaded.pool.releaseList blocks) [] := by
        apply Pool.Taken.releaseList
        rwa [List.append_nil]
      split at failed
      · obtain ⟨rfl,-⟩ : _ = e' ∧ _ = err := by simpa using failed
        exact given
      · split at failed
        · obtain ⟨rfl,-⟩ : _ = e' ∧ _ = err := by simpa using failed
          exact given
        · rename_i pool staging begun
          split at failed
          · obtain ⟨rfl,-⟩ : _ = e' ∧ _ = err := by simpa using failed
            have both := (taken.bracket short begun).1
            have rest : e.pool.Taken (pool.releaseList blocks) (staging ++ []) := by
              rw [List.append_nil]
              exact both.releaseList
            exact rest.releaseList
          · cases failed

theorem loadImage_pput (used : (e.reg.processes i).isSome) (times : Nat) (image : Image) :
    (e.loadImage times image).1.pput i = e.pput i := by
  cases image with
  | absent => rfl
  | archive => rfl
  | mounted server chid attach read deleted =>
    rw [loadImage]
    split
    · exact settle_pput used _
    · split
      · exact settle_pput used _
      · split <;> exact settle_pput used _

theorem processCreateByName_pput (failed : e.processCreateByName k times = (e',.error err))
    (used : (e.reg.processes i).isSome) : e'.pput i = e.pput i := by
  have image := loadImage_pput used times.loading k.image
  have reg := congrArg Prod.fst (loadImage_reg e times.loading k.image)
  have roster := State.loadImage_roster e.reg (k.image.served (e.pool.bracket times.loading).isSome)
  rw [← reg] at roster
  have stays : ((e.loadImage times.loading k.image).1.reg.processes i).isSome :=
    (people_isSome (congrArg Roster.people roster) i).trans used
  unfold processCreateByName at failed
  split at failed
  · rename_i loading
    rw [loading] at image
    obtain ⟨rfl,-⟩ : _ = e' ∧ _ = err := by simpa using failed
    exact image
  · rename_i loaded blocks loading
    rw [loading] at image stays
    split at failed
    · obtain ⟨rfl,-⟩ : _ = e' ∧ _ = err := by simpa using failed
      exact image
    · split at failed
      · obtain ⟨rfl,-⟩ : _ = e' ∧ _ = err := by simpa using failed
        exact image
      · split at failed
        · obtain ⟨rfl,-⟩ : _ = e' ∧ _ = err := by simpa using failed
          exact (settle_pput stays _).trans image
        · cases failed

theorem Tidied.served (s : State cfg) (image : Image) (block : Bool) :
    s.Tidied (image.served block) ↔ s.Tidied image := by
  cases image <;> exact Iff.rfl

/-- In every reachable state a spawn that fails is atomic exactly if taskman closed the connection
it read the image over and the spawn did not get as far as the row of the child's stdin. -/
theorem failed_spawn_atomic (booted : boot cfg = some s) (run : Lts.Run step anyDeed (start s ram) ds e)
    (failed : e.processCreateByName k times = (e',.error err)) :
    e.Atomic e' ↔ e.reg.Tidied k.image ∧ ¬ e.reg.Enters (e.kernel k times) := by
  have wf := run_pids booted run
  have reg := processCreateByName_reg e k times
  rw [failed] at reg
  have unchanged := State.processCreateByName_unchanged (e := err) (k := e.kernel k times) wf (by rw [← reg])
  rw [← reg,show (e.kernel k times).image = k.image.served (e.pool.bracket times.loading).isSome from rfl,
    Tidied.served] at unchanged
  rw [← unchanged]
  constructor
  · exact Atomic.reg
  · intro kept
    refine ⟨kept,?_,fun b old => (processCreateByName_taken failed).restored old,processRegister_people kept.people⟩
    intro i b
    have record := people_isSome kept.people i
    dsimp only at record
    unfold Owns
    rw [record]
    refine and_congr_right fun used => ?_
    rw [processCreateByName_pput failed used]

/-- A spawn that is refused its endpoint cap takes nothing with it. -/
theorem failed_spawn_atomic_endpoint :
    Atomic (start (n := 1) smallBoot 2)
      ((start smallBoot 2).processCreateByName { bootSpawn with endpoint := false } ⟨0,0⟩).1 := by
  have failed : (start (n := 1) smallBoot 2).processCreateByName { bootSpawn with endpoint := false } ⟨0,0⟩ =
    (((start smallBoot 2).processCreateByName { bootSpawn with endpoint := false } ⟨0,0⟩).1,.error .enomem) := rfl
  refine (failed_spawn_atomic boot_small .nil failed).mpr ⟨trivial,?_⟩
  intro entered
  exact absurd entered.reaches.endpoint (by decide)

/-- The object CNode of a child cannot be retyped: its record stays, and the next spawn, which
draws the same pid, is rejected. -/
theorem failed_spawn_blocks_pid : ¬ ∀ (ds : List Deed) (e e' : Estate small 1) (k : SpawnKernel)
    (times : Retypes) (err : Errno),
    Lts.Run step anyDeed (start smallBoot 2) ds e → e.processCreateByName k times = (e',.error err) →
      e.Atomic e' := by
  intro rollsBack
  have atomic := rollsBack [] (start smallBoot 2) _ { bootSpawn with objects := false } ⟨0,0⟩ .enomem .nil rfl
  have before : ((start (n := 1) smallBoot 2).reg.processRegister 3 2 16).2 = .ok () := rfl
  have same := (atomic.admits 3 2 16).trans before
  have after : (((start (n := 1) smallBoot 2).processCreateByName { bootSpawn with objects := false }
    ⟨0,0⟩).1.reg.processRegister
    3 2 16).2 = .error .einval := rfl
  cases after.symm.trans same

end Estate

end Qsoe.Taskman
