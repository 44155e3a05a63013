import Qsoe.Taskman.Descriptors
import Qsoe.Taskman.SpawnFailure

/-! The connections of a process, its rows of the connection table, and what a request that fails leaves
of them. -/
namespace Qsoe.Taskman

variable {cfg : Config} {s t : State cfg} {pid client caller : Pid}

namespace State

def connectionsOf (s : State cfg) (pid : Pid) : Slab.Table cfg.connections (Row cfg) :=
  fun j => (s.rows j).filter fun r => r.clientPid == pid

theorem connectionsOf_of_rows (same : t.rows = s.rows) (pid : Pid) : t.connectionsOf pid = s.connectionsOf pid := by
  funext j
  rw [connectionsOf,connectionsOf,same]

theorem connectionsOf_gained (free : s.rows j = none) (used : t.rows j = some r) (own : r.clientPid = pid) :
    t.connectionsOf pid ≠ s.connectionsOf pid := by
  intro same
  have here := congrFun same j
  simp [connectionsOf,free,used,own] at here

theorem Adds.connectionsOf (adds : s.Adds t pid) (other : client ≠ pid) :
    t.connectionsOf client = s.connectionsOf client := by
  funext j
  rcases adds.row j with same | ⟨free,r,used,own⟩
  · rw [State.connectionsOf,State.connectionsOf,same]
  · simp [State.connectionsOf,free,used,own,other.symm]

theorem connectionsOf_erased (used : s.rows j = some r) (other : r.clientPid ≠ client)
    (erased : t.rows = Slab.erase s.rows j) :
    t.connectionsOf client = s.connectionsOf client := by
  funext k
  rw [connectionsOf,connectionsOf,erased]
  by_cases same : k = j
  · subst same
    rw [Slab.erase_same,used,Option.filter_none,Option.filter_some,if_neg (by simpa using other)]
  · rw [Slab.erase_other _ same]

def FirstBySlot (s : State cfg) (client : Pid) : Prop :=
  ∀ j, Slab.free s.rows = some j → ∀ k q, k < j → s.rows k = some q →
    ¬(q.clientPid = client ∧ q.clientSlot = s.nextSlot client)

theorem Attaches.adds (attaches : Attaches s t client i slot ntfn j r c) : s.Adds t client := by
  constructor
  intro k
  rw [attaches.rows]
  by_cases same : k = j
  · subst same
    exact .inr ⟨Slab.free_some attaches.free,r,Slab.put_same s.rows,attaches.names.1⟩
  · exact .inl (Slab.put_other s.rows same)

theorem Attaches.gained (attaches : Attaches s t client i slot ntfn j r c) :
    t.connectionsOf client ≠ s.connectionsOf client :=
  State.connectionsOf_gained (Slab.free_some attaches.free) (by rw [attaches.rows,Slab.put_same]) attaches.names.1

/-- What an attach has left a detach takes back exactly if the cap goes and the row it finds is the new one. -/
theorem Attaches.detaches (attaches : Attaches s t client i slot ntfn j r c) (word stale : Nat) (deleted : Bool) :
    (t.connectDetach client word stale deleted).1.connectionsOf client = s.connectionsOf client ↔
      deleted = true ∧ word = slot ∧ ∀ k q, k < j → s.rows k = some q →
        ¬(q.clientPid = client ∧ q.clientSlot = slot) := by
  obtain ⟨a,q,process,-⟩ := attaches.process
  have free := Slab.free_some attaches.free
  have written : t.rows j = some r := by rw [attaches.rows,Slab.put_same]
  -- as long as the new row is there, something is left
  have stays : ∀ {u : State cfg}, u.rows j = some r → u.connectionsOf client ≠ s.connectionsOf client :=
    fun there => State.connectionsOf_gained free there attaches.names.1
  have passes : word = slot → (r.clientPid == client && r.clientSlot == word) = true := by
    rintro rfl
    simp [attaches.names.1,attaches.names.2.1]
  cases found : t.connectionFindBySlot client word with
  | none =>
    have kept : (t.connectDetach client word stale deleted).1 = t := by
      simp only [State.connectDetach,process,found]
    rw [kept]
    refine iff_of_false (stays written) fun gone => ?_
    have fails := Slab.find_none found written
    rw [passes gone.2.1] at fails
    cases fails
  | some hit =>
    obtain ⟨k,old⟩ := hit
    have there : (t.processLookup client).isSome := by rw [process]; rfl
    have rows := State.connectDetach_rows t client word stale deleted there found
    obtain ⟨used,tested⟩ := Slab.find_some found
    cases deleted with
    | false =>
      refine iff_of_false (stays (rows ▸ written)) fun gone => ?_
      cases gone.1
    | true =>
      rw [if_pos rfl] at rows
      have search := Slab.find_put_iff (i := j) (a := r) (t := s.rows)
        (fun q : Row cfg => q.clientPid == client && q.clientSlot == word)
      rw [← attaches.rows] at search
      by_cases own : k = j
      · subst own
        obtain rfl : old = r := Option.some.inj (used.symm.trans written)
        have here : word = slot := by
          simp only [Bool.and_eq_true,beq_iff_eq] at tested
          exact tested.2.symm.trans attaches.names.2.1
        subst here
        have below := (search (passes rfl)).mp ⟨old,found⟩
        refine iff_of_true ?_ ⟨rfl,rfl,fun l p before used => by simpa using below l p before used⟩
        apply State.connectionsOf_of_rows
        rw [rows,attaches.rows,Slab.erase_put free]
      · refine iff_of_false (stays ?_) ?_
        · rw [rows,Slab.erase_other _ (Ne.symm own),written]
        · rintro ⟨-,rfl,below⟩
          obtain ⟨b,first⟩ := (search (passes rfl)).mpr fun l p before used => by simpa using below l p before used
          exact own (Prod.mk.inj (Option.some.inj (found.symm.trans first))).1

theorem Attaches.detach_ok (attaches : Attaches s t client i slot ntfn j r c) (stale : Nat) :
    (t.connectDetach client slot stale true).2 = .ok () := by
  obtain ⟨a,q,process,-⟩ := attaches.process
  have written : t.rows j = some r := by rw [attaches.rows,Slab.put_same]
  have named : (r.clientPid == client && r.clientSlot == slot) = true := by
    simp [attaches.names.1,attaches.names.2.1]
  obtain ⟨k,old,found⟩ := Slab.find_of_used (fun q : Row cfg => q.clientPid == client && q.clientSlot == slot)
    written named
  have lookup : t.connectionFindBySlot client slot = some (k,old) := found
  simp only [connectDetach,process,lookup,Bool.true_eq_false,if_false]

def OpenGoes (s : State cfg) (caller : Pid) (server : Option (Pid × BitVec 32)) (stale : Nat)
    (k : AttachKernel) : Prop :=
  ∃ obj ∈ server, s.attachGoes caller obj.1 obj.2 stale k.minted = true

theorem ioOpen_cases (s : State cfg) (caller : Pid) (server : Option (Pid × BitVec 32)) (stale : Nat)
    (k : AttachKernel) (opened deleted : Bool) :
    (¬s.OpenGoes caller server stale k ∧ ∃ t e, s.ioOpen caller server stale k opened deleted = (t,.error e) ∧
      t.rows = s.rows) ∨
    (s.OpenGoes caller server stale k ∧ ∃ t ntfn j r c,
      Attaches s t caller (s.cspace caller stale) (s.nextSlot caller) ntfn j r c ∧
      s.ioOpen caller server stale k opened deleted =
        if opened then (t,.ok (s.nextSlot caller))
        else ((t.connectDetach caller (s.nextSlot caller) stale deleted).1,.error .enoent)) := by
  cases server with
  | none =>
    refine .inl ⟨?_,s,_,rfl,rfl⟩
    rintro ⟨obj,named,-⟩
    cases named
  | some obj =>
    obtain ⟨target,chid⟩ := obj
    rcases s.connectAttach_attaches caller target chid 0 stale k with
      ⟨stops,t,e,failed,rows,-⟩ | ⟨goes,t,ntfn,j,r,c,done,attaches⟩
    · refine .inl ⟨?_,t,e,?_,rows⟩
      · rintro ⟨obj,named,goes⟩
        obtain rfl := Option.some.inj named
        rw [stops] at goes
        cases goes
      · simp only [ioOpen,failed]
    · refine .inr ⟨⟨_,rfl,goes⟩,t,ntfn,j,r,c,attaches,?_⟩
      simp only [ioOpen,done]

def PipeGoes (s : State cfg) (caller : Pid) (server : Option (Pid × BitVec 32)) (stale : Nat)
    (readMinted writeMinted : Bool) :
    Prop :=
  (∃ obj ∈ server, (s.channelFind obj.1 obj.2).isSome) ∧ (s.processLookup caller).isSome ∧
    s.takes (s.cspace caller stale) (s.nextSlot caller) readMinted = true ∧
    s.takes (s.cspace caller stale) (s.nextSlot caller + 1) writeMinted = true

theorem registerPipe_rows (live : s.channels idx = some ch) (caller : Pid) (n slot slot' : Nat) :
    (s.registerPipe caller idx n slot slot').connectionsOf caller = s.connectionsOf caller ↔
      ¬∃ j, s.rows j = none := by
  obtain ⟨-,channels,first⟩ := connectionRegisterExisting_rows live caller slot (.pipe n false) 0
  have whole : s.registerPipe caller idx n slot slot' =
      ((s.connectionRegisterExisting caller slot idx (.pipe n false) 0).1.connectionRegisterExisting
        caller slot' idx
        (.pipe n true) 0).1 := rfl
  rw [whole]
  generalize (s.connectionRegisterExisting caller slot idx (.pipe n false) 0).1 = half at channels first ⊢
  obtain ⟨-,-,second⟩ := connectionRegisterExisting_rows (channels ▸ live) caller slot' (.pipe n true) 0
  generalize (half.connectionRegisterExisting caller slot' idx (.pipe n true) 0).1 = full at second ⊢
  rcases first with ⟨nothing,rows⟩ | ⟨j,r,free,own,-,-,rows⟩
  · refine iff_of_true (connectionsOf_of_rows ?_ caller) ((Slab.free_none_iff _).mp nothing)
    rcases second with ⟨-,rows'⟩ | ⟨j,-,free,-⟩
    · exact rows'.trans rows
    · rw [rows,nothing] at free
      cases free
  · have empty := Slab.free_some free
    refine iff_of_false ?_ (not_not.mpr ⟨j,empty⟩)
    have here : half.rows j = some r := by rw [rows,Slab.put_same]
    refine connectionsOf_gained empty (r := r) ?_ own
    rcases second with ⟨-,rows'⟩ | ⟨l,q,free',-,-,-,rows'⟩
    · rw [rows',here]
    · have other : j ≠ l := by
        rintro rfl
        rw [Slab.free_some free'] at here
        cases here
      rw [rows',Slab.put_other _ other,here]

theorem pipeCreate_cases (s : State cfg) (caller : Pid) (server : Option (Pid × BitVec 32)) (stale : Nat)
    (readMinted writeMinted : Bool) :
    (¬s.PipeGoes caller server stale readMinted writeMinted ∧
      ∃ t e, s.pipeCreate caller server stale readMinted writeMinted = (t,.error e) ∧ t.rows = s.rows) ∨
    (s.PipeGoes caller server stale readMinted writeMinted ∧
      ∃ t, s.pipeCreate caller server stale readMinted writeMinted =
        (t,.ok (s.nextSlot caller,s.nextSlot caller + 1)) ∧
        (t.connectionsOf caller = s.connectionsOf caller ↔ ¬∃ j, s.rows j = none)) := by
  unfold PipeGoes
  cases server with
  | none =>
    refine .inl ⟨?_,s,_,rfl,rfl⟩
    rintro ⟨⟨obj,named,-⟩,-⟩
    cases named
  | some obj =>
    obtain ⟨target,chid⟩ := obj
    have named : (∃ obj ∈ some (target,chid), (s.channelFind obj.1 obj.2).isSome) ↔
      (s.channelFind target chid).isSome := by simp
    rw [named]
    cases channel : s.channelFind target chid with
    | none => exact .inl ⟨by simp,s,.esrch,by simp only [pipeCreate,channel],rfl⟩
    | some hit =>
      obtain ⟨idx,ch⟩ := hit
      cases found : s.processLookup caller with
      | none => exact .inl ⟨by simp,s,.esrch,by simp only [pipeCreate,channel,found],rfl⟩
      | some hit =>
        obtain ⟨a,p⟩ := hit
        have space : p.cnode stale = s.cspace caller stale := by simp [cspace,found]
        have lookup : s.allocPipe.processLookup caller = some (a,p) := found
        obtain ⟨drawn,number⟩ := processAllocSlot_found lookup
        obtain ⟨-,number'⟩ := processAllocSlot_found drawn
        have next : s.nextSlot caller = p.nextSlot := (processAllocSlot_found found).2
        have quiet := processAllocSlot_quiet s.allocPipe caller
        have quiet' := processAllocSlot_quiet (s.allocPipe.processAllocSlot caller).1 caller
        simp only [pipeCreate,channel,found,Option.isSome_some,true_and]
        generalize ((s.allocPipe.processAllocSlot caller).1.processAllocSlot caller).1 = u at quiet' ⊢
        have spaces : u.spaces = s.spaces := quiet'.spaces.trans quiet.spaces
        have rows : u.rows = s.rows := congrArg Tables.rows (quiet'.tables.trans quiet.tables)
        have channels : u.channels = s.channels := congrArg Tables.channels (quiet'.tables.trans quiet.tables)
        simp only [space,number,number',next]
        cases reading : u.mint (s.cspace caller stale) p.nextSlot
            ⟨ch.master,(Source.pipe s.pipes false).badge,some (.pipe s.pipes false)⟩ readMinted with
        | none =>
          have stops := mint_none reading
          rw [takes_of_spaces spaces] at stops
          exact .inl ⟨by simp [stops],u,_,rfl,rows⟩
        | some half =>
          obtain ⟨takes,rows₁,-,later⟩ := mint_some reading
          rw [takes_of_spaces spaces] at takes
          cases writing : half.mint (s.cspace caller stale) (p.nextSlot + 1)
              ⟨ch.master,(Source.pipe s.pipes true).badge,some (.pipe s.pipes true)⟩ writeMinted with
          | none =>
            have stops := mint_none writing
            rw [later _ _ (Nat.succ_ne_self _),takes_of_spaces spaces] at stops
            exact .inl ⟨by simp [stops],half,.enomem,by simp only [writing],rows₁.trans rows⟩
          | some full =>
            obtain ⟨takes',rows₂,-,-⟩ := mint_some writing
            rw [later _ _ (Nat.succ_ne_self _),takes_of_spaces spaces] at takes'
            have table : full.rows = s.rows := rows₂.trans (rows₁.trans rows)
            have live : full.channels idx = some ch := by
              have boards := congrArg Tables.channels ((mint_tables writing).trans (mint_tables reading))
              rw [show full.channels = u.channels from boards,channels]
              exact (Slab.find_some channel).1
            refine .inr ⟨⟨takes,takes'⟩,full.registerPipe caller idx s.pipes p.nextSlot
              (p.nextSlot + 1),by simp only [writing],?_⟩
            rw [← connectionsOf_of_rows table caller,registerPipe_rows live,table]

theorem loadImage_connections (s : State cfg) (image : Image) (other : caller ≠ pidTaskman) :
    (s.loadImage image).1.connectionsOf caller = s.connectionsOf caller := by
  cases image with
  | absent => rfl
  | archive => rfl
  | mounted server chid k read deleted =>
    rcases s.connectAttach_attaches pidTaskman server chid 0 0 k with
      ⟨-,t,e,failed,rows,-⟩ | ⟨-,t,ntfn,j,r,c,done,attaches⟩
    · simp only [loadImage,failed]
      exact connectionsOf_of_rows rows caller
    · simp only [loadImage,done]
      rw [← attaches.adds.connectionsOf other]
      cases found : t.connectionFindBySlot pidTaskman (s.nextSlot pidTaskman) with
      | none =>
        obtain ⟨a,q,process,-⟩ := attaches.process
        simp only [connectDetach,process,found]
      | some hit =>
        obtain ⟨l,old⟩ := hit
        obtain ⟨a,q,process,-⟩ := attaches.process
        have rows := connectDetach_rows t pidTaskman (s.nextSlot pidTaskman) 0 deleted (by rw [process]; rfl) found
        obtain ⟨used,tested⟩ := Slab.find_some found
        have own : old.clientPid = pidTaskman := by
          simp only [Bool.and_eq_true,beq_iff_eq] at tested
          exact tested.1
        cases deleted with
        | false => exact connectionsOf_of_rows rows caller
        | true => exact connectionsOf_erased used (own ▸ other.symm) rows

/-- The spawn draws the pid of its own caller and registers a row for it. -/
structure Strays (s : State cfg) (caller : Pid) (k : SpawnKernel) : Prop where
  image : (s.loadImage k.image).2 = .ok ()
  pid : ((s.loadImage k.image).1.pidAlloc.map Prod.snd) = some caller
  staged : k.staged = true
  reaches : (s.loadImage k.image).1.Reaches k

theorem processCreate_fresh (s : State cfg) (caller : Pid) (k : SpawnKernel)
    (there : (s.processLookup caller).isSome)
    (done : (s.processCreate caller k).2 = .ok child) (drawn : s.roster.issue = some (issued,pid)) :
      pid ≠ caller := by
  have ending := s.processCreate_roster caller k
  rw [done] at ending
  generalize (s.processCreate caller k).1.roster = after at ending
  cases ending with
  | spawned drawn' enrolled =>
    obtain ⟨rfl,rfl⟩ := Prod.mk.inj (Option.some.inj (drawn.symm.trans drawn'))
    rintro rfl
    have missing := (Roster.enroll_lookup enrolled).2.1
    rw [Roster.lookup,Roster.issue_people drawn] at missing
    have view : s.roster.lookup pid = none := missing
    rw [lookup_roster,Option.map_eq_none_iff] at view
    rw [view] at there
    cases there

/-- A spawn that succeeds has not drawn the pid of its caller. -/
theorem processCreate_ok (s : State cfg) (k : SpawnKernel) (there : (s.processLookup caller).isSome)
    (done : (s.processCreate caller k).2 = .ok child) : ¬s.Strays caller k := by
  intro strays
  obtain ⟨⟨issued,pid⟩,allocating,own⟩ := Option.map_eq_some_iff.mp strays.pid
  have drawn := pidAlloc_roster (s.loadImage k.image).1
  rw [loadImage_roster,allocating] at drawn
  exact s.processCreate_fresh caller k there done drawn own

/-- A spawn that fails leaves the connections of its caller alone exactly if it does not take it for the child. -/
theorem processCreate_connections (s : State cfg) (k : SpawnKernel) (other : caller ≠ pidTaskman)
    (failed : (s.processCreate caller k).2 = .error e) :
    (s.processCreate caller k).1.connectionsOf caller = s.connectionsOf caller ↔ ¬s.Strays caller k := by
  have image := s.loadImage_connections k.image other
  unfold processCreate processCreateByName at *
  cases loading : s.loadImage k.image with
  | mk loaded answer =>
    rw [loading] at image
    cases answer with
    | error e =>
      refine iff_of_true image fun strays => ?_
      have fine := strays.image
      rw [loading] at fine
      cases fine
    | ok _ =>
      simp only [loading] at failed ⊢
      have drawn : ∀ strays : s.Strays caller k, loaded.pidAlloc.map Prod.snd = some caller := fun strays => by
        have pid := strays.pid
        rwa [loading] at pid
      cases allocating : loaded.pidAlloc with
      | none =>
        refine iff_of_true image fun strays => ?_
        have pid := drawn strays
        rw [allocating] at pid
        cases pid
      | some hit =>
        obtain ⟨issued,pid⟩ := hit
        simp only [allocating] at failed ⊢
        have quiet := (pidAlloc_quiet allocating).tables
        have rows : issued.rows = loaded.rows := congrArg Tables.rows quiet
        have before := (connectionsOf_of_rows rows caller).trans image
        have freed : ∀ t : State cfg, (t.pidFree pid).connectionsOf caller = t.connectionsOf caller :=
          fun t => connectionsOf_of_rows (congrArg Tables.rows (pidFree_quiet t pid).tables) caller
        by_cases staged : k.staged = false
        · rw [if_pos staged]
          refine iff_of_true ((freed issued).trans before) fun strays => ?_
          rw [strays.staged] at staged
          cases staged
        · rw [if_neg staged] at failed ⊢
          have child := spawn_rows issued pid k
          have adds := spawn_adds issued pid k
          cases spawning : issued.spawn pid k with
          | mk left answer =>
            rw [spawning] at child adds failed
            cases answer with
            | ok _ =>
              dsimp only at failed
              cases failed
            | error e =>
              dsimp only
              rw [freed,show (left.destroySpace issued.spawned).connectionsOf caller =
                left.connectionsOf caller from rfl,← before]
              have reaches := Reaches.of_tables (congrArg Tables.channels quiet) rows k
              rcases child with ⟨reached,l,free,used⟩ | ⟨stopped,kept,-,-⟩
              · by_cases own : caller = pid
                · subst own
                  refine iff_of_false ?_
                    (not_not.mpr ⟨by rw [loading],by rw [loading,allocating]; rfl,by simpa using staged,?_⟩)
                  · rcases adds.row l with same | ⟨-,r,row,mine⟩
                    · exact absurd (same.trans free) used
                    · exact connectionsOf_gained free row mine
                  · rw [loading]
                    exact reaches.mp reached
                · refine iff_of_true (adds.connectionsOf own) fun strays => ?_
                  have pid' := drawn strays
                  rw [allocating] at pid'
                  exact own (Option.some.inj pid').symm
              · refine iff_of_true (connectionsOf_of_rows kept caller) fun strays => stopped ?_
                have reached := strays.reaches
                rw [loading] at reached
                exact reaches.mpr reached

end State

end Qsoe.Taskman
