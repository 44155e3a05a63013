import Qsoe.Taskman.Frame

/-! What the descriptor calls leave behind. A descriptor is a slot with a Send cap and one row of
the connection table for it. `tm_connect_attach` reserves the row before it mints and
`tm_dup_cap` takes its copy back; `tm_pipe_create` does neither. -/
namespace Qsoe.Taskman

variable {cfg : Config} {s t : State cfg}

/-- The calls that hand out descriptors, with what the kernel, the path manager and the resource
manager answer. -/
inductive FdCall where
  | attach (target : Pid) (chid flags : BitVec 32) (k : AttachKernel)
  | openPath (server : Option (Pid × BitVec 32)) (k : AttachKernel) (opened deleted : Bool)
  | dup (src dst : Nat) (copied : Bool)
  | pipe (server : Option (Pid × BitVec 32)) (readMinted writeMinted : Bool)

/-- The state after a call and the slots it hands to the client. -/
def FdCall.run (s : State cfg) (caller : Pid) (stale : Nat) : FdCall → State cfg × Except Errno (List Nat)
  | .attach target chid flags k =>
    let done := s.connectAttach caller target chid flags stale k
    (done.1,done.2.map fun slots => [slots.1])
  | .openPath server k opened deleted =>
    let done := s.ioOpen caller server stale k opened deleted
    (done.1,done.2.map fun slot => [slot])
  | .dup src dst copied =>
    let done := s.dupCap caller src dst stale copied
    (done.1,done.2.map fun _ => [dst])
  | .pipe server readMinted writeMinted =>
    let done := s.pipeCreate caller server stale readMinted writeMinted
    (done.1,done.2.map fun slots => [slots.1,slots.2])

namespace State

def cspace (s : State cfg) (caller : Pid) (stale : Nat) : Nat :=
  match s.processLookup caller with
  | none => stale
  | some (_,p) => p.cnode stale

def Backed (s : State cfg) (caller : Pid) (i slot : Nat) : Prop :=
  ∃ c j r, s.held i slot = some c ∧ c.source.isSome = true ∧ s.rows j = some r ∧ r.badge = c.badge ∧
    ∀ j' r', s.rows j' = some r' → (r'.clientPid = caller ∧ r'.clientSlot = slot ↔ j' = j)

end State

/-- On success every slot handed out is backed; on failure nothing is left. -/
def AllOrNothing (s : State cfg) (caller : Pid) (stale : Nat) (done : State cfg × Except Errno (List Nat)) : Prop :=
  match done.2 with
  | .ok slots => ∀ slot ∈ slots, done.1.Backed caller (s.cspace caller stale) slot
  | .error _ => done.1.rows = s.rows ∧ ∀ slot c, done.1.held (s.cspace caller stale) slot = some c →
      s.held (s.cspace caller stale) slot = some c

namespace State

/-- With room for it a row is added, which must then be the only one; without, the row must
happen to be there. -/
def RowFor (s : State cfg) (caller : Pid) (slot : Nat) (badge : Word) (room : Prop) : Prop :=
  (room → s.connectionFindBySlot caller slot = none) ∧
    (¬room → ∃ j r, s.rows j = some r ∧ r.badge = badge ∧
      ∀ j' r', s.rows j' = some r' → (r'.clientPid = caller ∧ r'.clientSlot = slot ↔ j' = j))

end State

namespace State

/-- The kernel mints into the slot. -/
def takes (s : State cfg) (i slot : Nat) (granted : Bool) : Bool :=
  granted && (s.spaces i).any fun sp => (sp.caps slot).isNone

theorem held_of_spaces (same : t.spaces = s.spaces) (i slot : Nat) : t.held i slot = s.held i slot := by
  rw [held,held,same]

theorem takes_of_spaces (same : t.spaces = s.spaces) (i slot : Nat) (granted : Bool) :
    t.takes i slot granted = s.takes i slot granted := by
  rw [takes,takes,same]

theorem takes_empty (takes : s.takes i slot granted = true) : s.held i slot = none := by
  simp only [State.takes,Bool.and_eq_true,Option.any_eq_true] at takes
  obtain ⟨-,sp,used,empty⟩ := takes
  simpa [held,used] using empty

theorem mint_none (refused : s.mint i slot c granted = none) : s.takes i slot granted = false := by
  unfold mint at refused
  unfold takes
  cases used : s.spaces i with
  | none => simp
  | some sp =>
    rw [used] at refused
    cases granted with
    | false => rfl
    | true =>
      cases cap : sp.caps slot with
      | none => simp [cap] at refused
      | some c => simp [cap]

theorem mint_some (minted : s.mint i slot c granted = some t) :
    s.takes i slot granted = true ∧ t.rows = s.rows ∧
      (∀ n, t.held i n = if n = slot then some c else s.held i n) ∧
      ∀ n g, n ≠ slot → t.takes i n g = s.takes i n g := by
  unfold mint at minted
  cases used : s.spaces i with
  | none => simp [used] at minted
  | some sp =>
    rw [used] at minted
    dsimp only at minted
    split at minted
    · rename_i fits
      obtain rfl := Option.some.inj minted
      refine ⟨by simp [takes,used,fits],rfl,?_,?_⟩
      · intro n
        by_cases same : n = slot
        · subst same
          simp [held,setSpace]
        · simp [held,setSpace,same,used]
      · intro n g other
        simp [takes,setSpace,used,other]
    · cases minted

def nextSlot (s : State cfg) (caller : Pid) : Nat := (s.processAllocSlot caller).2

theorem processAllocSlot_found (found : s.processLookup pid = some (a,p)) :
    (s.processAllocSlot pid).1.processLookup pid = some (a,{ p with nextSlot := p.nextSlot + 1 }) ∧
      (s.processAllocSlot pid).2 = p.nextSlot := by
  have named := (Slab.find_some found).2
  refine ⟨?_,by simp [processAllocSlot,found]⟩
  rw [processAllocSlot,found]
  exact Slab.find_put found named

theorem mint_lookup (minted : s.mint i slot c granted = some t) (pid : Pid) :
    t.processLookup pid = s.processLookup pid := by
  unfold mint at minted
  split at minted
  · split at minted
    · obtain rfl := Option.some.inj minted
      rfl
    · cases minted
  · cases minted

theorem shareNtfn_caps (found : s.processLookup client = some (a,p)) (i : Nat) (ch : Channel) (shared : Bool) :
    (s.shareNtfn client i ch shared).1.rows = s.rows ∧
    (∃ q, (s.shareNtfn client i ch shared).1.processLookup client = some (a,q) ∧ q.space = p.space) ∧
    (((s.shareNtfn client i ch shared).2 = 0 ∧ ∀ n, (s.shareNtfn client i ch shared).1.held i n = s.held i n) ∨
      ((s.shareNtfn client i ch shared).2 = p.nextSlot ∧ s.held i p.nextSlot = none ∧
        ∀ n, n ≠ p.nextSlot → (s.shareNtfn client i ch shared).1.held i n = s.held i n)) := by
  have rows := congrArg Tables.rows (shareNtfn_tables s client i ch shared)
  refine ⟨rows,?_⟩
  obtain ⟨drawn,number⟩ := processAllocSlot_found found
  have caps := held_of_spaces (processAllocSlot_quiet s client).spaces
  unfold shareNtfn
  split
  · exact ⟨⟨p,found,rfl⟩,.inl ⟨rfl,fun _ => rfl⟩⟩
  · split
    · exact ⟨⟨p,found,rfl⟩,.inl ⟨rfl,fun _ => rfl⟩⟩
    · dsimp only
      split
      · exact ⟨⟨_,drawn,rfl⟩,.inl ⟨rfl,caps i⟩⟩
      · rename_i minting
        obtain ⟨takes,-,held,-⟩ := mint_some minting
        refine ⟨⟨_,(mint_lookup minting client).trans drawn,rfl⟩,.inr ⟨number,?_,?_⟩⟩
        · rw [← number,← caps i]
          exact takes_empty takes
        · intro n other
          rw [held,if_neg (by rwa [number]),caps i]

def attachGoes (s : State cfg) (client target : Pid) (chid : BitVec 32) (stale : Nat) (minted : Bool) : Bool :=
  (s.processLookup client).isSome && (s.channelFind target chid).isSome && (Slab.free s.rows).isSome &&
    s.takes (s.cspace client stale) (s.nextSlot client) minted

/-- What a successful attach leaves. -/
structure Attaches (s t : State cfg) (client : Pid) (i slot ntfn : Nat) (j : Fin cfg.connections) (r : Row cfg)
    (c : Cap) : Prop where
  free : Slab.free s.rows = some j
  rows : t.rows = Slab.put s.rows j r
  names : r.clientPid = client ∧ r.clientSlot = slot ∧ r.ntfnSlot = ntfn ∧ r.badge = c.badge
  sends : c.source.isSome = true
  cap : t.held i slot = some c
  empty : s.held i slot = none
  spare : ntfn ≠ 0 → s.held i ntfn = none
  others : ∀ n, n ≠ slot → (ntfn = 0 ∨ n ≠ ntfn) → t.held i n = s.held i n
  process : ∃ a q, t.processLookup client = some (a,q) ∧ ∀ stale, q.cnode stale = s.cspace client stale

theorem connectAttach_attaches (s : State cfg) (client target : Pid) (chid flags : BitVec 32) (stale : Nat)
    (k : AttachKernel) :
    (s.attachGoes client target chid stale k.minted = false ∧
      ∃ t e, s.connectAttach client target chid flags stale k = (t,.error e) ∧ t.rows = s.rows ∧
        t.spaces = s.spaces) ∨
    (s.attachGoes client target chid stale k.minted = true ∧ ∃ t ntfn j r c,
      s.connectAttach client target chid flags stale k = (t,.ok (s.nextSlot client,ntfn)) ∧
        Attaches s t client (s.cspace client stale) (s.nextSlot client) ntfn j r c) := by
  unfold connectAttach attachGoes
  cases found : s.processLookup client with
  | none => exact .inl ⟨by simp,s,_,rfl,rfl,rfl⟩
  | some hit =>
    obtain ⟨a,p⟩ := hit
    have space : ∀ stale, s.cspace client stale = p.cnode stale := fun stale => by simp [cspace,found]
    obtain ⟨drawn,number⟩ := processAllocSlot_found found
    cases named : s.channelFind target chid with
    | none => exact .inl ⟨by simp,s,_,rfl,rfl,rfl⟩
    | some hit =>
      obtain ⟨idx,ch⟩ := hit
      cases free : Slab.free s.rows with
      | none => exact .inl ⟨by simp,s,_,rfl,rfl,rfl⟩
      | some j =>
        have quiet := processAllocSlot_quiet s client
        have spaces : (s.processAllocSlot client).1.allocScoid.1.spaces = s.spaces := quiet.spaces
        have rows : (s.processAllocSlot client).1.allocScoid.1.rows = s.rows := congrArg Tables.rows quiet.tables
        simp only [Option.isSome_some,Bool.true_and,space,nextSlot]
        split
        · rename_i refused
          left
          refine ⟨?_,_,_,rfl,rows,spaces⟩
          rw [← takes_of_spaces spaces]
          exact mint_none refused
        · rename_i held minting
          obtain ⟨takes,table,caps,-⟩ := mint_some minting
          have lookup : held.processLookup client = some (a,{ p with nextSlot := p.nextSlot + 1 }) :=
            (mint_lookup minting client).trans drawn
          obtain ⟨kept,⟨q,there,home⟩,shared⟩ := shareNtfn_caps lookup (p.cnode stale) ch k.shared
          have before := held_of_spaces spaces (p.cnode stale)
          right
          refine ⟨by rw [← takes_of_spaces spaces]; exact takes,_,_,j,
            ⟨idx,(s.processAllocSlot client).1.allocScoid.2,client,(s.processAllocSlot client).2,
              (held.shareNtfn client (p.cnode stale) ch k.shared).2,flags &&& ~~~cfg.sideChannel,
              .scoid s.scoids,ch.born⟩,
            ⟨ch.master,(s.processAllocSlot client).1.allocScoid.2,some (.scoid s.scoids)⟩,rfl,free,?_,
            ⟨rfl,rfl,rfl,rfl⟩,rfl,?_,?_,?_,?_,⟨a,q,there,fun stale => ?_⟩⟩
          · rw [← rows,← table,← kept]
            rfl
          · -- the Notification is not put over the new cap
            rcases shared with ⟨-,same⟩ | ⟨-,-,others⟩
            · exact (same _).trans (by rw [caps,if_pos rfl])
            · have apart : (s.processAllocSlot client).2 ≠ p.nextSlot + 1 := by omega
              exact (others _ apart).trans (by rw [caps,if_pos rfl])
          · rw [← before]
            exact takes_empty takes
          · intro used
            rcases shared with ⟨nothing,-⟩ | ⟨slot,empty,-⟩
            · exact absurd nothing used
            · have apart : p.nextSlot + 1 ≠ (s.processAllocSlot client).2 := by omega
              rw [slot,← before]
              rwa [caps,if_neg apart] at empty
          · intro n other apart
            have minted : held.held (p.cnode stale) n = s.held (p.cnode stale) n := by
              rw [caps,if_neg other,before]
            rcases shared with ⟨-,same⟩ | ⟨slot,-,others⟩
            · exact (same n).trans minted
            · rcases apart with nothing | away
              · rw [slot] at nothing
                cases nothing
              · rw [slot] at away
                exact (others n away).trans minted
          · rw [space,Process.cnode,Process.cnode,home]

theorem deleteCap_held (s : State cfg) (i slot n : Nat) :
    (s.deleteCap i slot).held i n = if n = slot then none else s.held i n := by
  unfold deleteCap
  cases used : s.spaces i with
  | none => simp [held,used]
  | some sp =>
    by_cases same : n = slot
    · subst same
      simp [held,setSpace]
    · simp [held,setSpace,same,used]

@[simp] theorem deleteCap_rows (s : State cfg) (i slot : Nat) : (s.deleteCap i slot).rows = s.rows :=
  congrArg Tables.rows (deleteCap_tables s i slot)

theorem findBySlot_none (missing : s.connectionFindBySlot caller slot = none) (used : s.rows j = some r) :
    ¬(r.clientPid = caller ∧ r.clientSlot = slot) := by
  simpa using Slab.find_none missing used

theorem backed_iff (written : t.rows j = some r) (free : s.rows j = none)
    (names : r.clientPid = caller ∧ r.clientSlot = slot) (cap : t.held i slot = some c)
    (others : ∀ k q, k ≠ j → q.clientPid = caller ∧ q.clientSlot = slot → (t.rows k = some q ↔ s.rows k = some q)) :
    t.Backed caller i slot ↔
      c.source.isSome = true ∧ r.badge = c.badge ∧ s.connectionFindBySlot caller slot = none := by
  constructor
  · rintro ⟨c',j',r',there,sends,used,badge,only⟩
    obtain rfl : c' = c := Option.some.inj (there.symm.trans cap)
    obtain rfl : j = j' := (only j r written).mp names
    obtain rfl : r' = r := Option.some.inj (used.symm.trans written)
    refine ⟨sends,badge,Slab.find_none_of fun k q old => ?_⟩
    by_contra passes
    have twin : q.clientPid = caller ∧ q.clientSlot = slot := by simpa using passes
    have other : k ≠ j := by
      rintro rfl
      rw [free] at old
      cases old
    exact other ((only k q ((others k q other twin).mpr old)).mp twin)
  · rintro ⟨sends,badge,missing⟩
    refine ⟨c,j,r,cap,sends,written,badge,fun k q used => ⟨fun twin => ?_,?_⟩⟩
    · by_contra other
      exact findBySlot_none missing ((others k q other twin).mp used) twin
    · rintro rfl
      obtain rfl : q = r := Option.some.inj (used.symm.trans written)
      exact names

theorem Attaches.backed_iff (attaches : Attaches s t client i slot ntfn j r c) :
    t.Backed client i slot ↔ s.connectionFindBySlot client slot = none := by
  have written : t.rows j = some r := by rw [attaches.rows,Slab.put_same]
  rw [State.backed_iff written (Slab.free_some attaches.free) ⟨attaches.names.1,attaches.names.2.1⟩ attaches.cap]
  · simp [attaches.sends,attaches.names.2.2.2]
  · intro k q other _
    rw [attaches.rows,Slab.put_other _ other]

theorem Attaches.detach_iff (attaches : Attaches s t client (s.cspace client stale) slot ntfn j r c)
    (deleted : Bool) :
    ((t.connectDetach client slot stale deleted).1.rows = s.rows ∧
      ∀ n c', (t.connectDetach client slot stale deleted).1.held (s.cspace client stale) n = some c' →
        s.held (s.cspace client stale) n = some c') ↔
    deleted = true ∧ ∀ k q, k < j → s.rows k = some q → ¬(q.clientPid = client ∧ q.clientSlot = slot) := by
  obtain ⟨a,q,process,home⟩ := attaches.process
  have free := Slab.free_some attaches.free
  have named : (r.clientPid == client && r.clientSlot == slot) = true := by
    simp [attaches.names.1,attaches.names.2.1]
  have search := Slab.find_put_iff (i := j) (t := s.rows)
    (fun q : Row cfg => q.clientPid == client && q.clientSlot == slot) named
  obtain ⟨k,old,found⟩ := Slab.find_of_used (fun q : Row cfg => q.clientPid == client && q.clientSlot == slot)
    (Slab.put_same (i := j) (a := r) s.rows) named
  have lookup : t.connectionFindBySlot client slot = some (k,old) := by
    rw [connectionFindBySlot,attaches.rows]
    exact found
  unfold connectDetach
  simp only [process,lookup]
  cases deleted with
  | false =>
    simp only [if_true,Bool.false_eq_true,false_and,iff_false,not_and]
    intro same
    rw [attaches.rows] at same
    have wrong := congrFun same j
    rw [Slab.put_same,free] at wrong
    cases wrong
  | true =>
    simp only [Bool.true_eq_false,if_false,true_and]
    have bare : (if old.ntfnSlot ≠ 0 then (t.deleteCap (q.cnode stale) slot).deleteCap (q.cnode stale) old.ntfnSlot
        else t.deleteCap (q.cnode stale) slot).rows = t.rows := by
      split <;> simp
    constructor
    · rintro ⟨same,-⟩ l p before used twin
      have earlier : ¬ ∃ b, Slab.find (Slab.put s.rows j r)
          (fun q => q.clientPid == client && q.clientSlot == slot) = some (j,b) := by
        rw [search]
        intro below
        have fails := below l p before used
        simp [twin] at fails
      have other : k ≠ j := by
        rintro rfl
        exact earlier ⟨old,found⟩
      have wrong := congrFun same k
      rw [bare,Slab.erase_same] at wrong
      have there := (Slab.find_some found).1
      rw [Slab.put_other _ other,← wrong] at there
      cases there
    · intro below
      obtain ⟨b,hit⟩ := search.mpr fun l p before used => by simpa using below l p before used
      obtain ⟨rfl,rfl⟩ : k = j ∧ old = b := by simpa using found.symm.trans hit
      obtain rfl : old = r := by
        have there := (Slab.find_some hit).1
        rw [Slab.put_same] at there
        exact (Option.some.inj there).symm
      refine ⟨?_,?_⟩
      · rw [bare,attaches.rows]
        exact Slab.erase_put free
      · intro n c' holds
        have left : (if old.ntfnSlot ≠ 0 then
            (t.deleteCap (q.cnode stale) slot).deleteCap (q.cnode stale) old.ntfnSlot
            else t.deleteCap (q.cnode stale) slot).held (q.cnode stale) n = some c' := by
          rw [← home stale] at holds
          exact holds
        rw [attaches.names.2.2.1] at left
        by_cases new : n = slot
        · split at left
          · rw [deleteCap_held,deleteCap_held,if_pos new] at left
            split at left <;> cases left
          · rw [deleteCap_held,if_pos new] at left
            cases left
        · split at left
          · rw [deleteCap_held] at left
            split at left
            · cases left
            · rename_i away
              rw [deleteCap_held,if_neg new,home stale,attaches.others n new (.inr away)] at left
              exact left
          · rename_i same
            rw [deleteCap_held,if_neg new,home stale,
              attaches.others n new (.inl (Decidable.not_not.mp same))] at left
            exact left

theorem deleteCap_mint (minted : s.mint i slot c granted = some t) : (t.deleteCap i slot).spaces = s.spaces := by
  unfold mint at minted
  cases used : s.spaces i with
  | none => simp [used] at minted
  | some sp =>
    rw [used] at minted
    dsimp only at minted
    split at minted
    · rename_i fits
      obtain rfl := Option.some.inj minted
      have bare : Function.update (Function.update sp.caps slot (some c)) slot none = sp.caps := by
        rw [Function.update_idem]
        exact Function.update_eq_self_iff.mpr fits.2.symm
      simp only [deleteCap,setSpace,Function.update_self,Function.update_idem,bare]
      exact Function.update_eq_self_iff.mpr used.symm
    · cases minted

theorem copyCap_none (refused : s.copyCap i src dst granted = none) :
    s.held i src = none ∨ s.takes i dst granted = false := by
  unfold copyCap at refused
  cases cap : (s.spaces i).bind (·.caps src) with
  | none => exact .inl cap
  | some c =>
    rw [cap] at refused
    exact .inr (mint_none refused)

theorem copyCap_some (copied : s.copyCap i src dst granted = some t) :
    ∃ c, s.held i src = some c ∧ s.mint i dst c granted = some t := by
  unfold copyCap at copied
  cases cap : (s.spaces i).bind (·.caps src) with
  | none => simp [cap] at copied
  | some c =>
    rw [cap] at copied
    exact ⟨c,cap,copied⟩

end State

/-- When a call leaves all or nothing. The slot the bump allocator stands at must not have a row
already; a refused open must get its cap deleted, and the row it finds by slot must be its own;
a dup onto itself must name a descriptor, and any other a descriptor whose cap is the row's; a
pipe must get both caps and, since its rows may be missing, room for both rows. -/
def FdCall.Clean (s : State cfg) (caller : Pid) (stale : Nat) : FdCall → Prop
  | .attach target chid _ k => s.attachGoes caller target chid stale k.minted = true →
      s.connectionFindBySlot caller (s.nextSlot caller) = none
  | .openPath server k opened deleted => ∀ obj, server = some obj →
      s.attachGoes caller obj.1 obj.2 stale k.minted = true →
      if opened then s.connectionFindBySlot caller (s.nextSlot caller) = none
      else deleted = true ∧ ∀ j, Slab.free s.rows = some j → ∀ k q, k < j → s.rows k = some q →
        ¬(q.clientPid = caller ∧ q.clientSlot = s.nextSlot caller)
  | .dup src dst copied => (s.processLookup caller).isSome = true → src ≠ 0 → dst ≠ 0 →
      if src = dst then s.Backed caller (s.cspace caller stale) dst
      else ∀ c j r, s.held (s.cspace caller stale) src = some c →
        s.takes (s.cspace caller stale) dst copied = true →
        s.connectionFindBySlot caller src = some (j,r) → (Slab.free s.rows).isSome = true →
          c.source.isSome = true ∧ r.badge = c.badge ∧ s.connectionFindBySlot caller dst = none
  | .pipe server readMinted writeMinted => ∀ obj, server = some obj →
      (s.channelFind obj.1 obj.2).isSome = true → (s.processLookup caller).isSome = true →
      s.takes (s.cspace caller stale) (s.nextSlot caller) readMinted = true →
        s.takes (s.cspace caller stale) (s.nextSlot caller + 1) writeMinted = true ∧
        s.RowFor caller (s.nextSlot caller) (Source.pipe s.pipes false).badge (∃ j, s.rows j = none) ∧
        s.RowFor caller (s.nextSlot caller + 1) (Source.pipe s.pipes true).badge
          (∃ j k, j ≠ k ∧ s.rows j = none ∧ s.rows k = none)

theorem attach_clean (s : State cfg) (caller : Pid) (stale : Nat) (target : Pid) (chid flags : BitVec 32)
    (k : AttachKernel) :
    AllOrNothing s caller stale ((FdCall.attach target chid flags k).run s caller stale) ↔
      (FdCall.attach target chid flags k).Clean s caller stale := by
  rcases s.connectAttach_attaches caller target chid flags stale k with
    ⟨stops,t,e,failed,rows,spaces⟩ | ⟨goes,t,ntfn,j,r,c,done,attaches⟩
  · simp only [FdCall.run,failed,Except.map,AllOrNothing,FdCall.Clean,stops,Bool.false_eq_true,
      false_implies,iff_true]
    exact ⟨rows,fun slot c held => (State.held_of_spaces spaces _ slot).symm.trans held⟩
  · simp only [FdCall.run,done,Except.map,AllOrNothing,FdCall.Clean,goes,true_implies,List.mem_singleton,
      forall_eq]
    exact attaches.backed_iff

theorem open_clean (s : State cfg) (caller : Pid) (stale : Nat) (server : Option (Pid × BitVec 32))
    (k : AttachKernel) (opened deleted : Bool) :
    AllOrNothing s caller stale ((FdCall.openPath server k opened deleted).run s caller stale) ↔
      (FdCall.openPath server k opened deleted).Clean s caller stale := by
  cases server with
  | none => simp [FdCall.run,State.ioOpen,Except.map,AllOrNothing,FdCall.Clean]
  | some obj =>
    obtain ⟨target,chid⟩ := obj
    simp only [FdCall.run,State.ioOpen,FdCall.Clean,Option.some.injEq,forall_eq']
    rcases s.connectAttach_attaches caller target chid 0 stale k with
      ⟨stops,t,e,failed,rows,spaces⟩ | ⟨goes,t,ntfn,j,r,c,done,attaches⟩
    · simp only [failed,Except.map,AllOrNothing,stops,Bool.false_eq_true,false_implies,iff_true]
      exact ⟨rows,fun slot c held => (State.held_of_spaces spaces _ slot).symm.trans held⟩
    · simp only [done,goes,true_implies]
      cases opened with
      | true =>
        simp only [if_true,Except.map,AllOrNothing,List.mem_singleton,forall_eq]
        exact attaches.backed_iff
      | false =>
        simp only [Bool.false_eq_true,if_false,Except.map,AllOrNothing,attaches.free,Option.some.injEq,
          forall_eq']
        exact attaches.detach_iff deleted

theorem dup_clean (s : State cfg) (caller : Pid) (stale src dst : Nat) (copied : Bool) :
    AllOrNothing s caller stale ((FdCall.dup src dst copied).run s caller stale) ↔
      (FdCall.dup src dst copied).Clean s caller stale := by
  simp only [FdCall.run,FdCall.Clean,State.dupCap]
  cases found : s.processLookup caller with
  | none => simp [Except.map,AllOrNothing]
  | some hit =>
    obtain ⟨a,p⟩ := hit
    have space : p.cnode stale = s.cspace caller stale := by simp [State.cspace,found]
    simp only [Option.isSome_some,true_implies,space]
    by_cases zero : src = 0 ∨ dst = 0
    · simp only [zero,if_true,Except.map,AllOrNothing,true_and,imp_self,implies_true,true_iff]
      intro srcNonzero dstNonzero
      rcases zero with wrong | wrong
      · exact absurd wrong srcNonzero
      · exact absurd wrong dstNonzero
    · obtain ⟨srcNonzero,dstNonzero⟩ := not_or.mp zero
      simp only [srcNonzero,dstNonzero,or_self,if_false,ne_eq,not_false_eq_true,true_implies]
      by_cases same : src = dst
      · simp only [same,if_true,Except.map,AllOrNothing,List.mem_singleton,forall_eq]
      · simp only [same,if_false]
        cases copying : s.copyCap (s.cspace caller stale) src dst copied with
        | none =>
          simp only [Except.map,AllOrNothing,true_and,imp_self,implies_true,true_iff]
          intro c j r cap takes
          rcases State.copyCap_none copying with wrong | wrong
          · rw [wrong] at cap
            cases cap
          · rw [wrong] at takes
            cases takes
        | some held =>
          obtain ⟨c,cap,minting⟩ := State.copyCap_some copying
          obtain ⟨takes,rows,caps,-⟩ := State.mint_some minting
          have lookup : held.connectionFindBySlot caller src = s.connectionFindBySlot caller src := by
            rw [State.connectionFindBySlot,State.connectionFindBySlot,rows]
          have undone : ∀ slot c', (held.deleteCap (s.cspace caller stale) dst).held (s.cspace caller stale) slot =
              some c' → s.held (s.cspace caller stale) slot = some c' := by
            intro slot c' there
            rwa [State.held_of_spaces (State.deleteCap_mint minting)] at there
          simp only [State.connectionCloneForDup,lookup,rows,cap,Option.some.injEq,takes,true_implies]
          cases row : s.connectionFindBySlot caller src with
          | none =>
            simp only [Except.map,AllOrNothing,State.deleteCap_rows,rows,true_and,reduceCtorEq,false_implies,
              implies_true,iff_true]
            exact undone
          | some hit =>
            obtain ⟨j,r⟩ := hit
            cases free : Slab.free s.rows with
            | none =>
              simp only [Except.map,AllOrNothing,State.deleteCap_rows,rows,true_and,Option.isSome_none,
                Bool.false_eq_true,false_implies,implies_true,iff_true]
              exact undone
            | some l =>
              simp only [Except.map,AllOrNothing,List.mem_singleton,forall_eq,Option.some.injEq,Prod.mk.injEq,
                and_imp,Option.isSome_some,true_implies]
              have cloned : ((held.addRow l
                { r with clientPid := caller, clientSlot := dst, ntfnSlot := 0 }).setCtx l
                  (held.ctx j)).rows = Slab.put s.rows l
                    { r with clientPid := caller, clientSlot := dst, ntfnSlot := 0 } := by
                rw [← rows]
                rfl
              rw [State.backed_iff (j := l) (r := { r with clientPid := caller, clientSlot := dst, ntfnSlot := 0 })
                (c := c) (by rw [cloned,Slab.put_same]) (Slab.free_some free) ⟨rfl,rfl⟩]
              · constructor
                · rintro fits c' j' r' rfl rfl rfl
                  exact fits
                · intro fits
                  exact fits c j r rfl rfl rfl
              · exact (caps dst).trans (if_pos rfl)
              · intro k q other _
                rw [cloned,Slab.put_other _ other]

namespace State

theorem connectionRegisterExisting_rows (live : s.channels idx = some ch) (pid : Pid) (slot : Nat) (σ : Source)
    (flags : BitVec 32) :
    (s.connectionRegisterExisting pid slot idx σ flags).1.spaces = s.spaces ∧
    (s.connectionRegisterExisting pid slot idx σ flags).1.channels = s.channels ∧
    (Slab.free s.rows = none ∧ (s.connectionRegisterExisting pid slot idx σ flags).1.rows = s.rows ∨
      ∃ j r, Slab.free s.rows = some j ∧ r.clientPid = pid ∧ r.clientSlot = slot ∧ r.badge = σ.badge ∧
        (s.connectionRegisterExisting pid slot idx σ flags).1.rows = Slab.put s.rows j r) := by
  unfold connectionRegisterExisting
  simp only [live]
  cases free : Slab.free s.rows with
  | none => exact ⟨rfl,rfl,.inl ⟨rfl,rfl⟩⟩
  | some j => exact ⟨rfl,rfl,.inr ⟨j,_,rfl,rfl,rfl,rfl,rfl⟩⟩

theorem backed_old (cap : t.held i slot = some c) (sends : c.source.isSome = true)
    (others : ∀ k q, q.clientPid = caller ∧ q.clientSlot = slot → (t.rows k = some q ↔ s.rows k = some q)) :
    t.Backed caller i slot ↔ ∃ j r, s.rows j = some r ∧ r.badge = c.badge ∧
      ∀ j' r', s.rows j' = some r' → (r'.clientPid = caller ∧ r'.clientSlot = slot ↔ j' = j) := by
  constructor
  · rintro ⟨c',j,r,there,-,used,badge,only⟩
    obtain rfl : c' = c := Option.some.inj (there.symm.trans cap)
    have names := (only j r used).mpr rfl
    refine ⟨j,r,(others j r names).mp used,badge,fun k q old => ⟨fun twin => ?_,?_⟩⟩
    · exact (only k q ((others k q twin).mpr old)).mp twin
    · rintro rfl
      obtain rfl : q = r := Option.some.inj (old.symm.trans ((others k r names).mp used))
      exact names
  · rintro ⟨j,r,used,badge,only⟩
    have names := (only j r used).mpr rfl
    refine ⟨c,j,r,cap,sends,(others j r names).mpr used,badge,fun k q now => ⟨fun twin => ?_,?_⟩⟩
    · exact (only k q ((others k q twin).mp now)).mp twin
    · rintro rfl
      obtain rfl : q = r := Option.some.inj (now.symm.trans ((others k r names).mpr used))
      exact names

theorem registerPipe_backed (live : s.channels idx = some ch) (caller : Pid) (n slot i : Nat)
    (readCap : s.held i slot = some ⟨ch.master,(Source.pipe n false).badge,some (.pipe n false)⟩)
    (writeCap : s.held i (slot + 1) = some ⟨ch.master,(Source.pipe n true).badge,some (.pipe n true)⟩) :
    ((s.registerPipe caller idx n slot (slot + 1)).Backed caller i slot ∧
      (s.registerPipe caller idx n slot (slot + 1)).Backed caller i (slot + 1)) ↔
    s.RowFor caller slot (Source.pipe n false).badge (∃ j, s.rows j = none) ∧
      s.RowFor caller (slot + 1) (Source.pipe n true).badge (∃ j k, j ≠ k ∧ s.rows j = none ∧ s.rows k = none) := by
  obtain ⟨spaces₁,channels₁,first⟩ := connectionRegisterExisting_rows live caller slot (.pipe n false) 0
  generalize half : (s.connectionRegisterExisting caller slot idx (.pipe n false) 0).1 =
    t₁ at spaces₁ channels₁ first
  have live₁ : t₁.channels idx = some ch := by rw [channels₁,live]
  obtain ⟨spaces₂,-,second⟩ := connectionRegisterExisting_rows live₁ caller (slot + 1) (.pipe n true) 0
  have whole : s.registerPipe caller idx n slot (slot + 1) =
      (t₁.connectionRegisterExisting caller (slot + 1) idx (.pipe n true) 0).1 := by
    rw [registerPipe,half]
  rw [whole]
  generalize (t₁.connectionRegisterExisting caller (slot + 1) idx (.pipe n true) 0).1 = t₂ at spaces₂ second
  have caps : ∀ m, t₂.held i m = s.held i m := held_of_spaces (spaces₂.trans spaces₁) i
  have readCap₂ := (caps slot).trans readCap
  have writeCap₂ := (caps (slot + 1)).trans writeCap
  rcases first with ⟨full,rows₁⟩ | ⟨j,r,free,pid,at',badge,rows₁⟩
  · have noRoom : ¬ ∃ j, s.rows j = none := (Slab.free_none_iff s.rows).mp full
    have notTwo : ¬ ∃ j k, j ≠ k ∧ s.rows j = none ∧ s.rows k = none := fun ⟨j,_,_,empty,_⟩ => noRoom ⟨j,empty⟩
    have rows₂ : t₂.rows = s.rows := by
      rcases second with ⟨-,same⟩ | ⟨j,-,room,-⟩
      · rw [same,rows₁]
      · rw [rows₁,full] at room
        cases room
    rw [backed_old (s := s) readCap₂ rfl fun k q _ => by rw [rows₂],
      backed_old (s := s) writeCap₂ rfl fun k q _ => by rw [rows₂]]
    simp only [RowFor,noRoom,notTwo,false_implies,not_false_eq_true,true_implies,true_and]
  · have empty := Slab.free_some free
    have room : ∃ j, s.rows j = none := ⟨j,empty⟩
    rcases second with ⟨full,rows₂⟩ | ⟨l,q,free',pid',at'',badge',rows₂⟩
    · have notTwo : ¬ ∃ j k, j ≠ k ∧ s.rows j = none ∧ s.rows k = none := by
        rw [rows₁] at full
        exact (Slab.free_put_none free).mp full
      have after : t₂.rows = Slab.put s.rows j r := by rw [rows₂,rows₁]
      rw [backed_iff (s := s) (j := j) (r := r) (by rw [after,Slab.put_same]) empty ⟨pid,at'⟩ readCap₂
          fun k q other _ => by rw [after,Slab.put_other _ other],
        backed_old (s := s) writeCap₂ rfl fun k q names => by
          rw [after]
          refine Slab.put_some_iff empty ?_
          rintro rfl
          omega]
      simp only [RowFor,room,notTwo,true_implies,false_implies,not_true_eq_false,not_false_eq_true,true_and,
        and_true,badge,Option.isSome_some]
    · rw [rows₁] at free' rows₂
      have two : ∃ j k, j ≠ k ∧ s.rows j = none ∧ s.rows k = none := by
        by_contra notTwo
        rw [(Slab.free_put_none free).mpr notTwo] at free'
        cases free'
      have empty' := Slab.free_some free'
      have apart : l ≠ j := by
        rintro rfl
        rw [Slab.put_same] at empty'
        cases empty'
      have empty'' := empty'
      rw [Slab.put_other _ apart] at empty''
      rw [backed_iff (s := s) (j := j) (r := r) (by rw [rows₂,Slab.put_other _ apart.symm,Slab.put_same]) empty
          ⟨pid,at'⟩ readCap₂ fun k p other names => by
            rw [rows₂,Slab.put_some_iff empty' (by rintro rfl; omega),Slab.put_other _ other],
        backed_iff (s := s) (j := l) (r := q) (by rw [rows₂,Slab.put_same]) empty'' ⟨pid',at''⟩ writeCap₂
          fun k p other names => by
            rw [rows₂,Slab.put_other _ other,Slab.put_some_iff empty (by rintro rfl; omega)]]
      simp only [RowFor,room,two,true_implies,not_true_eq_false,false_implies,and_true,true_and,badge,badge',
        Option.isSome_some]

end State

theorem pipe_clean (s : State cfg) (caller : Pid) (stale : Nat) (server : Option (Pid × BitVec 32))
    (readMinted writeMinted : Bool) :
    AllOrNothing s caller stale ((FdCall.pipe server readMinted writeMinted).run s caller stale) ↔
      (FdCall.pipe server readMinted writeMinted).Clean s caller stale := by
  cases server with
  | none => simp [FdCall.run,State.pipeCreate,Except.map,AllOrNothing,FdCall.Clean]
  | some obj =>
    obtain ⟨target,chid⟩ := obj
    simp only [FdCall.run,State.pipeCreate,FdCall.Clean,Option.some.injEq,forall_eq']
    cases channel : s.channelFind target chid with
    | none => simp [Except.map,AllOrNothing]
    | some hit =>
      obtain ⟨idx,ch⟩ := hit
      cases found : s.processLookup caller with
      | none => simp [Except.map,AllOrNothing]
      | some hit =>
        obtain ⟨a,p⟩ := hit
        have space : p.cnode stale = s.cspace caller stale := by simp [State.cspace,found]
        have lookup : s.allocPipe.processLookup caller = some (a,p) := found
        obtain ⟨drawn,number⟩ := State.processAllocSlot_found lookup
        obtain ⟨-,number'⟩ := State.processAllocSlot_found drawn
        have next : s.nextSlot caller = p.nextSlot := (State.processAllocSlot_found found).2
        have quiet := State.processAllocSlot_quiet s.allocPipe caller
        have quiet' := State.processAllocSlot_quiet (s.allocPipe.processAllocSlot caller).1 caller
        generalize second : ((s.allocPipe.processAllocSlot caller).1.processAllocSlot caller).1 = u at quiet' ⊢
        have spaces : u.spaces = s.spaces := quiet'.spaces.trans quiet.spaces
        have rows : u.rows = s.rows := congrArg Tables.rows (quiet'.tables.trans quiet.tables)
        have channels : u.channels = s.channels := congrArg Tables.channels (quiet'.tables.trans quiet.tables)
        have before : ∀ n, u.held (s.cspace caller stale) n = s.held (s.cspace caller stale) n :=
          State.held_of_spaces spaces _
        simp only [Option.isSome_some,true_implies,space,number,number',next]
        cases reading : u.mint (s.cspace caller stale) p.nextSlot
            ⟨ch.master,(Source.pipe s.pipes false).badge,some (.pipe s.pipes false)⟩ readMinted with
        | none =>
          have stops := State.mint_none reading
          rw [State.takes_of_spaces spaces] at stops
          simp only [Except.map,AllOrNothing,stops,Bool.false_eq_true,false_implies,iff_true]
          exact ⟨rows,fun n c held => (before n).symm.trans held⟩
        | some half =>
          obtain ⟨takes,rows₁,caps₁,later⟩ := State.mint_some reading
          rw [State.takes_of_spaces spaces] at takes
          simp only [takes,true_implies]
          cases writing : half.mint (s.cspace caller stale) (p.nextSlot + 1)
              ⟨ch.master,(Source.pipe s.pipes true).badge,some (.pipe s.pipes true)⟩ writeMinted with
          | none =>
            have stops := State.mint_none writing
            rw [later _ _ (Nat.succ_ne_self _),State.takes_of_spaces spaces] at stops
            simp only [Except.map,AllOrNothing,stops,Bool.false_eq_true,false_and,iff_false,not_and,not_forall]
            intro _
            refine ⟨p.nextSlot,_,(caps₁ p.nextSlot).trans (if_pos rfl),?_⟩
            rw [State.takes_empty takes]
            simp
          | some full =>
            obtain ⟨takes',rows₂,caps₂,-⟩ := State.mint_some writing
            rw [later _ _ (Nat.succ_ne_self _),State.takes_of_spaces spaces] at takes'
            have table : full.rows = s.rows := rows₂.trans (rows₁.trans rows)
            have live : full.channels idx = some ch := by
              have boards := congrArg Tables.channels
                ((State.mint_tables writing).trans (State.mint_tables reading))
              rw [show full.channels = u.channels from boards,channels]
              exact (Slab.find_some channel).1
            have readCap := (caps₂ p.nextSlot).trans ((if_neg (Nat.succ_ne_self _).symm).trans
              ((caps₁ p.nextSlot).trans (if_pos rfl)))
            have writeCap := (caps₂ (p.nextSlot + 1)).trans (if_pos rfl)
            have backed := State.registerPipe_backed live caller s.pipes p.nextSlot _ readCap writeCap
            simp only [Except.map,AllOrNothing,List.mem_cons,List.not_mem_nil,or_false,forall_eq_or_imp,forall_eq,
              takes',true_and]
            rw [backed]
            simp only [State.RowFor,State.connectionFindBySlot,table]

/-- Every call that hands out descriptors leaves all or nothing exactly when it is clean. -/
theorem fd_calls_all_or_nothing (s : State cfg) (caller : Pid) (stale : Nat) (call : FdCall) :
    AllOrNothing s caller stale (call.run s caller stale) ↔ call.Clean s caller stale := by
  cases call with
  | attach target chid flags k => exact attach_clean s caller stale target chid flags k
  | openPath server k opened deleted => exact open_clean s caller stale server k opened deleted
  | dup src dst copied => exact dup_clean s caller stale src dst copied
  | pipe server readMinted writeMinted => exact pipe_clean s caller stale server readMinted writeMinted

/-- With one row left a pipe succeeds and its write end gets no row. -/
theorem pipe_end_without_row : ¬ ∀ es (s : State small) caller stale (call : FdCall),
    Lts.Run step anyStep smallBoot es s → AllOrNothing s caller stale (call.run s caller stale) := by
  intro atomic
  obtain ⟨s,run,handed,missing⟩ := Lts.Run.exists_of_replay step anyStep smallBoot
    (List.replicate 11 (.message 1 1 0 (.connectAttach 1 2 0 ⟨true,true⟩)))
    (fun s => ((FdCall.pipe (some (1,2)) true true).run s 2 0).2.toOption = some [27,28] ∧
      ((FdCall.pipe (some (1,2)) true true).run s 2 0).1.connectionFindBySlot 2 28 = none) (by decide +kernel)
  have whole := atomic _ s 2 0 (.pipe (some (1,2)) true true) run
  unfold AllOrNothing at whole
  cases result : ((FdCall.pipe (some (1,2)) true true).run s 2 0).2 with
  | error e =>
    rw [result] at handed
    cases handed
  | ok slots =>
    rw [result] at handed whole
    obtain rfl : slots = [27,28] := Option.some.inj handed
    obtain ⟨c,j,r,-,-,used,-,only⟩ := whole 28 (by simp)
    exact State.findBySlot_none missing used ((only j r used).mpr rfl)

end Qsoe.Taskman
