import Qsoe.Path.Context

/-! Reads from cpiofs and the archive. A connection routed to cpiofs carries the address and the
size of a file; as long as every one of them was written by an open of cpiofs or is harmless,
reads stay inside the blob. -/
namespace Qsoe.Path

open Taskman

variable {cfg : Config} {a : Archive}

theorem toNat_fileSize (c : Word) : (fileSize c).toNat = c.toNat / 2 ^ 32 := by
  rw [fileSize,BitVec.toNat_ushiftRight,Nat.shiftRight_eq_div_pow]

theorem toNat_position (c : Word) : (position c).toNat = c.toNat % 2 ^ 32 := by
  rw [position,BitVec.toNat_and]
  exact Nat.and_two_pow_sub_one_eq_mod c.toNat 32

theorem fileSize_pack (c pos : Word) : fileSize (pack (fileSize c) pos) = fileSize c := by
  apply BitVec.eq_of_toNat_eq
  have bound := c.isLt
  have size := toNat_fileSize c
  have low : (position pos).toNat < 2 ^ 32 := by
    rw [toNat_position]
    omega
  have high : (fileSize c <<< 32).toNat = (fileSize c).toNat * 2 ^ 32 := by
    rw [BitVec.toNat_shiftLeft,Nat.shiftLeft_eq]
    omega
  rw [toNat_fileSize,pack,BitVec.toNat_or,high,Nat.or_comm,← Nat.shiftLeft_eq,
    ← Nat.shiftLeft_add_eq_or_of_lt low,Nat.shiftLeft_eq]
  omega

theorem Archive.Confined.seek (confined : a.Confined (data,packed)) (pos : Word) :
    a.Confined (data,pack (fileSize packed) pos) := by
  unfold Confined at confined ⊢
  rw [fileSize_pack]
  exact confined

theorem fileSize_zero : fileSize 0 = 0 := by decide

/-- A node of `/sys` or `/proc` just opened. -/
theorem Archive.confined_start (a : Archive) (c0 : Word) : a.Confined (c0,0) := .inr (.inl fileSize_zero)

theorem Archive.confined_dir (a : Archive) (c1 : Word) : a.Confined (0,c1) := .inl rfl

theorem Archive.Holds.confined (holds : a.Holds data size) :
    a.Confined (BitVec.ofNat 64 data,BitVec.ofNat 64 size <<< 32) := by
  obtain ⟨above,below,small⟩ := holds
  have low := a.low
  have stop : a.stop = a.start + a.len := rfl
  right
  right
  have packed : (fileSize (BitVec.ofNat 64 size <<< 32)).toNat = size := by
    rw [toNat_fileSize,BitVec.toNat_shiftLeft,Nat.shiftLeft_eq,BitVec.toNat_ofNat]
    omega
  rw [packed]
  simp only [BitVec.toNat_ofNat]
  omega

namespace Server

variable {s t : Server cfg}

theorem setCtx_cases (s : Server cfg) (badge : Word) (c : Word × Word) :
    (∃ e, s.setCtx badge c = (s,.error e)) ∨
      ∃ j r, s.reg.connectionFindByBadge badge = some (j,r) ∧
        s.setCtx badge c = ({ s with reg := s.reg.setCtx j c },.ok ()) := by
  unfold setCtx State.connectionSetCtx
  cases found : s.reg.connectionFindByBadge badge with
  | none => exact .inl ⟨_,rfl⟩
  | some hit => exact .inr ⟨hit.1,hit.2,rfl,rfl⟩

theorem setCtx_confined (guarded : Guarded a s.reg) (badge : Word) (confined : a.Confined c) :
    Guarded a (s.setCtx badge c).1.reg := by
  rcases setCtx_cases s badge c with ⟨e,failed⟩ | ⟨j,r,-,written⟩
  · rw [failed]
    exact guarded
  · rw [written]
    exact Registry.setCtx_guarded guarded j confined

theorem setCtx_other (guarded : Guarded a s.reg) (badge : Word) (c : Word × Word)
    (other : ∀ j r, s.reg.connectionFindByBadge badge = some (j,r) → ¬Routed s.reg r) :
    Guarded a (s.setCtx badge c).1.reg := by
  rcases setCtx_cases s badge c with ⟨e,failed⟩ | ⟨j,r,found,written⟩
  · rw [failed]
    exact guarded
  · rw [written]
    constructor
    intro k q used routed
    rcases eq_or_ne k j with rfl | apart
    · have same : some q = some r := used.symm.trans (Slab.find_some found).1
      obtain rfl := Option.some.inj same
      exact absurd routed (other k q found)
    · have kept := guarded.confined k q used routed
      simpa [State.setCtx,apart] using kept

theorem channelByBadge_row (routed : s.reg.channelByBadge badge = .ok (pid,chid))
    (found : s.reg.connectionFindByBadge badge = some (j,r)) :
    ∃ c, s.reg.channels r.channelIdx = some c ∧ c.owner = pid ∧ c.chid = chid := by
  unfold State.channelByBadge at routed
  rw [found] at routed
  dsimp only at routed
  unfold State.channelAt at routed
  split at routed
  · cases routed
  · rename_i c live
    obtain ⟨rfl,rfl⟩ : c.owner = pid ∧ c.chid = chid := by simpa using routed
    exact ⟨c,live,rfl,rfl⟩

theorem not_routed (routed : s.reg.channelByBadge badge = .ok (pid,chid)) (other : chid ≠ cpiofsChid) :
    ∀ j r, s.reg.connectionFindByBadge badge = some (j,r) → ¬Routed s.reg r := by
  intro j r found serves
  obtain ⟨c,live,-,rfl⟩ := channelByBadge_row routed found
  have both : c.owner = pidTaskman ∧ c.chid = cpiofsChid := by
    simpa [Routed,live,cpiofsChannel] using serves
  exact other both.2

theorem getCtx_confined (guarded : Guarded a s.reg)
    (routed : s.reg.channelByBadge badge = .ok (pidTaskman,cpiofsChid))
    (got : s.reg.connectionGetCtx badge = .ok c) : a.Confined c := by
  unfold State.connectionGetCtx at got
  split at got
  · cases got
  · rename_i j r found
    obtain rfl := Except.ok.inj got
    obtain ⟨ch,live,owner,chid⟩ := channelByBadge_row routed found
    refine guarded.confined j r (Slab.find_some found).1 ?_
    simp [Routed,live,cpiofsChannel,owner,chid]

theorem cpiofsRead_guarded (guarded : Guarded a s.reg)
    (routed : s.reg.channelByBadge badge = .ok (pidTaskman,cpiofsChid)) (want : BitVec 32) :
    Guarded a (s.cpiofsRead badge want).1.reg := by
  unfold cpiofsRead
  split
  · exact guarded
  · rename_i data packed got
    have confined := getCtx_confined guarded routed got
    split
    · exact guarded
    · dsimp only
      split
      · exact guarded
      · have written := setCtx_confined guarded badge (confined.seek (position packed +
          BitVec.ofNat 64 (min (min want.toNat maxChunk) (fileSize packed - position packed).toNat)))
        split
        · rename_i same e failing
          rw [failing] at written
          exact written
        · rename_i next writing
          rw [writing] at written
          exact written

theorem readText_guarded (guarded : Guarded a s.reg)
    (other : ∀ j r, s.reg.connectionFindByBadge badge = some (j,r) → ¬Routed s.reg r)
    (c : Word × Word) (want : BitVec 32) (length : Nat) :
    Guarded a (s.readText badge c want length).1.reg := by
  have written := setCtx_other guarded badge
    (c.1,c.2 + BitVec.ofNat 64 (min want.toNat (length - c.2.toNat))) other
  unfold readText
  dsimp only
  split
  · rename_i same e failing
    rw [failing] at written
    exact written
  · rename_i next writing
    rw [writing] at written
    exact written

theorem ioRead_guarded (guarded : Guarded a s.reg) (badge : Word) (want : BitVec 32) (content : Option Nat) :
    Guarded a (s.ioRead badge want content).1.reg := by
  unfold ioRead
  split
  · exact guarded
  · rename_i pid chid routed
    split
    · exact guarded
    · rename_i own
      obtain rfl : pid = pidTaskman := by simpa using own
      split
      · exact guarded
      · split
        · rename_i cpio
          exact cpiofsRead_guarded guarded (by rw [routed,cpio]) want
        · rename_i other
          have apart := not_routed routed other
          split
          · unfold sysfsRead
            split
            · exact guarded
            · split
              · exact guarded
              · split
                · exact guarded
                · exact readText_guarded guarded apart ..
          · split
            · unfold procfsRead
              split
              · exact guarded
              · split
                · exact guarded
                · exact readText_guarded guarded apart ..
            · exact guarded

theorem cpiofsLseek_guarded (guarded : Guarded a s.reg)
    (routed : s.reg.channelByBadge badge = .ok (pidTaskman,cpiofsChid)) (whence : BitVec 32) (offset : Word) :
    Guarded a (s.cpiofsLseek badge whence offset).1.reg := by
  unfold cpiofsLseek
  split
  · exact guarded
  · rename_i data packed got
    have confined := getCtx_confined guarded routed got
    split
    · exact guarded
    · split
      · exact guarded
      · rename_i pos _
        split
        · exact guarded
        · have written := setCtx_confined guarded badge (confined.seek pos)
          split
          · rename_i same e failing
            rw [failing] at written
            exact written
          · rename_i next writing
            rw [writing] at written
            exact written

theorem seekText_guarded (guarded : Guarded a s.reg)
    (other : ∀ j r, s.reg.connectionFindByBadge badge = some (j,r) → ¬Routed s.reg r)
    (c : Word × Word) (whence : BitVec 32) (offset : Word) (length : Nat) :
    Guarded a (s.seekText badge c whence offset length).1.reg := by
  unfold seekText
  split
  · exact guarded
  · rename_i pos _
    split
    · exact guarded
    · have written := setCtx_other guarded badge (c.1,pos) other
      split
      · rename_i same e failing
        rw [failing] at written
        exact written
      · rename_i next writing
        rw [writing] at written
        exact written

theorem ioLseek_guarded (guarded : Guarded a s.reg) (badge : Word) (whence : BitVec 32) (offset : Word)
    (content : Option Nat) : Guarded a (s.ioLseek badge whence offset content).1.reg := by
  unfold ioLseek
  split
  · exact guarded
  · rename_i pid chid routed
    split
    · exact guarded
    · rename_i own
      obtain rfl : pid = pidTaskman := by simpa using own
      split
      · rename_i cpio
        exact cpiofsLseek_guarded guarded (by rw [routed,cpio]) whence offset
      · rename_i other
        have apart := not_routed routed other
        split
        · unfold sysfsLseek
          split
          · exact guarded
          · split
            · exact guarded
            · exact seekText_guarded guarded apart ..
        · split
          · unfold procfsLseek
            split
            · exact guarded
            · split
              · exact guarded
              · exact seekText_guarded guarded apart ..
          · exact guarded

theorem ioClose_reg (s : Server cfg) (badge : Word) : (s.ioClose badge).1.reg = s.reg := by
  unfold ioClose
  split
  · split
    · rfl
    · split <;> rfl
  · rfl
  · rfl

/-- An open writes confined words into the row of its badge, or fails and writes nothing. -/
def Outcome (a : Archive) (reg : State cfg) (j : Fin cfg.connections) (res : Server cfg × Except Failure Unit) :
    Prop :=
  (res.1.reg = reg ∧ ∃ e, res.2 = .error e) ∨ ∃ c, a.Confined c ∧ res.1.reg = reg.setCtx j c ∧ res.2 = .ok ()

theorem setCtx_outcome (found : s.reg.connectionFindByBadge badge = some (j,r)) (confined : a.Confined c) :
    Outcome a s.reg j (s.setCtx badge c) := by
  rcases setCtx_cases s badge c with ⟨e,failed⟩ | ⟨k,q,hit,written⟩
  · rw [failed]
    exact .inl ⟨rfl,e,rfl⟩
  · obtain ⟨rfl,-⟩ : j = k ∧ r = q := by simpa using found.symm.trans hit
    rw [written]
    exact .inr ⟨c,confined,rfl,rfl⟩

theorem openDir_outcome (found : s.reg.connectionFindByBadge badge = some (j,r)) :
    Outcome a s.reg j (s.openDir badge) := by
  unfold openDir
  split
  · exact .inl ⟨rfl,_,rfl⟩
  · exact setCtx_outcome (s := { s with dirs := _ }) found (a.confined_dir _)

theorem cpiofsOpen_outcome (found : s.reg.connectionFindByBadge badge = some (j,r)) (rest : List Byte) :
    Outcome a s.reg j (s.cpiofsOpen a rest badge) := by
  unfold cpiofsOpen
  dsimp only
  split
  · exact openDir_outcome found
  · split
    · rename_i data size looked
      split
      · exact .inl ⟨rfl,_,rfl⟩
      · exact setCtx_outcome found (Archive.lookup_holds looked).confined
    · split
      · exact .inl ⟨rfl,_,rfl⟩
      · split
        · exact .inl ⟨rfl,_,rfl⟩
        · exact openDir_outcome found

theorem pmdirOpen_outcome (found : s.reg.connectionFindByBadge badge = some (j,r)) (length : Nat) :
    Outcome a s.reg j (s.pmdirOpen length badge) := by
  unfold pmdirOpen
  split
  · exact .inl ⟨rfl,_,rfl⟩
  · split
    · exact .inl ⟨rfl,_,rfl⟩
    · exact setCtx_outcome (s := { s with slots := _ }) found (a.confined_dir _)

theorem openNode_outcome (found : s.reg.connectionFindByBadge badge = some (j,r))
    (opens : s.openNode a badge handler = some res) : Outcome a s.reg j res := by
  cases handler with
  | external => cases opens
  | console => cases opens
  | null => cases opens
  | zero => cases opens
  | cpiofs rest =>
    obtain rfl := Option.some.inj opens
    exact cpiofsOpen_outcome found rest
  | pmdir length =>
    obtain rfl := Option.some.inj opens
    exact pmdirOpen_outcome found length
  | sysfs node =>
    obtain rfl := Option.some.inj opens
    cases node with
    | none => exact .inl ⟨rfl,_,rfl⟩
    | some file => exact setCtx_outcome found (a.confined_start _)
  | procfs node =>
    obtain rfl := Option.some.inj opens
    cases node with
    | none => exact .inl ⟨rfl,_,rfl⟩
    | some file => exact setCtx_outcome found (a.confined_start _)

end Server

def Handler.hooked : Handler → Bool
  | .cpiofs _ => true
  | .pmdir _ => true
  | .sysfs _ => true
  | .procfs _ => true
  | _ => false

/-- Neither the badge nor the slot the caller would get next belongs to a row. -/
def fresh (s : State cfg) (caller : Pid) : Bool :=
  (Slab.find s.rows fun r => r.badge == (Source.scoid s.scoids).badge ||
    (r.clientPid == caller && r.clientSlot == (s.processAllocSlot caller).2)).isNone

open Registry

section Opening

variable {s t : State cfg} {j : Fin cfg.connections} {r : Row cfg}

theorem fresh_other (unused : fresh s caller = true) (used : s.rows k = some q) :
    q.badge ≠ (Source.scoid s.scoids).badge ∧
      (q.clientPid == caller && q.clientSlot == (s.processAllocSlot caller).2) = false := by
  have fails := Slab.find_none (Option.isNone_iff_eq_none.mp unused) used
  obtain ⟨first,second⟩ := Bool.or_eq_false_iff.mp fails
  exact ⟨by simpa using first,second⟩

theorem Registry.Attached.found_by_slot (attached : Attached s client target chid t j r)
    (unused : fresh s client = true) :
    (t.addRow j r).connectionFindBySlot client r.clientSlot = some (j,r) := by
  apply Slab.find_put_only
  · intro k q used
    rw [attached.rows] at used
    rw [attached.slot]
    exact (fresh_other unused used).2
  · simp [attached.owner]

theorem Registry.Attached.found_by_badge (attached : Attached s client target chid t j r)
    (unused : fresh s client = true) : (t.addRow j r).connectionFindByBadge r.badge = some (j,r) := by
  apply Slab.find_put_only
  · intro k q used
    rw [attached.rows] at used
    rw [attached.badge]
    simpa using (fresh_other unused used).1
  · simp

/-- The detach of a failed open takes the new row back. -/
theorem Registry.Attached.detached (attached : Attached s client target chid t j r) (guarded : Guarded a s)
    (unused : fresh s client = true) (roster : (t.addRow j r).roster = s.roster) (stale : Nat) :
    Guarded a ((t.addRow j r).connectDetach client r.clientSlot stale true).1 := by
  obtain ⟨⟨i,p⟩,record⟩ : ∃ hit, (t.addRow j r).processLookup client = some hit := by
    obtain ⟨hit,there⟩ := Option.isSome_iff_exists.mp attached.known
    have same := State.lookup_roster_some (i := hit.1) (p := hit.2) there
    rw [← roster] at same
    obtain ⟨p,found,-⟩ := State.processLookup_of_roster same
    exact ⟨_,found⟩
  have shrinks := connectDetach_shrinks (t.addRow j r) client r.clientSlot stale true
  constructor
  intro k q used routed
  have words := congrFun shrinks.ctx k
  have serves := shrinks.channels _ routed
  obtain ⟨q',old,same⟩ := shrinks.rows k q used
  have apart : k ≠ j := by
    rintro rfl
    unfold State.connectDetach at used
    rw [record,attached.found_by_slot unused] at used
    simp at used
  have before : t.rows k = some q' := by simpa [State.addRow,apart] using old
  have routed' : Routed t q' := by
    unfold Routed
    rw [same]
    exact serves
  rw [words]
  exact (attached.base guarded).confined k q' before routed'

end Opening

/-- What an open needs: a hook finds the new row by its badge and slot, and takes it back when
it fails; without a hook the row keeps the words it was left with. -/
def opensWell (a : Archive) (s : State cfg) (caller : Pid) (obj : Resolved) (deleted : Bool) : Bool :=
  if obj.handler.hooked then fresh s caller && (deleted || gives a s obj.pid obj.chid)
  else gives a s obj.pid obj.chid

theorem openNode_hooked (s : Server cfg) (badge : Word) (hook : handler.hooked = true) :
    ∃ res, s.openNode a badge handler = some res := by
  cases handler <;> first | exact ⟨_,rfl⟩ | cases hook

theorem openNode_unhooked (s : Server cfg) (badge : Word) (plain : handler.hooked = false) :
    s.openNode a badge handler = none := by
  cases handler <;> first | rfl | cases plain

theorem ioOpen_guarded {s : Server cfg} (guarded : Guarded a s.reg) (caller : Pid) (obj : Resolved) (stale : Nat)
    (k : AttachKernel) (deleted : Bool) (well : opensWell a s.reg caller obj deleted = true) :
    Guarded a (s.ioOpen a caller (.ok obj) stale k deleted).1.reg := by
  unfold Server.ioOpen
  dsimp only
  have roster := State.connectAttach_roster s.reg caller obj.pid obj.chid 0 stale k
  rcases connectAttach_cases s.reg caller obj.pid obj.chid 0 stale k with
    ⟨t,e,failed,shrinks⟩ | ⟨t,j,r,made,attached⟩
  · rw [failed]
    exact shrinks.guarded guarded
  · rw [made] at roster ⊢
    dsimp only
    unfold opensWell at well
    cases hook : obj.handler.hooked with
    | false =>
      simp only [hook] at well
      have kept := attached.guarded guarded well
      split
      · exact kept
      · rw [openNode_unhooked _ _ hook]
        exact kept
    | true =>
      simp only [hook,if_true,Bool.and_eq_true,Bool.or_eq_true] at well
      obtain ⟨unused,cleans⟩ := well
      have badge : (t.addRow j r).connectionBadgeBySlot caller r.clientSlot = some r.badge := by
        unfold State.connectionBadgeBySlot
        rw [attached.found_by_slot unused]
        rfl
      rw [badge]
      dsimp only
      obtain ⟨⟨next,result⟩,opens⟩ := openNode_hooked (a := a) { s with reg := t.addRow j r } r.badge hook
      rw [opens]
      rcases Server.openNode_outcome (attached.found_by_badge unused) opens with
        ⟨same,e,rfl⟩ | ⟨c,confined,written,rfl⟩
      · dsimp only at same ⊢
        rw [same]
        rcases cleans with rfl | given
        · exact attached.detached guarded unused roster stale
        · exact (connectDetach_shrinks ..).guarded (attached.guarded guarded given)
      · dsimp only at written ⊢
        rw [written]
        exact addRow_setCtx_guarded (attached.base guarded) j r fun _ => confined

/-- Every byte a read through cpiofs copies into its reply comes from the archive. -/
def ReadsConfined (a : Archive) (s : Server cfg) : Prop :=
  ∀ badge want content addresses, (s.ioRead badge want content).2 = .ok (.archive addresses) →
    ∀ x ∈ addresses, a.start ≤ x.toNat ∧ x.toNat < a.stop

theorem readText_not_archive (s : Server cfg) (badge : Word) (c : Word × Word) (want : BitVec 32) (length : Nat) :
    (s.readText badge c want length).2 ≠ .ok (.archive addresses) := by
  unfold Server.readText
  dsimp only
  split <;> simp

theorem ioRead_archive {s : Server cfg} (reads : (s.ioRead badge want content).2 = .ok (.archive addresses)) :
    s.reg.channelByBadge badge = .ok (pidTaskman,cpiofsChid) ∧
      (s.cpiofsRead badge want).2 = .ok (.archive addresses) := by
  unfold Server.ioRead at reads
  split at reads
  · cases reads
  · rename_i pid chid routed
    split at reads
    · cases reads
    · rename_i own
      obtain rfl : pid = pidTaskman := by simpa using own
      split at reads
      · cases reads
      · split at reads
        · rename_i cpio
          exact ⟨by rw [routed,cpio],reads⟩
        · split at reads
          · unfold Server.sysfsRead at reads
            split at reads
            · cases reads
            · split at reads
              · cases reads
              · split at reads
                · cases reads
                · exact (readText_not_archive _ _ _ _ _ reads).elim
          · split at reads
            · unfold Server.procfsRead at reads
              split at reads
              · cases reads
              · split at reads
                · cases reads
                · exact (readText_not_archive _ _ _ _ _ reads).elim
            · cases reads

theorem chunk_inside (inside : a.start ≤ data.toNat ∧ data.toNat + size.toNat ≤ a.stop) (more : ¬size ≤ off)
    (short : count ≤ (size - off).toNat) (x : Word) (member : x ∈ addressesFrom (data + off) count) :
    a.start ≤ x.toNat ∧ x.toNat < a.stop := by
  obtain ⟨i,range,rfl⟩ := List.mem_map.mp member
  have bound := List.mem_range.mp range
  have low := a.low
  have stop : a.stop = a.start + a.len := rfl
  have less : off.toNat < size.toNat := by
    simpa [BitVec.le_def] using more
  rw [BitVec.toNat_sub_of_le (by rw [BitVec.le_def]; omega)] at short
  have sum : (data + off + BitVec.ofNat 64 i).toNat = data.toNat + off.toNat + i := by
    simp only [BitVec.toNat_add,BitVec.toNat_ofNat]
    omega
  rw [sum]
  omega

theorem Guarded.reads {s : Server cfg} (guarded : Guarded a s.reg) : ReadsConfined a s := by
  intro badge want content addresses reads x member
  obtain ⟨routed,reads⟩ := ioRead_archive reads
  unfold Server.cpiofsRead at reads
  split at reads
  · cases reads
  · rename_i data packed got
    have confined := Server.getCtx_confined guarded routed got
    split at reads
    · cases reads
    · rename_i file
      dsimp only at reads
      split at reads
      · obtain rfl : [] = addresses := by simpa using reads
        cases member
      · rename_i more
        split at reads
        · cases reads
        · have same := Payload.archive.inj (Except.ok.inj reads)
          rw [← same] at member
          rcases confined with nothing | empty | inside
          · exact absurd nothing file
          · dsimp only at empty
            simp [empty] at more
          · exact chunk_inside inside more (Nat.min_le_right ..) x member

/-- No step makes a row with foreign words one of cpiofs's: an attach to cpiofs takes a row whose
left words are confined, and an open draws a badge and a slot that no row has. -/
def careful (a : Archive) (s : Server cfg) : FileEvent → Bool
  | .message i slot _ r =>
    match (s.reg.held i slot).map (fun c => delivery c.badge), r with
    | some (.request caller), .openPath (.ok obj) _ deleted => opensWell a s.reg caller obj deleted
    | some (.request caller), .plain r => admits a s.reg caller r
    | _, _ => true
  | _ => true

theorem files_guarded {s t : Server cfg} (guarded : Guarded a s.reg) (caller : Pid) (badge : Word) (stale : Nat)
    (r : FileRequest) (taken : s.dispatch a caller badge stale r = some t)
    (opens : ∀ obj k deleted, r = .openPath (.ok obj) k deleted → opensWell a s.reg caller obj deleted = true)
    (admitted : ∀ q, r = .plain q → admits a s.reg caller q = true) : Guarded a t.reg := by
  cases r with
  | openPath found k deleted =>
    obtain rfl := Option.some.inj taken
    cases found with
    | error e => exact guarded
    | ok obj => exact ioOpen_guarded guarded caller obj stale k deleted (opens obj k deleted rfl)
  | read want content =>
    obtain rfl := Option.some.inj taken
    exact Server.ioRead_guarded guarded badge want content
  | lseek whence offset content =>
    obtain rfl := Option.some.inj taken
    exact Server.ioLseek_guarded guarded badge whence offset content
  | close =>
    obtain rfl := Option.some.inj taken
    rw [Server.ioClose_reg]
    exact guarded
  | plain q =>
    rw [Server.dispatch] at taken
    split at taken
    · cases taken
    · rename_i fine
      obtain rfl := Option.some.inj taken
      exact dispatch_guarded guarded caller badge stale q (by simpa using fine) (admitted q rfl)

theorem event_shrinks {s t : State cfg} (taken : Taskman.step s e = some t)
    (own : ∀ i slot stale r, e ≠ .message i slot stale r) : Shrinks s t := by
  cases e with
  | message i slot stale r => exact absurd rfl (own i slot stale r)
  | fault i =>
    simp only [Taskman.step] at taken
    split at taken
    · split at taken
      · obtain rfl := Option.some.inj taken
        rw [State.receive]
        split
        · exact processTerminate_shrinks ..
        · exact .refl s
      · cases taken
    · cases taken
  | copy i src dst =>
    simp only [Taskman.step] at taken
    split at taken
    · exact .of_tables (State.copyCap_tables taken) (copyCap_ctx taken)
    · cases taken
  | delete i slot =>
    simp only [Taskman.step] at taken
    split at taken
    · obtain rfl := Option.some.inj taken
      exact .of_tables (State.deleteCap_tables ..) (deleteCap_ctx ..)
    · cases taken

theorem step_guarded (s : Server cfg) (e : FileEvent) (t : Server cfg) (guarded : Guarded a s.reg)
    (cared : careful a s e = true) (taken : e.step a s = some t) : Guarded a t.reg := by
  cases e with
  | message i slot stale r =>
    simp only [FileEvent.step] at taken
    split at taken
    · rename_i c cap
      split at taken
      · unfold Server.receive at taken
        split at taken
        · obtain rfl := Option.some.inj taken
          exact (processTerminate_shrinks ..).guarded guarded
        · rename_i caller arrives
          apply files_guarded guarded caller c.badge stale r taken
          · rintro obj k deleted rfl
            simpa [careful,cap,arrives] using cared
          · rintro q rfl
            simpa [careful,cap,arrives] using cared
      · cases taken
    · cases taken
  | fault i =>
    obtain ⟨reg,stepped,rfl⟩ := Option.map_eq_some_iff.mp taken
    exact (event_shrinks stepped fun _ _ _ _ => by simp).guarded guarded
  | copy i src dst =>
    obtain ⟨reg,stepped,rfl⟩ := Option.map_eq_some_iff.mp taken
    exact (event_shrinks stepped fun _ _ _ _ => by simp).guarded guarded
  | delete i slot =>
    obtain ⟨reg,stepped,rfl⟩ := Option.map_eq_some_iff.mp taken
    exact (event_shrinks stepped fun _ _ _ _ => by simp).guarded guarded

/-- In every run of such steps reads stay inside the archive. -/
theorem archive_reads_confined {start s : Server cfg} (booted : bootServer cfg = some start)
    (run : Lts.Run (fun s e => FileEvent.step a s e) (fun s e => careful a s e = true) start es s) :
    ReadsConfined a s := by
  obtain ⟨reg,booting,rfl⟩ := Option.map_eq_some_iff.mp booted
  have initial : Guarded a reg := boot_guarded booting
  exact (run.invariant (fun s => Guarded a s.reg) step_guarded initial).reads

/-- An archive with one file, `a`, of two bytes. -/
def oneFile : List Byte :=
  let zeros : Nat → List Byte := fun n => List.replicate n 0x30
  magic ++ zeros 8 ++ [0x30,0x30,0x30,0x30,0x38,0x31,0x61,0x34] ++ zeros 39 ++ [0x32] ++ zeros 39 ++ [0x32] ++
    zeros 8 ++ [0x61,0,0x68,0x69,0,0]

theorem oneFile_low : 0x1000 + oneFile.length ≤ 2 ^ 38 := by decide

def smallArchive : Archive :=
  ⟨0x1000,oneFile.length,fun p => oneFile.getD (p - 0x1000) 0,[[0x61]],Nat.succ_pos _,oneFile_low⟩

def smallServer : Server small := ⟨smallBoot,fun _ => 0,fun _ => 0⟩

theorem bootServer_small : bootServer small = some smallServer := by
  rw [bootServer,boot_small]
  rfl

/-- `/sbin/init` opens the file and reads it. -/
theorem archive_reads_confined_file :
    ∃ s : Server small, Lts.Run (fun s e => FileEvent.step smallArchive s e)
        (fun s e => careful smallArchive s e = true) smallServer
        [.message 1 capTaskmanEp 0 (.openPath (.ok ⟨pidTaskman,cpiofsChid,.cpiofs [0x61]⟩) ⟨true,true⟩ true)] s ∧
      ReadsConfined smallArchive s ∧
      (s.ioRead 4 10 none).2.toOption = some (.archive [0x1070,0x1071]) := by
  obtain ⟨s,run,read⟩ := Lts.Run.exists_of_replay (fun s e => FileEvent.step smallArchive s e)
    (fun s e => careful smallArchive s e = true) smallServer
    [.message 1 capTaskmanEp 0 (.openPath (.ok ⟨pidTaskman,cpiofsChid,.cpiofs [0x61]⟩) ⟨true,true⟩ true)]
    (fun s => (s.ioRead 4 10 none).2.toOption = some (.archive [0x1070,0x1071])) (by decide +kernel)
  exact ⟨s,run,archive_reads_confined bootServer_small run,read⟩

/-- A `/sys` file is opened, sought to 2³² and detached; the attach to cpiofs that follows gets
its row with the words 1 and 2³², a file of one byte at address 1. -/
def staleWords : List FileEvent :=
  [.message 1 capTaskmanEp 0 (.openPath (.ok ⟨pidTaskman,sysfsChid,.sysfs (some (some 0))⟩) ⟨true,true⟩ true),
    .message 1 capWellKnownEnd 0 (.lseek 0 0x100000000 (some 10)),
    .message 1 capTaskmanEp 0 (.plain (.connectDetach capWellKnownEnd true)),
    .message 1 capTaskmanEp 0 (.plain (.connectAttach pidTaskman cpiofsChid 0 ⟨true,true⟩))]

theorem ok_of_toOption {x : Except ε α} (found : x.toOption = some v) : x = .ok v := by
  cases x with
  | error e => cases found
  | ok w =>
    obtain rfl : w = v := Option.some.inj found
    rfl

theorem archive_read_escapes :
    ¬∀ (cfg : Config) (a : Archive) (start : Server cfg) (es : List FileEvent) (s : Server cfg),
      bootServer cfg = some start →
      Lts.Run (fun s e => FileEvent.step a s e) (fun _ _ => True) start es s → ReadsConfined a s := by
  intro confined
  obtain ⟨s,run,read⟩ := Lts.Run.exists_of_replay (fun s e => FileEvent.step smallArchive s e)
    (fun _ _ => True) smallServer staleWords (fun s => (s.ioRead 5 10 none).2.toOption = some (.archive [1]))
    (by decide +kernel)
  have inside := confined small smallArchive smallServer staleWords s bootServer_small run 5 10 none [1]
    (ok_of_toOption read) 1 (List.mem_singleton_self _)
  exact absurd inside (by decide)

end Qsoe.Path
