import Qsoe.Taskman.Board
import Mathlib.Algebra.Group.Nat.Defs

/-! Global chids. They are drawn from a counter and matched without their owner, so they have to
stay apart from the chids clients choose. A create does not look at the chid it is given, and the
counter runs into the global bit. -/
namespace Qsoe.Taskman

variable {cfg : Config} {s t : State cfg}

/-- What the counter gives after `n` draws. -/
def globalChid (cfg : Config) (n : Nat) : BitVec 32 := cfg.globalChannel ||| BitVec.ofNat 32 (n + 1)

/-- The global chids in use are the ones the counter gave to creates that asked for one. -/
structure Marked (s : State cfg) : Prop where
  flagged : ∀ i c, s.channels i = some c → isGlobal cfg c.chid = true → c.flags &&& cfg.chfGlobal ≠ 0
  assigned : ∀ i c, s.channels i = some c → c.flags &&& cfg.chfGlobal ≠ 0 →
    ∃ n < s.globals, c.chid = globalChid cfg n

/-- Beside that, no key names two channels. -/
structure Integrity (s : State cfg) : Prop extends Marked s where
  unshared : ∀ i k c c', s.channels i = some c → s.channels k = some c' → c.chid = c'.chid →
    isGlobal cfg c.chid = true ∨ c.owner = c'.owner → i = k

/-- No global create is told that its chid is in use. -/
def GlobalsFree (s : State cfg) : Prop :=
  ∀ owner chid flags stale k, flags &&& cfg.chfGlobal ≠ 0 →
    (s.channelCreate owner chid flags stale k).2 ≠ .error .einval

/-- The chid and the flags of a create request. -/
def Event.created : Event → Option (BitVec 32 × BitVec 32)
  | .message _ _ _ (.channelCreate chid flags _) => some (chid,flags)
  | _ => none

/-- A create without `QSOE_CHF_GLOBAL` names a chid without the global bit, and one with it is
made before the counter has passed that bit. -/
def keepsNamespace (s : State cfg) (e : Event) : Prop :=
  e.created.all (fun (chid,flags) => if flags &&& cfg.chfGlobal ≠ 0 then
    decide (s.globals < cfg.globalChannel.toNat) else !isGlobal cfg chid) = true

instance : DecidableRel (@keepsNamespace cfg) := fun _ _ => inferInstanceAs (Decidable (_ = true))

theorem globalChid_toNat (bit : cfg.globalChannel = BitVec.twoPow 32 b) (below : n < cfg.globalChannel.toNat) :
    (globalChid cfg n).toNat = 2 ^ b + (n + 1) % 2 ^ b := by
  have small : b < 32 := by
    by_contra large
    rw [bit,BitVec.toNat_twoPow,Nat.mod_eq_zero_of_dvd (Nat.pow_dvd_pow 2 (Nat.le_of_not_lt large))] at below
    exact Nat.not_lt_zero n below
  have fits : 2 ^ b < 2 ^ 32 := Nat.pow_lt_pow_right (by decide) small
  have value : cfg.globalChannel.toNat = 2 ^ b := by
    rw [bit,BitVec.toNat_twoPow,Nat.mod_eq_of_lt fits]
  rw [value] at below
  rw [globalChid,BitVec.toNat_or,value,BitVec.toNat_ofNat,
    Nat.mod_eq_of_lt (show n + 1 < 2 ^ 32 from Nat.lt_of_le_of_lt below fits)]
  rcases Nat.lt_or_eq_of_le (show n + 1 ≤ 2 ^ b from below) with less | last
  · have joined := Nat.two_pow_add_eq_or_of_lt less 1
    rw [Nat.mul_one] at joined
    rw [Nat.mod_eq_of_lt less,joined]
  · rw [last,Nat.mod_self,Nat.or_self,Nat.add_zero]

theorem globalChid_ne (bit : cfg.globalChannel = BitVec.twoPow 32 b) (below : n < cfg.globalChannel.toNat)
    (before : m < n) : globalChid cfg m ≠ globalChid cfg n := by
  intro same
  have numbers := congrArg BitVec.toNat same
  rw [globalChid_toNat bit below,globalChid_toNat bit (Nat.lt_trans before below)] at numbers
  have bound : cfg.globalChannel.toNat ≤ 2 ^ b := by
    rw [bit,BitVec.toNat_twoPow]
    exact Nat.mod_le ..
  have residues := Nat.add_left_cancel numbers
  rw [Nat.mod_eq_of_lt (show m + 1 < 2 ^ b by omega)] at residues
  rcases Nat.lt_or_eq_of_le (show n + 1 ≤ 2 ^ b by omega) with less | last
  · rw [Nat.mod_eq_of_lt less] at residues
    omega
  · rw [last,Nat.mod_self] at residues
    omega

theorem globalChid_global (nonzero : cfg.globalChannel ≠ 0) : isGlobal cfg (globalChid cfg n) = true := by
  have bits : globalChid cfg n &&& cfg.globalChannel = cfg.globalChannel := by
    unfold globalChid
    ext i below
    simp only [BitVec.getElem_and,BitVec.getElem_or]
    cases cfg.globalChannel[i] <;> simp
  simpa [isGlobal,bits] using nonzero

theorem Marked.fewer (marked : Marked s) (fewer : s.board.Fewer t.board) : Marked t where
  flagged i c used bit := by
    obtain ⟨c',old,-,chid,flags⟩ := fewer.channels i c used
    rw [← flags]
    exact marked.flagged i c' old (by rwa [chid])
  assigned i c used flag := by
    obtain ⟨c',old,-,chid,flags⟩ := fewer.channels i c used
    obtain ⟨n,drawn,number⟩ := marked.assigned i c' old (by rwa [flags])
    have counter : t.globals = s.globals := fewer.globals
    exact ⟨n,by omega,chid.symm.trans number⟩

/-- A counter that has moved on leaves the chids given out before. -/
theorem Marked.later (marked : Marked s) (channels : t.channels = s.channels)
    (globals : s.globals ≤ t.globals) : Marked t where
  flagged := channels ▸ marked.flagged
  assigned i c used flag := by
    obtain ⟨n,drawn,number⟩ := marked.assigned i c (channels ▸ used) flag
    exact ⟨n,Nat.lt_of_lt_of_le drawn globals,number⟩

theorem Marked.put (marked : Marked s) (channels : t.channels = Slab.put s.channels idx c)
    (globals : s.globals ≤ t.globals)
    (flagged : isGlobal cfg c.chid = true → c.flags &&& cfg.chfGlobal ≠ 0)
    (assigned : c.flags &&& cfg.chfGlobal ≠ 0 → ∃ n < t.globals, c.chid = globalChid cfg n) : Marked t where
  flagged i d used bit := by
    rw [channels] at used
    rcases Slab.put_cases used with ⟨-,rfl⟩ | old
    · exact flagged bit
    · exact marked.flagged i d old bit
  assigned i d used flag := by
    rw [channels] at used
    rcases Slab.put_cases used with ⟨-,rfl⟩ | old
    · exact assigned flag
    · obtain ⟨n,drawn,number⟩ := marked.assigned i d old flag
      exact ⟨n,Nat.lt_of_lt_of_le drawn globals,number⟩

theorem assignChid_global (s : State cfg) (chid : BitVec 32) (flag : flags &&& cfg.chfGlobal ≠ 0) :
    s.assignChid chid flags = ({ s with globals := s.globals + 1 },globalChid cfg s.globals) := if_pos flag

theorem assignChid_globals (s : State cfg) (chid flags : BitVec 32) :
    s.globals ≤ (s.assignChid chid flags).1.globals := by
  unfold State.assignChid
  split
  · exact Nat.le_succ _
  · exact le_rfl

theorem Marked.create (marked : Marked s) (owner : Pid) (chid flags : BitVec 32) (stale : Nat)
    (k : CreateKernel) (plain : flags &&& cfg.chfGlobal = 0 → isGlobal cfg chid = false) :
    Marked (s.channelCreate owner chid flags stale k).1 := by
  have counter := assignChid_globals s chid flags
  have quiet : (s.assignChid chid flags).1.channels = s.channels :=
    congrArg Tables.channels (State.assignChid_quiet s chid flags).tables
  rcases State.channelCreate_board s owner chid flags stale k with same | same | ⟨idx,recv,ntfn,-,made⟩
  · exact marked.fewer (.of_eq same)
  · exact marked.later ((congrArg Board.channels same).trans quiet)
      (counter.trans_eq (congrArg Board.globals same).symm)
  · have globals : (s.channelCreate owner chid flags stale k).1.globals = (s.assignChid chid flags).1.globals :=
      congrArg Board.globals made
    refine marked.put (congrArg Board.channels made) (counter.trans_eq globals.symm) ?_ ?_
    · intro bit flag
      have own : (s.assignChid chid flags).2 = chid := by simp [State.assignChid,flag]
      simp [own,plain flag] at bit
    · intro flag
      rw [globals]
      exact ⟨s.globals,by simp [assignChid_global s chid flag],by simp [assignChid_global s chid flag]⟩

theorem step_marked (s : State cfg) (e : Event) (t : State cfg) (marked : Marked s)
    (keeps : keepsNamespace s e) (taken : step s e = some t) : Marked t := by
  rcases step_board taken with fewer | ⟨i,slot,stale,chid,flags,k,caller,rfl,rfl⟩
  · exact marked.fewer fewer
  · refine marked.create caller chid flags stale k ?_
    intro flag
    simpa [keepsNamespace,Event.created,flag] using keeps

theorem registerBoot_marked (low : ∀ chid ∈ chids, isGlobal cfg chid = false) (marked : Marked s)
    (registered : registerBoot s chids = some t) : Marked t := by
  induction chids generalizing s with
  | nil =>
    obtain rfl := Option.some.inj registered
    exact marked
  | cons chid rest ih =>
    rw [registerBoot] at registered
    split at registered
    · cases registered
    · rename_i next _ adding
      refine ih (fun other member => low other (List.mem_cons_of_mem chid member)) ?_ registered
      have plain := low chid List.mem_cons_self
      unfold State.channelRegisterExisting at adding
      split at adding
      · cases adding
      · split at adding
        · cases adding
        · split at adding
          · cases adding
          · obtain ⟨rfl,-⟩ := Prod.mk.inj adding
            refine marked.put rfl le_rfl ?_ ?_
            · simp [plain]
            · simp

theorem boot_marked (low : ∀ chid ∈ bootChids, isGlobal cfg chid = false) (booted : boot cfg = some s) :
    Marked s := by
  obtain ⟨registered,registering,rest⟩ := Option.bind_eq_some_iff.mp booted
  obtain ⟨⟨issued,pid⟩,allocating,spawning⟩ := Option.bind_eq_some_iff.mp rest
  have empty : Marked (State.init cfg) := ⟨by simp [State.init],by simp [State.init]⟩
  have marked := (registerBoot_marked low empty registering).fewer (.of_eq (State.pidAlloc_board allocating))
  have started := State.spawn_board issued pid bootSpawn
  dsimp only at spawning
  split at spawning
  · cases spawning
  · rename_i done
    obtain rfl := Option.some.inj spawning
    rw [done] at started
    exact marked.fewer (.of_eq started)

theorem channelCreate_einval (refused : (s.channelCreate owner chid flags stale k).2 = .error .einval) :
    ∃ i c, s.channels i = some c ∧ c.chid = (s.assignChid chid flags).2 := by
  have quiet : (s.assignChid chid flags).1.channels = s.channels :=
    congrArg Tables.channels (State.assignChid_quiet s chid flags).tables
  unfold State.channelCreate at refused
  split at refused
  · cases refused
  · dsimp only at refused
    split at refused
    · rename_i hit found
      obtain ⟨used,same⟩ := Slab.find_some (i := hit.1) (a := hit.2) found
      simp only [Channel.matches,Bool.and_eq_true,beq_iff_eq] at same
      exact ⟨hit.1,hit.2,quiet ▸ used,same.1⟩
    · split at refused
      · cases refused
      · split at refused
        · cases refused
        · split at refused <;> cases refused

theorem Marked.globalsFree (marked : Marked s) (bit : cfg.globalChannel = BitVec.twoPow 32 b)
    (below : s.globals < cfg.globalChannel.toNat) : GlobalsFree s := by
  intro owner chid flags stale k flag refused
  obtain ⟨i,c,used,same⟩ := channelCreate_einval refused
  have next : c.chid = globalChid cfg s.globals := by
    rw [same,assignChid_global s chid flag]
  have nonzero : cfg.globalChannel ≠ 0 := by
    intro nothing
    simp [nothing] at below
  have flagged := marked.flagged i c used (by rw [next,globalChid_global nonzero])
  obtain ⟨n,drawn,number⟩ := marked.assigned i c used flagged
  exact globalChid_ne bit below drawn (number.symm.trans next)

theorem unshared_of_wf (wf : Tables.Wf s.tables) (used : s.channels i = some c) (used' : s.channels k = some c')
    (same : c.chid = c'.chid) (key : isGlobal cfg c.chid = true ∨ c.owner = c'.owner) : i = k := by
  apply wf.keys i k c c' used used'
  simp only [Channel.matches,Bool.and_eq_true,beq_iff_eq,Bool.or_eq_true]
  exact ⟨same.symm,key.imp_right Eq.symm⟩

/-- While clients keep off the global bit and the counter below it, the global namespace is
taskman's own: what is in it was assigned, once, and the next chid is free. -/
theorem global_namespace (bit : cfg.globalChannel = BitVec.twoPow 32 b)
    (low : ∀ chid ∈ bootChids, isGlobal cfg chid = false) (booted : boot cfg = some s)
    (run : Lts.Run step keepsNamespace s es t) :
    Integrity t ∧ (t.globals < cfg.globalChannel.toNat → GlobalsFree t) := by
  have marked := run.invariant Marked step_marked (boot_marked low booted)
  have wf := run.invariant (fun s => Tables.Wf s.tables)
    (fun s e t wf _ taken => step_wf s e t wf taken) (boot_wf booted)
  exact ⟨⟨marked,fun i k c c' => unshared_of_wf wf⟩,marked.globalsFree bit⟩

/-- A process that makes a channel, a global one and takes both down again. -/
def namesRun : List Event :=
  [.message 1 1 0 (.channelCreate 9 0 ⟨true,true,true⟩),
    .message 1 1 0 (.channelCreate 9 small.chfGlobal ⟨true,true,true⟩),
    .message 1 1 0 (.channelDestroy 16 true)]

theorem global_namespace_small :
    ∃ t, Lts.Run step keepsNamespace smallBoot namesRun t ∧ t.globals = 1 ∧ Integrity t ∧ GlobalsFree t := by
  obtain ⟨t,run,count⟩ := Lts.Run.exists_of_replay step keepsNamespace smallBoot namesRun
    (fun t => t.globals = 1) (by decide +kernel)
  have low : ∀ chid ∈ bootChids, isGlobal small chid = false := by
    have checked : (bootChids.all fun chid => isGlobal small chid == false) = true := by decide
    simpa only [List.all_eq_true,beq_iff_eq] using checked
  obtain ⟨whole,free⟩ := global_namespace (b := 30) (by decide) low boot_small run
  have below : t.globals < small.globalChannel.toNat := by
    have value : small.globalChannel.toNat = 1073741824 := rfl
    omega
  exact ⟨t,run,count,whole,free below⟩

/-- A client takes the chid the counter gives next: a channel with the global bit that no
`QSOE_CHF_GLOBAL` create made, and a global create that finds its own chid in use. -/
def squatRun : List Event := [.message 1 1 0 (.channelCreate 0x40000001 0 ⟨true,true,true⟩)]

theorem global_chid_squatted :
    ∃ t, Lts.Run step anyStep smallBoot squatRun t ∧ ¬ Integrity t ∧ ¬ GlobalsFree t := by
  have squatted : ∃ t, Lts.Run step anyStep smallBoot squatRun t ∧
      ((t.channels ⟨8,by decide⟩).any fun c => isGlobal small c.chid && c.flags &&& small.chfGlobal == 0) = true ∧
      (t.channelFind 2 (globalChid small t.globals)).isSome = true ∧ (t.processLookup 2).isSome = true :=
    Lts.Run.exists_of_replay step anyStep smallBoot squatRun _ (by decide +kernel)
  obtain ⟨t,run,marked,taken,alive⟩ := squatted
  refine ⟨t,run,?_,?_⟩
  · intro whole
    obtain ⟨c,used,unflagged⟩ := (Option.any_eq_true _ _).mp marked
    simp only [Bool.and_eq_true,beq_iff_eq] at unflagged
    exact whole.flagged ⟨8,by decide⟩ c used unflagged.1 unflagged.2
  · intro free
    obtain ⟨owner,looked⟩ := Option.isSome_iff_exists.mp alive
    obtain ⟨hit,found⟩ := Option.isSome_iff_exists.mp taken
    have flag : small.chfGlobal &&& small.chfGlobal ≠ 0 := by decide
    have assigned := assignChid_global t 1 flag
    have again : ({ t with globals := t.globals + 1 } : State small).channelFind 2 (globalChid small t.globals) =
        some hit := found
    apply free 2 1 small.chfGlobal 0 ⟨true,true,true⟩ flag
    simp only [State.channelCreate,looked,assigned,again]

end Qsoe.Taskman
