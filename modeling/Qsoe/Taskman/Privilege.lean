import Qsoe.Taskman.Household

/-! Root is given up for good. A new record starts with root's ids, and a later call hands it those of
the process that spawned it; the gate of `tm_set_cred` lets nobody else take an id that it does not
hold. -/
namespace Qsoe.Taskman

variable {cfg : Config}

def Cred.ids (c : Cred) : List (BitVec 32) := [c.ruid,c.euid,c.suid,c.rgid,c.egid,c.sgid]

/-- None of the six is root's. -/
def Cred.Dropped (c : Cred) : Prop := 0 ∉ c.ids

/-- The gate as its caller relies on it: who is not root sets only ids it already holds. -/
def Cautious (permitted : Cred → Cred → Bool) : Prop :=
  ∀ c asked, permitted c asked = true → c.euid ≠ 0 → ∀ u ∈ asked.ids, u = credKeep ∨ u ∈ c.ids

theorem Cred.Dropped.euid (dropped : Cred.Dropped c) : c.euid ≠ 0 := by
  intro root
  exact dropped (root ▸ by simp [Cred.ids])

theorem Cred.change_ids (c asked : Cred) : (c.change asked).ids = List.zipWith chosen asked.ids c.ids := rfl

theorem Cred.mem_change (held : ∀ u ∈ asked.ids, u = credKeep ∨ u ∈ Cred.ids c)
    (mem : v ∈ (c.change asked).ids) : v ∈ c.ids := by
  rw [change_ids,← List.map_uncurry_zip_eq_zipWith] at mem
  obtain ⟨⟨u,old⟩,pair,rfl⟩ := List.mem_map.mp mem
  obtain ⟨wanted,there⟩ := List.of_mem_zip pair
  show chosen u old ∈ c.ids
  unfold chosen
  split
  · rename_i given
    exact (held u wanted).resolve_left given
  · exact there

theorem Cred.Dropped.change (dropped : Cred.Dropped c) (held : ∀ u ∈ asked.ids, u = credKeep ∨ u ∈ c.ids) :
    (c.change asked).Dropped :=
  fun zero => dropped (mem_change held zero)

variable {permitted : Cred → Cred → Bool}

theorem Wish.grant_dropped (cautious : Cautious permitted) (r : Wish) (granted : r.grant permitted t = .ok t')
    (dropped : t.cred.Dropped) : t'.cred.Dropped := by
  cases r with
  | setCred mr0 mr1 mr2 =>
    simp only [grant] at granted
    split at granted
    · rename_i allowed
      obtain rfl := Except.ok.inj granted
      exact dropped.change (cautious _ _ allowed dropped.euid)
    · cases granted
  | umask mr0 =>
    obtain rfl := Except.ok.inj granted
    exact dropped
  | chdir mr0 text =>
    simp only [grant] at granted
    split at granted
    · split at granted
      · cases granted
      · obtain rfl := Except.ok.inj granted
        exact dropped
    · cases granted

namespace Household

variable {h h' : Household cfg}

abbrev Without (h : Household cfg) (k a : Nat) : Prop := h.heirs.Line (·.cred.Dropped) k a

theorem step_without (cautious : Cautious permitted) (h : Household cfg) (c : HouseCall) (h' : Household cfg)
    (sound : h.Sound) (without : h.Without k a) (taken : h.step permitted c = some h') : h'.Without k a := by
  rcases step_cases taken with ⟨parent,w,b,called,rfl⟩ | ⟨c,l,-,-,rfl⟩ | ⟨pid,w,r,called,rfl⟩
  · obtain ⟨q,able,rfl⟩ := Life.caller_spec called
    rcases spawn_cases sound.life.pids able b with ⟨-,made,-⟩ | ⟨i,p,x,m,made,-,-,-,-,given⟩
    · rw [Without,made]
      exact without
    · have older : m < h.heirs.clock := by
        rw [sound.clock]
        rcases given with ⟨rfl,-⟩ | ⟨rfl,-⟩
        · exact sound.life.kin.started
        · exact (sound.life.kin.clock w q able.there).1
      rw [Without,made]
      exact without.birth older
  · exact without
  · rcases serve_cases sound called r with ⟨e,-,refused⟩ | ⟨x,t,granted,-,done⟩
    · rw [refused]
      exact without
    · rw [Without,done]
      exact without.change (r.grant_dropped cautious granted)

theorem Sound.cred (sound : h.Sound) (called : h.life.caller pid = some w) :
    (h.attributes w).cred = (h.own w).cred := by
  obtain ⟨p,-,able,-⟩ := caller_lookup called
  exact congrArg Traits.cred (sound.same w p.person able.there)

theorem Sound.older (sound : h.Sound) (called : h.life.caller pid = some w) : h.life.born w < h.heirs.clock := by
  obtain ⟨p,-,able,-⟩ := caller_lookup called
  rw [sound.clock]
  exact (sound.life.kin.clock w p.person able.there).1

/-- The child of a spawn that succeeds, with the record of its parent. -/
theorem Sound.child (sound : h.Sound) (called : h.life.caller pid = some w) (b : SpawnKernel)
    (done : (h.life.reg.processCreate pid b).2 = .ok pid') :
    ∃ i p, (h.spawn w pid b).life.reg.processLookup pid' = some (i,p) ∧ (h.spawn w pid b).life.born i =
      h.heirs.clock ∧
      (h.spawn w pid b).heirs = h.heirs.birth (h.life.born w) ∧ (h.spawn w pid b).attributes i =
        h.attributes w := by
  have after := sound.spawn called b
  obtain ⟨q,able,rfl⟩ := Life.caller_spec called
  rcases spawn_cases sound.life.pids able b with ⟨⟨e,error⟩,-⟩ | ⟨i,p,a,m,made,born,-,-,people,given⟩
  · rw [done] at error
    cases error
  · rcases given with ⟨-,-,e,error⟩ | ⟨rfl,rfl,spawned⟩
    · rw [done] at error
      cases error
    · obtain rfl : pid' = p.pid := Except.ok.inj (done.symm.trans spawned)
      rw [made] at after ⊢
      have there : (h.life.spawn w q.pid b).reg.roster.people i = some p := by
        show (h.life.spawn w q.pid b).family.people i = some p
        rw [people,Slab.put_same]
      obtain ⟨c,found,-⟩ := State.processLookup_of_roster (after.life.pids.lookup there)
      refine ⟨i,c,found,?_,rfl,Function.update_self ..⟩
      dsimp only
      rw [born,Function.update_self,sound.clock]

/-- A process that has none of root's ids has none ever after, and neither has a process that descends
from it by later spawns, whoever's slots and pids they take over. -/
theorem dropped_for_good (cautious : Cautious permitted) (booted : boot cfg = some s)
    (run : Lts.Run (step permitted) anyCall (start s) cs h) (called : h.life.caller pid = some w)
    (dropped : (h.attributes w).cred.Dropped) (later : Lts.Run (step permitted) anyCall h cs' h')
    (calls : h'.life.caller pid' = some w') (line : h'.heirs.From h.heirs.clock (h.life.born w) (h'.life.born w')) :
    (h'.attributes w').cred.Dropped ∧
      (∃ parent c, (h'.procSelfInfo pid').map readSelfInfo = .ok (pid',parent,c) ∧ c.Dropped) ∧
      ∀ b child, (h'.life.reg.processCreate pid' b).2 = .ok child →
        ∃ i p, (h'.spawn w' pid' b).life.reg.processLookup child = some (i,p) ∧
          ((h'.spawn w' pid' b).attributes i).cred.Dropped ∧
          (h'.spawn w' pid' b).heirs.From h.heirs.clock (h.life.born w) ((h'.spawn w' pid' b).life.born i) := by
  have sound := run.invariant Sound (fun h c h' sound _ => step_sound h c h' sound) (start_sound booted)
  rw [sound.cred called] at dropped
  have before : h.Without h.heirs.clock (h.life.born w) := .start sound.ordered (sound.older called) dropped
  obtain ⟨sound',after⟩ := later.invariant (fun g => g.Sound ∧ g.Without h.heirs.clock (h.life.born w))
    (fun g c g' kept _ taken => ⟨step_sound g c g' kept.1 taken,step_without cautious g c g' kept.1 kept.2
      taken⟩) ⟨sound,before⟩
  have older := sound'.older calls
  have own := after.holds (h'.life.born w') older line
  have cred := sound'.cred calls
  have answers : h'.Answers permitted pid' (h'.own w') := sound'.answers calls
  refine ⟨cred ▸ own,?_,fun b child done => ?_⟩
  · obtain ⟨i,q,-,told⟩ := answers.info
    exact ⟨q.parent,_,told,own⟩
  · obtain ⟨i,p,found,born,heirs,copied⟩ := sound'.child calls b done
    refine ⟨i,p,found,?_,?_⟩
    · rw [copied,cred]
      exact own
    · rw [born,heirs]
      exact line.newborn sound'.ordered older after.begun

theorem heldOnly_cautious : Cautious heldOnly := by
  intro c asked allowed other u mem
  simp only [heldOnly,Bool.or_eq_true,Bool.and_eq_true,beq_iff_eq,List.all_eq_true,List.contains_iff_mem] at allowed
  rcases allowed with root | ⟨users,groups⟩
  · exact absurd root other
  · have parts : u ∈ [asked.ruid,asked.euid,asked.suid] ∨ u ∈ [asked.rgid,asked.egid,asked.sgid] :=
      List.mem_append.mp mem
    rcases parts with user | group
    · exact (users u user).imp_right fun held => List.mem_append_left [c.rgid,c.egid,c.sgid] held
    · exact (groups u group).imp_right fun held => List.mem_append_right [c.ruid,c.euid,c.suid] held

/-- Init's child 3 becomes user and group 7. -/
def leaving : List HouseCall := [.call (.spawn 2 bootSpawn),.wish 3 (.setCred 0x700000007 0x700000007 0x700000007)]

/-- It spawns, and its child asks for root. -/
def asking : List HouseCall := [.call (.spawn 3 bootSpawn),.wish 4 (.setCred 0 0 0)]

theorem dropped_for_good_child : ∃ h h' : Household small, ∃ w w',
    Lts.Run (step heldOnly) anyCall (start smallBoot) leaving h ∧ h.life.caller 3 = some w ∧
      (h.attributes w).cred.Dropped ∧
      Lts.Run (step heldOnly) anyCall h asking h' ∧ h'.life.caller 4 = some w' ∧
        (h'.attributes w').cred.Dropped := by
  let child : Fin maxProcesses := ⟨2,by decide⟩
  let grandchild : Fin maxProcesses := ⟨3,by decide⟩
  obtain ⟨h,run,called,ids,more⟩ := Lts.Run.exists_of_replay (step heldOnly) anyCall (start smallBoot) leaving
    (fun h : Household small => h.life.caller 3 = some child ∧ 0 ∉ (h.attributes child).cred.ids ∧
      (Lts.replay (step heldOnly) anyCall h asking).any (fun h' : Household small =>
        decide (h'.life.caller 4 = some grandchild ∧
        h.heirs.clock ≤ h'.life.born grandchild ∧ h'.heirs.origin (h'.life.born grandchild) = h.life.born child)) = true)
    (by decide +kernel)
  obtain ⟨h',replayed,tested⟩ := (Option.any_eq_true _ _).mp more
  obtain ⟨calls,late,spawned⟩ := of_decide_eq_true tested
  have later := Lts.Run.of_replay replayed
  have line : h'.heirs.From h.heirs.clock (h.life.born child) (h'.life.born grandchild) :=
    .child late (spawned ▸ .self)
  exact ⟨h,h',child,grandchild,run,called,ids,later,calls,
    (dropped_for_good heldOnly_cautious boot_small run called ids later calls line).1⟩

end Household

end Qsoe.Taskman
