import Qsoe.Taskman.Status

/-! Zombies and the process that may reap them. Whether a dead child is kept is decided when
it exits, by looking its parent's pid up once; nothing is decided again when the parent
exits in turn, and the pid may by then name another process. -/
namespace Qsoe.Taskman

variable {cfg : Config}

namespace Family

open Life

variable {v w : Family}

/-- The parent pid of a zombie names the incarnation that spawned it, and that one runs. -/
def Attended (v : Family) : Prop :=
  ∀ i p, v.people i = some p → p.exit = .zombie →
    ∃ j q, v.people j = some q ∧ q.pid = p.parent ∧ q.exit ≠ .zombie ∧ v.born j = v.maker i

/-- A process is terminated only without zombies of its own, and is left a zombie only for the
incarnation that spawned it. -/
def KeepsParents (v : Family) : Act → Prop
  | .terminate i => ∀ p ∈ v.people i,
      (∀ k, ∀ z ∈ v.people k, z.exit = .zombie → z.parent ≠ p.pid) ∧
      (p.waiter = false → ∀ j, ∀ q ∈ v.people j, q.pid = p.parent → q.exit = .live →
        p.parent ≠ pidTaskman → v.born j = v.maker i)
  | _ => True

instance (v : Family) (a : Act) : Decidable (v.KeepsParents a) :=
  match a with
  | .quiet => .isTrue trivial
  | .detach _ => .isTrue trivial
  | .terminate i => inferInstanceAs (Decidable (∀ p ∈ v.people i, _))

theorem Attended.of_kept (attended : Attended v) (born : w.born = v.born) (maker : w.maker = v.maker)
    (zombies : ∀ i p, w.people i = some p → p.exit = .zombie → v.people i = some p)
    (parents : ∀ i p, w.people i = some p → p.exit = .zombie → ∀ j q, v.people j = some q → q.exit ≠ .zombie →
      q.pid = p.parent → ∃ q', w.people j = some q' ∧ q'.pid = q.pid ∧ q'.exit ≠ .zombie) : Attended w := by
  intro i p used zombie
  obtain ⟨j,q,there,pid,runs,same⟩ := attended i p (zombies i p used zombie) zombie
  obtain ⟨q',there',pid',runs'⟩ := parents i p used zombie j q there runs pid
  exact ⟨j,q',there',pid'.trans pid,runs',by rw [born,maker]; exact same⟩

theorem Attended.enrol (attended : Attended v) (free : v.people i = none) (live : p.exit = .live) :
    Attended { v with
      people := Slab.put v.people i p
      born := Function.update v.born i v.clock
      maker := Function.update v.maker i m
      clock := v.clock + 1 } := by
  have other : ∀ k q, v.people k = some q → k ≠ i := by
    rintro k q used rfl
    simp [free] at used
  intro k z used zombie
  rcases Slab.put_cases used with ⟨rfl,rfl⟩ | old
  · simp [live] at zombie
  · obtain ⟨j,q,there,pid,runs,same⟩ := attended k z old zombie
    refine ⟨j,q,(Slab.put_other v.people (other j q there)).trans there,pid,runs,?_⟩
    simp only [Function.update_of_ne (other j q there),Function.update_of_ne (other k z old)]
    exact same

/-- A live record is rewritten under its pid and goes on running. -/
theorem Attended.rewrite (attended : Attended v) (used : v.people i = some p)
    (people : w.people = Slab.put v.people i p') (born : w.born = v.born) (maker : w.maker = v.maker)
    (pid : p'.pid = p.pid) (runs : p'.exit ≠ .zombie) : Attended w := by
  refine attended.of_kept born maker ?_ ?_
  · intro k z there zombie
    rw [people] at there
    rcases Slab.put_cases there with ⟨rfl,rfl⟩ | old
    · exact absurd zombie runs
    · exact old
  · intro k z there zombie j q present alive named
    rw [people]
    rcases eq_or_ne j i with rfl | other
    · obtain rfl : p = q := Option.some.inj (used.symm.trans present)
      exact ⟨p',Slab.put_same v.people,pid,runs⟩
    · exact ⟨q,(Slab.put_other v.people other).trans present,rfl,alive⟩

/-- A record is erased that is nobody's running parent. -/
theorem Attended.erase (attended : Attended v) (used : v.people i = some p)
    (people : w.people = Slab.erase v.people i) (born : w.born = v.born) (maker : w.maker = v.maker)
    (childless : ∀ k z, v.people k = some z → z.exit = .zombie → p.exit ≠ .zombie → z.parent ≠ p.pid) :
    Attended w := by
  refine attended.of_kept born maker ?_ ?_
  · intro k z there zombie
    rw [people] at there
    exact (Slab.erase_some there).2
  · intro k z there zombie j q present alive named
    rw [people] at there ⊢
    rcases eq_or_ne j i with rfl | other
    · obtain rfl : p = q := Option.some.inj (used.symm.trans present)
      exact absurd named.symm (childless k z (Slab.erase_some there).2 zombie alive)
    · exact ⟨q,(Slab.erase_other v.people other).trans present,rfl,alive⟩

theorem Attended.leave (attended : Attended v) (used : v.people i = some p)
    (childless : ∀ k z, v.people k = some z → z.exit = .zombie → z.parent ≠ p.pid)
    (attentive : (v.ended i p status).Attentive p.parent)
    (spawned : ∀ j q, v.people j = some q → q.pid = p.parent → q.exit = .live → p.parent ≠ pidTaskman →
      v.born j = v.maker i) : Attended (v.ended i p status) := by
  intro k z there zombie
  rcases Slab.put_cases there with ⟨rfl,rfl⟩ | old
  · obtain ⟨j,q,present,pid,alive,process⟩ := attentive
    refine ⟨j,q,present,pid,by simp [alive],?_⟩
    rcases Slab.put_cases present with ⟨rfl,rfl⟩ | before
    · cases alive
    · exact spawned j q before pid alive process
  · obtain ⟨j,q,present,pid,runs,same⟩ := attended k z old zombie
    have other : j ≠ i := by
      rintro rfl
      obtain rfl : p = q := Option.some.inj (used.symm.trans present)
      exact childless k z old zombie pid.symm
    exact ⟨j,q,(Slab.put_other v.people other).trans present,pid,runs,same⟩

theorem Attended.move (attended : Attended v) (kin : Kin v) (move : v.Move a w) (keeps : v.KeepsParents a) :
    Attended w := by
  cases move with
  | idle => exact attended
  | strand free ranged => exact attended.enrol free rfl
  | spawn called free ranged => exact attended.enrol free rfl
  | detach called live =>
    apply attended.rewrite called.there
    · rfl
    · rfl
    · rfl
    · rfl
    · simp
  | park called used mine live =>
    apply attended.rewrite used
    · rfl
    · rfl
    · rfl
    · rfl
    · simp [live]
  | retire used live other gone =>
    apply attended.erase used
    · rfl
    · rfl
    · rfl
    · intro k z there zombie _
      exact (keeps _ used).1 k z there zombie
  | leave used live other silent attentive =>
    exact attended.leave used (keeps _ used).1 attentive ((keeps _ used).2 silent)
  | reap called used mine dead =>
    apply attended.erase used
    · rfl
    · rfl
    · rfl
    · -- neither live nor a zombie: a detached process belongs to taskman
      intro k z there zombie runs
      rename_i c _ _ _
      have detached : c.exit = .detached := by cases exit : c.exit <;> simp_all
      exact absurd (mine.symm.trans (kin.adopted _ c used detached)) called.process

end Family

namespace Life

open Family

variable {l l' : Life cfg}

/-- Every zombie waits for the running incarnation that spawned it, and a waitpid that is given
its status is a call of that one. -/
structure Reapable (l : Life cfg) : Prop where
  parent : ∀ i p, l.reg.processes i = some p → p.exit = .zombie →
    ∃ j q, l.reg.processes j = some q ∧ q.pid = p.parent ∧ q.exit ≠ .zombie ∧ l.born j = l.maker i
  reaper : ∀ i p, l.reg.processes i = some p → p.exit = .zombie →
    ∀ j q parked status, l.reg.processes j = some q → l.answer q p.pid parked = .ok (some status) →
      l.born j = l.maker i

/-- No process is terminated while it has zombies, or left a zombie for a process that did not
spawn it. -/
def keepsParents (l : Life cfg) (c : Call) : Prop := l.family.KeepsParents (l.act c)

instance : DecidableRel (@keepsParents cfg) := fun l c =>
  inferInstanceAs (Decidable (l.family.KeepsParents (l.act c)))

theorem process_there (there : l.family.people i = some p) : ∃ q, l.reg.processes i = some q ∧ q.person = p := by
  simpa [family,State.roster,Slab.map] using there

theorem answer_parent (sound : l.Sound) (used : l.reg.processes i = some p)
    (got : l.answer q p.pid parked = .ok (some status)) : p.parent = q.pid := by
  have answer : (l.reg.roster.waitpid q.pid p.pid parked).2 = l.answer q p.pid parked := by
    rw [l.reg.processWaitpid_roster]
    rfl
  have found : l.reg.roster.lookup p.pid = some (i,p.person) := sound.pids.lookup (State.person_there used)
  rw [← answer,Roster.waitpid,found] at got
  by_contra other
  simp [other] at got

theorem reapable (sound : l.Sound) (attended : Attended l.family) : l.Reapable where
  parent i p used zombie := by
    obtain ⟨j,r,there,pid,runs,same⟩ := attended i p.person (State.person_there used) zombie
    obtain ⟨q,present,rfl⟩ := process_there there
    exact ⟨j,q,present,pid,runs,same⟩
  reaper i p used zombie j q parked status there got := by
    obtain ⟨k,r,present,pid,-,same⟩ := attended i p.person (State.person_there used) zombie
    have parent : r.pid = q.person.pid := pid.trans (answer_parent sound used got)
    obtain rfl := sound.pids.unique k j r q.person present (State.person_there there) parent
    exact same

theorem step_attended (l : Life cfg) (c : Call) (l' : Life cfg) (inv : l.Sound ∧ Attended l.family)
    (keeps : keepsParents l c) (taken : l.step c = some l') : l'.Sound ∧ Attended l'.family := by
  obtain ⟨move,-⟩ := step_move inv.1.pids taken
  exact ⟨step_sound l c l' inv.1 taken,inv.2.move inv.1.kin move keeps⟩

theorem start_attended (booted : boot cfg = some s) : Attended (start s).family := by
  intro i p used zombie
  simp [(boot_people booted used).1] at zombie

/-- In every run whose terminations keep to that, every zombie is reapable by its parent. -/
theorem zombies_keep_parents (booted : boot cfg = some s) (run : Lts.Run step keepsParents (start s) cs l) :
    l.Reapable := by
  have inv := run.invariant (fun l => l.Sound ∧ Attended l.family) step_attended
    ⟨start_sound booted,start_attended booted⟩
  exact reapable inv.1 inv.2

/-- A child exits before init has waited for it. -/
theorem zombies_keep_parents_unwaited : ∃ l : Life small,
    Lts.Run step keepsParents (start smallBoot) [.spawn 2 bootSpawn,.terminate 3 7] l ∧
      (l.reg.processes (2 : Fin 128)).map Process.exit = some .zombie ∧ l.Reapable := by
  obtain ⟨l,run,zombie⟩ := Lts.Run.exists_of_replay step keepsParents (start smallBoot)
    [.spawn 2 bootSpawn,.terminate 3 7]
    (fun l => (l.reg.processes (2 : Fin 128)).map Process.exit = some .zombie) (by decide +kernel)
  exact ⟨l,run,zombie,zombies_keep_parents boot_small run⟩

/-- A grandchild of init exits, then its parent; init reaps the parent and spawns a child under
the same pid, which is given the status of the grandchild. -/
theorem zombie_outlives_parent :
    ¬ ∀ cs (l : Life small), Lts.Run step anyCall (start smallBoot) cs l → l.Reapable := by
  intro reapable
  obtain ⟨l,run,⟨p,used,zombie,maker⟩,q,there,born,got⟩ := Lts.Run.exists_of_replay step anyCall (start smallBoot)
    [.spawn 2 bootSpawn,.spawn 3 bootSpawn,.terminate 4 7,.terminate 3 0,.waitpid 2 3 false,.spawn 2 bootSpawn]
    (fun l => (∃ p ∈ l.reg.processes (3 : Fin 128), (p.pid = 4 ∧ p.exit = .zombie) ∧ l.maker (3 : Fin 128) = 128) ∧
      ∃ q ∈ l.reg.processes (2 : Fin 128), l.born (2 : Fin 128) = 130 ∧
        (l.answer q 4 false).toOption = some (some 7)) (by decide +kernel)
  have answer : l.answer q 4 false = .ok (some 7) := by
    cases given : l.answer q 4 false with
    | error e =>
      rw [given] at got
      cases got
    | ok status =>
      rw [given] at got
      rw [Option.some.inj got]
  rw [← zombie.1] at answer
  have same := (reapable _ l run).reaper _ p used zombie.2 _ q false 7 there answer
  rw [born,maker] at same
  cases same

end Life

end Qsoe.Taskman
