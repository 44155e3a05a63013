import Qsoe.Taskman.Lifecycle

/-! The exit status of a child reaches its parent once. The status is lost when a child
detaches with nobody waiting, since detaching gives it to taskman, and when a child exits
with nobody waiting after its parent has detached, since such a parent counts as gone. -/
namespace Qsoe.Taskman

variable {cfg : Config}

@[simp] theorem obtained_append (log more : List Note) (b : Nat) :
    obtained (log ++ more) b = obtained log b ++ obtained more b := List.filterMap_append

@[simp] theorem obtained_single (waiter child b : Nat) (status : BitVec 32) :
    obtained [.obtained waiter child status] b = if child = b then [(waiter,status)] else [] := by
  by_cases same : child = b <;> simp [obtained,same]

namespace Family

open Life

variable {v w : Family}

@[simp] theorem obtained_endNotes (v : Family) (i : Fin maxProcesses) (p : Person) (status : BitVec 32)
    (b : Nat) : obtained (v.endNotes i p status) b =
      if p.waiter = true ∧ v.born i = b then [(v.waiting i,status)] else [] := by
  cases waits : p.waiter with
  | false => simp [endNotes,waits,obtained]
  | true => by_cases same : v.born i = b <;> simp [endNotes,waits,obtained,same]

theorem ended_endNotes (member : Note.ended b m pid status ∈ v.endNotes i p st) :
    b = v.born i ∧ m = v.maker i ∧ pid = p.pid ∧ status = st := by
  cases waits : p.waiter <;> simpa [endNotes,waits] using member

def Kept (v : Family) (b m : Nat) (pid : Pid) (status : BitVec 32) : Prop :=
  ∃ i p, v.people i = some p ∧ v.born i = b ∧ v.maker i = m ∧ p.exit = .zombie ∧ p.pid = pid ∧
    p.status = status

structure Settled (v : Family) : Prop where
  past : ∀ b m pid status, Note.ended b m pid status ∈ v.log → m < v.clock
  future : ∀ b, v.clock ≤ b → obtained v.log b = []
  quiet : ∀ i p, v.people i = some p → p.exit ≠ .detached → obtained v.log (v.born i) = []
  ended : ∀ b m pid status, Note.ended b m pid status ∈ v.log → m ≠ 0 → v.Running m →
    obtained v.log b = [(m,status)] ∨ obtained v.log b = [] ∧ v.Kept b m pid status

/-- A child ends with its parent waiting, or its parent is gone; an exit may also find the
parent not detached. -/
def KeepsStatus (v : Family) : Act → Prop
  | .quiet => True
  | .detach i => ∀ p ∈ v.people i, p.waiter = true ∨ v.maker i = 0 ∨ ¬ v.Running (v.maker i)
  | .terminate i => ∀ p ∈ v.people i, p.waiter = true ∨ v.maker i = 0 ∨
      ∀ j, ∀ q ∈ v.people j, v.born j = v.maker i → q.exit ≠ .detached

instance (v : Family) (a : Act) : Decidable (v.KeepsStatus a) :=
  match a with
  | .quiet => .isTrue trivial
  | .detach i => inferInstanceAs (Decidable (∀ p ∈ v.people i, _))
  | .terminate i => inferInstanceAs (Decidable (∀ p ∈ v.people i, _))

theorem Settled.ends (settled : Settled v) (kin : Kin v) (used : v.people i = some p) (live : p.exit = .live)
    (later : ∀ k p', w.people k = some p' → ∃ q, v.people k = some q ∧ Later q p')
    (rest : ∀ k q, k ≠ i → v.people k = some q → w.people k = some q)
    (born : w.born = v.born) (maker : w.maker = v.maker) (clock : w.clock = v.clock)
    (log : w.log = v.log ++ v.endNotes i p st)
    (silent : ∀ p', w.people i = some p' → p'.exit ≠ .detached → p.waiter = false)
    (outcome : v.maker i ≠ 0 → w.Running (v.maker i) → p.waiter = true ∨
      p.waiter = false ∧ w.Kept (v.born i) (v.maker i) p.pid st) : Settled w := by
  have nothing : obtained v.log (v.born i) = [] := settled.quiet i p used (by simp [live])
  have fresh : ∀ b, b ≠ v.born i → obtained w.log b = obtained v.log b := by
    intro b other
    simp [log,other.symm]
  constructor
  · intro b m pid status member
    rw [log,List.mem_append] at member
    rw [clock]
    rcases member with old | new
    · exact settled.past b m pid status old
    · rw [(ended_endNotes new).2.1]
      exact (kin.clock i p used).2
  · intro b later
    rw [clock] at later
    rw [fresh b (by have := (kin.clock i p used).1; omega)]
    exact settled.future b later
  · intro k p' there attached
    obtain ⟨q,before,step⟩ := later k p' there
    rw [born]
    rcases eq_or_ne k i with rfl | other
    · simp [log,nothing,silent p' there attached]
    · rw [fresh _ fun same => other (kin.apart k i q p before used same)]
      apply settled.quiet k q before
      rcases step with rfl | ⟨alive,-⟩
      · exact attached
      · simp [alive]
  · intro b m pid status member made running
    have before := running_of_later running later born
    rw [log,List.mem_append] at member
    rcases member with old | new
    · rcases settled.ended b m pid status old made before with got | ⟨missing,k,q,there,rfl,rfl,zombie,kept⟩
      · left
        rw [fresh b (by rintro rfl; simp [nothing] at got)]
        exact got
      · right
        have other : k ≠ i := by
          rintro rfl
          rw [Option.some.inj (there.symm.trans used),live] at zombie
          cases zombie
        rw [fresh _ fun same => other (kin.apart k i q p there used same)]
        exact ⟨missing,k,q,rest k q other there,congrFun born k,congrFun maker k,zombie,kept⟩
    · obtain ⟨rfl,rfl,rfl,rfl⟩ := ended_endNotes new
      rcases outcome made running with waits | ⟨nobody,kept⟩
      · left
        simp [log,nothing,waits,kin.parked i p used waits made before]
      · right
        exact ⟨by simp [log,nothing,nobody],kept⟩

/-- A zombie is fetched by the process that spawned it. -/
theorem Settled.reap (settled : Settled v) (kin : Kin v)
    (unique : ∀ i j p q, v.people i = some p → v.people j = some q → p.pid = q.pid → i = j)
    (called : v.Caller n q) (used : v.people i = some c) (mine : c.parent = q.pid) (dead : c.exit ≠ .live) :
    Settled { v with
      people := Slab.erase v.people i, log := v.log ++ [.obtained (v.born n) (v.born i) c.status] } := by
  have attached : c.exit ≠ .detached := by
    intro detached
    exact called.process (mine.symm.trans (kin.adopted i c used detached))
  have nothing := settled.quiet i c used attached
  have fresh : ∀ b, b ≠ v.born i →
      obtained (v.log ++ [.obtained (v.born n) (v.born i) c.status]) b = obtained v.log b := by
    intro b other
    simp [other.symm]
  constructor
  · intro b m pid status member
    exact settled.past b m pid status (by simpa using member)
  · intro b later
    dsimp only at later ⊢
    rw [fresh b (by have := (kin.clock i c used).1; omega)]
    exact settled.future b later
  · intro k p there away
    obtain ⟨other,before⟩ := Slab.erase_some there
    dsimp only
    rw [fresh _ fun same => other (kin.apart k i p c before used same)]
    exact settled.quiet k p before away
  · intro b m pid status member made running
    have before : v.Running m := by
      obtain ⟨k,p,there,same,runs⟩ := running
      exact ⟨k,p,(Slab.erase_some there).2,same,runs⟩
    have old : Note.ended b m pid status ∈ v.log := by simpa using member
    dsimp only
    rcases settled.ended b m pid status old made before with got | ⟨missing,k,p,there,rfl,rfl,zombie,rfl,rfl⟩
    · left
      rw [fresh b (by rintro rfl; simp [nothing] at got)]
      exact got
    · rcases eq_or_ne k i with rfl | other
      · left
        obtain rfl : p = c := Option.some.inj (there.symm.trans used)
        have mother := kin.mother unique used attached made before called.there mine
        simp [missing,mother]
      · right
        rw [fresh _ fun same => other (kin.apart k i p c there used same)]
        exact ⟨missing,k,p,(Slab.erase_other v.people other).trans there,rfl,rfl,zombie,rfl,rfl⟩

theorem Settled.enrol (settled : Settled v) (free : v.people i = none) :
    Settled { v with
      people := Slab.put v.people i p
      born := Function.update v.born i v.clock
      maker := Function.update v.maker i m
      clock := v.clock + 1 } := by
  have other : ∀ k q, v.people k = some q → k ≠ i := by
    rintro k q used rfl
    simp [free] at used
  constructor
  · intro b m pid status member
    exact Nat.lt_succ_of_lt (settled.past b m pid status member)
  · intro b later
    exact settled.future b (Nat.le_of_succ_le later)
  · intro k q there attached
    dsimp only
    rcases Slab.put_cases there with ⟨rfl,rfl⟩ | old
    · rw [Function.update_self]
      exact settled.future _ le_rfl
    · rw [Function.update_of_ne (other k q old)]
      exact settled.quiet k q old attached
  · intro b n pid status member made running
    have past := settled.past b n pid status member
    have before : v.Running n := by
      obtain ⟨k,q,there,same,runs⟩ := running
      rcases Slab.put_cases there with ⟨rfl,rfl⟩ | old
      · simp only [Function.update_self] at same
        omega
      · simp only [Function.update_of_ne (other k q old)] at same
        exact ⟨k,q,old,same,runs⟩
    rcases settled.ended b n pid status member made before with got | ⟨missing,k,q,there,rfl,rfl,kept⟩
    · exact .inl got
    · have away := other k q there
      exact .inr ⟨missing,k,q,(Slab.put_other v.people away).trans there,Function.update_of_ne away ..,
        Function.update_of_ne away ..,kept⟩

theorem Settled.park (settled : Settled v) (used : v.people i = some c) (live : c.exit = .live) (n : Nat) :
    Settled { v with
      people := Slab.put v.people i { c with waiter := true }
      waiting := Function.update v.waiting i n } := by
  constructor
  · exact settled.past
  · exact settled.future
  · intro k q there attached
    rcases Slab.put_cases there with ⟨rfl,rfl⟩ | old
    · exact settled.quiet k c used (by simp [live])
    · exact settled.quiet k q old attached
  · intro b m pid status member made running
    have before : v.Running m := by
      obtain ⟨k,q,there,same,runs⟩ := running
      rcases Slab.put_cases there with ⟨rfl,rfl⟩ | old
      · exact ⟨k,c,used,same,by simp [live]⟩
      · exact ⟨k,q,old,same,runs⟩
    rcases settled.ended b m pid status member made before with got | ⟨missing,k,q,there,rfl,rfl,zombie,kept⟩
    · exact .inl got
    · have away : k ≠ i := by
        rintro rfl
        rw [Option.some.inj (there.symm.trans used),live] at zombie
        cases zombie
      exact .inr ⟨missing,k,q,(Slab.put_other v.people away).trans there,rfl,rfl,zombie,kept⟩

theorem Settled.move (settled : Settled v) (kin : Kin v)
    (unique : ∀ i j p q, v.people i = some p → v.people j = some q → p.pid = q.pid → i = j)
    (move : v.Move a w) (keeps : v.KeepsStatus a) : Settled w := by
  cases move with
  | idle => exact settled
  | strand free ranged => exact settled.enrol free
  | spawn called free ranged => exact settled.enrol free
  | reap called used mine dead => exact settled.reap kin unique called used mine dead
  | park called used mine live => exact settled.park used live _
  | detach called live =>
    have later := fun status : BitVec 32 => later_put called.there (Later.detach live status)
    refine settled.ends kin called.there live (later _) ?_ rfl rfl rfl rfl ?_ ?_
    · intro k q other used
      exact (Slab.put_other v.people other).trans used
    · intro p' there attached
      obtain rfl := Option.some.inj ((Slab.put_same v.people).symm.trans there)
      exact absurd rfl attached
    · intro made running
      rcases keeps _ called.there with waits | nobody | gone
      · exact .inl waits
      · exact absurd nobody made
      · exact absurd (running_of_later running (later _) rfl) gone
  | retire used live other gone =>
    rename_i p i st
    refine settled.ends kin used live (later_erase v i) ?_ rfl rfl rfl rfl ?_ ?_
    · intro k q other used
      exact (Slab.erase_other v.people other).trans used
    · intro p' there
      simp at there
    · intro made running
      rcases keeps p used with waits | nobody | present
      · exact .inl waits
      · exact absurd nobody made
      · -- its parent runs and has not detached, so it would have been left a zombie
        obtain ⟨j,q,there,same,runs⟩ := running
        obtain ⟨away,before⟩ := Slab.erase_some there
        have live' : q.exit = .live := by
          have attached := present j q before same
          cases exit : q.exit <;> simp_all
        have parent := kin.parent i p used (by simp [live]) made j q before same runs
        have process : q.pid ≠ pidTaskman := by
          intro own
          exact made (same.symm.trans (kin.taskman j q before own))
        rcases gone with waits | inattentive
        · exact .inl waits
        · refine absurd ⟨j,q,?_,parent.symm,live',?_⟩ inattentive
          · exact (Slab.put_other v.people away).trans before
          · rw [parent]
            exact process
  | leave used live other silent attentive =>
    refine settled.ends kin used live (later_put used (.leave live _)) ?_ rfl rfl rfl rfl ?_ ?_
    · intro k q other used
      exact (Slab.put_other v.people other).trans used
    · exact fun _ _ _ => silent
    · exact fun _ _ => .inr ⟨silent,_,_,Slab.put_same v.people,rfl,rfl,rfl,rfl,rfl⟩

end Family

namespace Life

open Family

variable {l l' : Life cfg}

/-- What a waitpid of process `q` on the pid `child` would return. -/
def answer (l : Life cfg) (q : Process) (child : Pid) (parked : Bool) : Except Errno (Option (BitVec 32)) :=
  (l.reg.processWaitpid q.pid child parked).2

/-- While its parent runs, an ended child's status has been obtained by that parent and by
nobody else, once, or the parent's next waitpid returns it; and no waitpid of the parent on a
child that has not ended is refused with ECHILD. -/
structure Delivered (l : Life cfg) : Prop where
  ended : ∀ b m pid status, Note.ended b m pid status ∈ l.log → m ≠ 0 →
    ∀ j q, l.reg.processes j = some q → l.born j = m → q.exit ≠ .zombie →
      obtained l.log b = [(m,status)] ∨
        obtained l.log b = [] ∧ ∀ parked, l.answer q pid parked = .ok (some status)
  awaited : ∀ i p, l.reg.processes i = some p → p.exit = .live → l.maker i ≠ 0 →
    ∀ j q, l.reg.processes j = some q → l.born j = l.maker i → q.exit ≠ .zombie →
      ∀ parked, l.answer q p.pid parked ≠ .error .echild

/-- Under a running parent, a child detaches only with the parent parked on it, and exits with
nobody parked only if the parent has not detached. -/
def keepsStatus (l : Life cfg) (c : Call) : Prop := l.family.KeepsStatus (l.act c)

instance : DecidableRel (@keepsStatus cfg) := fun l c =>
    inferInstanceAs (Decidable (l.family.KeepsStatus (l.act c)))

theorem answer_of (sound : l.Sound) (used : l.family.people i = some c) (attached : c.exit ≠ .detached)
    (made : l.maker i ≠ 0) (there : l.reg.processes j = some q) (born : l.born j = l.maker i)
    (runs : q.exit ≠ .zombie) (parked : Bool) :
    l.answer q c.pid parked =
      if c.exit ≠ .live then .ok (some c.status) else if parked then .ok none else .error .enomem := by
  have parent := sound.kin.parent i c used attached made j q.person (State.person_there there) born runs
  have answer : (l.reg.roster.waitpid q.pid c.pid parked).2 = l.answer q c.pid parked := by
    rw [l.reg.processWaitpid_roster]
    rfl
  have found : l.reg.roster.lookup c.pid = some (i,c) := sound.pids.lookup used
  rw [← answer,Roster.waitpid,found]
  by_cases live : c.exit = .live
  · cases parked <;> simp [parent,live]
  · simp [parent,live]

theorem delivered (sound : l.Sound) (settled : Settled l.family) : l.Delivered where
  ended b m pid status member made j q there born runs := by
    have running : l.family.Running m := ⟨j,q.person,State.person_there there,born,runs⟩
    rcases settled.ended b m pid status member made running with got | ⟨missing,i,c,used,rfl,rfl,zombie,rfl,rfl⟩
    · exact .inl got
    · right
      refine ⟨missing,?_⟩
      intro parked
      rw [answer_of sound used (by simp [zombie]) made there born runs parked]
      simp [zombie]
  awaited i p used live made j q there born runs parked := by
    rw [show p.pid = p.person.pid from rfl,
      answer_of sound (State.person_there used) (by simp [live]) made there born runs parked]
    cases parked <;> simp [live]

theorem step_settled (l : Life cfg) (c : Call) (l' : Life cfg) (inv : l.Sound ∧ Settled l.family)
    (keeps : keepsStatus l c) (taken : l.step c = some l') : l'.Sound ∧ Settled l'.family := by
  obtain ⟨move,-⟩ := step_move inv.1.pids taken
  exact ⟨step_sound l c l' inv.1 taken,inv.2.move inv.1.kin inv.1.pids.unique move keeps⟩

theorem start_settled (s : State cfg) : Settled (start s).family := by
  constructor <;> simp [start,family,obtained]

/-- In every run in which no child ends with its status unclaimed in one of the two ways, every
status reaches the parent exactly once. -/
theorem status_reaches_parent (booted : boot cfg = some s) (run : Lts.Run step keepsStatus (start s) cs l) :
    l.Delivered := by
  have inv := run.invariant (fun l => l.Sound ∧ Settled l.family) step_settled
    ⟨start_sound booted,start_settled s⟩
  exact delivered inv.1 inv.2

/-- Init parks on its child, which then exits. -/
theorem status_reaches_parent_parked : ∃ l : Life small,
    Lts.Run step keepsStatus (start smallBoot) [.spawn 2 bootSpawn,.waitpid 2 3 true,.terminate 3 7] l ∧
      obtained l.log 128 = [(1,7)] ∧ l.Delivered := by
  obtain ⟨l,run,got⟩ := Lts.Run.exists_of_replay step keepsStatus (start smallBoot)
    [.spawn 2 bootSpawn,.waitpid 2 3 true,.terminate 3 7]
    (fun l => obtained l.log 128 = [(1,7)]) (by decide +kernel)
  exact ⟨l,run,got,status_reaches_parent boot_small run⟩

/-- The child detaches before init waits: the waitpid of init is refused. -/
theorem detached_status_lost :
    ¬ ∀ cs (l : Life small), Lts.Run step anyCall (start smallBoot) cs l → l.Delivered := by
  intro delivered
  obtain ⟨l,run,note,missing,refused⟩ := Lts.Run.exists_of_replay step anyCall (start smallBoot)
    [.spawn 2 bootSpawn,.detach 3 7]
    (fun l => Note.ended 128 1 3 7 ∈ l.log ∧ obtained l.log 128 = [] ∧
      ∃ q ∈ l.reg.processes (1 : Fin 128), l.born (1 : Fin 128) = 1 ∧ q.exit ≠ .zombie ∧
        (match l.answer q 3 true with | .error e => e == .echild | .ok _ => false) = true) (by decide +kernel)
  obtain ⟨q,there,born,runs,echild⟩ := refused
  rcases (delivered _ l run).ended 128 1 3 7 note (by decide) _ q there born runs with got | ⟨-,next⟩
  · simp [missing] at got
  · rw [next true] at echild
    cases echild

end Life

end Qsoe.Taskman
