import Qsoe.Taskman.Estate
import Qsoe.Taskman.Handlers

/-! What `tm_process_terminate` takes back. The teardown visits threads, channels, connections,
device frames and blocks; it does not visit the resource database, and a process that detached
is not torn down at all. -/
namespace Qsoe.Taskman

variable {cfg : Config} {n : Nat}

namespace Estate

variable {e e' : Estate cfg n}

/-- Nothing in use is owned by `pid`. -/
structure Released (e : Estate cfg n) (pid : Pid) : Prop where
  threads : ∀ j w, e.threads j = some w → w.pid ≠ pid
  channels : ∀ j c, e.reg.channels j = some c → c.owner ≠ pid
  rows : ∀ j r, e.reg.rows j = some r → r.clientPid ≠ pid
  blocks : ∀ i p, e.reg.processes i = some p → p.pid = pid → e.pput i = []
  devframes : ∀ i p, e.reg.processes i = some p → p.pid = pid → e.devframes i = []
  ranges : ∀ r ∈ e.ranges, r.owner ≠ pid

theorem teardown_record (wf : e.reg.roster.Wf) (found : e.reg.processLookup pid = some (i,p))
    (used : (e.reg.teardown i p status).processes k = some q) (same : q.pid = pid) : k = i := by
  by_contra other
  have view : (e.reg.teardown i p status).roster.people k = some q.person := by
    simp [State.roster,Slab.map,used]
  rw [State.teardown_roster,Roster.finish_other other] at view
  have own : e.reg.roster.people i = some p.person := by
    simp [State.roster,Slab.map,(Slab.find_some found).1]
  have pid : p.pid = pid := by simpa using (Slab.find_some found).2
  exact other (wf.unique k i q.person p.person view own (same.trans pid.symm))

theorem processTerminate_live (found : e.reg.processLookup pid = some (i,p)) (live : p.exit = .live)
    (other : pid ≠ pidTaskman) (status : BitVec 32) :
    e.processTerminate pid status = ({ e.dismantle i pid with reg := e.reg.teardown i p status },.ok ()) := by
  unfold processTerminate
  rw [if_neg other,found]
  dsimp only
  rw [if_neg (by simp [live])]

theorem teardown_released (wf : e.reg.roster.Wf) (found : e.reg.processLookup pid = some (i,p))
    (status : BitVec 32) :
    Released { e.dismantle i pid with reg := e.reg.teardown i p status } pid ↔ ∀ r ∈ e.ranges, r.owner ≠ pid := by
  have own : p.pid = pid := by simpa using (Slab.find_some found).2
  have tables := State.teardown_tables e.reg i p status
  constructor
  · intro released
    exact released.ranges
  · intro ranges
    refine ⟨?_,?_,?_,?_,?_,ranges⟩
    · intro j w used
      simpa using (Slab.drop_some.mp used).2
    · intro j c used
      have dropped : (e.reg.tables.teardown p.pid).channels j = some c := tables ▸ used
      simpa [own] using (Slab.drop_some.mp dropped).2
    · intro j r used
      have dropped : (e.reg.tables.teardown p.pid).rows j = some r := tables ▸ used
      simpa [own] using (Slab.drop_some.mp dropped).2
    · intro k q used same
      obtain rfl := teardown_record wf found used same
      exact Function.update_self ..
    · intro k q used same
      obtain rfl := teardown_record wf found used same
      exact Function.update_self ..

/-- In every reachable state the termination of a process that runs leaves nothing owned by it
exactly if it owns no range of the resource database and, should it have detached, owned nothing
before. -/
theorem terminate_releases (booted : boot cfg = some s) (run : Lts.Run step anyDeed (start s ram) ds e)
    (found : e.reg.processLookup pid = some (i,p)) (running : p.exit ≠ .zombie) (other : pid ≠ pidTaskman)
    (done : e.processTerminate pid status = (e',.ok ())) :
    e'.Released pid ↔ (∀ r ∈ e.ranges, r.owner ≠ pid) ∧ (p.exit = .detached → e.Released pid) := by
  have wf := run_pids booted run
  cases exit : p.exit with
  | live =>
    rw [processTerminate_live found exit other] at done
    obtain rfl := (Prod.mk.inj done).1
    simpa using teardown_released wf found status
  | detached =>
    unfold processTerminate at done
    rw [if_neg other,found] at done
    dsimp only at done
    rw [exit,if_pos (by simp)] at done
    obtain rfl := (Prod.mk.inj done).1
    constructor
    · exact fun released => ⟨released.ranges,fun _ => released⟩
    · exact fun both => both.2 rfl
  | zombie => exact absurd exit running

/-- A child of init with a worker thread, two blocks and a device frame is terminated. -/
theorem terminate_releases_child : ∃ ds, ∃ e : Estate small 1, Lts.Run step anyDeed (start smallBoot 3) ds e ∧
    ¬ e.Released 3 ∧ (e.processTerminate 3 0).1.Released 3 := by
  obtain ⟨e,run,worker,⟨⟨i,p⟩,found,live⟩,nothing⟩ := Lts.Run.exists_of_replay step anyDeed
    (start (n := 1) smallBoot 3)
    [.message 1 1 0 (.registry (.processCreate bootSpawn) ⟨0,0⟩),.message 2 1 0 (.threadAlloc 1 8 true),
      .message 2 1 0 (.mmap 1),.message 2 1 0 (.mapPhys [0x40000000])]
    (fun e => (∃ w ∈ e.threads 0, w.pid = 3) ∧ (∃ hit ∈ e.reg.processLookup 3, hit.2.exit = .live) ∧ e.ranges = [])
    (by decide +kernel)
  have live : p.exit = .live := live
  have done := processTerminate_live found live (by decide) 0
  refine ⟨_,e,run,?_,?_⟩
  · obtain ⟨w,used,own⟩ := worker
    exact fun released => released.threads 0 w used own
  · rw [done]
    refine (terminate_releases boot_small run found ?_ (by decide) done).mpr ⟨by simp [nothing],?_⟩
    · simp [live]
    · simp [live]

/-- Init claims a range of the resource database and is terminated: the range is still its own. -/
theorem range_outlives_owner : ¬ ∀ ds (e : Estate small 1) (pid : Pid) (status : BitVec 32) i p e',
    Lts.Run step anyDeed (start smallBoot 3) ds e → e.reg.processLookup pid = some (i,p) → p.exit ≠ .zombie →
      pid ≠ pidTaskman → e.processTerminate pid status = (e',.ok ()) → e'.Released pid := by
  intro releases
  obtain ⟨e,run,⟨⟨i,p⟩,found,live⟩,range⟩ := Lts.Run.exists_of_replay step anyDeed (start (n := 1) smallBoot 3)
    [.message 1 1 0 (.rsrcCreate 0 0x10000000 0x10000fff)]
    (fun e => (∃ hit ∈ e.reg.processLookup 2, hit.2.exit = .live) ∧ e.ranges = [⟨0,0x10000000,0x10000fff,2⟩])
    (by decide +kernel)
  have live : p.exit = .live := live
  have done := processTerminate_live found live (by decide) 0
  have released := releases _ e 2 0 i p _ run found (by simp [live]) (by decide) done
  refine released.ranges ⟨0,0x10000000,0x10000fff,2⟩ ?_ rfl
  simp [dismantle,range]

end Estate

end Qsoe.Taskman
