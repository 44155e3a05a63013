import Qsoe.Lib.Run
import Qsoe.Sync.Frame

/-! Mutual exclusion and recursion of `SyncMutexLock` and `SyncMutexUnlock`, for every
interleaving of any calls that use the object as a mutex only, spurious wakes
included. Progress is not claimed here. -/
namespace Qsoe.Sync.Mutex

variable {κ ι : Type} {T : Threads ι} {s t : State κ ι} {i : ι} {m : κ}

/-- The object is never handed to a condvar, semaphore or destroy call. -/
def Only (m : κ) (_ : State κ ι) (e : Event κ ι) : Prop :=
  e.uses .condvar ≠ some m ∧ e.uses .semaphore ≠ some m ∧ e.uses .destroying ≠ some m

instance [DecidableEq κ] (m : κ) (s : State κ ι) (e : Event κ ι) : Decidable (Only m s e) :=
  inferInstanceAs (Decidable (_ ∧ _ ∧ _))

/-- What the words of `m` say when `holder` holds it. -/
structure Owned (T : Threads ι) (m : κ) (holder : Option ι) (s : State κ ι) : Prop where
  tid : T.tidOf (s.owner m) = holder.elim 0 T.tid
  count : s.count m = holder.elim 0 fun i => (s.depth i m : Int) - 1
  depth : ∀ i, 0 < s.depth i m ↔ holder = some i

/-- What a thread of tid `tid` relies on between two accesses of `m`. -/
def Local (T : Threads ι) (m : κ) (owner : BitVec 64) (count : Int) (tid : BitVec 64) : Pc κ → Prop
  | .lock m' _ (.take val) => m' = m → T.tidOf val = 0
  | .lock m' _ .recLoad => m' = m → T.tidOf owner = tid
  | .lock m' _ (.recStore c) => m' = m → T.tidOf owner = tid ∧ c = count
  | .unlock m' _ .test => m' = m → T.tidOf owner = tid
  | .unlock m' _ .decLoad => m' = m → T.tidOf owner = tid ∧ 0 < count
  | .unlock m' _ (.decStore c) => m' = m → T.tidOf owner = tid ∧ c = count ∧ 0 < count
  | .unlock m' _ .swap => m' = m → T.tidOf owner = tid ∧ ¬0 < count
  | _ => True

structure Core (T : Threads ι) (m : κ) (s : State κ ι) : Prop where
  owned : ∃ holder, Owned T m holder s
  locals : ∀ j, Local T m (s.owner m) (s.count m) (T.tid j) (s.pc j)

structure Invariant (T : Threads ι) (m : κ) (s : State κ ι) : Prop extends Core T m s where
  condvar : Unused .condvar m s
  semaphore : Unused .semaphore m s
  destroying : Unused .destroying m s

theorem Local.of_not_inside {p : Pc κ} (outside : ¬p.Inside m) : Local T m owner count tid p := by
  cases p
  case lock m' k p => cases p <;> simp_all [Pc.Inside,Local]
  case unlock m' k p => cases p <;> simp_all [Pc.Inside,Local]
  all_goals trivial

theorem Local.of_other {p : Pc κ} (other : T.tidOf owner ≠ tid) (before : Local T m owner count tid p) :
    Local T m owner' count' tid p := by
  cases p
  case lock m' k p => cases p <;> simp_all [Local]
  case unlock m' k p => cases p <;> simp_all [Local]
  all_goals trivial

theorem Local.mark {p : Pc κ} (before : Local T m owner count tid p) :
    Local T m (owner ||| T.waiters) count tid p := by
  cases p
  case lock m' k p => cases p <;> simp_all [Local]
  case unlock m' k p => cases p <;> simp_all [Local]
  all_goals trivial

namespace Owned

theorem eq_some (owned : Owned T m holder s) (named : T.tidOf (s.owner m) = T.tid i) : holder = some i := by
  have tid := owned.tid
  cases holder with
  | none => exact absurd (named.symm.trans tid) (T.nonzero i)
  | some h => rw [T.injective (tid.symm.trans named)]

theorem eq_none (owned : Owned T m holder s) (free : T.tidOf (s.owner m) = 0) : holder = none := by
  have tid := owned.tid
  cases holder with
  | none => rfl
  | some h => exact absurd (tid.symm.trans free) (T.nonzero h)

theorem depth_pos (owned : Owned T m (some i) s) : 0 < s.depth i m := (owned.depth i).mpr rfl

theorem depth_zero (owned : Owned T m holder s) (other : holder ≠ some i) : s.depth i m = 0 :=
  Nat.eq_zero_of_not_pos fun positive => other ((owned.depth i).mp positive)

theorem same (owned : Owned T m holder s) (tid : T.tidOf (t.owner m) = T.tidOf (s.owner m))
    (count : t.count m = s.count m) (depth : ∀ i, t.depth i m = s.depth i m) : Owned T m holder t where
  tid := tid.trans owned.tid
  count := by simpa only [count,depth] using owned.count
  depth i := by rw [depth]; exact owned.depth i

end Owned

namespace Core

/-- The words of `m` keep their values and thread `i` moves to `p`. -/
theorem move [DecidableEq ι] (core : Core T m s) (others : ∀ j, j ≠ i → t.pc j = s.pc j)
    (owner : t.owner m = s.owner m) (count : t.count m = s.count m)
    (depth : ∀ j, t.depth j m = s.depth j m)
    (new : Local T m (s.owner m) (s.count m) (T.tid i) (t.pc i)) : Core T m t := by
  obtain ⟨⟨holder,owned⟩,locals⟩ := core
  refine ⟨⟨holder,owned.same (by rw [owner]) count depth⟩,fun j => ?_⟩
  rw [owner,count]
  by_cases own : j = i
  · rw [own]; exact new
  · rw [others j own]; exact locals j

/-- The words of `m` change while no thread but `i` relies on them. -/
theorem handover [DecidableEq ι] (core : Core T m s) (holder : Option ι) (others : ∀ j, j ≠ i → t.pc j = s.pc j)
    (outside : ¬(t.pc i).Inside m) (alone : ∀ j, j ≠ i → T.tidOf (s.owner m) ≠ T.tid j)
    (owned : Owned T m holder t) : Core T m t := by
  refine ⟨⟨holder,owned⟩,fun j => ?_⟩
  by_cases own : j = i
  · rw [own]; exact .of_not_inside outside
  · rw [others j own]; exact (core.locals j).of_other (alone j own)

theorem alone_of_free (free : T.tidOf val = 0) (j : ι) : T.tidOf val ≠ T.tid j := fun named =>
  T.nonzero j (named.symm.trans free)

theorem alone_of_named (named : T.tidOf val = T.tid i) (j : ι) (other : j ≠ i) : T.tidOf val ≠ T.tid j :=
  fun again => other (T.injective (again.symm.trans named))

theorem take [DecidableEq κ] [DecidableEq ι] (core : Core T m s) (free : T.tidOf (s.owner m) = 0) (k : LockCall) :
    Core T m (acquired (s.setOwner m (T.tid i ||| (val &&& T.waiters))) i m k) := by
  obtain ⟨holder,owned⟩ := core.owned
  obtain rfl := owned.eq_none free
  have zero : ∀ j, s.depth j m = 0 := fun j => owned.depth_zero (by simp)
  refine core.handover (i := i) (some i) (fun j other => by simp [acquired,other]) ?_
    (fun j _ => alone_of_free free j) ?_
  · cases k <;> simp [acquired,lockReturn,Next.pc,Pc.Inside]
  · refine ⟨by simp [acquired],by simpa [acquired,zero] using owned.count,fun j => ?_⟩
    by_cases own : j = i
    · simp [acquired,own]
    · simp [acquired,own,zero,Ne.symm own]

theorem recurse [DecidableEq κ] [DecidableEq ι] (core : Core T m s) (named : T.tidOf (s.owner m) = T.tid i)
    (k : LockCall) :
    Core T m (acquired (s.setCount m (s.count m + 1)) i m k) := by
  obtain ⟨holder,owned⟩ := core.owned
  obtain rfl := owned.eq_some named
  have count := owned.count
  refine core.handover (i := i) (some i) (fun j other => by simp [acquired,other]) ?_
    (alone_of_named named) ?_
  · cases k <;> simp [acquired,lockReturn,Next.pc,Pc.Inside]
  · refine ⟨owned.tid,by simp [acquired,count],fun j => ?_⟩
    by_cases own : j = i
    · simp [acquired,own]
    · simp [acquired,own,owned.depth j]

theorem decrement [DecidableEq κ] [DecidableEq ι] (core : Core T m s) (named : T.tidOf (s.owner m) = T.tid i)
    (nested : 0 < s.count m) (outside : ¬n.pc.Inside m) :
    Core T m ((released (s.setCount m (s.count m - 1)) i m).next i n) := by
  obtain ⟨holder,owned⟩ := core.owned
  obtain rfl := owned.eq_some named
  have count : s.count m = (s.depth i m : Int) - 1 := owned.count
  refine core.handover (i := i) (some i) (fun j other => by simp [released,other]) ?_
    (alone_of_named named) ?_
  · simpa [released] using outside
  · refine ⟨owned.tid,by simp [released]; omega,fun j => ?_⟩
    by_cases own : j = i
    · simp [released,own]; omega
    · simp [released,own,owned.depth j]

theorem exchange [DecidableEq κ] [DecidableEq ι] (core : Core T m s) (named : T.tidOf (s.owner m) = T.tid i)
    (last : ¬0 < s.count m) (outside : ¬n.pc.Inside m) : Core T m ((released (s.setOwner m 0) i m).next i n) := by
  obtain ⟨holder,owned⟩ := core.owned
  obtain rfl := owned.eq_some named
  have count : s.count m = (s.depth i m : Int) - 1 := owned.count
  have positive := owned.depth_pos
  refine core.handover (i := i) none (fun j other => by simp [released,other]) ?_
    (alone_of_named named) ?_
  · simpa [released] using outside
  · refine ⟨by simp [released],by simp [released]; omega,fun j => ?_⟩
    by_cases own : j = i
    · simp [released,own]; omega
    · simp [released,own,owned.depth_zero (Ne.symm (by simpa using own))]

theorem lockStep [DecidableEq κ] [DecidableEq ι] (core : Core T m s) (counter : s.pc i = .lock m k p) :
    Core T m (lockStep T s i m k p) := by
  have before := core.locals i
  rw [counter] at before
  have step : ∀ q, Local T m (s.owner m) (s.count m) (T.tid i) q → Core T m (s.setPc i q) := fun q new =>
    core.move (i := i) (fun j other => by simp [other]) rfl rfl (fun _ => rfl) (by simpa using new)
  cases p with
  | check =>
    simp only [Sync.lockStep]
    split
    · refine core.move (i := i) (fun j other => by simp [other]) rfl rfl (fun _ => rfl) ?_
      cases k <;> simp [lockReturn,Next.pc,Local]
    · exact step _ trivial
  | load =>
    simp only [Sync.lockStep]
    split_ifs with free named flagged
    · exact step _ fun _ => free
    · exact step _ fun _ => named
    · exact step _ trivial
    · exact step _ trivial
  | take val =>
    simp only [Sync.lockStep]
    split
    · rename_i unchanged
      exact core.take (by rw [unchanged]; exact before rfl) k
    · exact step _ trivial
  | recLoad => exact step _ fun _ => ⟨before rfl,rfl⟩
  | recStore c =>
    obtain ⟨named,rfl⟩ := before rfl
    exact core.recurse named k
  | mark val =>
    simp only [Sync.lockStep]
    split
    · rename_i unchanged
      obtain ⟨holder,owned⟩ := core.owned
      refine ⟨⟨holder,owned.same (by simp [← unchanged]) rfl (fun _ => rfl)⟩,fun j => ?_⟩
      by_cases own : j = i
      · simp [own,Local]
      · simpa [own,← unchanged] using (core.locals j).mark
    · exact step _ trivial

theorem unlockStep [DecidableEq κ] [DecidableEq ι] (core : Core T m s) (counter : s.pc i = .unlock m k p) :
    Core T m (unlockStep T s i m k p) := by
  have before := core.locals i
  rw [counter] at before
  have step : ∀ q, Local T m (s.owner m) (s.count m) (T.tid i) q → Core T m (s.setPc i q) := fun q new =>
    core.move (i := i) (fun j other => by simp [other]) rfl rfl (fun _ => rfl) (by simpa using new)
  cases p with
  | load =>
    simp only [Sync.unlockStep]
    split
    · refine core.move (i := i) (fun j other => by simp [other]) rfl rfl (fun _ => rfl) ?_
      simpa using Local.of_not_inside (not_inside_unlockReturn m)
    · rename_i named
      exact step _ fun _ => not_not.mp named
  | test =>
    simp only [Sync.unlockStep]
    split
    · rename_i nested
      exact step _ fun _ => ⟨before rfl,nested⟩
    · rename_i last
      exact step _ fun _ => ⟨before rfl,last⟩
  | decLoad => exact step _ fun _ => ⟨(before rfl).1,rfl,(before rfl).2⟩
  | decStore c =>
    obtain ⟨named,rfl,nested⟩ := before rfl
    exact core.decrement named nested (not_inside_unlockReturn m)
  | swap =>
    obtain ⟨named,last⟩ := before rfl
    simp only [Sync.unlockStep]
    split
    · exact core.exchange (n := .goto (.wake (.unlock m k))) named last (by simp [Next.pc,Pc.Inside])
    · exact core.exchange named last (not_inside_unlockReturn m)

end Core

theorem Invariant.step [DecidableEq κ] [DecidableEq ι] (invariant : Invariant T m s) (allowed : Only m s e)
    (taken : Sync.step T s e = some t) : Invariant T m t := by
  have frame := step_frame taken
  refine ⟨?_,step_unused invariant.condvar allowed.1 taken,step_unused invariant.semaphore allowed.2.1 taken,
    step_unused invariant.destroying allowed.2.2 taken⟩
  by_cases written : e.word s = some m
  · cases e with
    | run i =>
      change (s.pc i).word = some m at written
      change advance T s i = some t at taken
      have condvar := invariant.condvar i
      have semaphore := invariant.semaphore i
      have destroying := invariant.destroying i
      unfold advance at taken
      cases counter : s.pc i <;> rw [counter] at taken written condvar semaphore destroying
      case lock => cases written; cases taken; exact invariant.toCore.lockStep counter
      case unlock => cases written; cases taken; exact invariant.toCore.unlockStep counter
      all_goals simp_all [Pc.word,Pc.uses]
    | call i c => cases written
    | mintFails i => cases written
    | spurious i => cases written
  · exact invariant.toCore.move frame.pc (frame.owner m written) (frame.count m written)
      (fun j => frame.depth j m (.inr written)) (.of_not_inside (step_not_inside taken written))

theorem Invariant.initial {objects : κ → SyncT} (minted : ι → Bool) (owner : (objects m).owner = 0)
    (count : (objects m).count = 0) : Invariant T m (start objects minted) where
  owned := ⟨none,by simp [start,owner],by simp [start,count],by simp [start]⟩
  locals j := by simp [start,Local]
  condvar j := by simp [start]
  semaphore j := by simp [start]
  destroying j := by simp [start]

theorem Invariant.run [DecidableEq κ] [DecidableEq ι] (initial : Invariant T m s)
    (run : Lts.Run (Sync.step T) (Only m) s es t) :
    Invariant T m t :=
  run.invariant (Invariant T m) (fun _ _ _ invariant allowed taken => invariant.step allowed taken) initial

theorem Invariant.unlock_at_load (invariant : Invariant T m s) (counter : s.pc i = .unlock m k p)
    (foreign : s.depth i m = 0) : p = .load ∧ T.tidOf (s.owner m) ≠ T.tid i := by
  obtain ⟨holder,owned⟩ := invariant.owned
  have unnamed : T.tidOf (s.owner m) ≠ T.tid i := by
    intro named
    obtain rfl := owned.eq_some named
    exact absurd owned.depth_pos (by omega)
  have before := invariant.locals i
  rw [counter] at before
  cases p with
  | load => exact ⟨rfl,unnamed⟩
  | test => exact absurd (before rfl) unnamed
  | decLoad => exact absurd (before rfl).1 unnamed
  | decStore c => exact absurd (before rfl).1 unnamed
  | swap => exact absurd (before rfl).1 unnamed

theorem unlock_refused [DecidableEq κ] [DecidableEq ι] (counter : s.pc i = .unlock m k .load)
    (foreign : T.tidOf (s.owner m) ≠ T.tid i) :
    ∃ t, step T s (.run i) = some t ∧ t.owner = s.owner ∧ t.count = s.count ∧ t.pc i = .idle ∧
      t.errno i = some .eperm ∧ (k = .user → t.ret i = some .minusOne) := by
  refine ⟨(s.setErrno i .eperm).next i (unlockReturn (some .eperm) m false k),?_,rfl,rfl,?_⟩
  · simp [step,advance,counter,unlockStep,foreign]
  · cases k <;> simp [unlockReturn,Next.pc]

/-- At most one thread is inside its acquires of `m`; the owner word names it exactly then,
`count` is its recursion depth less one, and every unlock by another thread is refused. -/
theorem mutual_exclusion [DecidableEq κ] [DecidableEq ι] {objects : κ → SyncT} {minted : ι → Bool}
    (run : Lts.Run (step T) (Only m) (start objects minted) es s)
    (mutex : type = .mutexFree ∨ type = .mutexNonrecursive)
    (created : syncTypeCreate_r type attr = .ok (objects m)) :
    (∀ i j, 0 < s.depth i m → 0 < s.depth j m → i = j) ∧
    (∀ i, 0 < s.depth i m ↔ T.tidOf (s.owner m) = T.tid i) ∧
    (∀ i, 0 < s.depth i m → s.count m = s.depth i m - 1) ∧
    ∀ i k p, s.pc i = .unlock m k p → s.depth i m = 0 → p = .load ∧
      ∃ t, step T s (.run i) = some t ∧ t.owner = s.owner ∧ t.count = s.count ∧ t.pc i = .idle ∧
        t.errno i = some .eperm ∧ (k = .user → t.ret i = some .minusOne) := by
  have other : type ≠ .sem := by rcases mutex with rfl | rfl <;> simp
  have invariant := (Invariant.initial (T := T) minted (syncTypeCreate_r_owner created)
    (syncTypeCreate_r_count created other)).run run
  obtain ⟨holder,owned⟩ := invariant.owned
  refine ⟨fun i j first second => ?_,fun i => ⟨fun held => ?_,fun named => ?_⟩,fun i held => ?_,?_⟩
  · exact Option.some.inj (((owned.depth i).mp first).symm.trans ((owned.depth j).mp second))
  · obtain rfl := (owned.depth i).mp held
    exact owned.tid
  · exact (owned.depth i).mpr (owned.eq_some named)
  · obtain rfl := (owned.depth i).mp held
    exact owned.count
  · intro i k p counter foreign
    obtain ⟨rfl,unnamed⟩ := invariant.unlock_at_load counter foreign
    exact ⟨rfl,unlock_refused counter unnamed⟩

/-- Thread `a` locks twice, thread `b` sleeps on it and wakes without a signal. -/
def contended (a b : ι) (m : κ) : List (Event κ ι) :=
  [.call a (.mutexLock (some m)),.run a,.run a,.run a,.call a (.mutexLock (some m)),.run a,.run a,.run a,.run a,
    .call b (.mutexLock (some m)),.run b,.run b,.run b,.run b,.run b,.run b,.spurious b]

theorem mutual_exclusion_contended : ∃ s : State (Fin 1) (Fin 2),
    Lts.Run (step two) (Only 0) (start (fun _ => ⟨0,0⟩) fun _ => true) (contended 0 1 0) s ∧
    s.depth 0 0 = 2 ∧ s.pc 1 = .wait (.lock 0 .user) .leave ∧
    two.tidOf (s.owner 0) = two.tid 0 ∧ s.count 0 = 2 - 1 := by
  obtain ⟨s,run,twice,waiting⟩ := Lts.Run.exists_of_replay (step two) (Only 0)
    (start (fun _ => ⟨0,0⟩) fun _ => true) (contended 0 1 (0 : Fin 1))
    (fun s => s.depth 0 0 = 2 ∧ s.pc 1 = .wait (.lock 0 .user) .leave) (by decide +kernel)
  have created : syncTypeCreate_r .mutexFree none = .ok ⟨0,0⟩ := rfl
  obtain ⟨-,named,count,-⟩ := mutual_exclusion run (.inl rfl) created
  have held : 0 < s.depth 0 0 := by omega
  exact ⟨s,run,twice,waiting,(named 0).mp held,by simpa [twice] using count 0 held⟩

end Qsoe.Sync.Mutex
