import Mathlib.Data.Fintype.Basic
import Qsoe.Sync.Mutex

/-! `SyncCondvarWait_r` ignores the result of its closing `SyncMutexLock`. It returns
holding the mutex exactly when that lock is not refused: the Notification can be
minted and the table has room for the waiter. -/
namespace Qsoe.Sync.CondvarReturn

variable {κ ι : Type} [DecidableEq κ] {T : Threads ι} {s t : State κ ι} {i j : ι} {m : κ}

def address (m : κ) : Addr κ := ⟨m,.owner⟩

/-- Inside the closing lock of `SyncCondvarWait_r`, after its unlock and wait. -/
def Relocking (m : κ) : Pc κ → Prop
  | .lock m' (.cond _) _ | .wait (.lock m' (.cond _)) _ => m' = m
  | _ => False

instance (m : κ) : ∀ p : Pc κ, Decidable (Relocking m p)
  | .lock m' (.cond _) _ | .wait (.lock m' (.cond _)) _ => inferInstanceAs (Decidable (m' = m))
  | .idle | .lock _ .user _ | .wait (.lock _ .user) _ | .wait (.cond _ _ _) _ | .wait (.sem _) _ | .unlock _ _ _
  | .wake _ | .condLoad _ _ | .signalAdd _ _ | .postAdd _ | .semLoad _ _ | .semTake _ _ _ | .destroyCount _
  | .destroyOwner _ => isFalse id

/-- A waiter on `a` would be given a credit or a place. -/
def Fits (s : State κ ι) (a : Addr κ) : Bool :=
  match s.table.entry a with
  | some e => decide (0 < e.credit ∨ e.waiters.length < maxWaiters)
  | none => s.table.room

/-- The closing lock of a condvar wait finds room in the table and memory for its
Notification. -/
def Served (m : κ) (s : State κ ι) : Event κ ι → Prop
  | .run i => ∀ failed, s.pc i = .wait (.lock m (.cond failed)) .enter → Fits s (address m) = true
  | .mintFails i => ¬Relocking m (s.pc i)
  | _ => True

instance (m : κ) (s : State κ ι) : ∀ e, Decidable (Served m s e)
  | .run i => inferInstanceAs (Decidable
      (∀ failed, s.pc i = .wait (.lock m (.cond failed)) .enter → Fits s (address m) = true))
  | .mintFails i => inferInstanceAs (Decidable (¬Relocking m (s.pc i)))
  | .call _ _ | .spurious _ => isTrue trivial

def Allowed (m : κ) (s : State κ ι) (e : Event κ ι) : Prop := Mutex.Only m s e ∧ Served m s e

instance (m : κ) (s : State κ ι) (e : Event κ ι) : Decidable (Allowed m s e) :=
  inferInstanceAs (Decidable (_ ∧ _))

/-- No tid, with or without WAITERS, is the destroyed sentinel. -/
def Live (T : Threads ι) : Prop := ∀ i, T.tid i ≠ destroyed ∧ T.tid i ||| T.waiters ≠ destroyed

instance [Fintype ι] (T : Threads ι) : Decidable (Live T) :=
  inferInstanceAs (Decidable (∀ i, T.tid i ≠ destroyed ∧ T.tid i ||| T.waiters ≠ destroyed))

structure Invariant (T : Threads ι) (m : κ) (s : State κ ι) : Prop extends Mutex.Invariant T m s where
  word : s.owner m = 0 ∨ ∃ j, s.owner m = T.tid j ∨ s.owner m = T.tid j ||| T.waiters
  marks : ∀ j k val, s.pc j = .lock m k (.mark val) → T.tidOf val ≠ 0

/-- The owner word has one of its three shapes and marks are of a held mutex. -/
structure Shaped (T : Threads ι) (m : κ) (i : ι) (t : State κ ι) : Prop where
  word : t.owner m = 0 ∨ ∃ j, t.owner m = T.tid j ∨ t.owner m = T.tid j ||| T.waiters
  marks : ∀ k val, t.pc i = .lock m k (.mark val) → T.tidOf val ≠ 0

omit [DecidableEq κ] in
theorem Shaped.of_not_inside (invariant : Invariant T m s) (owner : t.owner m = s.owner m)
    (outside : ¬(t.pc i).Inside m) : Shaped T m i t where
  word := by rw [owner]; exact invariant.word
  marks k val counter := absurd (by simp [counter,Pc.Inside]) outside

theorem lockStep_shaped [DecidableEq ι] (invariant : Invariant T m s) (counter : s.pc i = .lock m k p) :
    Shaped T m i (lockStep T s i m k p) := by
  have back : ∀ errno ok, ¬(lockReturn errno ok k : Next κ).pc.Inside m := fun errno ok => by
    cases k <;> simp [lockReturn,Next.pc,Pc.Inside]
  cases p with
  | check =>
    simp only [lockStep]
    split
    · exact .of_not_inside invariant rfl (by simpa using back _ _)
    · exact .of_not_inside invariant rfl (by simp [Pc.Inside])
  | load =>
    simp only [lockStep]
    split_ifs with free named flagged
    · exact ⟨invariant.word,by simp⟩
    · exact ⟨invariant.word,by simp⟩
    · exact ⟨invariant.word,by simp⟩
    · refine ⟨invariant.word,fun k' val at_ => ?_⟩
      obtain ⟨-,rfl⟩ : k = k' ∧ s.owner m = val := by simpa using at_
      exact free
  | take val =>
    simp only [lockStep,acquired]
    split_ifs with unchanged
    · have free : T.tidOf val = 0 := by
        have local_ := invariant.locals i
        rw [counter] at local_
        exact local_ rfl
      have zero : val = 0 := by
        rcases unchanged ▸ invariant.word with zero | ⟨j,named | marked⟩
        · exact zero
        · exact absurd (by simpa [named] using free) (T.nonzero j)
        · exact absurd (by simpa [marked] using free) (T.nonzero j)
      refine ⟨.inr ⟨i,.inl (by simp [zero])⟩,fun k' val' at_ => ?_⟩
      exact absurd (by simpa using at_) (fun h => back _ _ (by rw [h]; simp [Pc.Inside]))
    · exact .of_not_inside invariant rfl (by simp [Pc.Inside])
  | recLoad => exact ⟨invariant.word,by simp [lockStep]⟩
  | recStore c =>
    exact .of_not_inside invariant rfl (by simpa [lockStep,acquired] using back _ _)
  | mark val =>
    simp only [lockStep]
    split_ifs with unchanged
    · have held := invariant.marks i k val counter
      refine ⟨?_,by simp⟩
      rcases unchanged ▸ invariant.word with zero | ⟨j,named | marked⟩
      · exact absurd (by simp [zero]) held
      · exact .inr ⟨j,.inr (by simp [named])⟩
      · exact .inr ⟨j,.inr (by simp [marked,BitVec.or_assoc])⟩
    · exact .of_not_inside invariant rfl (by simp [Pc.Inside])

theorem unlockStep_shaped [DecidableEq ι] (invariant : Invariant T m s) :
    Shaped T m i (unlockStep T s i m k p) := by
  have back : ∀ errno ok k' val, (unlockReturn errno m ok k).pc ≠ .lock m k' (.mark val) :=
    fun errno ok k' val => by
    cases k <;> cases ok <;> simp [unlockReturn,Next.pc]
  cases p with
  | load =>
    simp only [unlockStep]
    split
    · exact ⟨invariant.word,fun k' val at_ => absurd (by simpa using at_) (back _ _ k' val)⟩
    · exact ⟨invariant.word,by simp⟩
  | test => exact ⟨invariant.word,by simp [unlockStep]⟩
  | decLoad => exact ⟨invariant.word,by simp [unlockStep]⟩
  | decStore c =>
    exact ⟨invariant.word,fun k' val at_ => absurd (by simpa [unlockStep,released] using at_) (back _ _ k' val)⟩
  | swap =>
    simp only [unlockStep,released]
    split
    · exact ⟨.inl (by simp),by simp⟩
    · exact ⟨.inl (by simp),fun k' val at_ => absurd (by simpa using at_) (back _ _ k' val)⟩

theorem Invariant.step [DecidableEq ι] (invariant : Invariant T m s) (only : Mutex.Only m s e)
    (taken : Sync.step T s e = some t) : Invariant T m t := by
  have frame := step_frame taken
  have shaped : Shaped T m e.thread t := by
    by_cases written : e.word s = some m
    · cases e with
      | run i =>
        change (s.pc i).word = some m at written
        change advance T s i = some t at taken
        have condvar := invariant.condvar i
        have semaphore := invariant.semaphore i
        have destroying := invariant.destroying i
        unfold advance at taken
        cases counter : s.pc i <;> rw [counter] at taken written condvar semaphore destroying
        case lock => cases written; cases taken; exact lockStep_shaped invariant counter
        case unlock => cases written; cases taken; exact unlockStep_shaped invariant
        all_goals simp_all [Pc.word,Pc.uses]
      | call i c => cases written
      | mintFails i => cases written
      | spurious i => cases written
    · exact .of_not_inside invariant (frame.owner m written) (step_not_inside taken written)
  refine ⟨invariant.toInvariant.step only taken,shaped.word,fun j k val at_ => ?_⟩
  by_cases own : j = e.thread
  · subst own; exact shaped.marks k val at_
  · rw [frame.pc j own] at at_
    exact invariant.marks j k val at_

omit [DecidableEq κ] in
theorem Invariant.initial {objects : κ → SyncT} (minted : ι → Bool) (owner : (objects m).owner = 0)
    (count : (objects m).count = 0) : Invariant T m (start objects minted) where
  toInvariant := .initial minted owner count
  word := .inl owner
  marks j k val at_ := by simp [start] at at_

omit [DecidableEq κ] in
theorem Invariant.not_destroyed (invariant : Invariant T m s) (live : Live T) : s.owner m ≠ destroyed := by
  rcases invariant.word with zero | ⟨j,named | marked⟩
  · rw [zero]; decide
  · rw [named]; exact (live j).1
  · rw [marked]; exact (live j).2

theorem Fits.served (fits : Fits s a = true) : (s.table.enter a .credit i).2 ≠ .full := by
  rw [Table.enter_outcome]
  unfold Fits at fits
  cases found : s.table.entry a with
  | none =>
    rw [found] at fits
    have room : s.table.room = true := fits
    simp [enterEntry,room]
  | some e =>
    rw [found] at fits
    simp only [enterEntry,parkEntry]
    rcases of_decide_eq_true fits with credit | short
    · simp [credit]
    · split_ifs <;> simp

theorem lockStep_returns [DecidableEq ι] (invariant : Invariant T m s) (live : Live T)
    (counter : s.pc i = .lock m (.cond failed) p)
    (returned : (lockStep T s i m (.cond failed) p).pc i = .idle) :
    T.tidOf ((lockStep T s i m (.cond failed) p).owner m) = T.tid i := by
  have local_ := invariant.locals i
  rw [counter] at local_
  cases p with
  | check => simp [lockStep,invariant.not_destroyed live] at returned
  | load =>
    simp only [lockStep] at returned
    split_ifs at returned <;> simp at returned
  | take val =>
    simp only [lockStep] at returned ⊢
    split_ifs at returned ⊢
    · simp [acquired]
    · simp at returned
  | recLoad => simp [lockStep] at returned
  | recStore c => simpa [lockStep,acquired] using (local_ rfl).1
  | mark val =>
    simp only [lockStep] at returned
    split_ifs at returned <;> simp at returned

/-- Whenever `SyncCondvarWait_r` returns after its unlock, its caller holds the mutex, in
every run whose closing locks are all served. -/
theorem returns_holding [DecidableEq ι] {objects : κ → SyncT} {minted : ι → Bool} (live : Live T)
    (run : Lts.Run (step T) (Allowed m) (start objects minted) es s)
    (mutex : type = .mutexFree ∨ type = .mutexNonrecursive)
    (created : syncTypeCreate_r type attr = .ok (objects m))
    (allowed : Allowed m s e) (taken : step T s e = some t)
    (relocking : Relocking m (s.pc e.thread)) (returned : t.pc e.thread = .idle) :
    T.tidOf (t.owner m) = T.tid e.thread := by
  have other : type ≠ .sem := by rcases mutex with rfl | rfl <;> simp
  have invariant : Invariant T m s := run.invariant (Invariant T m)
    (fun _ _ _ invariant allowed taken => invariant.step allowed.1 taken)
    (.initial minted (syncTypeCreate_r_owner created) (syncTypeCreate_r_count created other))
  cases e with
  | call i c =>
    simp only [step] at taken
    split at taken
    · rename_i idle
      rw [Event.thread,idle] at relocking
      exact relocking.elim
    · cases taken
  | mintFails i => exact absurd relocking allowed.2
  | spurious i =>
    simp only [step,spuriousStep] at taken
    split at taken
    · cases taken; simp [Event.thread] at returned
    · split at taken
      · cases taken; simp [Event.thread] at returned
      · cases taken
    · cases taken
  | run i =>
    change advance T s i = some t at taken
    simp only [Event.thread] at relocking returned ⊢
    unfold advance at taken
    cases counter : s.pc i <;> rw [counter] at taken relocking
    case lock m' k p =>
      cases k with
      | user => exact relocking.elim
      | cond failed =>
        obtain rfl : m' = m := relocking
        cases taken
        exact lockStep_returns invariant live counter returned
    case wait w p =>
      have addr : w.addr = address m ∧ ∃ failed, w = .lock m (.cond failed) := by
        cases w with
        | lock m' k =>
          cases k with
          | user => exact relocking.elim
          | cond failed => obtain rfl : m' = m := relocking; exact ⟨rfl,failed,rfl⟩
        | cond c m' seen => exact relocking.elim
        | sem o => exact relocking.elim
      obtain ⟨-,failed,rfl⟩ := addr
      cases p with
      | enter =>
        have served := Fits.served (i := i) (allowed.2 failed counter)
        cases taken
        simp only [waitEnter,WaitCall.addr,WaitCall.mode] at returned
        rw [show (⟨m,.owner⟩ : Addr κ) = address m from rfl] at returned
        split at returned
        · simp [waitReturn,Next.pc] at returned
        · simp at returned
        · rename_i full
          exact absurd full served
      | mint => cases taken; simp at returned
      | park => cases taken; simp at returned
      | blocked =>
        obtain ⟨result,-,rfl⟩ := Option.map_eq_some_iff.mp taken
        simp at returned
      | leave => cases taken; simp [waitReturn,Next.pc] at returned
    all_goals exact relocking.elim

def fresh : State (Fin 2) (Fin 6) := start (fun _ => ⟨0,0⟩) fun _ => true

/-- Thread `w` takes the mutex `m` and sleeps on the condvar `c`. -/
def toSleep (w : ι) (c m : κ) : List (Event κ ι) := List.flatten
  [[.call w (.mutexLock (some m))],Event.runs w 3,[.call w (.condvarWait (some c) (some m))],Event.runs w 7]

/-- Thread `a` signals and thread `w` runs up to the last access of its closing lock. -/
def uncontended (a w : ι) (c m : κ) : List (Event κ ι) := List.flatten
  [toSleep w c m,[.call a (.condvarSignal (some c) false)],Event.runs a 2,Event.runs w 4]

theorem returns_holding_uncontended : ∃ s t : State (Fin 2) (Fin 6),
    Lts.Run (step six) (Allowed 1) fresh (uncontended 0 5 0 1) s ∧ Relocking 1 (s.pc 5) ∧
    step six s (.run 5) = some t ∧ t.pc 5 = .idle ∧ t.ret 5 = some .zero ∧
    six.tidOf (t.owner 1) = six.tid 5 := by
  obtain ⟨s,run,allowed,relocking,last⟩ := Lts.Run.exists_of_replay (step six) (Allowed 1) fresh
    (uncontended 0 5 0 1)
    (fun s => Allowed 1 s (.run 5) ∧ Relocking 1 (s.pc 5) ∧
      ((step six s (.run 5)).any fun t => t.pc 5 = .idle ∧ t.ret 5 = some .zero) = true) (by decide +kernel)
  obtain ⟨t,taken,ended⟩ := (Option.any_eq_true _ _).mp last
  obtain ⟨returned,zero⟩ := of_decide_eq_true ended
  have created : syncTypeCreate_r .mutexFree none = .ok ⟨0,0⟩ := rfl
  exact ⟨s,t,run,relocking,taken,returned,zero,
    returns_holding (by decide) run (.inl rfl) created allowed taken relocking returned⟩

/-- Thread `a` takes the mutex, the threads `q` queue on it, the first of them sets WAITERS,
and thread `w` is signalled: with four in `q` its closing lock finds no place. -/
def crowded (a w : ι) (q : List ι) (c m : κ) : List (Event κ ι) := List.flatten
  [toSleep w c m,[.call a (.mutexLock (some m))],Event.runs a 3,
    (q.zipIdx.map fun (b,k) => .call b (.mutexLock (some m)) :: Event.runs b (if k = 0 then 6 else 5)).flatten,
    [.call a (.condvarSignal (some c) false)],Event.runs a 2,Event.runs w 5]

theorem returns_without_mutex : ∃ s t : State (Fin 2) (Fin 6),
    Lts.Run (step six) (Mutex.Only 1) fresh (crowded 0 5 [1,2,3,4] 0 1) s ∧ Relocking 1 (s.pc 5) ∧
    step six s (.run 5) = some t ∧ t.pc 5 = .idle ∧ t.ret 5 = some .zero ∧
    six.tidOf (t.owner 1) ≠ six.tid 5 := by
  obtain ⟨s,run,relocking,last⟩ := Lts.Run.exists_of_replay (step six) (Mutex.Only 1) fresh
    (crowded 0 5 [1,2,3,4] 0 1)
    (fun s => Relocking 1 (s.pc 5) ∧ ((step six s (.run 5)).any fun t =>
      t.pc 5 = .idle ∧ t.ret 5 = some .zero ∧ six.tidOf (t.owner 1) ≠ six.tid 5) = true) (by decide +kernel)
  obtain ⟨t,taken,ended⟩ := (Option.any_eq_true _ _).mp last
  exact ⟨s,t,run,relocking,taken,of_decide_eq_true ended⟩

end Qsoe.Sync.CondvarReturn
