import Mathlib.Data.Fintype.Basic
import Qsoe.Sync.Handoff

/-! Lost wakeups of `SyncMutexLock` and `SyncMutexUnlock` on one object. The releasing
exchange clears WAITERS for every waiter but wakes one, so a run in which two threads
are committed at that moment can strand one of them; without such a moment none is. -/
namespace Qsoe.Sync.MutexWake

variable {κ ι : Type} [DecidableEq κ] [DecidableEq ι] {T : Threads ι} {s t : State κ ι} {i j : ι} {m : κ}

def address (m : κ) : Addr κ := ⟨m,.owner⟩

/-- Only `SyncMutexLock` and `SyncMutexUnlock` are called, on `m`. -/
def Calls (m : κ) : Event κ ι → Prop
  | .call _ (.mutexLock (some m')) | .call _ (.mutexUnlock (some m')) => m' = m
  | .run _ | .mintFails _ => True
  | _ => False

instance (m : κ) : ∀ e : Event κ ι, Decidable (Calls m e)
  | .call _ (.mutexLock (some m')) | .call _ (.mutexUnlock (some m')) => inferInstanceAs (Decidable (m' = m))
  | .run _ | .mintFails _ => isTrue trivial
  | .spurious _ | .call _ (.mutexLock none) | .call _ (.mutexUnlock none) | .call _ (.condvarWait _ _)
  | .call _ (.condvarSignal _ _) | .call _ (.semPost _) | .call _ (.semWait _ _) | .call _ (.destroy _) =>
    isFalse id

/-- The mutex is free, no credit or signal is pending, every thread is idle or asleep, and
one is asleep. -/
structure Stranded (T : Threads ι) (m : κ) (s : State κ ι) : Prop where
  free : T.tidOf (s.owner m) = 0
  credit : s.table.credit (address m) = 0
  pending : ∀ j, Sleeps s j → (s.kernel.ntfn j).active = none
  rest : ∀ j, s.pc j = .idle ∨ Sleeps s j
  asleep : ∃ j, Sleeps s j

instance [Fintype ι] (T : Threads ι) (m : κ) (s : State κ ι) : Decidable (Stranded T m s) :=
  decidable_of_iff (T.tidOf (s.owner m) = 0 ∧ s.table.credit (address m) = 0 ∧
    (∀ j, Sleeps s j → (s.kernel.ntfn j).active = none) ∧ (∀ j, s.pc j = .idle ∨ Sleeps s j) ∧ ∃ j, Sleeps s j)
    ⟨fun ⟨free,credit,pending,rest,asleep⟩ => ⟨free,credit,pending,rest,asleep⟩,
      fun ⟨free,credit,pending,rest,asleep⟩ => ⟨free,credit,pending,rest,asleep⟩⟩

def OneWaiter (T : Threads ι) (m : κ) (s : State κ ι) : Event κ ι → Prop
  | .run i => s.pc i = .unlock m .user .swap → T.Flagged (s.owner m) →
    ∀ j k, Committed (address m) s j → Committed (address m) s k → j = k
  | _ => True

instance [Fintype ι] (T : Threads ι) (m : κ) (s : State κ ι) : ∀ e, Decidable (OneWaiter T m s e)
  | .run i => inferInstanceAs (Decidable (s.pc i = .unlock m .user .swap → T.Flagged (s.owner m) →
    ∀ j k, Committed (address m) s j → Committed (address m) s k → j = k))
  | .call _ _ | .mintFails _ | .spurious _ => isTrue trivial

/-- A run of the two calls on `m` that meets the condition above at every step. -/
def Allowed (T : Threads ι) (m : κ) (s : State κ ι) (e : Event κ ι) : Prop := Calls m e ∧ OneWaiter T m s e

instance [Fintype ι] (T : Threads ι) (m : κ) (s : State κ ι) (e : Event κ ι) : Decidable (Allowed T m s e) :=
  inferInstanceAs (Decidable (_ ∧ _))

def Confined (m : κ) : Pc κ → Prop
  | .idle => True
  | .lock m' k _ => m' = m ∧ k = .user
  | .unlock m' k _ => m' = m ∧ k = .user
  | .wait w _ => w = .lock m .user
  | .wake w => w = .unlock m .user
  | _ => False

structure Invariant (T : Threads ι) (m : κ) (s : State κ ι) : Prop where
  parking : Parking s
  confined : ∀ j, Confined m (s.pc j)
  alone : ∀ b, b ≠ address m → s.table.entry b = none
  named : T.Flagged (s.owner m) → T.tidOf (s.owner m) ≠ 0
  marks : ∀ j val, s.pc j = .lock m .user (.mark val) → T.tidOf val ≠ 0
  one : ¬T.Flagged (s.owner m) → ∀ j k, Committed (address m) s j → Committed (address m) s k → j = k
  owed : ¬T.Flagged (s.owner m) → ∀ j, Committed (address m) s j → Pending (address m) s

structure Owner (T : Threads ι) (m : κ) (s : State κ ι) (i : ι) (t : State κ ι) : Prop where
  confined : Confined m (t.pc i)
  named : T.Flagged (t.owner m) → T.tidOf (t.owner m) ≠ 0
  marks : ∀ val, t.pc i = .lock m .user (.mark val) → T.tidOf val ≠ 0
  cleared : T.Flagged (s.owner m) → ¬T.Flagged (t.owner m) →
    s.pc i = .unlock m .user .swap ∧ t.pc i = .wake (.unlock m .user)
  marked : ∀ w, t.pc i = .wait w .mint → T.Flagged (t.owner m)

omit [DecidableEq ι] in
theorem Owner.same (invariant : Invariant T m s) (owner : t.owner m = s.owner m) (confined : Confined m (t.pc i))
    (marks : ∀ val, t.pc i = .lock m .user (.mark val) → T.tidOf val ≠ 0)
    (marked : ∀ w, t.pc i = .wait w .mint → T.Flagged (s.owner m)) : Owner T m s i t where
  confined := confined
  named := by rw [owner]; exact invariant.named
  marks := marks
  cleared flagged clear := absurd (owner ▸ flagged) clear
  marked := by rw [owner]; exact marked

theorem lockStep_owner (invariant : Invariant T m s) (counter : s.pc i = .lock m .user p) :
    Owner T m s i (lockStep T s i m .user p) := by
  cases p with
  | check =>
    simp only [lockStep]
    split <;> exact .same invariant rfl (by simp [Confined,lockReturn,Next.pc]) (by simp [lockReturn,Next.pc])
      (by simp [lockReturn,Next.pc])
  | load =>
    simp only [lockStep]
    split_ifs with free named flagged
    · exact .same invariant rfl (by simp [Confined]) (by simp) (by simp)
    · exact .same invariant rfl (by simp [Confined]) (by simp) (by simp)
    · exact .same invariant rfl (by simp [Confined]) (by simp) fun _ _ => flagged
    · refine .same invariant rfl (by simp [Confined]) (fun val at_ => ?_) (by simp)
      obtain rfl : s.owner m = val := by simpa using at_
      exact free
  | take val =>
    simp only [lockStep,acquired]
    split_ifs with unchanged
    · refine ⟨by simp [Confined,lockReturn,Next.pc],fun _ => by simpa using T.nonzero i,
        by simp [lockReturn,Next.pc],fun flagged clear => ?_,by simp [lockReturn,Next.pc]⟩
      exact absurd (by simpa [← unchanged] using flagged) clear
    · exact .same invariant rfl (by simp [Confined]) (by simp) (by simp)
  | recLoad => exact .same invariant rfl (by simp [lockStep,Confined]) (by simp [lockStep]) (by simp [lockStep])
  | recStore c =>
    exact .same invariant rfl (by simp [lockStep,acquired,Confined,lockReturn,Next.pc])
      (by simp [lockStep,acquired,lockReturn,Next.pc]) (by simp [lockStep,acquired,lockReturn,Next.pc])
  | mark val =>
    simp only [lockStep]
    split_ifs
    · refine ⟨by simp [Confined],fun _ => ?_,by simp,fun _ clear => ?_,fun _ _ => by simp⟩
      · simpa using invariant.marks i val counter
      · exact absurd (by simp) clear
    · exact .same invariant rfl (by simp [Confined]) (by simp) (by simp)

theorem unlockStep_owner (invariant : Invariant T m s) (counter : s.pc i = .unlock m .user p) :
    Owner T m s i (unlockStep T s i m .user p) := by
  cases p with
  | load =>
    simp only [unlockStep]
    split <;> exact .same invariant rfl (by simp [Confined,unlockReturn,Next.pc])
      (by simp [unlockReturn,Next.pc]) (by simp [unlockReturn,Next.pc])
  | test =>
    simp only [unlockStep]
    split <;> exact .same invariant rfl (by simp [Confined]) (by simp) (by simp)
  | decLoad =>
    exact .same invariant rfl (by simp [unlockStep,Confined]) (by simp [unlockStep]) (by simp [unlockStep])
  | decStore c =>
    exact .same invariant rfl (by simp [unlockStep,released,Confined,unlockReturn,Next.pc])
      (by simp [unlockStep,released,unlockReturn,Next.pc]) (by simp [unlockStep,released,unlockReturn,Next.pc])
  | swap =>
    simp only [unlockStep,released]
    split_ifs with flagged
    · exact ⟨by simp [Confined],by simp,by simp,fun _ _ => ⟨counter,by simp⟩,by simp⟩
    · exact ⟨by simp [Confined,unlockReturn,Next.pc],by simp,by simp [unlockReturn,Next.pc],
        fun was _ => absurd was flagged,by simp [unlockReturn,Next.pc]⟩

theorem waitStep_owner (invariant : Invariant T m s) (taken : waitStep s i (.lock m .user) p = some t) :
    Owner T m s i t := by
  have owner := (Frame.waitStep taken).owner m (by simp)
  cases p with
  | mint => cases taken; exact .same invariant owner (by simp [Confined]) (by simp) (by simp)
  | enter =>
    cases taken
    revert owner
    simp only [waitEnter]
    split
    all_goals
      intro owner
      exact .same invariant owner (by simp [Confined,waitReturn,lockReturn,Next.pc])
        (by simp [waitReturn,lockReturn,Next.pc]) (by simp [waitReturn,lockReturn,Next.pc])
  | park =>
    cases taken
    refine .same invariant owner (by simp [Confined]) (by simp) ?_
    split <;> simp
  | blocked =>
    obtain ⟨result,-,rfl⟩ := Option.map_eq_some_iff.mp taken
    exact .same invariant owner (by simp [Confined]) (by simp) (by simp)
  | leave =>
    cases taken
    exact .same invariant owner (by simp [Confined,waitReturn,Next.pc]) (by simp [waitReturn,Next.pc])
      (by simp [waitReturn,Next.pc])

theorem step_owner (invariant : Invariant T m s) (calls : Calls m e) (taken : step T s e = some t) :
    Owner T m s e.thread t := by
  cases e with
  | call i c =>
    simp only [step] at taken
    split at taken
    · cases taken
      unfold Calls at calls
      split at calls
      · rename_i call
        cases call
        exact .same invariant rfl (by simp [Event.thread,callStep,Confined,calls]) (by simp [Event.thread,callStep])
          (by simp [Event.thread,callStep])
      · rename_i call
        cases call
        exact .same invariant rfl (by simp [Event.thread,callStep,Confined,calls]) (by simp [Event.thread,callStep])
          (by simp [Event.thread,callStep])
      all_goals first
        | exact calls.elim
        | rename_i call; cases call
    · cases taken
  | run i =>
    change advance T s i = some t at taken
    have confined := invariant.confined i
    unfold advance at taken
    cases counter : s.pc i <;> rw [counter] at taken confined
    case idle => cases taken
    case lock => obtain ⟨rfl,rfl⟩ := confined; cases taken; exact lockStep_owner invariant counter
    case unlock => obtain ⟨rfl,rfl⟩ := confined; cases taken; exact unlockStep_owner invariant counter
    case wait => obtain rfl := confined; exact waitStep_owner invariant taken
    case wake =>
      obtain rfl := confined
      cases taken
      have owner := (Frame.wakeStep (s := s) (i := i) (w := .unlock m .user)).owner m (by simp)
      revert owner
      simp only [wakeStep]
      split
      all_goals
        intro owner
        exact .same invariant owner (by simp [Event.thread,Confined,wakeReturn,unlockReturn,Next.pc])
          (by simp [Event.thread,wakeReturn,unlockReturn,Next.pc])
          (by simp [Event.thread,wakeReturn,unlockReturn,Next.pc])
    all_goals exact confined.elim
  | mintFails i =>
    have confined := invariant.confined i
    simp only [step,mintFailsStep] at taken
    split at taken
    · rename_i counter
      rw [counter] at confined
      obtain rfl := confined
      split at taken
      · cases taken
      · cases taken
        exact .same invariant rfl (by simp [Event.thread,Confined,waitReturn,lockReturn,Next.pc])
          (by simp [Event.thread,waitReturn,lockReturn,Next.pc])
          (by simp [Event.thread,waitReturn,lockReturn,Next.pc])
    · cases taken
  | spurious i => exact calls.elim

omit [DecidableEq ι] in
theorem entry_address (invariant : Invariant T m s) (e : Event κ ι) (other : b ≠ address m) :
    e.entry s ≠ some b := by
  cases e with
  | run i =>
    have confined := invariant.confined i
    simp only [Event.entry]
    cases counter : s.pc i <;> rw [counter] at confined
    case wait w p =>
      obtain rfl := confined
      cases p
      case enter => exact fun same => other (Option.some.inj same).symm
      case leave => exact fun same => other (Option.some.inj same).symm
      all_goals simp [Pc.entry]
    case wake w =>
      obtain rfl := confined
      exact fun same => other (Option.some.inj same).symm
    all_goals simp [Pc.entry]
  | call i c => simp [Event.entry]
  | mintFails i => simp [Event.entry]
  | spurious i => simp [Event.entry]

theorem Invariant.step (invariant : Invariant T m s) (allowed : Allowed T m s e)
    (taken : Sync.step T s e = some t) : Invariant T m t := by
  obtain ⟨calls,one⟩ := allowed
  have genuine : e ≠ .spurious e.thread := by
    intro spurious
    rw [spurious] at calls
    exact calls
  have frame := step_frame taken
  have owner := step_owner invariant calls taken
  have moves := step_moves taken genuine
  have earlier (clear : ¬T.Flagged (t.owner m)) (j : ι) (committed : Committed (address m) t j) :
      Committed (address m) s j := by
    rcases committed_step moves frame.pc committed with before | ⟨-,w,-,entered⟩
    · exact before
    · exact absurd (owner.marked w entered) clear
  refine ⟨invariant.parking.step taken genuine,fun j => ?_,fun b other => ?_,owner.named,fun j val at_ => ?_,
    fun clear j k first second => ?_,fun clear j committed => ?_⟩
  · by_cases own : j = e.thread
    · rw [own]; exact owner.confined
    · rw [frame.pc j own]; exact invariant.confined j
  · rw [frame.entry b (entry_address invariant e other)]
    exact invariant.alone b other
  · by_cases own : j = e.thread
    · subst own; exact owner.marks val at_
    · rw [frame.pc j own] at at_
      exact invariant.marks j val at_
  · have first := earlier clear j first
    have second := earlier clear k second
    by_cases flagged : T.Flagged (s.owner m)
    · obtain ⟨swap,waking⟩ := owner.cleared flagged clear
      cases e with
      | run i => exact one swap flagged j k first second
      | call i c => simp [Event.thread,Sync.step] at swap taken; simp [swap] at taken
      | mintFails i => simp [Event.thread,Sync.step,mintFailsStep] at swap taken; simp [swap] at taken
      | spurious i => exact calls.elim
    · exact invariant.one flagged j k first second
  · by_cases flagged : T.Flagged (s.owner m)
    · obtain ⟨-,waking⟩ := owner.cleared flagged clear
      exact .inr ⟨e.thread,_,waking,rfl⟩
    · have before := earlier clear j committed
      have absorbing : ∀ w, s.pc e.thread = .wake w → w.addr = address m → w.mode = .absorb := by
        intro w counter _
        have confined := invariant.confined e.thread
        rw [counter] at confined
        obtain rfl := confined
        rfl
      rcases pending_step invariant.parking moves frame.pc (Table.room_of_alone _ invariant.alone) absorbing
        (invariant.owed flagged j before) with pending | ⟨k,waited,gone,-⟩
      · exact pending
      · obtain rfl := invariant.one flagged k j waited before
        exact absurd committed gone

omit [DecidableEq ι] in
theorem Invariant.initial {objects : κ → SyncT} (minted : ι → Bool) (created : (objects m).owner = 0) :
    Invariant T m (start objects minted) where
  parking := .initial objects minted
  confined j := trivial
  alone b _ := by simp [start]
  named flagged := by simp [start,created] at flagged
  marks j val at_ := by simp [start] at at_
  one _ j k committed := by simp [start,Committed] at committed
  owed _ j committed := by simp [start,Committed] at committed

omit [DecidableEq ι] in
theorem Invariant.not_stranded (invariant : Invariant T m s) : ¬Stranded T m s := by
  intro stranded
  have clear : ¬T.Flagged (s.owner m) := fun flagged => invariant.named flagged stranded.free
  obtain ⟨j,sleeps⟩ := stranded.asleep
  obtain ⟨w,counter,committed⟩ := sleeps.committed invariant.parking
  have confined := invariant.confined j
  rw [counter] at confined
  obtain rfl := confined
  rcases invariant.owed clear j committed with stored | ⟨k,w,waking,-⟩
  · exact absurd stranded.credit (Nat.pos_iff_ne_zero.mp stored)
  · rcases stranded.rest k with idle | ⟨⟨v,blocked⟩,-⟩
    · rw [waking] at idle; cases idle
    · rw [waking] at blocked; cases blocked

/-- Lock and unlock on one mutex strand nobody as long as no releasing exchange clears
WAITERS for two committed threads. -/
theorem no_lost_wakeup {objects : κ → SyncT} {minted : ι → Bool}
    (run : Lts.Run (step T) (Allowed T m) (start objects minted) es s)
    (created : syncTypeCreate_r type attr = .ok (objects m)) : ¬Stranded T m s :=
  (run.invariant (Invariant T m) (fun _ _ _ invariant allowed taken => invariant.step allowed taken)
    (.initial minted (syncTypeCreate_r_owner created))).not_stranded

/-- Thread `b` sleeps on the mutex of thread `a` and takes it over after the unlock. -/
def handover (a b : ι) (m : κ) : List (Event κ ι) := List.flatten
  [[.call a (.mutexLock (some m))],Event.runs a 3,[.call b (.mutexLock (some m))],Event.runs b 6,
    [.call a (.mutexUnlock (some m))],Event.runs a 4,Event.runs b 4]

theorem no_lost_wakeup_handover : ∃ s : State (Fin 1) (Fin 3),
    Lts.Run (step three) (Allowed three 0) (start (fun _ => ⟨0,0⟩) fun _ => true) (handover 0 1 0) s ∧
    s.depth 1 0 = 1 ∧ ¬Stranded three 0 s := by
  obtain ⟨s,run,taken⟩ := Lts.Run.exists_of_replay (step three) (Allowed three 0)
    (start (fun _ => ⟨0,0⟩) fun _ => true) (handover 0 1 (0 : Fin 1)) (fun s => s.depth 1 0 = 1) (by decide +kernel)
  have created : syncTypeCreate_r .mutexFree none = .ok ⟨0,0⟩ := rfl
  exact ⟨s,run,taken,no_lost_wakeup run created⟩

/-- Threads `b` and `c` sleep on the mutex of thread `a`; its unlock clears WAITERS and wakes
thread `b`, whose own unlock then wakes nobody. -/
def stranding (a b c : ι) (m : κ) : List (Event κ ι) := List.flatten
  [[.call a (.mutexLock (some m))],Event.runs a 3,[.call b (.mutexLock (some m))],Event.runs b 6,
    [.call c (.mutexLock (some m))],Event.runs c 5,[.call a (.mutexUnlock (some m))],Event.runs a 4,
    Event.runs b 4,[.call b (.mutexUnlock (some m))],Event.runs b 3]

theorem third_thread_stranded : ∃ s : State (Fin 1) (Fin 3),
    Lts.Run (step three) (fun _ e => Calls 0 e) (start (fun _ => ⟨0,0⟩) fun _ => true) (stranding 0 1 2 0) s ∧
    Stranded three 0 s :=
  Lts.Run.exists_of_replay (step three) (fun _ e => Calls 0 e)
    (start (fun _ => ⟨0,0⟩) fun _ => true) (stranding 0 1 2 (0 : Fin 1)) (Stranded three 0) (by decide +kernel)

end Qsoe.Sync.MutexWake
