import Mathlib.Data.Fintype.Basic
import Qsoe.Sync.Handoff

/-! The unlock-to-park window of `SyncCondvarWait_r`. The generation in the table entry
must stay in step with `cond->count`, but the entry is created at generation 0 and a
wake that finds no entry leaves no trace. A waiter that sampled 0 can therefore miss a
signal; the conditions below exclude exactly the wakes and samples that go unrecorded. -/
namespace Qsoe.Sync.Condvar

variable {κ ι : Type} [DecidableEq κ] [DecidableEq ι] {T : Threads ι} {s t : State κ ι} {i j : ι} {c m : κ}

def address (c : κ) : Addr κ := ⟨c,.count⟩

/-- The thread has read `cond->count` as `seen` and has not run its wait section yet. -/
def Sampled (c : κ) (seen : Int) : Pc κ → Prop
  | .unlock _ (.cond c' seen') _ | .wake (.unlock _ (.cond c' seen')) | .wait (.cond c' _ seen') .mint
  | .wait (.cond c' _ seen') .enter => c' = c ∧ seen' = seen
  | _ => False

/-- The thread has incremented `cond->count` and has not run its wake section yet. -/
def InFlight (c : κ) : Pc κ → Prop
  | .wake (.signal c' _) => c' = c
  | _ => False

/-- The thread has unlocked the mutex in `SyncCondvarWait_r` and not run its wait section. -/
def Window (c m : κ) (seen : Int) (p : Pc κ) : Prop :=
  p = .wait (.cond c m seen) .mint ∨ p = .wait (.cond c m seen) .enter

instance (c : κ) (seen : Int) : ∀ p : Pc κ, Decidable (Sampled c seen p)
  | .unlock _ (.cond c' seen') _ | .wake (.unlock _ (.cond c' seen')) | .wait (.cond c' _ seen') .mint
  | .wait (.cond c' _ seen') .enter => inferInstanceAs (Decidable (c' = c ∧ seen' = seen))
  | .idle | .lock _ _ _ | .unlock _ .user _ | .wake (.unlock _ .user) | .wake (.post _) | .wake (.signal _ _)
  | .wait (.lock _ _) _ | .wait (.sem _) _ | .wait (.cond _ _ _) .park | .wait (.cond _ _ _) .blocked
  | .wait (.cond _ _ _) .leave | .condLoad _ _ | .signalAdd _ _ | .postAdd _ | .semLoad _ _ | .semTake _ _ _
  | .destroyCount _ | .destroyOwner _ => isFalse id

instance (c : κ) : ∀ p : Pc κ, Decidable (InFlight c p)
  | .wake (.signal c' _) => inferInstanceAs (Decidable (c' = c))
  | .idle | .lock _ _ _ | .unlock _ _ _ | .wake (.unlock _ _) | .wake (.post _) | .wait _ _ | .condLoad _ _
  | .signalAdd _ _ | .postAdd _ | .semLoad _ _ | .semTake _ _ _ | .destroyCount _ | .destroyOwner _ => isFalse id

instance (c m : κ) (seen : Int) (p : Pc κ) : Decidable (Window c m seen p) :=
  inferInstanceAs (Decidable (_ ∨ _))

/-- The object is used as a condvar only and Notification waits return when signalled. -/
def Only (c : κ) (e : Event κ ι) : Prop :=
  e.uses .mutex ≠ some c ∧ e.uses .semaphore ≠ some c ∧ e.uses .destroying ≠ some c ∧ e ≠ .spurious e.thread

/-- `cond->count` is read only while no signal is between its increment and its wake
section, and a wake section that runs while some thread holds a sample of 0 leaves a
waiter on the entry. -/
def Tracked (c : κ) (s : State κ ι) : Event κ ι → Prop
  | .run i =>
    match s.pc i with
    | .condLoad c' _ => c' = c → ∀ j, ¬InFlight c (s.pc j)
    | .wake (.signal c' all) => c' = c → (∃ j, Sampled c 0 (s.pc j)) →
        wakeLimit (WakeCall.signal c all).maxN < (s.table.waiters (address c)).length
    | _ => True
  | _ => True

def Allowed (c : κ) (s : State κ ι) (e : Event κ ι) : Prop := Only c e ∧ Tracked c s e

instance (c : κ) (e : Event κ ι) : Decidable (Only c e) := inferInstanceAs (Decidable (_ ∧ _ ∧ _ ∧ _))

instance [Fintype ι] (c : κ) (s : State κ ι) : ∀ e, Decidable (Tracked c s e)
  | .run i =>
    match counter : s.pc i with
    | .condLoad c' _ => decidable_of_iff (c' = c → ∀ j, ¬InFlight c (s.pc j)) (by simp [Tracked,counter])
    | .wake (.signal c' all) =>
      decidable_of_iff (c' = c → (∃ j, Sampled c 0 (s.pc j)) →
        wakeLimit (WakeCall.signal c all).maxN < (s.table.waiters (address c)).length)
        (by simp [Tracked,counter])
    | .idle | .lock _ _ _ | .unlock _ _ _ | .wake (.unlock _ _) | .wake (.post _) | .wait _ _ | .signalAdd _ _
    | .postAdd _ | .semLoad _ _ | .semTake _ _ _ | .destroyCount _ | .destroyOwner _ =>
      isTrue (by simp [Tracked,counter])
  | .call _ _ | .mintFails _ | .spurious _ => isTrue trivial

instance [Fintype ι] (c : κ) (s : State κ ι) (e : Event κ ι) : Decidable (Allowed c s e) :=
  inferInstanceAs (Decidable (_ ∧ _))

/-- A step as the condvar `c` sees it. -/
inductive Steps (c : κ) (s : State κ ι) (i : ι) (t : State κ ι) : Prop where
  | other (count : t.count c = s.count c) (entry : t.table.entry (address c) = s.table.entry (address c))
      (sampled : ∀ seen, Sampled c seen (t.pc i) → Sampled c seen (s.pc i))
      (before : ¬InFlight c (s.pc i)) (after : ¬InFlight c (t.pc i))
  | sample (m : κ) (count : t.count c = s.count c) (entry : t.table.entry (address c) = s.table.entry (address c))
      (before : s.pc i = .condLoad c m) (after : t.pc i = .unlock m (.cond c (s.count c)) .load)
  | add (all : Bool) (count : t.count c = s.count c + 1)
      (entry : t.table.entry (address c) = s.table.entry (address c))
      (before : s.pc i = .signalAdd c all) (after : t.pc i = .wake (.signal c all))
  | wake (all : Bool) (count : t.count c = s.count c)
      (entry : t.table.entry (address c) =
        (wakeEntry (address c) s.table.room (WakeCall.signal c all).maxN .discard (s.table.entry (address c))).1)
      (before : s.pc i = .wake (.signal c all)) (after : t.pc i = .idle)
  | enter (m : κ) (seen : Int) (count : t.count c = s.count c)
      (entry : t.table.entry (address c) =
        (enterEntry (address c) s.table.room (.gen seen) i (s.table.entry (address c))).1)
      (before : s.pc i = .wait (.cond c m seen) .enter)
      (unsampled : ∀ seen, ¬Sampled c seen (t.pc i)) (after : ¬InFlight c (t.pc i))
  | leave (m : κ) (seen : Int) (count : t.count c = s.count c)
      (entry : t.table.entry (address c) = leaveEntry i (s.table.entry (address c)))
      (before : s.pc i = .wait (.cond c m seen) .leave)
      (unsampled : ∀ seen, ¬Sampled c seen (t.pc i)) (after : ¬InFlight c (t.pc i))

theorem lockStep_pc (p : LockPhase) :
    (∀ c seen, ¬Sampled c seen ((lockStep T s i m k p).pc i)) ∧ ∀ c, ¬InFlight c ((lockStep T s i m k p).pc i) := by
  cases p <;> cases k <;> simp only [lockStep,acquired,lockReturn] <;> (try split_ifs) <;>
    simp [Sampled,InFlight,Next.pc]

section

omit [DecidableEq κ]

theorem unlockReturn_pc (p : UnlockPhase) (sampled : Sampled c seen (unlockReturn errno m ok k).pc) :
    Sampled c seen (.unlock m k p) := by
  cases k with
  | user => exact sampled.elim
  | cond c' seen' =>
    cases ok with
    | false => exact sampled.elim
    | true => exact sampled

theorem unlockReturn_not_inFlight : ¬InFlight c (unlockReturn errno m ok k).pc := by
  cases k with
  | user => exact id
  | cond c' seen' => cases ok <;> exact id

theorem sampled_unlock (p q : UnlockPhase) (sampled : Sampled c seen (.unlock m k q)) :
    Sampled c seen (.unlock m k p) := by
  cases k <;> exact sampled

theorem sampled_wake (p : UnlockPhase) (sampled : Sampled c seen (.wake (.unlock m k))) :
    Sampled c seen (.unlock m k p) := by
  cases k <;> exact sampled

end

theorem unlockStep_pc (p : UnlockPhase) :
    (∀ c seen, Sampled c seen ((unlockStep T s i m k p).pc i) → Sampled c seen (.unlock m k p)) ∧
    ∀ c, ¬InFlight c ((unlockStep T s i m k p).pc i) := by
  cases p with
  | load =>
    simp only [unlockStep]
    split_ifs
    · exact ⟨fun c seen sampled => unlockReturn_pc _ (by simpa using sampled),
        fun c => by simpa using unlockReturn_not_inFlight⟩
    · exact ⟨fun c seen sampled => sampled_unlock _ .test (by simpa using sampled),fun c => by simp [InFlight]⟩
  | test =>
    refine ⟨fun c seen sampled => ?_,fun c => by simp [unlockStep,InFlight]⟩
    simp only [unlockStep,State.setPc_pc,Function.update_self] at sampled
    exact sampled_unlock _ _ sampled
  | decLoad =>
    refine ⟨fun c seen sampled => ?_,fun c => by simp [unlockStep,InFlight]⟩
    simp only [unlockStep,State.setPc_pc,Function.update_self] at sampled
    exact sampled_unlock _ _ sampled
  | decStore d =>
    exact ⟨fun c seen sampled => unlockReturn_pc _ (by simpa [unlockStep,released] using sampled),
      fun c => by simpa [unlockStep,released] using unlockReturn_not_inFlight⟩
  | swap =>
    simp only [unlockStep,released]
    split_ifs
    · exact ⟨fun c seen sampled => sampled_wake _ (by simpa using sampled),fun c => by simp [InFlight]⟩
    · exact ⟨fun c seen sampled => unlockReturn_pc _ (by simpa using sampled),
        fun c => by simpa using unlockReturn_not_inFlight⟩

section

omit [DecidableEq κ]

theorem waitReturn_pc (c : κ) : (∀ seen, ¬Sampled c seen (waitReturn errno ok w).pc) ∧
    ¬InFlight c (waitReturn errno ok w).pc := by
  cases w with
  | lock m k => cases ok <;> cases k <;> simp [waitReturn,lockReturn,Next.pc,Sampled,InFlight]
  | cond c' m seen => simp [waitReturn,Next.pc,Sampled,InFlight]
  | sem o => cases ok <;> simp [waitReturn,Next.pc,Sampled,InFlight]

theorem wakeReturn_pc (sampled : Sampled c seen (wakeReturn errno ok w).pc) : Sampled c seen (.wake w) := by
  cases w with
  | unlock m k =>
    have before := unlockReturn_pc .swap (show Sampled c seen (unlockReturn errno m ok k).pc from sampled)
    cases k <;> exact before
  | post o => exact sampled.elim
  | signal c' all => exact sampled.elim

theorem wakeReturn_not_inFlight : ¬InFlight c (wakeReturn errno ok w).pc := by
  cases w with
  | unlock m k => exact unlockReturn_not_inFlight
  | post o => exact id
  | signal c' all => exact id

theorem waitAddr_eq (addr : w.addr = address c) (semaphore : (Pc.wait w p).uses .semaphore ≠ some c) :
    ∃ m seen, w = .cond c m seen := by
  cases w with
  | lock m k => cases addr
  | cond c' m seen => cases addr; exact ⟨m,seen,rfl⟩
  | sem o => cases addr; exact absurd rfl semaphore

theorem wakeAddr_eq (addr : w.addr = address c) (semaphore : (Pc.wake w).uses .semaphore ≠ some c) :
    ∃ all, w = .signal c all := by
  cases w with
  | unlock m k => cases addr
  | post o => cases addr; exact absurd rfl semaphore
  | signal c' all => cases addr; exact ⟨all,rfl⟩

end

theorem waitStep_steps (semaphore : (s.pc i).uses .semaphore ≠ some c) (counter : s.pc i = .wait w p)
    (taken : waitStep s i w p = some t) : Steps c s i t := by
  have frame := Frame.waitStep taken
  have count := frame.count c (by simp)
  rw [counter] at semaphore
  have before : ¬InFlight c (s.pc i) := by simp [counter,InFlight]
  cases p with
  | mint =>
    cases taken
    refine .other count (frame.entry _ (by simp [Pc.entry])) (fun seen sampled => ?_) before (by simp [InFlight])
    rw [counter]
    simp only [State.setPc_pc,Function.update_self] at sampled
    cases w <;> exact sampled
  | enter =>
    have next : t.pc i = enterNext s i w := by
      cases waitStep_moves counter taken <;> simp_all
    have unsampled : (∀ seen, ¬Sampled c seen (t.pc i)) ∧ ¬InFlight c (t.pc i) := by
      rw [next,enterNext]
      split
      · exact waitReturn_pc c
      · exact ⟨fun seen sampled => by cases w <;> exact sampled,id⟩
      · exact waitReturn_pc c
    by_cases addr : w.addr = address c
    · obtain ⟨m,seen,rfl⟩ := waitAddr_eq addr semaphore
      refine .enter m seen count ?_ counter unsampled.1 unsampled.2
      have table : t.table = (s.table.enter (address c) (.gen seen) i).1 := by
        cases waitStep_moves counter taken <;> simp_all [WaitCall.addr,WaitCall.mode,address]
      rw [table,Table.entry_enter,if_pos rfl]
    · exact .other count (frame.entry _ (by simpa [Pc.entry] using addr))
        (fun seen sampled => absurd sampled (unsampled.1 seen)) before unsampled.2
  | park =>
    cases taken
    refine .other count (frame.entry _ (by simp [Pc.entry])) (fun seen sampled => ?_) before (by simp [InFlight])
    simp only [State.setPc_pc,Function.update_self] at sampled
    split_ifs at sampled <;> cases w <;> exact sampled.elim
  | blocked =>
    obtain ⟨result,-,rfl⟩ := Option.map_eq_some_iff.mp taken
    refine .other count (frame.entry _ (by simp [Pc.entry])) (fun seen sampled => ?_) before (by simp [InFlight])
    simp only [State.setPc_pc,Function.update_self] at sampled
    cases w <;> exact sampled.elim
  | leave =>
    cases taken
    by_cases addr : w.addr = address c
    · obtain ⟨m,seen,rfl⟩ := waitAddr_eq addr semaphore
      exact .leave m seen count (by simp [Table.entry_leave,WaitCall.addr,address]) counter
        (by simpa using (waitReturn_pc c).1) (by simpa using (waitReturn_pc c).2)
    · exact .other count (frame.entry _ (by simpa [Pc.entry] using addr))
        (fun seen sampled => absurd (by simpa using sampled) ((waitReturn_pc c).1 seen)) before
        (by simpa using (waitReturn_pc c).2)

theorem wakeStep_steps (semaphore : (s.pc i).uses .semaphore ≠ some c) (counter : s.pc i = .wake w) :
    Steps c s i (wakeStep s i w) := by
  have frame : Frame none (some w.addr) i s (wakeStep s i w) := .wakeStep
  have count := frame.count c (by simp)
  rw [counter] at semaphore
  have next : ∃ errno ok, (wakeStep s i w).pc i = (wakeReturn errno ok w).pc := by
    simp only [wakeStep]
    split
    · exact ⟨s.errno i,true,by simp⟩
    · exact ⟨some .enomem,false,by simp⟩
  obtain ⟨errno,ok,next⟩ := next
  by_cases addr : w.addr = address c
  · obtain ⟨all,rfl⟩ := wakeAddr_eq addr semaphore
    refine .wake all count ?_ counter (by rw [next]; rfl)
    have table : (wakeStep s i (.signal c all)).table =
        (s.table.wake (address c) (WakeCall.signal c all).maxN .discard).1 := by
      simp only [wakeStep]
      split <;> rfl
    rw [table,Table.entry_wake,if_pos rfl]
  · refine .other count (frame.entry _ (by simpa using addr)) (fun seen sampled => ?_) ?_ ?_
    · rw [next] at sampled
      rw [counter]
      exact wakeReturn_pc sampled
    · rw [counter]
      cases w with
      | signal c' all => rintro rfl; exact addr rfl
      | unlock m k => exact id
      | post o => exact id
    · rw [next]
      exact wakeReturn_not_inFlight

theorem postStep_pc : (∀ c seen, ¬Sampled c seen ((postStep s i o).pc i)) ∧
    ∀ c, ¬InFlight c ((postStep s i o).pc i) := by
  simp only [postStep]
  split <;> simp [Sampled,InFlight]

omit [DecidableEq κ] in
theorem semLoadStep_pc (tryOnly : Bool) : (∀ c seen, ¬Sampled c seen ((semLoadStep s i o tryOnly).pc i)) ∧
    ∀ c, ¬InFlight c ((semLoadStep s i o tryOnly).pc i) := by
  simp only [semLoadStep]
  split_ifs <;> simp [Sampled,InFlight]

theorem semTakeStep_pc (tryOnly : Bool) (d : Int) :
    (∀ c seen, ¬Sampled c seen ((semTakeStep s i o tryOnly d).pc i)) ∧
    ∀ c, ¬InFlight c ((semTakeStep s i o tryOnly d).pc i) := by
  simp only [semTakeStep]
  split <;> simp [Sampled,InFlight]

theorem advance_steps (mutex : (s.pc i).uses .mutex ≠ some c) (semaphore : (s.pc i).uses .semaphore ≠ some c)
    (destroying : (s.pc i).uses .destroying ≠ some c) (taken : advance T s i = some t) : Steps c s i t := by
  have frame := Frame.advance taken
  have others (word : (s.pc i).word ≠ some c) (entry : (s.pc i).entry ≠ some (address c))
      (sampled : ∀ seen, Sampled c seen (t.pc i) → Sampled c seen (s.pc i))
      (before : ¬InFlight c (s.pc i)) (after : ¬InFlight c (t.pc i)) : Steps c s i t :=
    .other (frame.count c word) (frame.entry _ entry) sampled before after
  unfold advance at taken
  cases counter : s.pc i <;> rw [counter] at taken others
  case idle => cases taken
  case lock m k p =>
    cases taken
    rw [counter] at mutex
    obtain ⟨unsampled,after⟩ := lockStep_pc (T := T) (s := s) (i := i) (m := m) (k := k) p
    exact others (by simpa [Pc.word,Pc.uses] using mutex) (by simp [Pc.entry])
      (fun seen sampled => absurd sampled (unsampled c seen)) id (after c)
  case unlock m k p =>
    cases taken
    rw [counter] at mutex
    obtain ⟨sampled,after⟩ := unlockStep_pc (T := T) (s := s) (i := i) (m := m) (k := k) p
    exact others (by simpa [Pc.word,Pc.uses] using mutex) (by simp [Pc.entry]) (sampled c) id (after c)
  case wait => exact waitStep_steps semaphore counter taken
  case wake => cases taken; exact wakeStep_steps semaphore counter
  case condLoad c' m =>
    cases taken
    by_cases same : c' = c
    · subst same
      exact .sample m rfl rfl counter (by simp)
    · exact others (by simp [Pc.word]) (by simp [Pc.entry])
        (fun seen sampled => absurd (by simpa [Sampled] using sampled) (fun h : c' = c ∧ _ => same h.1)) id
        (by simp [InFlight])
  case signalAdd c' all =>
    cases taken
    by_cases same : c' = c
    · subst same
      exact .add all (by simp) rfl counter (by simp)
    · exact others (by simpa [Pc.word] using same) (by simp [Pc.entry]) (by simp [Sampled]) id
        (by simpa [InFlight] using same)
  case postAdd o =>
    cases taken
    rw [counter] at semaphore
    obtain ⟨unsampled,after⟩ := postStep_pc (s := s) (i := i) (o := o)
    exact others semaphore (by simp [Pc.entry]) (fun seen sampled => absurd sampled (unsampled c seen)) id (after c)
  case semLoad o tryOnly =>
    cases taken
    obtain ⟨unsampled,after⟩ := semLoadStep_pc (s := s) (i := i) (o := o) tryOnly
    exact others (by simp [Pc.word]) (by simp [Pc.entry])
      (fun seen sampled => absurd sampled (unsampled c seen)) id (after c)
  case semTake o tryOnly d =>
    cases taken
    rw [counter] at semaphore
    obtain ⟨unsampled,after⟩ := semTakeStep_pc (s := s) (i := i) (o := o) tryOnly d
    exact others semaphore (by simp [Pc.entry]) (fun seen sampled => absurd sampled (unsampled c seen)) id (after c)
  case destroyCount o =>
    cases taken
    rw [counter] at destroying
    exact others (by simpa [Pc.word,Pc.uses] using destroying) (by simp [Pc.entry]) (by simp [Sampled]) id
      (by simp [InFlight])
  case destroyOwner o =>
    cases taken
    rw [counter] at destroying
    exact others (by simpa [Pc.word,Pc.uses] using destroying) (by simp [Pc.entry]) (by simp [Sampled]) id
      (by simp [InFlight])

/-- The calls in progress use `c` as a condvar only. -/
structure Roles (c : κ) (s : State κ ι) : Prop where
  mutex : Unused .mutex c s
  semaphore : Unused .semaphore c s
  destroying : Unused .destroying c s

theorem step_steps (roles : Roles c s) (only : Only c e) (taken : step T s e = some t) :
    Steps c s e.thread t := by
  cases e with
  | call i call =>
    simp only [step] at taken
    split at taken
    · rename_i idle
      cases taken
      have frame : Frame none none i s (callStep s i call) := .callStep call
      refine .other (frame.count c (by simp)) (frame.entry _ (by simp)) (fun seen sampled => ?_)
        (by simp [Event.thread,idle,InFlight]) ?_
      · unfold callStep at sampled
        split at sampled <;> simp [Event.thread,Sampled] at sampled
      · unfold callStep
        split <;> simp [Event.thread,InFlight]
    · cases taken
  | run i => exact advance_steps (roles.mutex i) (roles.semaphore i) (roles.destroying i) taken
  | mintFails i =>
    simp only [step,mintFailsStep] at taken
    split at taken
    · rename_i counter
      split at taken
      · cases taken
      · cases taken
        exact .other rfl rfl
          (fun seen sampled => absurd (by simpa [Event.thread] using sampled) ((waitReturn_pc c).1 seen))
          (by simp [Event.thread,counter,InFlight]) (by simpa [Event.thread] using (waitReturn_pc c).2)
    · cases taken
  | spurious i => exact absurd rfl only.2.2.2

/-- After `d` wake sections: `count` is ahead of `d` by the signals in flight, the entry
carries generation `d`, and nobody has sampled the future. -/
structure Invariant (c : κ) (d : Int) (s : State κ ι) : Prop where
  roles : Roles c s
  parking : Parking s
  flight : ∃ fl : List ι, fl.Nodup ∧ (∀ j, j ∈ fl ↔ InFlight c (s.pc j)) ∧ s.count c = d + fl.length
  entry : ∀ e, s.table.entry (address c) = some e → e.gen = d ∧ e.credit = 0 ∧ e.waiters ≠ []
  samples : ∀ j seen, Sampled c seen (s.pc j) → seen ≤ d
  zero : ∀ j, Sampled c 0 (s.pc j) → s.table.entry (address c) = none → d = 0

section

omit [DecidableEq κ] [DecidableEq ι]

theorem settle_waiting {e : Entry κ ι} (waiting : e.waiters ≠ []) : settle e = some e := by
  rw [settle,if_neg]
  exact fun idle => waiting idle.1

theorem enterEntry_gen {a : Addr κ} (found : ∀ e, x = some e → e.waiters ≠ [])
    (entered : (enterEntry a room (.gen seen) i x).1 = some e) :
    (∃ f, x = some f ∧ e.gen = f.gen ∧ e.credit = f.credit ∧ e.waiters ≠ []) ∨
    x = none ∧ seen = 0 ∧ e.gen = 0 ∧ e.credit = 0 ∧ e.waiters ≠ [] := by
  cases x with
  | none =>
    simp only [enterEntry] at entered
    split_ifs at entered with nonzero room
    cases entered
    exact .inr ⟨rfl,not_not.mp nonzero,rfl,rfl,by simp⟩
  | some f =>
    have waiting := found f rfl
    simp only [enterEntry,parkEntry,settle_waiting waiting] at entered
    split_ifs at entered
    all_goals
      have same := Option.some.inj entered
      subst same
      exact .inl ⟨f,rfl,rfl,rfl,by simp [waiting]⟩

theorem enterEntry_ne_none {a : Addr κ} (found : ∀ e, x = some e → e.waiters ≠ [])
    (gone : (enterEntry a room (.gen seen) i x).1 = none) : x = none := by
  cases x with
  | none => rfl
  | some f =>
    simp only [enterEntry,parkEntry,settle_waiting (found f rfl)] at gone
    split_ifs at gone

end

namespace Invariant

/-- A step that neither writes `count` nor the entry, and samples nothing new. -/
theorem still (invariant : Invariant c d s) (roles : Roles c t) (parking : Parking t)
    (others : ∀ j, j ≠ i → t.pc j = s.pc j) (count : t.count c = s.count c)
    (entry : ∀ e, t.table.entry (address c) = some e → e.gen = d ∧ e.credit = 0 ∧ e.waiters ≠ [])
    (kept : t.table.entry (address c) = none → s.table.entry (address c) = none)
    (sampled : ∀ seen, Sampled c seen (t.pc i) → Sampled c seen (s.pc i))
    (before : ¬InFlight c (s.pc i)) (after : ¬InFlight c (t.pc i)) : Invariant c d t := by
  obtain ⟨fl,nodup,members,ahead⟩ := invariant.flight
  have earlier : ∀ j seen, Sampled c seen (t.pc j) → Sampled c seen (s.pc j) := by
    intro j seen
    by_cases own : j = i
    · subst own; exact sampled seen
    · rw [others j own]; exact id
  refine ⟨roles,parking,⟨fl,nodup,fun j => ?_,by rw [count]; exact ahead⟩,entry,
    fun j seen h => invariant.samples j seen (earlier j seen h),
    fun j h nothing => invariant.zero j (earlier j 0 h) (kept nothing)⟩
  rw [members j]
  by_cases own : j = i
  · subst own; exact iff_of_false before after
  · rw [others j own]

theorem sample (invariant : Invariant c d s) (roles : Roles c t) (parking : Parking t)
    (others : ∀ j, j ≠ i → t.pc j = s.pc j) (count : t.count c = s.count c)
    (entry : t.table.entry (address c) = s.table.entry (address c))
    (landed : ∀ j, ¬InFlight c (s.pc j)) (after : t.pc i = .unlock m (.cond c (s.count c)) .load) :
    Invariant c d t := by
  obtain ⟨fl,nodup,members,ahead⟩ := invariant.flight
  have level : s.count c = d := by
    have empty : fl = [] := List.eq_nil_iff_forall_not_mem.mpr fun j member => landed j ((members j).mp member)
    simpa [empty] using ahead
  have inFlight : ∀ j, InFlight c (t.pc j) ↔ InFlight c (s.pc j) := by
    intro j
    by_cases own : j = i
    · subst own
      exact iff_of_false (by simp [after,InFlight]) (landed j)
    · rw [others j own]
  refine ⟨roles,parking,⟨fl,nodup,fun j => (members j).trans (inFlight j).symm,by rw [count]; exact ahead⟩,
    by rw [entry]; exact invariant.entry,fun j seen sampled => ?_,fun j sampled nothing => ?_⟩
  · by_cases own : j = i
    · subst own
      rw [after] at sampled
      obtain ⟨-,rfl⟩ := sampled
      exact le_of_eq level
    · rw [others j own] at sampled
      exact invariant.samples j seen sampled
  · by_cases own : j = i
    · subst own
      rw [after] at sampled
      exact level.symm.trans sampled.2
    · rw [others j own] at sampled
      rw [entry] at nothing
      exact invariant.zero j sampled nothing

theorem add (invariant : Invariant c d s) (roles : Roles c t) (parking : Parking t)
    (others : ∀ j, j ≠ i → t.pc j = s.pc j) (count : t.count c = s.count c + 1)
    (entry : t.table.entry (address c) = s.table.entry (address c))
    (before : s.pc i = .signalAdd c all) (after : t.pc i = .wake (.signal c all)) : Invariant c d t := by
  obtain ⟨fl,nodup,members,ahead⟩ := invariant.flight
  have fresh : i ∉ fl := fun member => by simpa [before,InFlight] using (members i).mp member
  have earlier : ∀ j seen, Sampled c seen (t.pc j) → Sampled c seen (s.pc j) := by
    intro j seen
    by_cases own : j = i
    · subst own; simp [after,Sampled]
    · rw [others j own]; exact id
  refine ⟨roles,parking,⟨i :: fl,List.nodup_cons.mpr ⟨fresh,nodup⟩,fun j => ?_,?_⟩,
    by rw [entry]; exact invariant.entry,fun j seen h => invariant.samples j seen (earlier j seen h),
    fun j h nothing => invariant.zero j (earlier j 0 h) (entry ▸ nothing)⟩
  · by_cases own : j = i
    · subst own; simp [after,InFlight]
    · rw [others j own]; simp [own,members]
  · rw [count,ahead]
    push_cast [List.length_cons]
    omega

theorem wake (invariant : Invariant c d s) (roles : Roles c t) (parking : Parking t)
    (others : ∀ j, j ≠ i → t.pc j = s.pc j) (count : t.count c = s.count c)
    (entry : t.table.entry (address c) =
      (wakeEntry (address c) s.table.room (WakeCall.signal c all).maxN .discard (s.table.entry (address c))).1)
    (before : s.pc i = .wake (.signal c all)) (after : t.pc i = .idle)
    (tracked : (∃ j, Sampled c 0 (s.pc j)) →
      wakeLimit (WakeCall.signal c all).maxN < (s.table.waiters (address c)).length) :
    Invariant c (d + 1) t := by
  obtain ⟨fl,nodup,members,ahead⟩ := invariant.flight
  have member : i ∈ fl := (members i).mpr (by simp [before,InFlight])
  have earlier : ∀ j seen, Sampled c seen (t.pc j) → Sampled c seen (s.pc j) := by
    intro j seen
    by_cases own : j = i
    · subst own; simp [after,Sampled]
    · rw [others j own]; exact id
  have kept : ∀ e, t.table.entry (address c) = some e → ∃ f, s.table.entry (address c) = some f ∧
      e.gen = f.gen + 1 ∧ e.credit = f.credit ∧ e.waiters ≠ [] := by
    intro e found
    rw [entry] at found
    cases old : s.table.entry (address c) with
    | none => simp [old,wakeEntry] at found
    | some f =>
      have idle := (invariant.entry f old).2.1
      simp only [old,wakeEntry,settle,reduceCtorEq,false_and,and_false,if_false,idle] at found
      split_ifs at found with empty
      cases found
      exact ⟨f,rfl,rfl,idle.symm,fun nothing => empty ⟨nothing,trivial⟩⟩
  refine ⟨roles,parking,⟨fl.erase i,nodup.erase i,fun j => ?_,?_⟩,fun e found => ?_,
    fun j seen h => Int.le_add_one (invariant.samples j seen (earlier j seen h)),fun j h nothing => ?_⟩
  · by_cases own : j = i
    · subst own
      exact iff_of_false (nodup.not_mem_erase) (by simp [after,InFlight])
    · rw [others j own,List.mem_erase_of_ne own,members]
  · have positive : 0 < fl.length := List.length_pos_of_mem member
    rw [count,ahead,List.length_erase_of_mem member]
    omega
  · obtain ⟨f,old,gen,credit,waiting⟩ := kept e found
    obtain ⟨level,idle,-⟩ := invariant.entry f old
    exact ⟨by rw [gen,level],by rw [credit,idle],waiting⟩
  · have long := tracked ⟨j,earlier j 0 h⟩
    rw [entry] at nothing
    cases old : s.table.entry (address c) with
    | none => simp [Table.waiters,old] at long
    | some f =>
      have long : wakeLimit (WakeCall.signal c all).maxN < f.waiters.length := by
        simpa [Table.waiters,old] using long
      rw [old,wakeEntry,settle_waiting (by simpa using long)] at nothing
      cases nothing

theorem step (invariant : Invariant c d s) (allowed : Allowed c s e) (taken : Sync.step T s e = some t) :
    ∃ d', Invariant c d' t ∧ d ≤ d' ∧ (∀ i all, e = .run i → s.pc i = .wake (.signal c all) → d < d') := by
  obtain ⟨only,tracked⟩ := allowed
  have roles : Roles c t := ⟨step_unused invariant.roles.mutex only.1 taken,
    step_unused invariant.roles.semaphore only.2.1 taken,step_unused invariant.roles.destroying only.2.2.1 taken⟩
  have parking := invariant.parking.step taken only.2.2.2
  have others := (step_frame taken).pc
  have unfinished : ¬InFlight c (s.pc e.thread) →
      ∀ i all, e = .run i → s.pc i = .wake (.signal c all) → d < d := by
    intro outside i all run waking
    subst run
    exact absurd (by simp [Event.thread,waking,InFlight]) outside
  cases step_steps invariant.roles only taken with
  | other count entry sampled before after =>
    exact ⟨d,invariant.still roles parking others count (by rw [entry]; exact invariant.entry)
      (by rw [entry]; exact id) sampled before after,le_refl d,unfinished before⟩
  | sample m count entry before after =>
    have landed : ∀ j, ¬InFlight c (s.pc j) := by
      cases e with
      | run i =>
        simp only [Event.thread] at before
        simp only [Tracked,before] at tracked
        exact tracked trivial
      | call i call => simp only [Event.thread] at before; simp [Sync.step,before] at taken
      | mintFails i => simp only [Event.thread] at before; simp [Sync.step,mintFailsStep,before] at taken
      | spurious i => exact absurd rfl only.2.2.2
    exact ⟨d,invariant.sample roles parking others count entry landed after,le_refl d,
      unfinished (landed e.thread)⟩
  | add all count entry before after =>
    exact ⟨d,invariant.add roles parking others count entry before after,le_refl d,
      unfinished (by simp [before,InFlight])⟩
  | wake all count entry before after =>
    have tracked : (∃ j, Sampled c 0 (s.pc j)) →
        wakeLimit (WakeCall.signal c all).maxN < (s.table.waiters (address c)).length := by
      cases e with
      | run i =>
        simp only [Event.thread] at before
        simp only [Tracked,before] at tracked
        exact tracked trivial
      | call i call => simp only [Event.thread] at before; simp [Sync.step,before] at taken
      | mintFails i => simp only [Event.thread] at before; simp [Sync.step,mintFailsStep,before] at taken
      | spurious i => exact absurd rfl only.2.2.2
    exact ⟨d + 1,invariant.wake roles parking others count entry before after tracked,by omega,
      fun _ _ _ _ => by omega⟩
  | enter m seen count entry before unsampled after =>
    have waiting : ∀ e, s.table.entry (address c) = some e → e.waiters ≠ [] := fun e found =>
      (invariant.entry e found).2.2
    refine ⟨d,invariant.still roles parking others count (fun f found => ?_) (fun nothing => ?_)
      (fun seen sampled => absurd sampled (unsampled seen)) (by simp [before,InFlight]) after,le_refl d,
      unfinished (by simp [before,InFlight])⟩
    · rw [entry] at found
      rcases enterEntry_gen waiting found with ⟨g,old,gen,credit,parked⟩ | ⟨old,rfl,gen,credit,parked⟩
      · obtain ⟨level,idle,-⟩ := invariant.entry g old
        exact ⟨gen.trans level,credit.trans idle,parked⟩
      · have zero := invariant.zero e.thread (by simp [before,Sampled]) old
        exact ⟨gen.trans zero.symm,credit,parked⟩
    · rw [entry] at nothing
      exact enterEntry_ne_none waiting nothing
  | leave m seen count entry before unsampled after =>
    have gone : e.thread ∉ s.table.waiters (address c) :=
      invariant.parking.not_listed (by simp [before,Pc.Asleep])
    have same : t.table.entry (address c) = s.table.entry (address c) := by
      rw [entry]
      cases old : s.table.entry (address c) with
      | none => rfl
      | some f =>
        have absent : e.thread ∉ f.waiters := by simpa [Table.waiters,old] using gone
        simp only [leaveEntry,Option.bind_some,removeWaiter,List.erase_of_not_mem absent]
        exact settle_waiting (invariant.entry f old).2.2
    exact ⟨d,invariant.still roles parking others count (by rw [same]; exact invariant.entry)
      (by rw [same]; exact id) (fun seen sampled => absurd sampled (unsampled seen))
      (by simp [before,InFlight]) after,le_refl d,unfinished (by simp [before,InFlight])⟩

omit [DecidableEq ι] in
theorem initial {objects : κ → SyncT} (minted : ι → Bool) (created : (objects c).count = 0) :
    Invariant c 0 (start objects minted : State κ ι) where
  roles := ⟨fun j => by simp [start],fun j => by simp [start],fun j => by simp [start]⟩
  parking := .initial objects minted
  flight := ⟨[],List.nodup_nil,fun j => by simp [start,InFlight],by simp [start,created]⟩
  entry e found := by simp [start] at found
  samples j seen sampled := by simp [start,Sampled] at sampled
  zero j sampled := by simp [start,Sampled] at sampled

/-- A waiter behind the generation passes its wait section. -/
theorem passes (invariant : Invariant c d s) (entering : s.pc i = .wait (.cond c m seen) .enter)
    (behind : seen < d) : ∃ t, Sync.step T s (.run i) = some t ∧ t.pc i = .lock m (.cond false) .check := by
  have outcome : (s.table.enter (address c) (.gen seen) i).2 = .pass := by
    rw [Table.enter_outcome]
    cases found : s.table.entry (address c) with
    | none =>
      have nonzero : seen ≠ 0 := by
        rintro rfl
        have := invariant.zero i (by simp [entering,Sampled]) found
        omega
      simp [enterEntry,nonzero]
    | some e =>
      have ahead : e.gen ≠ seen := by
        rw [(invariant.entry e found).1]
        omega
      simp [enterEntry,ahead]
  refine ⟨waitEnter s i (.cond c m seen),by simp [Sync.step,advance,entering,waitStep],?_⟩
  simp only [waitEnter,WaitCall.addr,WaitCall.mode]
  rw [show (⟨c,.count⟩ : Addr κ) = address c from rfl,outcome]
  simp [waitReturn,Next.pc]

end Invariant

/-- A signal that runs completely inside the unlock-to-park window of a waiter is seen by
it: the wait returns 0 without parking. -/
theorem window_signal_seen {objects : κ → SyncT} {minted : ι → Bool}
    (before : Lts.Run (step T) (Allowed c) (start objects minted) es s₀)
    (created : syncTypeCreate_r .cond attr = .ok (objects c)) (unlocked : Window c m seen (s₀.pc w))
    (called : step T s₀ (.call g (.condvarSignal (some c) all)) = some s₁)
    (during : Lts.Run (step T) (fun s e => Allowed c s e ∧ Window c m seen (s.pc w)) s₁ fs s₂)
    (returned : s₂.pc g = .idle) (entering : s₂.pc w = .wait (.cond c m seen) .enter) :
    ∃ t, step T s₂ (.run w) = some t ∧ t.pc w = .lock m (.cond false) .check := by
  have zero := syncTypeCreate_r_count created (by simp)
  obtain ⟨d,invariant⟩ := before.invariant (fun s => ∃ d, Invariant c d s)
    (fun _ _ _ ⟨_,invariant⟩ allowed taken => (invariant.step allowed taken).imp fun _ after => after.1)
    ⟨0,.initial minted zero⟩
  have sampled : seen ≤ d := invariant.samples w seen (by rcases unlocked with h | h <;> simp [h,Sampled])
  have signalling : s₁.pc g = .signalAdd c all := by
    simp only [step] at called
    split at called
    · cases called; simp [callStep]
    · cases called
  obtain ⟨d₁,invariant₁,later,-⟩ := invariant.step (e := .call g (.condvarSignal (some c) all))
    ⟨⟨by simp [Event.uses,Call.uses],by simp [Event.uses,Call.uses],by simp [Event.uses,Call.uses],by simp⟩,trivial⟩
    called
  -- Until `g` has run its wake section it is still on its way there; afterwards `seen` is behind.
  obtain ⟨d₂,invariant₂,progress⟩ := during.invariant
    (fun s => ∃ d, Invariant c d s ∧
      (seen < d ∨ seen ≤ d ∧ (s.pc g = .signalAdd c all ∨ s.pc g = .wake (.signal c all))))
    (by
      rintro s e t ⟨d,invariant,progress⟩ ⟨allowed,-⟩ taken
      obtain ⟨d',after,mono,woke⟩ := invariant.step allowed taken
      refine ⟨d',after,?_⟩
      rcases progress with behind | ⟨level,counter⟩
      · exact .inl (by omega)
      by_cases own : g = e.thread
      · subst own
        cases e with
        | run i =>
          simp only [Event.thread] at counter ⊢
          rcases counter with adding | waking
          · refine .inr ⟨by omega,.inr ?_⟩
            simp only [step,advance,adding,Option.some.injEq] at taken
            simp [← taken]
          · exact .inl (by have := woke i all rfl waking; omega)
        | call i call => simp only [Event.thread] at counter; rcases counter with h | h <;> simp [step,h] at taken
        | mintFails i =>
          simp only [Event.thread] at counter
          rcases counter with h | h <;> simp [step,mintFailsStep,h] at taken
        | spurious i => exact absurd rfl allowed.1.2.2.2
      · rw [(step_frame taken).pc g own]
        exact .inr ⟨by omega,counter⟩)
    ⟨d₁,invariant₁,.inr ⟨by omega,.inl signalling⟩⟩
  rcases progress with behind | ⟨-,h | h⟩
  · exact invariant₂.passes entering behind
  · rw [returned] at h; cases h
  · rw [returned] at h; cases h

def fresh : State (Fin 2) (Fin 2) := start (fun _ => ⟨0,0⟩) fun _ => true

/-- Thread `a` takes the mutex `m` and waits on the condvar `c`, up to its wait section. -/
def intoWindow (a : ι) (c m : κ) : List (Event κ ι) := List.flatten
  [[.call a (.mutexLock (some m))],Event.runs a 3,[.call a (.condvarWait (some c) (some m))],Event.runs a 5]

theorem window_of_replay {allow : State (Fin 2) (Fin 2) → Event (Fin 2) (Fin 2) → Prop}
    [∀ s e, Decidable (allow s e)] {test : State (Fin 2) (Fin 2) → Prop} [DecidablePred test]
    {s₀ : State (Fin 2) (Fin 2)} {call : Event (Fin 2) (Fin 2)}
    (passes : (((step two s₀ call).bind fun s₁ => Lts.replay (step two) allow s₁ fs).any
      fun s₂ => decide (test s₂)) = true) :
    ∃ s₁ s₂, step two s₀ call = some s₁ ∧ Lts.Run (step two) allow s₁ fs s₂ ∧ test s₂ := by
  obtain ⟨s₂,found,tested⟩ := (Option.any_eq_true _ _).mp passes
  obtain ⟨s₁,called,replayed⟩ := Option.bind_eq_some_iff.mp found
  exact ⟨s₁,s₂,called,.of_replay replayed,of_decide_eq_true tested⟩

theorem window_signal_seen_later : ∃ s₀ s₁ s₂ t : State (Fin 2) (Fin 2),
    Lts.Run (step two) (Allowed 0) fresh
      (.call 1 (.condvarSignal (some 0) false) :: Event.runs 1 2 ++ intoWindow 0 0 1) s₀ ∧
    Window 0 1 1 (s₀.pc 0) ∧ step two s₀ (.call 1 (.condvarSignal (some 0) false)) = some s₁ ∧
    Lts.Run (step two) (fun s e => Allowed 0 s e ∧ Window 0 1 1 (s.pc 0)) s₁ (Event.runs 1 2) s₂ ∧
    step two s₂ (.run 0) = some t ∧ t.pc 0 = .lock 1 (.cond false) .check := by
  obtain ⟨s₀,before,unlocked,inside⟩ := Lts.Run.exists_of_replay (step two) (Allowed 0) fresh
    (.call 1 (.condvarSignal (some 0) false) :: Event.runs 1 2 ++ intoWindow 0 0 1)
    (fun s₀ => Window 0 1 1 (s₀.pc 0) ∧ (((step two s₀ (.call 1 (.condvarSignal (some 0) false))).bind fun s₁ =>
      Lts.replay (step two) (fun s e => Allowed 0 s e ∧ Window 0 1 1 (s.pc 0)) s₁ (Event.runs 1 2)).any fun s₂ =>
        decide (s₂.pc 1 = .idle ∧ s₂.pc 0 = .wait (.cond 0 1 1) .enter)) = true) (by decide +kernel)
  obtain ⟨s₁,s₂,called,during,returned,entering⟩ := window_of_replay inside
  have created : syncTypeCreate_r .cond none = .ok ⟨0,0⟩ := rfl
  obtain ⟨t,taken,passed⟩ := window_signal_seen before created unlocked called during returned entering
  exact ⟨s₀,s₁,s₂,t,before,unlocked,called,during,taken,passed⟩

/-- The first signal ever, in the window of the first waiter ever, is missed. -/
theorem first_signal_missed : ∃ s₀ s₁ s₂ t : State (Fin 2) (Fin 2),
    Lts.Run (step two) (fun _ e => Only 0 e) fresh (intoWindow 0 0 1) s₀ ∧ Window 0 1 0 (s₀.pc 0) ∧
    step two s₀ (.call 1 (.condvarSignal (some 0) false)) = some s₁ ∧
    Lts.Run (step two) (fun s e => Only 0 e ∧ Window 0 1 0 (s.pc 0)) s₁ (Event.runs 1 2) s₂ ∧
    s₂.pc 1 = .idle ∧ s₂.pc 0 = .wait (.cond 0 1 0) .enter ∧
    step two s₂ (.run 0) = some t ∧ t.pc 0 = .wait (.cond 0 1 0) .park := by
  obtain ⟨s₀,before,unlocked,inside⟩ := Lts.Run.exists_of_replay (step two) (fun _ e => Only 0 e) fresh
    (intoWindow 0 0 1)
    (fun s₀ => Window 0 1 0 (s₀.pc 0) ∧ (((step two s₀ (.call 1 (.condvarSignal (some 0) false))).bind fun s₁ =>
      Lts.replay (step two) (fun s e => Only 0 e ∧ Window 0 1 0 (s.pc 0)) s₁ (Event.runs 1 2)).any fun s₂ =>
        decide (s₂.pc 1 = .idle ∧ s₂.pc 0 = .wait (.cond 0 1 0) .enter ∧
          ((step two s₂ (.run 0)).any fun t => t.pc 0 = .wait (.cond 0 1 0) .park) = true)) = true)
    (by decide +kernel)
  obtain ⟨s₁,s₂,called,during,returned,entering,parks⟩ := window_of_replay inside
  obtain ⟨t,taken,parked⟩ := (Option.any_eq_true _ _).mp parks
  exact ⟨s₀,s₁,s₂,t,before,unlocked,called,during,returned,entering,taken,of_decide_eq_true parked⟩

end Qsoe.Sync.Condvar
