import Qsoe.Sync.Machine

/-! What a step leaves alone. A step writes the words of at most one object, the table
entry of at most one address and the program counter of its own thread, and a call
keeps the objects it was given in the roles it was given them. -/
namespace Qsoe.Sync

inductive Role where
  | mutex | condvar | semaphore | destroying
  deriving DecidableEq, Repr

def Pc.uses : Role → Pc κ → Option κ
  | .mutex, .lock m _ _ | .mutex, .unlock m _ _ | .mutex, .wait (.lock m _) _
  | .mutex, .wait (.cond _ m _) _ | .mutex, .wake (.unlock m _) | .mutex, .condLoad _ m => some m
  | .condvar, .condLoad c _ | .condvar, .unlock _ (.cond c _) _ | .condvar, .wait (.cond c _ _) _
  | .condvar, .wake (.unlock _ (.cond c _)) | .condvar, .signalAdd c _
  | .condvar, .wake (.signal c _) => some c
  | .semaphore, .postAdd o | .semaphore, .semLoad o _ | .semaphore, .semTake o _ _
  | .semaphore, .wait (.sem o) _ | .semaphore, .wake (.post o) => some o
  | .destroying, .destroyCount o | .destroying, .destroyOwner o => some o
  | _, _ => none

def Call.uses : Role → Call κ → Option κ
  | .mutex, .mutexLock m | .mutex, .mutexUnlock m | .mutex, .condvarWait _ m => m
  | .condvar, .condvarWait c _ | .condvar, .condvarSignal c _ => c
  | .semaphore, .semPost o | .semaphore, .semWait o _ => o
  | .destroying, .destroy o => o
  | _, _ => none

def Event.uses (r : Role) : Event κ ι → Option κ
  | .call _ c => c.uses r
  | _ => none

/-- The object whose `owner` or `count` the next step may write. -/
def Pc.word : Pc κ → Option κ
  | .lock o _ _ | .unlock o _ _ | .signalAdd o _ | .postAdd o | .semTake o _ _
  | .destroyCount o | .destroyOwner o => some o
  | _ => none

/-- The address whose table entry the next step may change. -/
def Pc.entry : Pc κ → Option (Addr κ)
  | .wait w .enter | .wait w .leave => some w.addr
  | .wake w => some w.addr
  | _ => none

/-- Between two accesses of a mutex call, where the thread relies on what it has read. -/
def Pc.Inside (m : κ) : Pc κ → Prop
  | .lock m' _ p => m' = m ∧ p ≠ .check ∧ p ≠ .load
  | .unlock m' _ p => m' = m ∧ p ≠ .load
  | _ => False

variable {κ ι : Type} [DecidableEq κ] [DecidableEq ι] {T : Threads ι} {s t : State κ ι} {i : ι}

/-- `t` differs from `s` at most in the words of `o`, the entry of `a`, the
Notifications and the locals of thread `i`. -/
structure Frame (o : Option κ) (a : Option (Addr κ)) (i : ι) (s t : State κ ι) : Prop where
  pc : ∀ j, j ≠ i → t.pc j = s.pc j
  owner : ∀ x, o ≠ some x → t.owner x = s.owner x
  count : ∀ x, o ≠ some x → t.count x = s.count x
  depth : ∀ j x, j ≠ i ∨ o ≠ some x → t.depth j x = s.depth j x
  posts : ∀ x, o ≠ some x → t.posts x = s.posts x
  takes : ∀ x, o ≠ some x → t.takes x = s.takes x
  entry : ∀ b, a ≠ some b → t.table.entry b = s.table.entry b

namespace Frame

variable {o : Option κ} {a : Option (Addr κ)}

omit [DecidableEq ι] in
theorem refl : Frame o a i s s := by constructor <;> intros <;> rfl

omit [DecidableEq ι] in
theorem trans (first : Frame o a i s t) (second : Frame o a i t u) : Frame o a i s u where
  pc j h := (second.pc j h).trans (first.pc j h)
  owner x h := (second.owner x h).trans (first.owner x h)
  count x h := (second.count x h).trans (first.count x h)
  depth j x h := (second.depth j x h).trans (first.depth j x h)
  posts x h := (second.posts x h).trans (first.posts x h)
  takes x h := (second.takes x h).trans (first.takes x h)
  entry b h := (second.entry b h).trans (first.entry b h)

theorem setPc (f : Frame o a i s t) : Frame o a i s (t.setPc i p) :=
  f.trans { (refl : Frame o a i t t) with pc := fun j h => by simp [h] }

theorem finish (f : Frame o a i s t) : Frame o a i s (t.finish i r) :=
  f.trans { (refl : Frame o a i t t) with pc := fun j h => by simp [h] }

theorem setErrno (f : Frame o a i s t) : Frame o a i s (t.setErrno i e) :=
  f.trans { (refl : Frame o a i t t) with }

theorem setMinted (f : Frame o a i s t) : Frame o a i s (t.setMinted i) :=
  f.trans { (refl : Frame o a i t t) with }

section

omit [DecidableEq ι]

theorem setKernel (f : Frame o a i s t) : Frame o a i s (t.setKernel k) :=
  f.trans { (refl : Frame o a i t t) with }

theorem setOwner (f : Frame (some m) a i s t) : Frame (some m) a i s (t.setOwner m val) :=
  f.trans { (refl : Frame (some m) a i t t) with
    owner := fun x h => by simp [Function.update_of_ne (Ne.symm (by simpa using h))] }

theorem setCount (f : Frame (some m) a i s t) : Frame (some m) a i s (t.setCount m c) :=
  f.trans { (refl : Frame (some m) a i t t) with
    count := fun x h => by simp [Function.update_of_ne (Ne.symm (by simpa using h))] }

end

theorem setDepth (f : Frame (some m) a i s t) : Frame (some m) a i s (t.setDepth i m d) :=
  f.trans { (refl : Frame (some m) a i t t) with
    depth := fun j x h => by
      rcases h with other | other
      · simp [other]
      · by_cases same : j = i
        · subst same
          simp [Function.update_of_ne (Ne.symm (by simpa using other))]
        · simp [same] }

section

omit [DecidableEq ι]

theorem addPost (f : Frame (some m) a i s t) : Frame (some m) a i s (t.addPost m) :=
  f.trans { (refl : Frame (some m) a i t t) with
    posts := fun x h => by simp [Function.update_of_ne (Ne.symm (by simpa using h))] }

theorem addTake (f : Frame (some m) a i s t) : Frame (some m) a i s (t.addTake m) :=
  f.trans { (refl : Frame (some m) a i t t) with
    takes := fun x h => by simp [Function.update_of_ne (Ne.symm (by simpa using h))] }

theorem setTable (f : Frame o (some b) i s t) (table : Table κ ι)
    (others : ∀ b', b' ≠ b → table.entry b' = t.table.entry b') : Frame o (some b) i s (t.setTable table) :=
  f.trans { (refl : Frame o (some b) i t t) with
    entry := fun b' h => others b' (Ne.symm (by simpa using h)) }

end

theorem next (f : Frame o a i s t) : Frame o a i s (t.next i n) :=
  f.trans { (refl : Frame o a i t t) with pc := fun j h => by simp [h] }

theorem acquired (f : Frame (some m) a i s t) : Frame (some m) a i s (acquired t i m k) := f.setDepth.next

theorem lockStep (p : LockPhase) : Frame (some m) none i s (lockStep T s i m k p) := by
  cases p <;> simp only [Sync.lockStep]
  case recLoad => exact refl.setPc
  case recStore c => exact refl.setCount.acquired
  all_goals
    split_ifs
    all_goals first
      | exact refl.setPc
      | exact refl.setErrno.next
      | exact refl.setOwner.acquired
      | exact refl.setOwner.setPc

theorem unlockStep (p : UnlockPhase) : Frame (some m) none i s (unlockStep T s i m k p) := by
  cases p <;> simp only [Sync.unlockStep,released]
  case test => exact refl.setPc
  case decLoad => exact refl.setPc
  case decStore c => exact refl.setCount.setDepth.next
  all_goals
    split_ifs
    all_goals first
      | exact refl.setPc
      | exact refl.setErrno.next
      | exact refl.setOwner.setDepth.setPc
      | exact refl.setOwner.setDepth.next

theorem waitEnter : Frame none (some w.addr) i s (waitEnter s i w) := by
  have moved : Frame none (some w.addr) i s (s.setTable (s.table.enter w.addr w.mode i).1) :=
    refl.setTable _ fun b other => by simp [Table.entry_enter,other]
  simp only [Sync.waitEnter]
  split
  · exact moved.next
  · exact moved.setPc
  · exact moved.setErrno.next

theorem waitStep (taken : waitStep s i w p = some t) : Frame none (Pc.wait w p).entry i s t := by
  cases p with
  | mint => cases taken; exact refl.setMinted.setPc
  | enter => cases taken; exact .waitEnter
  | park => cases taken; exact refl.setKernel.setPc
  | blocked =>
    obtain ⟨result,-,rfl⟩ := Option.map_eq_some_iff.mp taken
    exact refl.setKernel.setPc
  | leave =>
    cases taken
    exact (refl.setTable _ fun b other => by simp [Table.entry_leave,other]).next

theorem wakeStep : Frame none (some w.addr) i s (wakeStep s i w) := by
  have moved : Frame none (some w.addr) i s (s.setTable (s.table.wake w.addr w.maxN w.mode).1) :=
    refl.setTable _ fun b other => by simp [Table.entry_wake,other]
  simp only [Sync.wakeStep]
  split
  · exact moved.setKernel.next
  · exact moved.setKernel.setErrno.next

theorem callStep (c : Call κ) : Frame none none i s (callStep s i c) := by
  unfold Sync.callStep
  split
  all_goals first
    | exact refl.setErrno.finish
    | exact refl.finish
    | exact refl.setPc

theorem advance (taken : advance T s i = some t) : Frame (s.pc i).word (s.pc i).entry i s t := by
  unfold Sync.advance at taken
  cases counter : s.pc i <;> rw [counter] at taken
  case idle => cases taken
  case lock => cases taken; exact .lockStep _
  case unlock => cases taken; exact .unlockStep _
  case wait => exact .waitStep taken
  case wake => cases taken; exact .wakeStep
  case condLoad => cases taken; exact refl.setPc
  case signalAdd => cases taken; exact refl.setCount.setPc
  case destroyCount => cases taken; exact refl.setCount.setPc
  case destroyOwner => cases taken; exact refl.setOwner.finish
  case postAdd =>
    cases taken
    simp only [postStep]
    split
    · exact refl.setCount.addPost.setPc
    · exact refl.setCount.addPost.finish
  case semLoad =>
    cases taken
    simp only [semLoadStep]
    split_ifs
    · exact refl.setPc
    · exact refl.finish
    · exact refl.setPc
  case semTake =>
    cases taken
    simp only [semTakeStep]
    split
    · exact refl.setCount.addTake.finish
    · exact refl.setPc

theorem mintFailsStep (taken : mintFailsStep s i = some t) : Frame none none i s t := by
  unfold Sync.mintFailsStep at taken
  split at taken
  · split at taken
    · cases taken
    · cases taken; exact refl.setErrno.next
  · cases taken

theorem spuriousStep (taken : spuriousStep s i = some t) : Frame none none i s t := by
  unfold Sync.spuriousStep at taken
  split at taken
  · cases taken; exact refl.setPc
  · split at taken
    · cases taken; exact refl.setKernel.setPc
    · cases taken
  · cases taken

end Frame

def Event.word (s : State κ ι) : Event κ ι → Option κ
  | .run i => (s.pc i).word
  | _ => none

def Event.entry (s : State κ ι) : Event κ ι → Option (Addr κ)
  | .run i => (s.pc i).entry
  | _ => none

theorem step_frame (taken : step T s e = some t) : Frame (e.word s) (e.entry s) e.thread s t := by
  cases e with
  | call i c =>
    simp only [step] at taken
    split at taken
    · cases taken; exact .callStep c
    · cases taken
  | run i => exact .advance taken
  | mintFails i => exact .mintFailsStep taken
  | spurious i => exact .spuriousStep taken

/-- `q` works on an object in a role only if `p` does. -/
def Pc.Follows (p q : Pc κ) : Prop := ∀ r, q.uses r = none ∨ q.uses r = p.uses r

attribute [local simp] Pc.uses in
omit [DecidableEq κ] in
@[simp] theorem Pc.idle_uses (r : Role) : (Pc.idle : Pc κ).uses r = none := by cases r <;> simp

section

omit [DecidableEq κ]

theorem Pc.follows_idle (p : Pc κ) : p.Follows .idle := fun r => .inl (Pc.idle_uses r)

theorem lockReturn_follows (p : Pc κ) : p.Follows (lockReturn errno ok k).pc := by
  cases k <;> exact p.follows_idle

theorem unlockReturn_follows (p : Pc κ) (mutex : p.uses .mutex = some m)
    (condvar : ∀ c seen, k = .cond c seen → p.uses .condvar = some c) :
    p.Follows (unlockReturn errno m ok k).pc := by
  cases k with
  | user => exact p.follows_idle
  | cond c seen =>
    cases ok with
    | false => exact p.follows_idle
    | true =>
      have condvar := condvar c seen rfl
      intro r
      cases r with
      | mutex => exact .inr mutex.symm
      | condvar => exact .inr condvar.symm
      | semaphore => exact .inl rfl
      | destroying => exact .inl rfl

theorem waitReturn_follows {w : WaitCall κ} : (Pc.wait w p).Follows (waitReturn errno ok w).pc := by
  cases w with
  | lock m k =>
    cases ok with
    | false => exact lockReturn_follows _
    | true => intro r; cases r <;> simp [waitReturn,Next.pc,Pc.uses]
  | cond c m seen => intro r; cases r <;> simp [waitReturn,Next.pc,Pc.uses]
  | sem o =>
    cases ok with
    | false => exact Pc.follows_idle _
    | true => intro r; cases r <;> simp [waitReturn,Next.pc,Pc.uses]

theorem wakeReturn_follows {w : WakeCall κ} : (Pc.wake w).Follows (wakeReturn errno ok w).pc := by
  cases w with
  | unlock m k => exact unlockReturn_follows _ rfl (by rintro c seen rfl; rfl)
  | post o => exact Pc.follows_idle _
  | signal c all => exact Pc.follows_idle _

theorem Pc.wait_follows {w : WaitCall κ} (p q : WaitPhase) : (Pc.wait w p).Follows (.wait w q) := by
  intro r
  cases r <;> cases w <;> simp [Pc.uses]

end

theorem lockStep_follows (m : κ) (k : LockCall) (p : LockPhase) :
    (Pc.lock m k p).Follows ((lockStep T s i m k p).pc i) := by
  have on : ∀ q, (Pc.lock m k p).Follows (.lock m k q) := by intro q r; cases r <;> simp [Pc.uses]
  have park : (Pc.lock m k p).Follows (.wait (.lock m k) .mint) := by intro r; cases r <;> simp [Pc.uses]
  cases p <;> simp only [lockStep,acquired]
  case recLoad => simpa using on _
  case recStore c => simpa using lockReturn_follows _
  all_goals
    split_ifs
    all_goals first
      | simpa using on _
      | simpa using park
      | simpa using lockReturn_follows _

theorem unlockStep_follows (m : κ) (k : UnlockCall κ) (p : UnlockPhase) :
    (Pc.unlock m k p).Follows ((unlockStep T s i m k p).pc i) := by
  have on : ∀ q, (Pc.unlock m k p).Follows (.unlock m k q) := by
    intro q r; cases r <;> cases k <;> simp [Pc.uses]
  have wake : (Pc.unlock m k p).Follows (.wake (.unlock m k)) := by
    intro r; cases r <;> cases k <;> simp [Pc.uses]
  have back : ∀ errno ok, (Pc.unlock m k p).Follows (unlockReturn errno m ok k).pc := fun _ _ =>
    unlockReturn_follows _ rfl (by rintro c seen rfl; rfl)
  cases p <;> simp only [unlockStep,released]
  case test => simpa using on _
  case decLoad => simpa using on _
  case decStore c => simpa using back _ _
  all_goals
    split_ifs
    all_goals first
      | simpa using on _
      | simpa using wake
      | simpa using back _ _

theorem waitStep_follows (taken : waitStep s i w p = some t) : (Pc.wait w p).Follows (t.pc i) := by
  cases p with
  | mint => cases taken; simpa using Pc.wait_follows _ _
  | enter =>
    cases taken
    simp only [waitEnter]
    split
    · simpa using waitReturn_follows
    · simpa using Pc.wait_follows _ _
    · simpa using waitReturn_follows
  | park => cases taken; simpa using Pc.wait_follows _ _
  | blocked =>
    obtain ⟨result,-,rfl⟩ := Option.map_eq_some_iff.mp taken
    simpa using Pc.wait_follows _ _
  | leave => cases taken; simpa using waitReturn_follows

theorem wakeStep_follows : (Pc.wake w).Follows ((wakeStep s i w).pc i) := by
  simp only [wakeStep]
  split <;> simpa using wakeReturn_follows

theorem advance_follows (taken : advance T s i = some t) : (s.pc i).Follows (t.pc i) := by
  unfold advance at taken
  cases counter : s.pc i <;> rw [counter] at taken
  case idle => cases taken
  case lock => cases taken; exact lockStep_follows _ _ _
  case unlock => cases taken; exact unlockStep_follows _ _ _
  case wait => exact waitStep_follows taken
  case wake => cases taken; exact wakeStep_follows
  all_goals
    cases taken
    intro r
    (try simp only [postStep,semLoadStep,semTakeStep])
    (try split_ifs) <;> cases r <;> simp [Pc.uses]

section

omit [DecidableEq κ]

theorem mintFailsStep_follows (taken : mintFailsStep s i = some t) : (s.pc i).Follows (t.pc i) := by
  unfold mintFailsStep at taken
  split at taken
  · rename_i counter
    split at taken
    · cases taken
    · cases taken; simpa [counter] using waitReturn_follows
  · cases taken

theorem spuriousStep_follows (taken : spuriousStep s i = some t) : (s.pc i).Follows (t.pc i) := by
  unfold spuriousStep at taken
  split at taken
  · rename_i counter
    cases taken; simpa [counter] using Pc.wait_follows _ _
  · rename_i counter
    split at taken
    · cases taken; simpa [counter] using Pc.wait_follows _ _
    · cases taken
  · cases taken

theorem callStep_uses (c : Call κ) (r : Role) :
    ((callStep s i c).pc i).uses r = none ∨ ((callStep s i c).pc i).uses r = c.uses r := by
  unfold callStep
  split <;> cases r <;> simp [Pc.uses,Call.uses]

theorem Pc.uses_of_inside {p : Pc κ} (inside : p.Inside m) : p.uses .mutex = some m := by
  cases p
  case lock => obtain ⟨rfl,-⟩ := inside; rfl
  case unlock => obtain ⟨rfl,-⟩ := inside; rfl
  all_goals exact inside.elim

theorem not_inside_waitReturn (m : κ) : ¬(waitReturn errno ok w).pc.Inside m := by
  cases w with
  | lock m' k => cases ok <;> cases k <;> simp [waitReturn,lockReturn,Next.pc,Pc.Inside]
  | cond c m' seen => simp [waitReturn,Next.pc,Pc.Inside]
  | sem o => cases ok <;> simp [waitReturn,Next.pc,Pc.Inside]

theorem not_inside_unlockReturn (m : κ) : ¬(unlockReturn errno m' ok k).pc.Inside m := by
  cases k with
  | user => simp [unlockReturn,Next.pc,Pc.Inside]
  | cond c seen => cases ok <;> simp [unlockReturn,Next.pc,Pc.Inside]

theorem not_inside_wakeReturn (m : κ) : ¬(wakeReturn errno ok w).pc.Inside m := by
  cases w with
  | unlock m' k => exact not_inside_unlockReturn m
  | post o => simp [wakeReturn,Next.pc,Pc.Inside]
  | signal c all => simp [wakeReturn,Next.pc,Pc.Inside]

end

theorem not_inside_waitStep (taken : waitStep s i w p = some t) : ¬(t.pc i).Inside m := by
  cases p with
  | mint => cases taken; simp [Pc.Inside]
  | enter =>
    cases taken
    simp only [waitEnter]
    split
    · simpa using not_inside_waitReturn m
    · simp [Pc.Inside]
    · simpa using not_inside_waitReturn m
  | park => cases taken; simp [Pc.Inside]
  | blocked =>
    obtain ⟨result,-,rfl⟩ := Option.map_eq_some_iff.mp taken
    simp [Pc.Inside]
  | leave => cases taken; simpa using not_inside_waitReturn m

theorem not_inside_wakeStep : ¬((wakeStep s i w).pc i).Inside m := by
  simp only [wakeStep]
  split <;> simpa using not_inside_wakeReturn m

omit [DecidableEq ι] [DecidableEq κ] in
theorem not_inside_of_unused (unused : (s.pc i).uses .mutex ≠ some m) (follows : (s.pc i).Follows (t.pc i)) :
    ¬(t.pc i).Inside m := by
  intro inside
  have used := Pc.uses_of_inside inside
  rcases follows .mutex with nothing | kept
  · simp [nothing] at used
  · exact unused (kept.symm.trans used)

/-- A step that does not write `m` leaves its thread outside the accesses to `m`. -/
theorem step_not_inside (taken : step T s e = some t) (other : e.word s ≠ some m) :
    ¬(t.pc e.thread).Inside m := by
  cases e with
  | call i c =>
    simp only [step] at taken
    split at taken
    · cases taken
      unfold callStep
      split <;> simp [Event.thread,Pc.Inside]
    · cases taken
  | run i =>
    by_cases used : (s.pc i).uses .mutex = some m
    · change advance T s i = some t at taken
      unfold advance at taken
      cases counter : s.pc i <;> rw [counter] at taken
      case wait => exact not_inside_waitStep taken
      case wake => cases taken; exact not_inside_wakeStep
      case condLoad => cases taken; simp [Event.thread,Pc.Inside]
      case lock => simp_all [Event.word,Pc.word,Pc.uses]
      case unlock => simp_all [Event.word,Pc.word,Pc.uses]
      all_goals simp [counter,Pc.uses] at used
    · exact not_inside_of_unused used (advance_follows taken)
  | mintFails i =>
    simp only [step,mintFailsStep] at taken
    split at taken
    · split at taken
      · cases taken
      · cases taken; simpa [Event.thread] using not_inside_waitReturn m
    · cases taken
  | spurious i =>
    simp only [step,spuriousStep] at taken
    split at taken
    · cases taken; simp [Event.thread,Pc.Inside]
    · split at taken
      · cases taken; simp [Event.thread,Pc.Inside]
      · cases taken
    · cases taken

/-- No thread works on `o` in the role `r`. -/
def Unused (r : Role) (o : κ) (s : State κ ι) : Prop := ∀ j, (s.pc j).uses r ≠ some o

theorem step_unused (unused : Unused r o s) (allowed : e.uses r ≠ some o) (taken : step T s e = some t) :
    Unused r o t := by
  intro j
  have same : j ≠ e.thread → (t.pc j).uses r ≠ some o := by
    intro other
    rw [(step_frame taken).pc j other]
    exact unused j
  have follows : ∀ p, (s.pc j).Follows p → p.uses r ≠ some o := by
    intro p f
    rcases f r with nothing | kept
    · simp [nothing]
    · rw [kept]; exact unused j
  by_cases own : j = e.thread
  · subst own
    cases e with
    | call i c =>
      simp only [step] at taken
      split at taken
      · cases taken
        rcases callStep_uses (s := s) (i := i) c r with nothing | kept
        · simp only [Event.thread,nothing]; simp
        · simp only [Event.thread,kept]; exact allowed
      · cases taken
    | run i => exact follows _ (advance_follows taken)
    | mintFails i => exact follows _ (mintFailsStep_follows taken)
    | spurious i => exact follows _ (spuriousStep_follows taken)
  · exact same own

end Qsoe.Sync
