import Qsoe.Lib.Run
import Qsoe.Sync.Frame

/-! Where a waiting thread is. In a run whose Notification waits return only when
signalled, a parked thread is on the waiter list of its address until a wake pops
it, and from then on its Notification holds the signal for it. -/
namespace Qsoe.Sync

variable {κ ι : Type} [DecidableEq κ] [DecidableEq ι] {T : Threads ι} {s t : State κ ι} {i : ι}

/-- The thread has been pushed on a waiter list and has not left `qsoe_sys_wait`. -/
def Pc.Asleep : Pc κ → Prop
  | .wait _ .park | .wait _ .blocked => True
  | _ => False

/-- What the Notification of a parked thread holds while the thread is on its list, and
once a wake has popped it. -/
def Kernel.Sleeping (k : Kernel ι) (j : ι) (listed blocked : Prop) : Prop :=
  (listed ∧ (k.ntfn j).active = none ∧ k.grant j = none ∧
    (blocked ∧ (k.ntfn j).queue = [j] ∨ ¬blocked ∧ (k.ntfn j).queue = [])) ∨
  (¬listed ∧ (k.ntfn j).queue = [] ∧
    (blocked ∧ (k.ntfn j).active = none ∧ k.grant j = some .wake ∨
      ¬blocked ∧ (k.ntfn j).active = some .wake ∧ k.grant j = none))

def Kernel.Quiet (k : Kernel ι) (j : ι) : Prop := k.ntfn j = ⟨none,[]⟩ ∧ k.grant j = none

def ParkedAt (s : State κ ι) (j : ι) : Pc κ → Prop
  | .wait w .park => s.kernel.Sleeping j (j ∈ s.table.waiters w.addr) False
  | .wait w .blocked => s.kernel.Sleeping j (j ∈ s.table.waiters w.addr) True
  | _ => s.kernel.Quiet j

structure Parking (s : State κ ι) : Prop where
  nodup : ∀ a, (s.table.waiters a).Nodup
  home : ∀ a j, j ∈ s.table.waiters a → ∃ w, w.addr = a ∧ (s.pc j = .wait w .park ∨ s.pc j = .wait w .blocked)
  at_ : ∀ j, ParkedAt s j (s.pc j)

/-- Inside `sync_wait_impl` once the Notification is there. -/
def Pc.Inner : Pc κ → Prop
  | .wait _ .enter | .wait _ .park | .wait _ .blocked => True
  | _ => False

def enterNext (s : State κ ι) (i : ι) (w : WaitCall κ) : Pc κ :=
  match (s.table.enter w.addr w.mode i).2 with
  | .pass => (waitReturn (s.errno i) true w).pc
  | .parked => .wait w .park
  | .full => (waitReturn (some .enomem) false w).pc

inductive Moves (s : State κ ι) (i : ι) (t : State κ ι) : Prop where
  | other (kernel : t.kernel = s.kernel) (table : t.table = s.table) (calm : ∀ w, s.pc i ≠ .wake w)
      (before : ∀ w p, s.pc i = .wait w p → p = .mint) (after : ¬(t.pc i).Inner)
  | mint (w : WaitCall κ) (kernel : t.kernel = s.kernel) (table : t.table = s.table)
      (before : s.pc i = .wait w .mint) (after : t.pc i = .wait w .enter)
  | enter (w : WaitCall κ) (kernel : t.kernel = s.kernel)
      (table : t.table = (s.table.enter w.addr w.mode i).1)
      (before : s.pc i = .wait w .enter) (after : t.pc i = enterNext s i w)
  | sleep (w : WaitCall κ) (kernel : t.kernel = (s.kernel.wait i i).1) (table : t.table = s.table)
      (before : s.pc i = .wait w .park)
      (after : t.pc i = .wait w (if (s.kernel.wait i i).2.isSome then .leave else .blocked))
  | resume (w : WaitCall κ) (origin : Origin) (kernel : s.kernel.resume i = some (t.kernel,origin))
      (table : t.table = s.table) (before : s.pc i = .wait w .blocked) (after : t.pc i = .wait w .leave)
  | leave (w : WaitCall κ) (kernel : t.kernel = s.kernel) (table : t.table = s.table.leave w.addr i)
      (before : s.pc i = .wait w .leave) (after : t.pc i = (waitReturn (s.errno i) true w).pc)
  | wake (w : WakeCall κ)
      (kernel : t.kernel = s.kernel.signalAll ((s.table.waiters w.addr).take (wakeLimit w.maxN)))
      (table : t.table = (s.table.wake w.addr w.maxN w.mode).1)
      (before : s.pc i = .wake w) (after : ¬(t.pc i).Inner)

omit [DecidableEq κ] in
theorem Pc.Asleep.inner {p : Pc κ} (asleep : p.Asleep) : p.Inner := by
  cases p
  case wait w p => cases p <;> first | exact asleep | exact absurd asleep id
  all_goals exact absurd asleep id

attribute [local simp] Pc.Inner in
omit [DecidableEq κ] in
theorem not_inner_lockReturn : ¬((lockReturn errno ok k : Next κ).pc).Inner := by
  cases k <;> simp [lockReturn,Next.pc]

section

omit [DecidableEq κ]

theorem not_inner_unlockReturn {m : κ} : ¬(unlockReturn errno m ok k).pc.Inner := by
  cases k with
  | user => simp [unlockReturn,Next.pc,Pc.Inner]
  | cond c seen => cases ok <;> simp [unlockReturn,Next.pc,Pc.Inner]

theorem not_inner_waitReturn {w : WaitCall κ} : ¬(waitReturn errno ok w).pc.Inner := by
  cases w with
  | lock m k =>
    cases ok with
    | false => exact not_inner_lockReturn
    | true => simp [waitReturn,Next.pc,Pc.Inner]
  | cond c m seen => simp [waitReturn,Next.pc,Pc.Inner]
  | sem o => cases ok <;> simp [waitReturn,Next.pc,Pc.Inner]

theorem not_inner_wakeReturn {w : WakeCall κ} : ¬(wakeReturn errno ok w).pc.Inner := by
  cases w with
  | unlock m k => exact not_inner_unlockReturn
  | post o => simp [wakeReturn,Next.pc,Pc.Inner]
  | signal c all => simp [wakeReturn,Next.pc,Pc.Inner]

end

theorem lockStep_moves (counter : s.pc i = .lock m k p) : Moves s i (lockStep T s i m k p) := by
  have before : ∀ w p, s.pc i = .wait w p → p = .mint := by simp [counter]
  have calm : ∀ w, s.pc i ≠ .wake w := by simp [counter]
  cases p <;> simp only [lockStep,acquired]
  case recLoad => exact .other rfl rfl calm before (by simp [Pc.Inner])
  case recStore c => exact .other rfl rfl calm before (by simpa using not_inner_lockReturn)
  all_goals
    split_ifs
    all_goals
      refine .other rfl rfl calm before ?_
      first
        | simpa using not_inner_lockReturn
        | simp [Pc.Inner]

theorem unlockStep_moves (counter : s.pc i = .unlock m k p) : Moves s i (unlockStep T s i m k p) := by
  have before : ∀ w p, s.pc i = .wait w p → p = .mint := by simp [counter]
  have calm : ∀ w, s.pc i ≠ .wake w := by simp [counter]
  cases p <;> simp only [unlockStep,released]
  case test => exact .other rfl rfl calm before (by simp [Pc.Inner])
  case decLoad => exact .other rfl rfl calm before (by simp [Pc.Inner])
  case decStore c => exact .other rfl rfl calm before (by simpa using not_inner_unlockReturn)
  all_goals
    split_ifs
    all_goals
      refine .other rfl rfl calm before ?_
      first
        | simpa using not_inner_unlockReturn
        | simp [Pc.Inner]

theorem waitStep_moves (counter : s.pc i = .wait w p) (taken : waitStep s i w p = some t) : Moves s i t := by
  cases p with
  | mint => cases taken; exact .mint w rfl rfl counter (by simp)
  | enter =>
    cases taken
    simp only [waitEnter]
    split
    · rename_i pass
      exact .enter w rfl rfl counter (by simp [enterNext,pass])
    · rename_i parked
      exact .enter w rfl rfl counter (by simp [enterNext,parked])
    · rename_i full
      exact .enter w rfl rfl counter (by simp [enterNext,full])
  | park => cases taken; exact .sleep w rfl rfl counter (by simp)
  | blocked =>
    obtain ⟨⟨kernel,origin⟩,resumed,rfl⟩ := Option.map_eq_some_iff.mp taken
    exact .resume w origin resumed rfl counter (by simp)
  | leave => cases taken; exact .leave w rfl rfl counter (by simp)

theorem wakeStep_moves (counter : s.pc i = .wake w) : Moves s i (wakeStep s i w) := by
  have kernel := congrArg s.kernel.signalAll (s.table.wake_signalled w.addr w.maxN w.mode)
  simp only [wakeStep]
  split <;> exact .wake w kernel rfl counter (by simpa using not_inner_wakeReturn)

/-- Every step but a spurious return moves the table and the Notifications in one of
the listed ways. -/
theorem step_moves (taken : step T s e = some t) (genuine : e ≠ .spurious e.thread) : Moves s e.thread t := by
  cases e with
  | call i c =>
    simp only [step] at taken
    split at taken
    · rename_i idle
      cases taken
      have before : ∀ w p, s.pc i = .wait w p → p = .mint := by simp [idle]
      unfold callStep
      split <;> exact .other rfl rfl (by simp [Event.thread,idle]) before (by simp [Event.thread,Pc.Inner])
    · cases taken
  | run i =>
    change advance T s i = some t at taken
    change Moves s i t
    unfold advance at taken
    cases counter : s.pc i <;> rw [counter] at taken
    case idle => cases taken
    case lock => cases taken; exact lockStep_moves counter
    case unlock => cases taken; exact unlockStep_moves counter
    case wait => exact waitStep_moves counter taken
    case wake => cases taken; exact wakeStep_moves counter
    all_goals
      cases taken
      have before : ∀ w p, s.pc i = .wait w p → p = .mint := by simp [counter]
      (try simp only [postStep,semLoadStep,semTakeStep])
      (try split_ifs) <;> exact .other rfl rfl (by simp [counter]) before (by simp [Pc.Inner])
  | mintFails i =>
    simp only [step,mintFailsStep] at taken
    split at taken
    · rename_i counter
      split at taken
      · cases taken
      · cases taken
        exact .other rfl rfl (by simp [Event.thread,counter]) (by simp [Event.thread,counter])
          (by simpa [Event.thread] using not_inner_waitReturn)
    · cases taken
  | spurious i => exact absurd rfl genuine

namespace Kernel

variable {k l : Kernel ι} {j n : ι} {ns : List ι}

/-- The Notification of `j` and the signal granted to `j` are the same in `k` and `l`. -/
def Same (k l : Kernel ι) (j : ι) : Prop := l.ntfn j = k.ntfn j ∧ l.grant j = k.grant j

section

omit [DecidableEq ι]

theorem Same.refl : k.Same k j := ⟨rfl,rfl⟩

theorem Same.trans (first : k.Same l j) (second : l.Same p j) : k.Same p j :=
  ⟨second.1.trans first.1,second.2.trans first.2⟩

theorem Same.quiet (same : k.Same l j) (quiet : k.Quiet j) : l.Quiet j := by
  rw [Quiet,same.1,same.2]
  exact quiet

theorem Same.sleeping (same : k.Same l j) (sleeping : k.Sleeping j listed blocked) :
    l.Sleeping j listed blocked := by
  rw [Sleeping,same.1,same.2]
  exact sleeping

theorem Sleeping.queue (sleeping : k.Sleeping n True blocked) :
    (k.ntfn n).queue = [] ∨ (k.ntfn n).queue = [n] := by
  rcases sleeping with ⟨-,-,-,queued | empty⟩ | ⟨unlisted,-⟩
  · exact .inr queued.2
  · exact .inl empty.2
  · exact absurd trivial unlisted

end

theorem signal_same (queue : (k.ntfn n).queue = [] ∨ (k.ntfn n).queue = [n]) (other : j ≠ n) :
    k.Same (k.signal n origin) j := by
  rcases queue with empty | own
  · simp [Same,signal,empty,other]
  · simp [Same,signal,own,other]

/-- Signalling a listed thread leaves the signal where the thread will find it. -/
theorem Sleeping.signal (sleeping : k.Sleeping n True blocked) :
    (k.signal n .wake).Sleeping n False blocked := by
  rcases sleeping with ⟨-,active,grant,⟨isBlocked,queue⟩ | ⟨running,queue⟩⟩ | ⟨unlisted,-⟩
  · exact .inr ⟨id,by simp [Kernel.signal,queue],.inl ⟨isBlocked,by simp [Kernel.signal,queue,active]⟩⟩
  · exact .inr ⟨id,by simp [Kernel.signal,queue],
      .inr ⟨running,by simp [Kernel.signal,queue,grant,active,Origin.merge]⟩⟩
  · exact absurd trivial unlisted

theorem signalAll_spec (blocked : ι → Prop) (nodup : ns.Nodup)
    (listed : ∀ n ∈ ns, k.Sleeping n True (blocked n)) :
    (∀ j, j ∉ ns → k.Same (k.signalAll ns) j) ∧
    ∀ n ∈ ns, (k.signalAll ns).Sleeping n False (blocked n) := by
  induction ns generalizing k with
  | nil => exact ⟨fun _ _ => .refl,fun _ member => by simp at member⟩
  | cons n ns ih =>
    obtain ⟨fresh,nodup⟩ := List.nodup_cons.mp nodup
    have first := listed n (by simp)
    have others : ∀ j, j ≠ n → k.Same (k.signal n .wake) j := fun j other => signal_same first.queue other
    obtain ⟨same,woken⟩ := ih nodup fun j member =>
      (others j (by rintro rfl; exact fresh member)).sleeping (listed j (by simp [member]))
    refine ⟨fun j outside => ?_,fun j member => ?_⟩
    · have apart : j ≠ n ∧ j ∉ ns := by simpa using outside
      exact (others j apart.1).trans (same j apart.2)
    · rcases List.mem_cons.mp member with rfl | rest
      · exact (same j fresh).sleeping first.signal
      · exact woken j rest

end Kernel

omit [DecidableEq ι] in
theorem parkedAt_awake {p : Pc κ} (awake : ¬p.Asleep) : ParkedAt s j p ↔ s.kernel.Quiet j := by
  cases p
  case wait w p => cases p <;> simp_all [Pc.Asleep,ParkedAt]
  all_goals rfl

omit [DecidableEq ι] in
theorem ParkedAt.same {p : Pc κ} (parked : ParkedAt s j p) (kernel : s.kernel.Same t.kernel j)
    (listed : ∀ w q, p = .wait w q → (j ∈ t.table.waiters w.addr ↔ j ∈ s.table.waiters w.addr)) :
    ParkedAt t j p := by
  by_cases asleep : p.Asleep
  · cases p
    case wait w p =>
      have same := propext (listed w p rfl)
      cases p
      case park => rw [ParkedAt,same]; exact kernel.sleeping parked
      case blocked => rw [ParkedAt,same]; exact kernel.sleeping parked
      all_goals exact absurd asleep id
    all_goals exact absurd asleep id
  · rw [parkedAt_awake asleep] at parked ⊢
    exact kernel.quiet parked

namespace Parking

section

omit [DecidableEq ι]

theorem not_listed (parking : Parking s) (awake : ¬(s.pc i).Asleep) : i ∉ s.table.waiters a := by
  intro member
  obtain ⟨w,-,park | blocked⟩ := parking.home a i member
  · exact awake (by simp [park,Pc.Asleep])
  · exact awake (by simp [blocked,Pc.Asleep])

theorem quiet (parking : Parking s) (awake : ¬(s.pc i).Asleep) : s.kernel.Quiet i :=
  (parkedAt_awake awake).mp (parking.at_ i)

/-- A listed thread sleeps with its Notification clear. -/
theorem sleeping (parking : Parking s) (member : j ∈ s.table.waiters a) :
    s.kernel.Sleeping j True (∃ w, s.pc j = .wait w .blocked) := by
  obtain ⟨w,rfl,park | blocked⟩ := parking.home a j member
  · simpa [park,ParkedAt,member] using parking.at_ j
  · simpa [blocked,ParkedAt,member] using parking.at_ j

end

/-- The waiter lists stay and thread `i` is outside `qsoe_sys_wait` before and after. -/
theorem awake (parking : Parking s) (others : ∀ j, j ≠ i → t.pc j = s.pc j) (kernel : t.kernel = s.kernel)
    (waiters : ∀ a, t.table.waiters a = s.table.waiters a) (before : ¬(s.pc i).Asleep)
    (after : ¬(t.pc i).Asleep) : Parking t := by
  refine ⟨fun a => by rw [waiters]; exact parking.nodup a,fun a j member => ?_,fun j => ?_⟩
  · rw [waiters] at member
    have other : j ≠ i := by rintro rfl; exact parking.not_listed before member
    rw [others j other]
    exact parking.home a j member
  · by_cases own : j = i
    · subst own
      rw [parkedAt_awake after,kernel]
      exact parking.quiet before
    · rw [others j own]
      refine (parking.at_ j).same (by rw [kernel]; exact .refl) fun w q _ => ?_
      rw [waiters]

theorem park (parking : Parking s) (others : ∀ j, j ≠ i → t.pc j = s.pc j) (kernel : t.kernel = s.kernel)
    (waiters : ∀ a, t.table.waiters a =
      if a = w.addr then s.table.waiters w.addr ++ [i] else s.table.waiters a)
    (before : s.pc i = .wait w .enter) (after : t.pc i = .wait w .park) : Parking t := by
  have awake : ¬(s.pc i).Asleep := by simp [before,Pc.Asleep]
  have member (a : Addr κ) (j : ι) (other : j ≠ i) : j ∈ t.table.waiters a ↔ j ∈ s.table.waiters a := by
    rw [waiters]
    split_ifs with same
    · simp [same,other]
    · rfl
  refine ⟨fun a => ?_,fun a j listed => ?_,fun j => ?_⟩
  · rw [waiters]
    split_ifs
    · refine List.nodup_append.mpr ⟨parking.nodup _,by simp,?_⟩
      intro x listed y own
      obtain rfl := List.mem_singleton.mp own
      rintro rfl
      exact parking.not_listed awake listed
    · exact parking.nodup a
  · by_cases own : j = i
    · subst own
      rw [waiters] at listed
      split_ifs at listed with same
      · exact ⟨w,same.symm,.inl after⟩
      · exact absurd listed (parking.not_listed awake)
    · rw [others j own]
      exact parking.home a j ((member a j own).mp listed)
  · by_cases own : j = i
    · subst own
      obtain ⟨ntfn,grant⟩ := parking.quiet awake
      simp [after,ParkedAt,waiters,kernel,Kernel.Sleeping,ntfn,grant]
    · rw [others j own]
      exact (parking.at_ j).same (by rw [kernel]; exact .refl) fun v q _ => member v.addr j own

/-- The waiter lists stay, other Notifications stay, and thread `i` moves as its own allows. -/
theorem own (parking : Parking s) (others : ∀ j, j ≠ i → t.pc j = s.pc j) (table : t.table = s.table)
    (kernel : ∀ j, j ≠ i → s.kernel.Same t.kernel j) (before : s.pc i = .wait w p)
    (listed : i ∈ s.table.waiters w.addr → t.pc i = .wait w .blocked) (after : ParkedAt t i (t.pc i)) :
    Parking t := by
  refine ⟨by rw [table]; exact parking.nodup,fun a j member => ?_,fun j => ?_⟩
  · rw [table] at member
    by_cases own : j = i
    · subst own
      obtain ⟨v,rfl,there⟩ := parking.home a j member
      obtain rfl : w = v := by rcases there with h | h <;> rw [before] at h <;> cases h <;> rfl
      exact ⟨w,rfl,.inr (listed member)⟩
    · rw [others j own]
      exact parking.home a j member
  · by_cases own : j = i
    · subst own; exact after
    · rw [others j own]
      exact (parking.at_ j).same (kernel j own) fun v q _ => by rw [table]

theorem sleep (parking : Parking s) (others : ∀ j, j ≠ i → t.pc j = s.pc j)
    (kernel : t.kernel = (s.kernel.wait i i).1) (table : t.table = s.table) (before : s.pc i = .wait w .park)
    (after : t.pc i = .wait w (if (s.kernel.wait i i).2.isSome then .leave else .blocked)) : Parking t := by
  have at_ := parking.at_ i
  rw [before] at at_
  rcases at_ with ⟨member,active,grant,⟨impossible,-⟩ | ⟨-,queue⟩⟩ |
    ⟨absent,queue,⟨impossible,-⟩ | ⟨-,active,grant⟩⟩
  · exact impossible.elim
  · have result : s.kernel.wait i i = (⟨Function.update s.kernel.ntfn i ⟨none,[i]⟩,s.kernel.grant⟩,none) := by
      simp [Kernel.wait,active,queue]
    rw [result] at kernel after
    refine parking.own others table (fun j other => by simp [kernel,Kernel.Same,other]) before
      (fun _ => by simpa using after) ?_
    rw [after]
    exact .inl ⟨by rw [table]; exact member,by simp [kernel],by simp [kernel,grant],
      .inl ⟨trivial,by simp [kernel]⟩⟩
  · exact impossible.elim
  · have result : s.kernel.wait i i =
        (⟨Function.update s.kernel.ntfn i ⟨none,[]⟩,s.kernel.grant⟩,some .wake) := by
      simp [Kernel.wait,active,queue]
    rw [result] at kernel after
    refine parking.own others table (fun j other => by simp [kernel,Kernel.Same,other]) before
      (fun member => absurd member absent) ?_
    rw [after]
    exact ⟨by simp [kernel],by simp [kernel,grant]⟩

theorem resume (parking : Parking s) (others : ∀ j, j ≠ i → t.pc j = s.pc j)
    (kernel : s.kernel.resume i = some (t.kernel,origin)) (table : t.table = s.table)
    (before : s.pc i = .wait w .blocked) (after : t.pc i = .wait w .leave) : Parking t := by
  have at_ := parking.at_ i
  rw [before] at at_
  obtain ⟨granted,found,moved⟩ := Option.map_eq_some_iff.mp kernel
  have kernel : t.kernel = { s.kernel with grant := Function.update s.kernel.grant i none } :=
    (congrArg Prod.fst moved).symm
  rcases at_ with ⟨-,-,grant,-⟩ | ⟨absent,queue,⟨-,active,-⟩ | ⟨running,-⟩⟩
  · simp [grant] at found
  · refine parking.own others table (fun j other => by simp [kernel,Kernel.Same,other]) before
      (fun member => absurd member absent) ?_
    rw [after]
    refine ⟨?_,by simp [kernel]⟩
    rw [kernel]
    exact congrArg₂ Ntfn.mk active queue
  · exact absurd trivial running

theorem wake (parking : Parking s) (others : ∀ j, j ≠ i → t.pc j = s.pc j)
    (kernel : t.kernel = s.kernel.signalAll ((s.table.waiters a).take n))
    (waiters : ∀ b, t.table.waiters b = if b = a then (s.table.waiters a).drop n else s.table.waiters b)
    (before : ¬(s.pc i).Asleep) (after : ¬(t.pc i).Asleep) : Parking t := by
  have nodup := parking.nodup a
  rw [← List.take_append_drop n (s.table.waiters a)] at nodup
  obtain ⟨popped,-,apart⟩ := List.nodup_append.mp nodup
  obtain ⟨same,woken⟩ := Kernel.signalAll_spec (k := s.kernel) _ popped
    fun j member => parking.sleeping (List.mem_of_mem_take member)
  rw [← kernel] at same woken
  have member (b : Addr κ) (j : ι) (left : j ∉ (s.table.waiters a).take n) :
      j ∈ t.table.waiters b ↔ j ∈ s.table.waiters b := by
    rw [waiters]
    split_ifs with there
    · subst there
      conv_rhs => rw [← List.take_append_drop n (s.table.waiters b),List.mem_append]
      simp [left]
    · rfl
  have sub (b : Addr κ) (j : ι) (listed : j ∈ t.table.waiters b) : j ∈ s.table.waiters b := by
    rw [waiters] at listed
    split_ifs at listed with there
    · subst there; exact List.mem_of_mem_drop listed
    · exact listed
  refine ⟨fun b => ?_,fun b j listed => ?_,fun j => ?_⟩
  · rw [waiters]
    split_ifs
    · exact (parking.nodup a).sublist (List.drop_sublist _ _)
    · exact parking.nodup b
  · have listed := sub b j listed
    have other : j ≠ i := by rintro rfl; exact parking.not_listed before listed
    rw [others j other]
    exact parking.home b j listed
  · by_cases own : j = i
    · subst own
      rw [parkedAt_awake after]
      exact (same j fun h => parking.not_listed before (List.mem_of_mem_take h)).quiet (parking.quiet before)
    · rw [others j own]
      by_cases pops : j ∈ (s.table.waiters a).take n
      · obtain ⟨w,rfl,park | blocked⟩ := parking.home a j (List.mem_of_mem_take pops)
        all_goals
          have gone : j ∉ t.table.waiters w.addr := by
            rw [waiters,if_pos rfl]
            exact fun left => apart j pops j left rfl
          have slept := woken j pops
        · simpa [park,ParkedAt,gone] using slept
        · simpa [blocked,ParkedAt,gone] using slept
      · exact (parking.at_ j).same (same j pops) fun w q _ => member w.addr j pops

theorem enter (parking : Parking s) (others : ∀ j, j ≠ i → t.pc j = s.pc j) (kernel : t.kernel = s.kernel)
    (table : t.table = (s.table.enter w.addr w.mode i).1) (before : s.pc i = .wait w .enter)
    (after : t.pc i = enterNext s i w) : Parking t := by
  have waiters := fun a => s.table.waiters_enter w.addr a w.mode i
  simp only [← table] at waiters
  have unslept : ¬(s.pc i).Asleep := by simp [before,Pc.Asleep]
  cases outcome : (s.table.enter w.addr w.mode i).2 with
  | parked =>
    simp only [outcome,and_true] at waiters
    exact parking.park others kernel waiters before (by rw [after,enterNext,outcome])
  | pass =>
    simp only [outcome,reduceCtorEq,and_false,if_false] at waiters
    refine parking.awake others kernel waiters unslept ?_
    rw [after,enterNext,outcome]
    exact fun asleep => not_inner_waitReturn asleep.inner
  | full =>
    simp only [outcome,reduceCtorEq,and_false,if_false] at waiters
    refine parking.awake others kernel waiters unslept ?_
    rw [after,enterNext,outcome]
    exact fun asleep => not_inner_waitReturn asleep.inner

theorem step (parking : Parking s) (taken : Sync.step T s e = some t) (genuine : e ≠ .spurious e.thread) :
    Parking t := by
  have others := (step_frame taken).pc
  cases step_moves taken genuine with
  | other kernel table calm before after =>
    have unslept : ¬(s.pc e.thread).Asleep := by
      intro asleep
      unfold Pc.Asleep at asleep
      split at asleep
      · rename_i counter; cases before _ _ counter
      · rename_i counter; cases before _ _ counter
      · exact asleep
    exact parking.awake others kernel (fun _ => by rw [table]) unslept fun asleep => after asleep.inner
  | mint w kernel table before after =>
    exact parking.awake others kernel (fun _ => by rw [table]) (by simp [before,Pc.Asleep])
      (by simp [after,Pc.Asleep])
  | enter w kernel table before after => exact parking.enter others kernel table before after
  | sleep w kernel table before after => exact parking.sleep others kernel table before after
  | resume w origin kernel table before after => exact parking.resume others kernel table before after
  | leave w kernel table before after =>
    have unslept : ¬(s.pc e.thread).Asleep := by simp [before,Pc.Asleep]
    refine parking.awake others kernel (fun a => ?_) unslept
      (by rw [after]; exact fun asleep => not_inner_waitReturn asleep.inner)
    rw [table,Table.waiters_leave]
    split_ifs with same
    · rw [same,List.erase_of_not_mem (parking.not_listed unslept)]
    · rfl
  | wake w kernel table before after =>
    refine parking.wake others kernel (fun a => ?_) (by simp [before,Pc.Asleep])
      fun asleep => after asleep.inner
    rw [table,Table.waiters_wake]

omit [DecidableEq ι] in
theorem initial (objects : κ → SyncT) (minted : ι → Bool) : Parking (start objects minted) where
  nodup a := by simp [start]
  home a j member := by simp [start] at member
  at_ j := ⟨rfl,rfl⟩

end Parking

end Qsoe.Sync
