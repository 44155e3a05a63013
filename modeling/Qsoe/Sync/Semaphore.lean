import Mathlib.Data.Fintype.Basic
import Qsoe.Sync.Handoff

/-! `SyncSemPost` and the blocking `SyncSemWait_r` on one object. The counter never goes
wrong; a post is lost when it finds the counter positive while a thread is committed
to wait, because only the post that finds it empty wakes anybody. -/
namespace Qsoe.Sync.Semaphore

variable {κ ι : Type} [DecidableEq κ] [DecidableEq ι] {T : Threads ι} {s t : State κ ι} {i j : ι} {o : κ}

def address (o : κ) : Addr κ := ⟨o,.count⟩

/-- Only `SyncSemPost` and `SyncSemWait_r` with `try_only` 0 are called, on `o`. -/
def Calls (o : κ) : Event κ ι → Prop
  | .call _ (.semPost (some o')) | .call _ (.semWait (some o') false) => o' = o
  | .run _ | .mintFails _ => True
  | _ => False

instance (o : κ) : ∀ e : Event κ ι, Decidable (Calls o e)
  | .call _ (.semPost (some o')) | .call _ (.semWait (some o') false) => inferInstanceAs (Decidable (o' = o))
  | .run _ | .mintFails _ => isTrue trivial
  | .spurious _ | .call _ (.semPost none) | .call _ (.semWait none _) | .call _ (.semWait (some _) true)
  | .call _ (.condvarWait _ _) | .call _ (.condvarSignal _ _) | .call _ (.mutexLock _)
  | .call _ (.mutexUnlock _) | .call _ (.destroy _) => isFalse id

/-- The counter is positive, no credit or signal is pending, every thread is idle or
asleep, and one is asleep. -/
structure Stuck (o : κ) (s : State κ ι) : Prop where
  positive : 0 < s.count o
  credit : s.table.credit (address o) = 0
  pending : ∀ j, Sleeps s j → (s.kernel.ntfn j).active = none
  rest : ∀ j, s.pc j = .idle ∨ Sleeps s j
  asleep : ∃ j, Sleeps s j

instance [Fintype ι] (o : κ) (s : State κ ι) : Decidable (Stuck o s) :=
  decidable_of_iff (0 < s.count o ∧ s.table.credit (address o) = 0 ∧
    (∀ j, Sleeps s j → (s.kernel.ntfn j).active = none) ∧ (∀ j, s.pc j = .idle ∨ Sleeps s j) ∧ ∃ j, Sleeps s j)
    ⟨fun ⟨positive,credit,pending,rest,asleep⟩ => ⟨positive,credit,pending,rest,asleep⟩,
      fun ⟨positive,credit,pending,rest,asleep⟩ => ⟨positive,credit,pending,rest,asleep⟩⟩

def NoBurst (o : κ) (s : State κ ι) : Event κ ι → Prop
  | .run i => s.pc i = .postAdd o → 0 < s.count o → ∀ j, ¬Committed (address o) s j
  | _ => True

instance [Fintype ι] (o : κ) (s : State κ ι) : ∀ e, Decidable (NoBurst o s e)
  | .run i => inferInstanceAs (Decidable (s.pc i = .postAdd o → 0 < s.count o → ∀ j, ¬Committed (address o) s j))
  | .call _ _ | .mintFails _ | .spurious _ => isTrue trivial

/-- A step of a run of the two calls on `o` that meets the condition above. -/
def Allowed (o : κ) (s : State κ ι) (e : Event κ ι) : Prop := Calls o e ∧ NoBurst o s e

instance [Fintype ι] (o : κ) (s : State κ ι) (e : Event κ ι) : Decidable (Allowed o s e) :=
  inferInstanceAs (Decidable (_ ∧ _))

def Confined (o : κ) : Pc κ → Prop
  | .idle => True
  | .postAdd o' => o' = o
  | .semLoad o' tryOnly => o' = o ∧ tryOnly = false
  | .semTake o' tryOnly c => o' = o ∧ tryOnly = false ∧ 0 < c
  | .wait w _ => w = .sem o
  | .wake w => w = .post o
  | _ => False

def Active (o : κ) (s : State κ ι) (j : ι) : Prop :=
  s.pc j = .semLoad o false ∨ (∃ c, s.pc j = .semTake o false c) ∨ s.pc j = .wait (.sem o) .leave ∨
  ((s.pc j = .wait (.sem o) .park ∨ s.pc j = .wait (.sem o) .blocked) ∧ j ∉ s.table.waiters (address o))

inductive Counts (o : κ) (s : State κ ι) (i : ι) (t : State κ ι) : Prop where
  | keep (count : t.count o = s.count o) (posts : t.posts o = s.posts o) (takes : t.takes o = s.takes o)
      (mint : ∀ w, t.pc i = .wait w .mint → s.count o ≤ 0)
      (active : 0 < s.count o → Active o s i → Active o t i)
  | post (before : s.pc i = .postAdd o) (count : t.count o = s.count o + 1) (posts : t.posts o = s.posts o + 1)
      (takes : t.takes o = s.takes o) (wake : s.count o < 1 → t.pc i = .wake (.post o))
      (after : ∀ w, t.pc i ≠ .wait w .mint)
  | take (before : s.pc i = .semTake o false (s.count o)) (count : t.count o = s.count o - 1)
      (posts : t.posts o = s.posts o) (takes : t.takes o = s.takes o + 1) (after : t.pc i = .idle)

structure Effect (o : κ) (s : State κ ι) (i : ι) (t : State κ ι) : Prop where
  confined : Confined o (t.pc i)
  counts : Counts o s i t

theorem waitStep_effect (counter : s.pc i = .wait (.sem o) p) (taken : waitStep s i (.sem o) p = some t) :
    Effect o s i t := by
  have frame := Frame.waitStep taken
  have count := frame.count o (by simp)
  have posts := frame.posts o (by simp)
  have takes := frame.takes o (by simp)
  cases p with
  | mint =>
    cases taken
    exact ⟨by simp [Confined],.keep count posts takes (by simp) (by simp [Active,counter])⟩
  | enter =>
    cases taken
    revert count posts takes
    simp only [waitEnter]
    split
    all_goals
      intro count posts takes
      exact ⟨by simp [Confined,waitReturn,Next.pc],.keep count posts takes (by simp [waitReturn,Next.pc])
        (by simp [Active,counter])⟩
  | park =>
    cases taken
    refine ⟨by simp [Confined],.keep count posts takes (by simp; split <;> simp) fun _ active => ?_⟩
    have popped : i ∉ s.table.waiters (address o) := by simpa [Active,counter] using active
    by_cases signalled : (s.kernel.wait i i).2.isSome = true
    · exact .inr (.inr (.inl (by simp [signalled])))
    · exact .inr (.inr (.inr ⟨.inr (by simp [signalled]),popped⟩))
  | blocked =>
    obtain ⟨result,-,rfl⟩ := Option.map_eq_some_iff.mp taken
    exact ⟨by simp [Confined],.keep count posts takes (by simp) fun _ _ => .inr (.inr (.inl (by simp)))⟩
  | leave =>
    cases taken
    exact ⟨by simp [Confined,waitReturn,Next.pc],.keep count posts takes (by simp [waitReturn,Next.pc])
      fun _ _ => .inl (by simp [waitReturn,Next.pc])⟩

theorem advance_effect (confined : Confined o (s.pc i)) (taken : advance T s i = some t) : Effect o s i t := by
  unfold advance at taken
  cases counter : s.pc i <;> rw [counter] at taken confined
  case idle => cases taken
  case wait => obtain rfl := confined; exact waitStep_effect counter taken
  case wake =>
    obtain rfl := confined
    cases taken
    have frame := Frame.wakeStep (s := s) (i := i) (w := .post o)
    have count := frame.count o (by simp)
    have posts := frame.posts o (by simp)
    have takes := frame.takes o (by simp)
    revert count posts takes
    simp only [wakeStep]
    split
    all_goals
      intro count posts takes
      exact ⟨by simp [Confined,wakeReturn,Next.pc],.keep count posts takes (by simp [wakeReturn,Next.pc])
        (by simp [Active,counter])⟩
  case postAdd =>
    obtain rfl := confined
    cases taken
    simp only [postStep]
    split_ifs with empty
    · exact ⟨by simp [Confined],.post counter (by simp) (by simp) rfl (by simp) (by simp)⟩
    · exact ⟨by simp [Confined],.post counter (by simp) (by simp) rfl (fun low => absurd low empty) (by simp)⟩
  case semLoad =>
    obtain ⟨rfl,rfl⟩ := confined
    cases taken
    simp only [semLoadStep]
    split_ifs with positive impossible
    · exact ⟨by simpa [Confined] using positive,.keep rfl rfl rfl (by simp) fun _ _ => .inr (.inl ⟨_,by simp; rfl⟩)⟩
    · exact absurd impossible (by simp)
    · exact ⟨by simp [Confined],.keep rfl rfl rfl (fun _ _ => by omega) fun high => absurd high positive⟩
  case semTake =>
    obtain ⟨rfl,rfl,positive⟩ := confined
    cases taken
    simp only [semTakeStep]
    split_ifs with unchanged
    · subst unchanged
      exact ⟨by simp [Confined],.take counter (by simp) rfl (by simp) (by simp)⟩
    · exact ⟨by simp [Confined],.keep rfl rfl rfl (by simp) fun _ _ => .inl (by simp)⟩
  all_goals exact confined.elim

theorem step_effect (confined : ∀ j, Confined o (s.pc j)) (calls : Calls o e) (taken : step T s e = some t) :
    Effect o s e.thread t := by
  cases e with
  | call i c =>
    simp only [step] at taken
    split at taken
    · rename_i idle
      cases taken
      have inactive : ¬Active o s i := by simp [Active,idle]
      unfold Calls at calls
      split at calls
      · rename_i call
        cases call
        exact ⟨by simp [Event.thread,callStep,Confined,calls],.keep rfl rfl rfl (by simp [Event.thread,callStep])
          fun _ active => absurd active inactive⟩
      · rename_i call
        cases call
        exact ⟨by simp [Event.thread,callStep,Confined,calls],.keep rfl rfl rfl (by simp [Event.thread,callStep])
          fun _ active => absurd active inactive⟩
      all_goals first
        | exact calls.elim
        | rename_i call; cases call
    · cases taken
  | run i => exact advance_effect (confined i) taken
  | mintFails i =>
    have confined := confined i
    simp only [step,mintFailsStep] at taken
    split at taken
    · rename_i counter
      rw [counter] at confined
      obtain rfl := confined
      split at taken
      · cases taken
      · cases taken
        exact ⟨by simp [Event.thread,Confined,waitReturn,Next.pc],
          .keep rfl rfl rfl (by simp [Event.thread,waitReturn,Next.pc])
            (by simp [Event.thread,Active,counter])⟩
    · cases taken
  | spurious i => exact calls.elim

structure Counting (o : κ) (c0 : Int) (s : State κ ι) : Prop where
  confined : ∀ j, Confined o (s.pc j)
  balance : s.count o + s.takes o = c0 + s.posts o
  nonneg : 0 ≤ s.count o

theorem Counting.step (counting : Counting o c0 s) (calls : Calls o e) (taken : Sync.step T s e = some t) :
    Counting o c0 t := by
  obtain ⟨confined,counts⟩ := step_effect counting.confined calls taken
  have balance := counting.balance
  have nonneg := counting.nonneg
  have everywhere : ∀ j, Confined o (t.pc j) := by
    intro j
    by_cases own : j = e.thread
    · rw [own]; exact confined
    · rw [(step_frame taken).pc j own]; exact counting.confined j
  cases counts with
  | keep count posts takes mint active =>
    exact ⟨everywhere,by rw [count,posts,takes]; exact balance,by rw [count]; exact nonneg⟩
  | post before count posts takes wake after =>
    exact ⟨everywhere,by rw [count,posts,takes]; push_cast; omega,by rw [count]; omega⟩
  | take before count posts takes after =>
    have positive : 0 < s.count o := by
      have confined := counting.confined e.thread
      rw [before] at confined
      exact confined.2.2
    exact ⟨everywhere,by rw [count,posts,takes]; push_cast; omega,by rw [count]; omega⟩

omit [DecidableEq κ] [DecidableEq ι] in
theorem Counting.initial {objects : κ → SyncT} (minted : ι → Bool) (nonneg : 0 ≤ (objects o).count) :
    Counting o (objects o).count (start objects minted : State κ ι) where
  confined _ := trivial
  balance := rfl
  nonneg := nonneg

structure Invariant (o : κ) (c0 : Int) (s : State κ ι) : Prop extends Counting o c0 s where
  parking : Parking s
  alone : ∀ b, b ≠ address o → s.table.entry b = none
  low : ∀ j, Committed (address o) s j → s.count o ≤ 1
  owed : 0 < s.count o → ∀ j, Committed (address o) s j → Pending (address o) s ∨ ∃ k, Active o s k

omit [DecidableEq κ] [DecidableEq ι] in
theorem entry_address (confined : ∀ j, Confined o (s.pc j)) (e : Event κ ι) (other : b ≠ address o) :
    e.entry s ≠ some b := by
  cases e with
  | run i =>
    have confined := confined i
    simp only [Event.entry]
    cases counter : s.pc i <;> rw [counter] at confined
    case wait w p =>
      obtain rfl := confined
      cases p
      case enter => exact fun same => other (Option.some.inj same).symm
      case leave => exact fun same => other (Option.some.inj same).symm
      all_goals simp [Pc.entry]
    case wake w =>
      obtain rfl := confined
      exact fun same => other (Option.some.inj same).symm
    all_goals simp [Pc.entry]
  | call i c => simp [Event.entry]
  | mintFails i => simp [Event.entry]
  | spurious i => simp [Event.entry]

omit [DecidableEq ι] in
theorem Active.of_released (confined : ∀ j, Confined o (s.pc j)) (released : Released (address o) s j) :
    Active o s j := by
  have confined := confined j
  rcases released with ⟨w,addr,asleep,gone⟩ | ⟨w,errno,addr,returned⟩
  · obtain rfl : w = .sem o := by rcases asleep with h | h <;> rw [h] at confined <;> exact confined
    exact .inr (.inr (.inr ⟨asleep,gone⟩))
  · cases w with
    | lock m k => cases addr
    | cond c m seen => rw [returned] at confined; exact confined.elim
    | sem o' =>
      cases addr
      exact .inl returned

theorem Active.other (active : Active o s j) (moves : Moves s i t) (other : j ≠ i) (same : t.pc j = s.pc j) :
    Active o t j := by
  unfold Active at active ⊢
  rw [same]
  rcases active with load | take | leave | ⟨asleep,gone⟩
  · exact .inl load
  · exact .inr (.inl take)
  · exact .inr (.inr (.inl leave))
  · exact .inr (.inr (.inr ⟨asleep,fun member => gone (listed_step moves other member)⟩))

theorem Invariant.step (invariant : Invariant o c0 s) (allowed : Allowed o s e)
    (taken : Sync.step T s e = some t) : Invariant o c0 t := by
  obtain ⟨calls,burst⟩ := allowed
  have genuine : e ≠ .spurious e.thread := by
    intro spurious
    rw [spurious] at calls
    exact calls
  have frame := step_frame taken
  have moves := step_moves taken genuine
  have counting := invariant.toCounting.step calls taken
  have quiet : s.pc e.thread = .postAdd o → 0 < s.count o → ∀ j, ¬Committed (address o) s j := by
    intro posting
    cases e with
    | run i => exact burst posting
    | call i c => simp only [Event.thread] at posting; simp [Sync.step,posting] at taken
    | mintFails i => simp only [Event.thread] at posting; simp [Sync.step,mintFailsStep,posting] at taken
    | spurious i => exact absurd rfl genuine
  obtain ⟨-,counts⟩ := step_effect invariant.confined calls taken
  refine ⟨counting,invariant.parking.step taken genuine,fun b other => ?_,fun j committed => ?_,
    fun positive j committed => ?_⟩
  · rw [frame.entry b (entry_address invariant.confined e other)]
    exact invariant.alone b other
  · cases counts with
    | keep count posts takes mint active =>
      rw [count]
      rcases committed_step moves frame.pc committed with before | ⟨-,w,-,entered⟩
      · exact invariant.low j before
      · have := mint w entered; omega
    | post before count posts takes wake after =>
      rcases committed_step moves frame.pc committed with waited | ⟨-,w,-,entered⟩
      · have : ¬0 < s.count o := fun high => quiet before high j waited
        omega
      · exact absurd entered (after w)
    | take before count posts takes after =>
      rcases committed_step moves frame.pc committed with waited | ⟨-,w,-,entered⟩
      · have := invariant.low j waited; omega
      · rw [after] at entered; cases entered
  · cases counts with
    | keep count posts takes mint active =>
      rw [count] at positive
      rcases committed_step moves frame.pc committed with before | ⟨-,w,-,entered⟩
      · rcases invariant.owed positive j before with pending | ⟨k,running⟩
        · have absorbing : ∀ w, s.pc e.thread = .wake w → w.addr = address o → w.mode = .absorb := by
            intro w counter _
            have confined := invariant.confined e.thread
            rw [counter] at confined
            obtain rfl := confined
            rfl
          rcases pending_step invariant.parking moves frame.pc (Table.room_of_alone _ invariant.alone) absorbing
            pending with pending | ⟨k,-,-,released⟩
          · exact .inl pending
          · exact .inr ⟨k,.of_released counting.confined released⟩
        · by_cases own : k = e.thread
          · subst own
            exact .inr ⟨_,active positive running⟩
          · exact .inr ⟨k,running.other moves own (frame.pc k own)⟩
      · have := mint w entered; omega
    | post before count posts takes wake after =>
      rcases committed_step moves frame.pc committed with waited | ⟨-,w,-,entered⟩
      · have low : ¬0 < s.count o := fun high => quiet before high j waited
        exact .inl (.inr ⟨_,_,wake (by omega),rfl⟩)
      · exact absurd entered (after w)
    | take before count posts takes after =>
      rcases committed_step moves frame.pc committed with waited | ⟨-,w,-,entered⟩
      · have := invariant.low j waited; omega
      · rw [after] at entered; cases entered

omit [DecidableEq ι] in
theorem Invariant.initial {objects : κ → SyncT} (minted : ι → Bool) (nonneg : 0 ≤ (objects o).count) :
    Invariant o (objects o).count (start objects minted : State κ ι) where
  toCounting := .initial minted nonneg
  parking := .initial objects minted
  alone b _ := by simp [start]
  low j committed := by simp [start,Committed] at committed
  owed _ j committed := by simp [start,Committed] at committed

omit [DecidableEq ι] in
theorem Invariant.not_stuck (invariant : Invariant o c0 s) : ¬Stuck o s := by
  intro stuck
  obtain ⟨j,sleeps⟩ := stuck.asleep
  obtain ⟨w,counter,committed⟩ := sleeps.committed invariant.parking
  have confined := invariant.confined j
  rw [counter] at confined
  obtain rfl := confined
  rcases invariant.owed stuck.positive j committed with (stored | ⟨k,w,waking,-⟩) | ⟨k,running⟩
  · exact absurd stuck.credit (Nat.pos_iff_ne_zero.mp stored)
  · rcases stuck.rest k with idle | ⟨⟨v,blocked⟩,-⟩
    · rw [waking] at idle; cases idle
    · rw [waking] at blocked; cases blocked
  · rcases stuck.rest k with idle | resting
    · simp [Active,idle] at running
    · obtain ⟨v,blocked,listed⟩ := resting.committed invariant.parking
      have confined := invariant.confined k
      rw [blocked] at confined
      obtain rfl := confined
      simp only [Committed,blocked] at listed
      have gone : k ∉ s.table.waiters (address o) := by simpa [Active,blocked] using running
      exact gone listed.2

/-- Waits never outnumber the initial count and the posts, and the counter is never
negative. If in addition no post adds to a positive counter while a thread is committed
to wait, no thread sleeps on a positive counter with nothing left to wake it. -/
theorem posts_and_waits (T : Threads ι) (objects : κ → SyncT) (minted : ι → Bool) (nonneg : 0 ≤ (objects o).count) :
    (∀ es s, Lts.Run (step T) (fun _ e => Calls o e) (start objects minted) es s →
      (s.takes o : Int) ≤ (objects o).count + s.posts o ∧ 0 ≤ s.count o) ∧
    ∀ es s, Lts.Run (step T) (Allowed o) (start objects minted) es s → ¬Stuck o s := by
  refine ⟨fun es s run => ?_,fun es s run => ?_⟩
  · have counting := run.invariant (Counting o (objects o).count)
      (fun _ _ _ counting calls taken => counting.step calls taken) (.initial minted nonneg)
    have balance := counting.balance
    have positive := counting.nonneg
    exact ⟨by omega,positive⟩
  · exact (run.invariant (Invariant o (objects o).count)
      (fun _ _ _ invariant allowed taken => invariant.step allowed taken) (.initial minted nonneg)).not_stuck

def empty : Fin 1 → SyncT := fun _ => ⟨0,0⟩

/-- Thread `a` sleeps on the empty semaphore and thread `p` posts. -/
def single (a p : ι) (o : κ) : List (Event κ ι) := List.flatten
  [[.call a (.semWait (some o) false)],Event.runs a 4,[.call p (.semPost (some o))],Event.runs p 2,Event.runs a 4]

theorem posts_and_waits_single : ∃ s : State (Fin 1) (Fin 3),
    Lts.Run (step three) (Allowed 0) (start empty fun _ => true) (single 0 2 0) s ∧ s.ret 0 = some .zero ∧
    (s.takes 0 : Int) ≤ (empty 0).count + s.posts 0 ∧ ¬Stuck 0 s := by
  obtain ⟨s,run,returned⟩ := Lts.Run.exists_of_replay (step three) (Allowed 0) (start empty fun _ => true)
    (single 0 2 0) (fun s => s.ret 0 = some .zero) (by decide +kernel)
  obtain ⟨counter,wakeups⟩ := posts_and_waits (o := 0) three empty (fun _ => true) (by decide)
  exact ⟨s,run,returned,(counter _ _ (run.mono fun _ _ allowed => allowed.1)).1,wakeups _ _ run⟩

/-- Threads `a` and `b` sleep on the empty semaphore; thread `p` posts twice before either
runs, and the second post wakes nobody. -/
def burst (a b p : ι) (o : κ) : List (Event κ ι) := List.flatten
  [[.call a (.semWait (some o) false)],Event.runs a 4,[.call b (.semWait (some o) false)],Event.runs b 4,
    [.call p (.semPost (some o))],Event.runs p 2,[.call p (.semPost (some o))],Event.runs p 1,Event.runs a 4]

theorem second_post_lost : ∃ s : State (Fin 1) (Fin 3),
    Lts.Run (step three) (fun _ e => Calls 0 e) (start empty fun _ => true) (burst 0 1 2 0) s ∧ Stuck 0 s :=
  Lts.Run.exists_of_replay (step three) (fun _ e => Calls 0 e) (start empty fun _ => true) (burst 0 1 2 0) (Stuck 0)
    (by decide +kernel)

end Qsoe.Sync.Semaphore
