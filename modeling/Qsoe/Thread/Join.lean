import Mathlib.Data.Fintype.Basic
import Qsoe.Thread.Machine

/-! When `ThreadJoin` waits for the exit of its target. The Notification of a thread carries
the wakes of its own parking and the exit its joiner waits for, and a signal does not say
which it is. A join is sound in a run where the two uses never meet: whoever is first in
the queue of a listed thread is the thread itself. -/
namespace Qsoe.Thread.Join

open Sync (Origin Kernel Threads Addr three)

variable {κ ι : Type} [DecidableEq κ] [DecidableEq ι] {T : Threads ι} {main : ι} {s t : State κ ι} {i j x : ι}

/-- On the waiter list of some address. -/
def Listed (s : State κ ι) (x : ι) : Prop := ∃ a, x ∈ s.sync.table.waiters a

/-- Blocked in the `qsoe_sys_wait` of `sync_wait_impl`. -/
def Asleep (s : State κ ι) (j : ι) : Prop := ∃ w, s.sync.pc j = .wait w .blocked

def ParksAlone (s : Sync.State κ ι) (i : ι) : Sync.Pc κ → Prop
  | .wait w .enter => (s.table.enter w.addr w.mode i).2 = .parked → (s.kernel.ntfn i).queue = []
  | _ => True

/-- A joiner waits only while no wake of its target is pending and a listed target is already
queued ahead of it; a listed thread is destroyed only while no joiner is queued on it. -/
def JoinsApart (s : State κ ι) : Pc ι → Prop
  | .joinWait x => (s.sync.kernel.ntfn x).active ≠ some .wake ∧ (Listed s x → x ∈ (s.sync.kernel.ntfn x).queue)
  | .destroySignal x | .destroySuspend x => Listed s x → ∀ j ∈ (s.sync.kernel.ntfn x).queue, j = x
  | _ => True

/-- The two uses of a Notification do not meet at this step, and Notification waits return
when signalled. -/
def Apart (s : State κ ι) : Event κ ι → Prop
  | .sync e => e ≠ .spurious e.thread ∧ ParksAlone s.sync e.thread (s.sync.pc e.thread)
  | .run i => JoinsApart s (s.pc i)
  | .call _ _ => True

instance [Fintype κ] (s : State κ ι) (x : ι) : Decidable (Listed s x) :=
  decidable_of_iff (∃ o, x ∈ s.sync.table.waiters ⟨o,.owner⟩ ∨ x ∈ s.sync.table.waiters ⟨o,.count⟩)
    ⟨fun ⟨o,member⟩ => member.elim (fun h => ⟨_,h⟩) (fun h => ⟨_,h⟩),fun ⟨a,member⟩ => ⟨a.obj,by
      rcases a with ⟨o,_ | _⟩
      · exact .inl member
      · exact .inr member⟩⟩

instance (s : Sync.State κ ι) (i : ι) : ∀ p, Decidable (ParksAlone s i p)
  | .wait _ .enter => inferInstanceAs (Decidable (_ → _))
  | .wait _ .mint | .wait _ .park | .wait _ .blocked | .wait _ .leave | .idle | .lock _ _ _
  | .unlock _ _ _ | .wake _
  | .condLoad _ _ | .signalAdd _ _ | .postAdd _ | .semLoad _ _ | .semTake _ _ _
  | .destroyCount _ | .destroyOwner _ =>
    isTrue trivial

instance [Fintype κ] (s : State κ ι) : ∀ p, Decidable (JoinsApart s p)
  | .joinWait _ => inferInstanceAs (Decidable (_ ∧ _))
  | .destroySignal x | .destroySuspend x =>
    inferInstanceAs (Decidable (Listed s x → ∀ j ∈ (s.sync.kernel.ntfn x).queue, j = x))
  | .idle | .joinLookup _ | .joinDetached _ | .joinNtfn _ | .joinBlocked _ | .joinStatus _ _ | .joinReap _ _
  | .destroyLookup _ _ | .destroyStatus _ _ | .destroyExited _ | .destroyTest _ | .detachLookup _ | .detachStore _
  | .detachTest _ => isTrue trivial

instance [Fintype κ] (s : State κ ι) : ∀ e, Decidable (Apart s e)
  | .sync _ => inferInstanceAs (Decidable (_ ∧ _))
  | .run i => inferInstanceAs (Decidable (JoinsApart s (s.pc i)))
  | .call _ _ => isTrue trivial

/-- What a join holds once it has consumed a signal of the Notification of `x`. -/
def Pc.Consumed (x : ι) (origin : Origin) : Pc ι → Prop
  | .joinStatus y o | .joinReap y o => y = x ∧ o = origin
  | _ => False

instance (x : ι) (origin : Origin) : ∀ p, Decidable (Pc.Consumed x origin p)
  | .joinStatus y o | .joinReap y o => inferInstanceAs (Decidable (y = x ∧ o = origin))
  | .idle | .joinLookup _ | .joinDetached _ | .joinNtfn _ | .joinWait _ | .joinBlocked _ | .destroyLookup _ _
  | .destroyStatus _ _ | .destroyExited _ | .destroyTest _ | .destroySignal _ | .destroySuspend _ | .detachLookup _
  | .detachStore _ | .detachTest _ => isFalse id

/-- Past the store to `exited` in `ThreadDestroy`. -/
def Pc.Ending (x : ι) : Pc ι → Prop
  | .destroyTest y | .destroySignal y | .destroySuspend y => y = x
  | _ => False

structure Bells (pc : ι → Pc ι) (asleep listed : ι → Prop) (exited : ι → Bool) (k : Kernel ι) : Prop where
  queued : ∀ n, ∀ j ∈ (k.ntfn n).queue, pc j = .joinBlocked n ∨ j = n ∧ asleep j
  one : ∀ j n, asleep j → pc j ≠ .joinBlocked n
  nodup : ∀ n, (k.ntfn n).queue.Nodup
  held : ∀ j, k.grant j ≠ none → (∀ n, j ∉ (k.ntfn n).queue) ∧ (asleep j ∨ ∃ n, pc j = .joinBlocked n)
  granted : ∀ j n origin, pc j = .joinBlocked n → k.grant j = some origin → origin = .exit ∧ exited n = true
  pending : ∀ n, (k.ntfn n).active = some .exit → exited n = true
  front : ∀ n, listed n → ∀ j ∈ (k.ntfn n).queue.head?, j = n

structure Invariant (s : State κ ι) : Prop where
  nodup : ∀ a, (s.sync.table.waiters a).Nodup
  home : ∀ a, ∀ j ∈ s.sync.table.waiters a, ∃ w p, s.sync.pc j = .wait w p ∧ w.addr = a ∧ p ≠ .mint ∧ p ≠ .enter
  apart : ∀ j, s.sync.pc j ≠ .idle → s.pc j = .idle
  bells : Bells s.pc (Asleep s) (Listed s) s.exited s.sync.kernel
  consumed : ∀ j n origin, Pc.Consumed n origin (s.pc j) → origin = .exit ∧ s.exited n = true
  ending : ∀ j n, Pc.Ending n (s.pc j) → s.exited n = true

namespace Bells

variable {pc pc' : ι → Pc ι} {asleep asleep' listed listed' : ι → Prop} {exited exited' : ι → Bool} {k : Kernel ι}

section

omit [DecidableEq ι]

theorem outside (bells : Bells pc asleep listed exited k) (join : ∀ n, pc i ≠ .joinBlocked n) (awake : ¬asleep i)
    (n : ι) : i ∉ (k.ntfn n).queue := by
  intro member
  rcases bells.queued n i member with blocked | ⟨-,slept⟩
  · exact join n blocked
  · exact awake slept

theorem ungranted (bells : Bells pc asleep listed exited k) (join : ∀ n, pc i ≠ .joinBlocked n)
    (awake : ¬asleep i) : k.grant i = none := by
  by_contra granted
  rcases (bells.held i granted).2 with slept | ⟨n,blocked⟩
  · exact awake slept
  · exact join n blocked

/-- A thread is in the queue of one Notification only. -/
theorem home (bells : Bells pc asleep listed exited k) (first : j ∈ (k.ntfn n).queue)
    (second : j ∈ (k.ntfn m).queue) : m = n := by
  rcases bells.queued n j first with blocked | ⟨rfl,slept⟩
  · rcases bells.queued m j second with blocked' | ⟨-,slept⟩
    · rw [blocked] at blocked'
      cases blocked'
      rfl
    · exact absurd blocked (bells.one j n slept)
  · rcases bells.queued m j second with blocked | ⟨rfl,-⟩
    · exact absurd blocked (bells.one j m slept)
    · rfl

/-- The Notifications stay, and nobody starts or stops being blocked. -/
theorem keep (bells : Bells pc asleep listed exited k) (joins : ∀ j n, pc' j = .joinBlocked n ↔
    pc j = .joinBlocked n)
    (sleeps : ∀ j, asleep' j ↔ asleep j) (lists : ∀ n, listed' n → listed n ∨ (k.ntfn n).queue = [])
    (exits : ∀ n, exited n = true → exited' n = true) : Bells pc' asleep' listed' exited' k where
  queued n j member := by
    rw [joins,sleeps]
    exact bells.queued n j member
  one j n slept := by
    rw [ne_eq,joins]
    exact bells.one j n ((sleeps j).mp slept)
  nodup := bells.nodup
  held j granted := by
    simp only [joins,sleeps]
    exact bells.held j granted
  granted j n origin blocked granted := by
    obtain ⟨exit,ended⟩ := bells.granted j n origin ((joins j n).mp blocked) granted
    exact ⟨exit,exits n ended⟩
  pending n active := exits n (bells.pending n active)
  front n member j first := by
    rcases lists n member with listed | empty
    · exact bells.front n listed j first
    · simp [empty] at first

end

theorem consume (bells : Bells pc asleep listed exited k) (active : (k.ntfn n).active = some origin) :
    Bells pc asleep listed exited (k.wait n i).1 := by
  have queue (m : ι) : ((k.wait n i).1.ntfn m).queue = (k.ntfn m).queue := by
    by_cases same : m = n
    · subst same; simp [Kernel.wait,active]
    · simp [Kernel.wait,active,same]
  have grant : (k.wait n i).1.grant = k.grant := by simp [Kernel.wait,active]
  refine ⟨?_,bells.one,?_,?_,?_,fun m still => ?_,?_⟩
  · simpa only [queue] using bells.queued
  · simpa only [queue] using bells.nodup
  · simpa only [queue,grant] using bells.held
  · simpa only [grant] using bells.granted
  · by_cases same : m = n
    · subst same; simp [Kernel.wait,active] at still
    · exact bells.pending m (by simpa [Kernel.wait,active,same] using still)
  · simpa only [queue] using bells.front

/-- Thread `i` starts to block on the Notification of `n`. -/
theorem block (bells : Bells pc asleep listed exited k) (active : (k.ntfn n).active = none)
    (others : ∀ j, j ≠ i → pc' j = pc j ∧ (asleep' j ↔ asleep j)) (join : ∀ n, pc i ≠ .joinBlocked n)
    (awake : ¬asleep i) (blocked : pc' i = .joinBlocked n ∧ ¬asleep' i ∨ i = n ∧ asleep' i ∧ pc' i = .idle)
    (room : listed n → n ∈ (k.ntfn n).queue ∨ i = n ∧ (k.ntfn n).queue = []) :
    Bells pc' asleep' listed exited (k.wait n i).1 := by
  have out := bells.outside join awake
  have queue (m : ι) : ((k.wait n i).1.ntfn m).queue = if m = n then (k.ntfn n).queue ++ [i] else
    (k.ntfn m).queue := by
    by_cases same : m = n
    · subst same; simp [Kernel.wait,active]
    · simp [Kernel.wait,active,same]
  have grant : (k.wait n i).1.grant = k.grant := by simp [Kernel.wait,active]
  have before (m j : ι) (other : j ≠ i) (member : j ∈ ((k.wait n i).1.ntfn m).queue) : j ∈ (k.ntfn m).queue := by
    rw [queue] at member
    split_ifs at member with same
    · subst same; simpa [other] using member
    · exact member
  refine ⟨fun m j member => ?_,fun j m slept => ?_,fun m => ?_,fun j granted =>
    ?_,fun j m origin joins granted => ?_,
    fun m still => ?_,fun m member j first => ?_⟩
  · by_cases own : j = i
    · subst own
      obtain rfl : m = n := by
        by_contra other
        rw [queue,if_neg other] at member
        exact out m member
      rcases blocked with ⟨joins,-⟩ | ⟨self,slept,-⟩
      · exact .inl joins
      · exact .inr ⟨self,slept⟩
    · rw [(others j own).1,(others j own).2]
      exact bells.queued m j (before m j own member)
  · by_cases own : j = i
    · subst own
      rcases blocked with ⟨-,not⟩ | ⟨-,-,idle⟩
      · exact absurd slept not
      · simp [idle]
    · rw [(others j own).1]
      exact bells.one j m ((others j own).2.mp slept)
  · rw [queue]
    split_ifs
    · exact List.nodup_append.mpr ⟨bells.nodup n,by simp,by
        intro x member y own
        obtain rfl := List.mem_singleton.mp own
        rintro rfl
        exact out n member⟩
    · exact bells.nodup m
  · rw [grant] at granted
    have own : j ≠ i := by rintro rfl; exact granted (bells.ungranted join awake)
    obtain ⟨away,waits⟩ := bells.held j granted
    refine ⟨fun m member => away m (before m j own member),?_⟩
    simpa only [(others j own).1,(others j own).2] using waits
  · rw [grant] at granted
    have own : j ≠ i := by rintro rfl; simp [bells.ungranted join awake] at granted
    rw [(others j own).1] at joins
    exact bells.granted j m origin joins granted
  · by_cases same : m = n
    · subst same; simp [Kernel.wait,active] at still
    · exact bells.pending m (by simpa [Kernel.wait,active,same] using still)
  · rw [queue] at first
    split_ifs at first with same
    · subst same
      rcases room member with queued | ⟨rfl,empty⟩
      · obtain ⟨head,tail,split⟩ := List.exists_cons_of_ne_nil (List.ne_nil_of_mem queued)
        rw [split] at first
        exact bells.front m member j (by simpa [split] using first)
      · simpa [empty,eq_comm] using first
    · exact bells.front m member j first

theorem resume (bells : Bells pc asleep listed exited k) (others : ∀ j, j ≠ i → pc' j = pc j ∧
    (asleep' j ↔ asleep j))
    (granted : k.grant i = some origin) (join : ∀ n, pc' i ≠ .joinBlocked n) (awake : ¬asleep' i) :
    Bells pc' asleep' listed exited { k with grant := Function.update k.grant i none } := by
  have out := (bells.held i (by simp [granted])).1
  refine ⟨fun m j member => ?_,fun j m slept => ?_,bells.nodup,fun j held => ?_,fun j m origin joins granted => ?_,
    bells.pending,bells.front⟩
  · have own : j ≠ i := by rintro rfl; exact out m member
    rw [(others j own).1,(others j own).2]
    exact bells.queued m j member
  · have own : j ≠ i := by rintro rfl; exact awake slept
    rw [(others j own).1]
    exact bells.one j m ((others j own).2.mp slept)
  · have own : j ≠ i := by rintro rfl; simp at held
    obtain ⟨away,waits⟩ := bells.held j (by simpa [own] using held)
    exact ⟨away,by simpa only [(others j own).1,(others j own).2] using waits⟩
  · have own : j ≠ i := by rintro rfl; exact join m joins
    rw [(others j own).1] at joins
    exact bells.granted j m origin joins (by simpa [own] using granted)

theorem signal (bells : Bells pc asleep listed exited k)
    (joiner : ∀ j ∈ (k.ntfn n).queue.head?, pc j = .joinBlocked n → origin = .exit)
    (ended : origin = .exit → exited n = true) (lists : ∀ m, m ≠ n → listed' m → listed m)
    (alone : listed' n → ∀ j ∈ (k.ntfn n).queue, j = n) : Bells pc asleep listed' exited (k.signal n origin) := by
  cases queue : (k.ntfn n).queue with
  | nil =>
    have same (m : ι) : ((k.signal n origin).ntfn m).queue = (k.ntfn m).queue := by
      by_cases own : m = n
      · subst own; simp [Kernel.signal,queue]
      · simp [Kernel.signal,queue,own]
    have grant : (k.signal n origin).grant = k.grant := by simp [Kernel.signal,queue]
    refine ⟨?_,bells.one,?_,?_,?_,fun m active => ?_,fun m member => ?_⟩
    · simpa only [same] using bells.queued
    · simpa only [same] using bells.nodup
    · simpa only [same,grant] using bells.held
    · simpa only [grant] using bells.granted
    · by_cases own : m = n
      · subst own
        apply ended
        simp only [Kernel.signal,queue,Function.update_self,Option.some.injEq,Origin.merge] at active
        split at active
        · cases active
        · exact active
      · exact bells.pending m (by simpa [Kernel.signal,queue,own] using active)
    · rw [same]
      by_cases own : m = n
      · subst own; simp [queue]
      · exact bells.front m (lists m own member)
  | cons j rest =>
    have first : j ∈ (k.ntfn n).queue := by simp [queue]
    have sub (m : ι) : ((k.signal n origin).ntfn m).queue.Sublist (k.ntfn m).queue := by
      by_cases own : m = n
      · subst own; simp [Kernel.signal,queue]
      · simp [Kernel.signal,queue,own]
    have active (m : ι) : ((k.signal n origin).ntfn m).active = (k.ntfn m).active := by
      by_cases own : m = n
      · subst own; simp [Kernel.signal,queue]
      · simp [Kernel.signal,queue,own]
    have grant : (k.signal n origin).grant = Function.update k.grant j (some origin) := by
      simp [Kernel.signal,queue]
    refine ⟨fun m l member => bells.queued m l ((sub m).subset member),bells.one,fun m =>
      (bells.nodup m).sublist (sub m),
      fun l held => ?_,fun l m o joins granted => ?_,?_,fun m member l head => ?_⟩
    · by_cases own : l = j
      · subst own
        refine ⟨fun m member => ?_,?_⟩
        · obtain rfl := bells.home first ((sub m).subset member)
          have nodup := bells.nodup m
          rw [queue,List.nodup_cons] at nodup
          exact nodup.1 (by simpa [Kernel.signal,queue] using member)
        · rcases bells.queued n l first with joins | ⟨-,slept⟩
          · exact .inr ⟨n,joins⟩
          · exact .inl slept
      · rw [grant,Function.update_of_ne own] at held
        obtain ⟨away,waits⟩ := bells.held l held
        exact ⟨fun m member => away m ((sub m).subset member),waits⟩
    · by_cases own : l = j
      · subst own
        have same : o = origin := by simpa [grant,eq_comm] using granted
        rcases bells.queued n l first with blocked | ⟨-,slept⟩
        · rw [blocked] at joins
          cases joins
          have exit := joiner l (by simp [queue]) blocked
          exact ⟨same.trans exit,ended exit⟩
        · exact absurd joins (bells.one l m slept)
      · rw [grant,Function.update_of_ne own] at granted
        exact bells.granted l m o joins granted
    · simpa only [active] using bells.pending
    · by_cases own : m = n
      · subst own
        exact alone member l ((sub m).subset (List.mem_of_mem_head? head))
      · exact bells.front m (lists m own member) l (by simpa [Kernel.signal,queue,own] using head)

/-- A wake section signals threads it has taken off a list. -/
theorem signalAll (bells : Bells pc asleep listed exited k) (nodup : ns.Nodup) (members : ∀ n ∈ ns, listed n)
    (idle : ∀ n, listed n → pc n = .idle) :
    Bells pc asleep (fun m => listed m ∧ m ∉ ns) exited (k.signalAll ns) := by
  induction ns generalizing k listed with
  | nil => exact bells.keep (fun _ _ => .rfl) (fun _ => .rfl) (fun _ member => .inl member.1) fun _ => id
  | cons n ns ih =>
    obtain ⟨fresh,nodup⟩ := List.nodup_cons.mp nodup
    have first := bells.front n (members n (by simp))
    have popped : Bells pc asleep (fun m => listed m ∧ m ≠ n) exited (k.signal n .wake) := by
      refine bells.signal (fun j head joins => ?_) (by simp) (fun m _ member => member.1) fun member =>
        absurd rfl member.2
      obtain rfl := first j head
      simp [idle j (members j (by simp))] at joins
    refine (ih popped nodup (fun m member => ⟨members m (by simp [member]),?_⟩) fun m member =>
      idle m member.1).keep
      (fun _ _ => .rfl) (fun _ => .rfl) (fun m member => .inl ?_) fun _ => id
    · rintro rfl; exact fresh member
    · have apart : m ≠ n ∧ m ∉ ns := by simpa using member.2
      exact ⟨⟨member.1,apart.1⟩,apart.2⟩

theorem suspend (bells : Bells pc asleep listed exited k) (alone : listed x → ∀ j ∈ (k.ntfn x).queue, j = x) :
    Bells pc asleep listed exited
      { k with ntfn := fun n => { k.ntfn n with queue := (k.ntfn n).queue.erase x } } where
  queued n j member := bells.queued n j (List.mem_of_mem_erase member)
  one := bells.one
  nodup n := (bells.nodup n).erase x
  held j granted := by
    obtain ⟨away,waits⟩ := bells.held j granted
    exact ⟨fun n member => away n (List.mem_of_mem_erase member),waits⟩
  granted := bells.granted
  pending := bells.pending
  front n member j head := by
    by_cases same : n = x
    · subst same
      exact alone member j (List.mem_of_mem_erase (List.mem_of_mem_head? head))
    · cases queue : (k.ntfn n).queue with
      | nil => simp [queue] at head
      | cons first rest =>
        have own := bells.front n member first (by simp [queue])
        subst own
        change j ∈ ((k.ntfn first).queue.erase x).head? at head
        rw [queue,List.erase_cons_tail (by simpa using same)] at head
        exact (Option.mem_some_iff.mp head).symm

end Bells

namespace Invariant

omit [DecidableEq ι] in
theorem listed_idle (invariant : Invariant s) (listed : Listed s x) : s.pc x = .idle := by
  obtain ⟨a,member⟩ := listed
  obtain ⟨w,p,counter,-⟩ := invariant.home a x member
  exact invariant.apart x (by simp [counter])

omit [DecidableEq ι] in
theorem unlisted (invariant : Invariant s) (before : ∀ w p, s.sync.pc i = .wait w p → p = .mint ∨ p = .enter)
    (a : Addr κ) :
    i ∉ s.sync.table.waiters a := by
  intro member
  obtain ⟨w,p,counter,-,mint,enter⟩ := invariant.home a i member
  rcases before w p counter with rfl | rfl
  · exact mint rfl
  · exact enter rfl

/-- A step of a `Sync*` call, given what it does to the lists and the Notifications. -/
theorem sync (invariant : Invariant s) {y : Sync.State κ ι} (idle : s.pc i = .idle)
    (others : ∀ j, j ≠ i → y.pc j = s.sync.pc j) (nodup : ∀ a, (y.table.waiters a).Nodup)
    (stays : ∀ a, ∀ j ∈ y.table.waiters a, j ≠ i → j ∈ s.sync.table.waiters a)
    (own : ∀ a, i ∈ y.table.waiters a → ∃ w p, y.pc i = .wait w p ∧ w.addr = a ∧ p ≠ .mint ∧ p ≠ .enter)
    (bells : Bells s.pc (Asleep (s.setSync y)) (Listed (s.setSync y)) s.exited y.kernel) :
      Invariant (s.setSync y) where
  nodup := nodup
  home a j member := by
    by_cases self : j = i
    · subst self; exact own a member
    · change ∃ w p, y.pc j = _ ∧ _
      rw [others j self]
      exact invariant.home a j (stays a j member self)
  apart j busy := by
    by_cases self : j = i
    · subst self; exact idle
    · exact invariant.apart j (by rw [← others j self]; exact busy)
  bells := bells
  consumed := invariant.consumed
  ending := invariant.ending

/-- The waiter lists may lose thread `i`, which is awake before and after. -/
theorem awake (invariant : Invariant s) {y : Sync.State κ ι} (idle : s.pc i = .idle)
    (others : ∀ j, j ≠ i → y.pc j = s.sync.pc j) (kernel : y.kernel = s.sync.kernel)
    (sub : ∀ a, (y.table.waiters a).Sublist (s.sync.table.waiters a)) (gone : ∀ a, i ∉ y.table.waiters a)
    (before : ∀ w, s.sync.pc i ≠ .wait w .blocked) (after : ∀ w, y.pc i ≠ .wait w .blocked) :
    Invariant (s.setSync y) := by
  refine invariant.sync idle others (fun a => (invariant.nodup a).sublist (sub a))
    (fun a j member _ => (sub a).subset member) (fun a member => absurd member (gone a)) ?_
  rw [kernel]
  refine invariant.bells.keep (fun _ _ => .rfl) (fun j => ?_)
    (fun n ⟨a,member⟩ => .inl ⟨a,(sub a).subset member⟩) fun _ => id
  by_cases self : j = i
  · subst self
    exact ⟨fun ⟨w,slept⟩ => absurd slept (after w),fun ⟨w,slept⟩ => absurd slept (before w)⟩
  · simp only [Asleep,State.setSync_sync,others j self]

theorem park (invariant : Invariant s) {y : Sync.State κ ι} (idle : s.pc i = .idle)
    (others : ∀ j, j ≠ i → y.pc j = s.sync.pc j) (kernel : y.kernel = s.sync.kernel)
    (waiters : ∀ a, y.table.waiters a =
      if a = w.addr then s.sync.table.waiters w.addr ++ [i] else s.sync.table.waiters a)
    (before : s.sync.pc i = .wait w .enter) (after : y.pc i = .wait w .park)
    (empty : (s.sync.kernel.ntfn i).queue = []) : Invariant (s.setSync y) := by
  have out := invariant.unlisted (i := i) (by simp [before])
  have stays (a : Addr κ) (j : ι) (member : j ∈ y.table.waiters a) (other : j ≠ i) :
    j ∈ s.sync.table.waiters a := by
    rw [waiters] at member
    split_ifs at member with same
    · subst same; simpa [other] using member
    · exact member
  refine invariant.sync idle others (fun a => ?_) stays (fun a member => ?_) ?_
  · rw [waiters]
    split_ifs
    · refine List.nodup_append.mpr ⟨invariant.nodup _,by simp,?_⟩
      intro x member y own
      obtain rfl := List.mem_singleton.mp own
      rintro rfl
      exact out _ member
    · exact invariant.nodup a
  · rw [waiters] at member
    split_ifs at member with same
    · exact ⟨w,.park,after,same.symm,by simp,by simp⟩
    · exact absurd member (out a)
  · rw [kernel]
    refine invariant.bells.keep (fun _ _ => .rfl) (fun j => ?_) (fun n ⟨a,member⟩ => ?_) fun _ => id
    · by_cases self : j = i
      · subst self; simp [Asleep,before,after]
      · simp only [Asleep,State.setSync_sync,others j self]
    · by_cases self : n = i
      · subst self; exact .inr empty
      · exact .inl ⟨a,stays a n member self⟩

theorem sleep (invariant : Invariant s) {y : Sync.State κ ι} (idle : s.pc i = .idle)
    (others : ∀ j, j ≠ i → y.pc j = s.sync.pc j) (kernel : y.kernel = (s.sync.kernel.wait i i).1)
    (table : y.table = s.sync.table) (before : s.sync.pc i = .wait w .park)
    (after : y.pc i = .wait w (if (s.sync.kernel.wait i i).2.isSome then .leave else .blocked)) :
    Invariant (s.setSync y) := by
  have awake : ¬Asleep s i := by simp [Asleep,before]
  have join (n : ι) : s.pc i ≠ .joinBlocked n := by simp [idle]
  have lists : Listed (s.setSync y) = Listed s := by funext x; simp only [Listed,State.setSync_sync,table]
  refine invariant.sync idle others (by rw [table]; exact invariant.nodup) (by rw [table]; exact fun _ _ member _ => member)
    (fun a member => ?_) ?_
  · rw [table] at member
    obtain ⟨v,p,counter,there,-⟩ := invariant.home a i member
    rw [before] at counter
    cases counter
    exact ⟨w,_,after,there,by split <;> simp,by split <;> simp⟩
  · rw [kernel,lists]
    cases active : (s.sync.kernel.ntfn i).active with
    | some origin =>
      refine (invariant.bells.consume active).keep (fun _ _ => .rfl) (fun j => ?_) (fun _ => .inl) fun _ => id
      by_cases self : j = i
      · subst self; simp [Asleep,before,after,Kernel.wait,active]
      · simp only [Asleep,State.setSync_sync,others j self]
    | none =>
      refine invariant.bells.block active (fun j self => ⟨rfl,?_⟩) join awake (.inr ⟨rfl,⟨w,?_⟩,idle⟩)
        fun listed => .inr ⟨rfl,?_⟩
      · simp only [Asleep,State.setSync_sync,others j self]
      · simp [after,Kernel.wait,active]
      · -- nobody is ahead of a listed thread that has not slept yet
        by_contra busy
        obtain ⟨head,tail,split⟩ := List.exists_cons_of_ne_nil busy
        obtain rfl := invariant.bells.front i listed head (by simp [split])
        exact invariant.bells.outside join awake head (by simp [split])

theorem resume (invariant : Invariant s) {y : Sync.State κ ι} (idle : s.pc i = .idle)
    (others : ∀ j, j ≠ i → y.pc j = s.sync.pc j) (kernel : s.sync.kernel.resume i = some (y.kernel,origin))
    (table : y.table = s.sync.table) (before : s.sync.pc i = .wait w .blocked) (after : y.pc i = .wait w .leave) :
    Invariant (s.setSync y) := by
  have lists : Listed (s.setSync y) = Listed s := by funext x; simp only [Listed,State.setSync_sync,table]
  refine invariant.sync idle others (by rw [table]; exact invariant.nodup) (by rw [table]; exact fun _ _ member _ => member)
    (fun a member => ?_) ?_
  · rw [table] at member
    obtain ⟨v,p,counter,there,-⟩ := invariant.home a i member
    rw [before] at counter
    cases counter
    exact ⟨w,_,after,there,by simp,by simp⟩
  · obtain ⟨granted,found,moved⟩ := Option.map_eq_some_iff.mp kernel
    have kernel : y.kernel = _ := (congrArg Prod.fst moved).symm
    rw [lists,kernel]
    refine invariant.bells.resume (fun j self => ⟨rfl,?_⟩) found (by simp [idle]) (by simp [Asleep,after])
    simp only [Asleep,State.setSync_sync,others j self]

theorem wake (invariant : Invariant s) {y : Sync.State κ ι} (idle : s.pc i = .idle)
    (others : ∀ j, j ≠ i → y.pc j = s.sync.pc j)
    (kernel : y.kernel = s.sync.kernel.signalAll ((s.sync.table.waiters a).take n))
    (waiters : ∀ b, y.table.waiters b = if b = a then (s.sync.table.waiters a).drop n else s.sync.table.waiters b)
    (before : s.sync.pc i = .wake v) (after : ¬(y.pc i).Inner) : Invariant (s.setSync y) := by
  have out := invariant.unlisted (i := i) (by simp [before])
  have nodup := invariant.nodup a
  rw [← List.take_append_drop n (s.sync.table.waiters a)] at nodup
  obtain ⟨popped,-,apart⟩ := List.nodup_append.mp nodup
  have sub (b : Addr κ) : (y.table.waiters b).Sublist (s.sync.table.waiters b) := by
    rw [waiters]
    split_ifs with there
    · subst there; exact List.drop_sublist _ _
    · exact List.Sublist.refl _
  refine invariant.sync idle others (fun b => (invariant.nodup b).sublist (sub b))
    (fun b j member _ => (sub b).subset member) (fun b member => absurd ((sub b).subset member) (out b)) ?_
  rw [kernel]
  refine (invariant.bells.signalAll popped (fun m member => ⟨a,List.mem_of_mem_take member⟩)
    fun m => invariant.listed_idle).keep (fun _ _ => .rfl) (fun j => ?_)
    (fun m ⟨b,member⟩ => .inl ⟨⟨b,(sub b).subset member⟩,fun pops => ?_⟩) fun _ => id
  · by_cases self : j = i
    · subst self
      refine ⟨fun ⟨w,slept⟩ => absurd ?_ after,fun ⟨w,slept⟩ => ?_⟩
      · rw [show y.pc j = _ from slept]; trivial
      · rw [before] at slept; cases slept
    · simp only [Asleep,State.setSync_sync,others j self]
  · -- a thread waits at one address, so a popped one is on no list
    obtain ⟨w,p,counter,here,-⟩ := invariant.home a m (List.mem_of_mem_take pops)
    obtain ⟨w',p',counter',there,-⟩ := invariant.home b m ((sub b).subset member)
    rw [counter] at counter'
    cases counter'
    obtain rfl := here.symm.trans there
    rw [State.setSync_sync,waiters,if_pos rfl] at member
    exact apart m pops m member rfl

theorem syncStep (invariant : Invariant s) (idle : s.pc e.thread = .idle) (allowed : Apart s (.sync e))
    (taken : Sync.step T s.sync e = some y) : Invariant (s.setSync y) := by
  have others := (Sync.step_frame taken).pc
  cases Sync.step_moves taken allowed.1 with
  | other kernel table calm before after =>
    refine invariant.awake idle others kernel (fun _ => by rw [table]) (fun a => ?_) (fun w slept => ?_)
      fun w slept => ?_
    · rw [table]
      exact invariant.unlisted (fun w p counter => .inl (before w p counter)) a
    · cases before w _ slept
    · exact after (by rw [slept]; trivial)
  | mint w kernel table before after =>
    refine invariant.awake idle others kernel (fun _ => by rw [table]) (fun a => ?_) (by simp [before])
      (by simp [after])
    rw [table]
    exact invariant.unlisted (by simp [before]) a
  | enter w kernel table before after =>
    have out := invariant.unlisted (i := e.thread) (by simp [before])
    have waiters := fun a => s.sync.table.waiters_enter w.addr a w.mode e.thread
    simp only [← table] at waiters
    have unparked (result : ∀ a, y.table.waiters a = s.sync.table.waiters a) (pass : ¬(y.pc e.thread).Inner) :
        Invariant (s.setSync y) :=
      invariant.awake idle others kernel (fun a => by rw [result]) (fun a => by rw [result]; exact out a) (by simp [before])
        fun w slept => pass (by rw [slept]; trivial)
    cases outcome : (s.sync.table.enter w.addr w.mode e.thread).2 with
    | parked =>
      simp only [outcome,and_true] at waiters
      have alone := allowed.2
      rw [before] at alone
      exact invariant.park idle others kernel waiters before (by rw [after,Sync.enterNext,outcome]) (alone outcome)
    | pass =>
      simp only [outcome,reduceCtorEq,and_false,if_false] at waiters
      exact unparked waiters (by rw [after,Sync.enterNext,outcome]; exact Sync.not_inner_waitReturn)
    | full =>
      simp only [outcome,reduceCtorEq,and_false,if_false] at waiters
      exact unparked waiters (by rw [after,Sync.enterNext,outcome]; exact Sync.not_inner_waitReturn)
  | sleep w kernel table before after => exact invariant.sleep idle others kernel table before after
  | resume w origin kernel table before after => exact invariant.resume idle others kernel table before after
  | leave w kernel table before after =>
    have waiters := fun a => s.sync.table.waiters_leave w.addr a e.thread
    simp only [← table] at waiters
    refine invariant.awake idle others kernel (fun a => ?_) (fun a member => ?_) (by simp [before])
      fun v slept => ?_
    · rw [waiters]
      split_ifs with same
      · subst same; exact List.erase_sublist
      · exact List.Sublist.refl _
    · rw [waiters] at member
      split_ifs at member with same
      · exact (invariant.nodup _).not_mem_erase member
      · obtain ⟨v,p,counter,there,-⟩ := invariant.home a _ member
        rw [before] at counter
        cases counter
        exact same there.symm
    · rw [after] at slept
      exact Sync.not_inner_waitReturn (by rw [slept]; trivial)
  | wake w kernel table before after =>
    exact invariant.wake idle others kernel (fun b => by rw [table,Sync.Table.waiters_wake]) before after

/-- A step of a thread call, given what it does to the Notifications. -/
theorem thread (invariant : Invariant s) (busy : t.pc i = .idle ∨ s.sync.pc i = .idle)
    (others : ∀ j, j ≠ i → t.pc j = s.pc j) (table : t.sync.table = s.sync.table) (pcs : t.sync.pc = s.sync.pc)
    (exits : ∀ n, s.exited n = true → t.exited n = true)
    (bells : Bells t.pc (Asleep s) (Listed s) t.exited t.sync.kernel)
    (consumed : ∀ n origin, Pc.Consumed n origin (t.pc i) → origin = .exit ∧ t.exited n = true)
    (ending : ∀ n, Pc.Ending n (t.pc i) → t.exited n = true) : Invariant t where
  nodup := by rw [table]; exact invariant.nodup
  home := by rw [table,pcs]; exact invariant.home
  apart j active := by
    rw [pcs] at active
    by_cases self : j = i
    · subst self
      rcases busy with idle | idle
      · exact idle
      · exact absurd idle active
    · rw [others j self]
      exact invariant.apart j active
  bells := by
    have sleeps : Asleep t = Asleep s := by funext j; simp only [Asleep,pcs]
    have lists : Listed t = Listed s := by funext n; simp only [Listed,table]
    rw [sleeps,lists]
    exact bells
  consumed j n origin held := by
    by_cases self : j = i
    · subst self; exact consumed n origin held
    · rw [others j self] at held
      obtain ⟨exit,ended⟩ := invariant.consumed j n origin held
      exact ⟨exit,exits n ended⟩
  ending j n held := by
    by_cases self : j = i
    · subst self; exact ending n held
    · rw [others j self] at held
      exact exits n (invariant.ending j n held)

theorem plain (invariant : Invariant s) (free : s.sync.pc i = .idle) (others : ∀ j, j ≠ i → t.pc j = s.pc j)
    (table : t.sync.table = s.sync.table) (pcs : t.sync.pc = s.sync.pc) (kernel : t.sync.kernel = s.sync.kernel)
    (exits : ∀ n, s.exited n = true → t.exited n = true) (before : ∀ n, s.pc i ≠ .joinBlocked n)
    (after : ∀ n, t.pc i ≠ .joinBlocked n)
    (consumed : ∀ n origin, Pc.Consumed n origin (t.pc i) → origin = .exit ∧ t.exited n = true)
    (ending : ∀ n, Pc.Ending n (t.pc i) → t.exited n = true) : Invariant t := by
  refine invariant.thread (.inr free) others table pcs exits ?_ consumed ending
  rw [kernel]
  refine invariant.bells.keep (fun j n => ?_) (fun _ => .rfl) (fun _ => .inl) exits
  by_cases self : j = i
  · subst self; simp [before,after]
  · rw [others j self]

theorem callStep (invariant : Invariant s) (idle : s.pc i = .idle) (free : s.sync.pc i = .idle) (c : Call ι) :
    Invariant (callStep s i c) := by
  unfold Thread.callStep fail
  split
  all_goals try split_ifs
  all_goals
    refine invariant.plain free (fun j self => by simp [self]) rfl rfl rfl (fun _ => id) (by simp [idle]) ?_ ?_ ?_
    all_goals simp [Pc.Consumed,Pc.Ending]

omit [DecidableEq ι] in
theorem free (invariant : Invariant s) (busy : s.pc i ≠ .idle) : s.sync.pc i = .idle := by
  by_contra active
  exact busy (invariant.apart i active)

theorem joinWait (invariant : Invariant s) (counter : s.pc i = .joinWait x)
    (wake : (s.sync.kernel.ntfn x).active ≠ some .wake) (ahead : Listed s x → x ∈ (s.sync.kernel.ntfn x).queue) :
    Invariant ((s.setKernel (s.sync.kernel.wait x i).1).setPc i
      ((s.sync.kernel.wait x i).2.elim (.joinBlocked x) (.joinStatus x))) := by
  have free := invariant.free (i := i) (by simp [counter])
  have awake : ¬Asleep s i := by simp [Asleep,free]
  cases active : (s.sync.kernel.ntfn x).active with
  | some origin =>
    have exit : origin = .exit := by
      cases origin with
      | wake => exact absurd active wake
      | exit => rfl
    subst exit
    have ended := invariant.bells.pending x active
    have result : (s.sync.kernel.wait x i).2 = some .exit := by simp [Kernel.wait,active]
    refine invariant.thread (.inr free) (fun j self => by simp [self]) rfl rfl (fun _ => id) ?_ ?_ ?_
    · refine (invariant.bells.consume active).keep (fun j n => ?_) (fun _ => .rfl) (fun _ => .inl) fun _ => id
      by_cases self : j = i
      · subst self; simp [result,counter]
      · simp [self]
    · simp [result,Pc.Consumed,ended]
    · simp [result,Pc.Ending]
  | none =>
    have result : (s.sync.kernel.wait x i).2 = none := by simp [Kernel.wait,active]
    refine invariant.thread (.inr free) (fun j self => by simp [self]) rfl rfl (fun _ => id) ?_ ?_ ?_
    · exact invariant.bells.block active (fun j self => by simp [self]) (by simp [counter]) awake
        (.inl ⟨by simp [result],awake⟩) fun listed => .inl (ahead listed)
    · simp [result,Pc.Consumed]
    · simp [result,Pc.Ending]

theorem joinBlocked (invariant : Invariant s) (counter : s.pc i = .joinBlocked x)
    (taken : (s.sync.kernel.resume i).map
      (fun result => (s.setKernel result.1).setPc i (.joinStatus x result.2)) = some t) : Invariant t := by
  have free := invariant.free (i := i) (by simp [counter])
  obtain ⟨result,resumed,rfl⟩ := Option.map_eq_some_iff.mp taken
  obtain ⟨origin,granted,rfl⟩ := Option.map_eq_some_iff.mp resumed
  obtain ⟨rfl,ended⟩ := invariant.bells.granted i x origin counter granted
  refine invariant.thread (.inr free) (fun j self => by simp [self]) rfl rfl (fun _ => id) ?_ ?_ ?_
  · exact invariant.bells.resume (fun j self => by simp [self]) granted (by simp) (by simp [Asleep,free])
  · simp [Pc.Consumed,ended]
  · simp [Pc.Ending]

theorem destroySignal (invariant : Invariant s) (counter : s.pc i = .destroySignal x)
    (alone : Listed s x → ∀ j ∈ (s.sync.kernel.ntfn x).queue, j = x) :
    Invariant ((s.setKernel (s.sync.kernel.signal x .exit)).setPc i (.destroySuspend x)) := by
  have ended := invariant.ending i x (by simp [counter,Pc.Ending])
  have free := invariant.free (i := i) (by simp [counter])
  refine invariant.thread (.inr free) (fun j self => by simp [self]) rfl rfl (fun _ => id) ?_
    (by simp [Pc.Consumed]) (by simp [Pc.Ending,ended])
  refine (invariant.bells.signal (fun _ _ _ => rfl) (fun _ => ended) (fun _ _ => id) alone).keep (fun j n => ?_)
    (fun _ => .rfl) (fun _ => .inl) fun _ => id
  by_cases self : j = i
  · subst self; simp [counter]
  · simp [self]

theorem suspend (invariant : Invariant s) (alone : Listed s x → ∀ j ∈ (s.sync.kernel.ntfn x).queue, j = x) :
    Invariant (s.suspend x) :=
  { invariant with bells := invariant.bells.suspend alone }

omit [DecidableEq κ] in
@[simp] theorem reap_pc : (Thread.reap main s x).pc = s.pc := by
  unfold Thread.reap
  split_ifs <;> rfl

theorem reap (invariant : Invariant s) : Invariant (reap main s x) := by
  unfold Thread.reap
  split_ifs
  · exact invariant
  · exact { invariant with }

/-- A thread call returns outside its Notification wait. -/
theorem finish (invariant : Invariant s) (busy : s.pc i ≠ .idle) (before : ∀ n, s.pc i ≠ .joinBlocked n) :
    Invariant (s.finish i r) :=
  invariant.plain (invariant.free busy) (fun j self => by simp [self]) rfl rfl rfl (fun _ => id) before (by simp)
    (by simp [Pc.Consumed]) (by simp [Pc.Ending])

theorem fail (invariant : Invariant s) (busy : s.pc i ≠ .idle) (before : ∀ n, s.pc i ≠ .joinBlocked n) :
    Invariant (fail s i e) :=
  invariant.plain (invariant.free busy) (fun j self => by simp [Thread.fail,self]) rfl rfl rfl (fun _ => id) before
    (by simp [Thread.fail]) (by simp [Thread.fail,Pc.Consumed]) (by simp [Thread.fail,Pc.Ending])

/-- A thread call goes on, keeping what it has learned. -/
theorem next (invariant : Invariant s) (busy : s.pc i ≠ .idle) (before : ∀ n, s.pc i ≠ .joinBlocked n)
    (after : ∀ n, p ≠ .joinBlocked n)
    (consumed : ∀ n origin, Pc.Consumed n origin p → origin = .exit ∧ s.exited n = true)
    (ending : ∀ n, Pc.Ending n p → s.exited n = true) : Invariant (s.setPc i p) :=
  invariant.plain (invariant.free busy) (fun j self => by simp [self]) rfl rfl rfl (fun _ => id) before
    (by simpa using after)
    (by simpa using consumed) (by simpa using ending)

theorem advance (invariant : Invariant s) (allowed : Apart s (.run i)) (taken : advance main s i = some t) :
    Invariant t := by
  unfold Thread.advance at taken
  change JoinsApart s (s.pc i) at allowed
  cases counter : s.pc i <;> rw [counter] at taken allowed
  case idle => cases taken
  case joinWait x => cases taken; exact invariant.joinWait counter allowed.1 allowed.2
  case joinBlocked x => exact invariant.joinBlocked counter taken
  case joinStatus x origin =>
    cases taken
    have learned := invariant.consumed i x origin (by simp [counter,Pc.Consumed])
    have read : Invariant (s.setJoined i (s.exitStatus x)) := { invariant with }
    exact read.next (by simp [counter]) (by simp [counter]) (by simp)
      (by rintro n o ⟨rfl,rfl⟩; exact learned) (by simp [Pc.Ending])
  case joinReap x origin => cases taken; exact invariant.reap.finish (by simp [counter]) (by simp [counter])
  case destroyStatus x status =>
    cases taken
    have stored : Invariant (s.setStatus x status) := { invariant with }
    exact stored.next (by simp [counter]) (by simp [counter]) (by simp) (by simp [Pc.Consumed])
      (by simp [Pc.Ending])
  case destroyExited x =>
    cases taken
    have free := invariant.free (i := i) (by simp [counter])
    refine invariant.plain free (fun j self => by simp [self]) rfl rfl rfl (fun n ended => ?_)
      (by simp [counter]) (by simp)
      (by simp [Pc.Consumed]) (by simp [Pc.Ending])
    by_cases same : n = x
    · simp [same]
    · simpa [same] using ended
  case destroyTest x =>
    cases taken
    have ended := invariant.ending i x (by simp [counter,Pc.Ending])
    split_ifs <;> exact invariant.next (by simp [counter]) (by simp [counter]) (by simp) (by simp [Pc.Consumed])
      (by rintro n rfl; exact ended)
  case destroySignal x =>
    cases taken
    have ended := invariant.ending i x (by simp [counter,Pc.Ending])
    split_ifs
    · exact invariant.destroySignal counter allowed
    · exact invariant.next (by simp [counter]) (by simp [counter]) (by simp) (by simp [Pc.Consumed])
        (by rintro n rfl; exact ended)
  case destroySuspend x =>
    cases taken
    have stopped := invariant.suspend allowed
    split_ifs
    · exact stopped
    · exact stopped.finish (by simp [counter]) (by simp [counter])
  case detachStore x =>
    cases taken
    have stored : Invariant (s.setDetached x) := { invariant with }
    exact stored.next (by simp [counter]) (by simp [counter]) (by simp) (by simp [Pc.Consumed])
      (by simp [Pc.Ending])
  case detachTest x =>
    cases taken
    split_ifs
    · exact invariant.reap.finish (by simp [counter]) (by simp [counter])
    · exact invariant.finish (by simp [counter]) (by simp [counter])
  all_goals
    cases taken
    split_ifs
    all_goals first
      | exact invariant.fail (by simp [counter]) (by simp [counter])
      | exact invariant.finish (by simp [counter]) (by simp [counter])
      | exact invariant.next (by simp [counter]) (by simp [counter]) (by simp) (by simp [Pc.Consumed])
          (by simp [Pc.Ending])

theorem step (invariant : Invariant s) (allowed : Apart s e) (taken : step T main s e = some t) : Invariant t := by
  cases e with
  | sync e =>
    simp only [Thread.step] at taken
    split_ifs at taken with ready
    obtain ⟨y,moved,rfl⟩ := Option.map_eq_some_iff.mp taken
    exact invariant.syncStep ready.2 allowed moved
  | call i c =>
    simp only [Thread.step] at taken
    split_ifs at taken with ready
    cases taken
    exact invariant.callStep ready.2.1 ready.2.2 c
  | run i =>
    simp only [Thread.step] at taken
    split_ifs at taken
    exact invariant.advance allowed taken

omit [DecidableEq ι] in
theorem initial (objects : κ → Sync.SyncT) (minted : ι → Bool) : Invariant (start objects minted) where
  nodup a := by simp [start,Sync.start]
  home a j member := by simp [start,Sync.start] at member
  apart j _ := rfl
  bells :=
    { queued := by simp [start,Sync.start,Kernel.start]
      one := by simp [start]
      nodup := by simp [start,Sync.start,Kernel.start]
      held := by simp [start,Sync.start,Kernel.start]
      granted := by simp [start]
      pending := by simp [start,Sync.start,Kernel.start]
      front := by simp [start,Sync.start,Kernel.start] }
  consumed j n origin held := held.elim
  ending j n held := held.elim

end Invariant

/-- The target of the `ThreadJoin` a thread is in. -/
def Pc.joining : Pc ι → Option ι
  | .joinLookup x | .joinDetached x | .joinNtfn x | .joinWait x | .joinBlocked x
  | .joinStatus x _ | .joinReap x _ =>
    some x
  | _ => none

theorem returns_zero (taken : step T main s (.run i) = some t) (joining : Pc.joining (s.pc i) = some x)
    (returned : t.pc i = .idle) (zero : t.ret i = some .zero) :
    (∃ origin, Pc.Consumed x origin (s.pc i)) ∧ t.exited = s.exited := by
  simp only [step] at taken
  split_ifs at taken
  unfold advance at taken
  cases counter : s.pc i <;> rw [counter] at taken joining <;> simp only [Pc.joining,reduceCtorEq] at joining
  case joinReap y origin =>
    cases taken
    refine ⟨⟨origin,Option.some.inj joining,rfl⟩,?_⟩
    unfold reap
    split_ifs <;> rfl
  case joinBlocked y =>
    obtain ⟨result,-,rfl⟩ := Option.map_eq_some_iff.mp taken
    simp at returned
  case joinWait y =>
    cases taken
    cases result : (s.sync.kernel.wait y i).2 <;> simp [result] at returned
  case joinStatus y origin => cases taken; simp at returned
  all_goals
    cases taken
    split_ifs at returned zero
    all_goals simp [fail] at returned zero

/-- One empty semaphore, and threads that own a Notification. -/
def fresh : State (Fin 1) (Fin 3) := start (fun _ => ⟨0,0⟩) fun _ => true

def runs (i : ι) (n : Nat) : List (Event κ ι) := List.replicate n (.run i)

def syncs (i : ι) (n : Nat) : List (Event κ ι) := List.replicate n (.sync (.run i))

/-- Thread `x` sleeps on the semaphore before thread `j` joins it; thread `p` posts, thread `x`
goes on and exits, and thread `j` is about to return. -/
def orderly (j x p : ι) (o : κ) : List (Event κ ι) := List.flatten
  [[.sync (.call x (.semWait (some o) false))],syncs x 4,[.call j (.join (some x))],runs j 4,
    [.sync (.call p (.semPost (some o)))],syncs p 2,syncs x 4,[.call x (.destroy none 7)],runs x 5,runs j 2]

/-- Thread `j` joins thread `x` first; thread `x` then sleeps on the semaphore behind it, and
the wake of thread `p` ends the join. -/
def crossed (j x p : ι) (o : κ) : List (Event κ ι) := List.flatten
  [[.call j (.join (some x))],runs j 4,[.sync (.call x (.semWait (some o) false))],syncs x 4,
    [.sync (.call p (.semPost (some o)))],syncs p 2,runs j 2]

end Qsoe.Thread.Join
