import Mathlib.Data.Fintype.Basic
import Qsoe.Sync.Invariant

/-! The wait table empties. An entry is in use for the threads on its list and for the one that a credit
waits for; a post to a semaphore that nobody is about to wait on leaves its credit behind. -/
namespace Qsoe.Sync

variable {κ ι : Type} [DecidableEq κ] {T : Threads ι} {s t : State κ ι} {i j : ι}
    {e : Event κ ι} {a : Addr κ}

/-- On its way to the table lock in `sync_wait_impl`, behind which it takes a credit of `a`. -/
def Pc.heads (a : Addr κ) : Pc κ → Bool
  | .wait w .mint | .wait w .enter => w.addr == a && w.mode == .credit
  | _ => false

def Pc.absorbs : Pc κ → Option (Addr κ)
  | .wake w => if w.mode = .absorb then some w.addr else none
  | _ => none

def Pc.awaits : Pc κ → Option (Addr κ)
  | .wait w _ => some w.addr
  | _ => none

/-- A wake leaves a credit only to a thread that is on its way to take it, and `mint_notification` does not fail. -/
def Owed (s : State κ ι) : Event κ ι → Prop
  | .mintFails _ => False
  | .run i => ∀ a ∈ (s.pc i).absorbs, s.table.waiters a = [] → s.table.credit a = 0 → ∃ j, (s.pc j).heads a = true
  | _ => True

instance [Fintype ι] : DecidableRel (Owed : State κ ι → Event κ ι → Prop) := fun s e =>
  match e with
  | .mintFails _ => .isFalse id
  | .run i => inferInstanceAs (Decidable (∀ a ∈ (s.pc i).absorbs, s.table.waiters a = [] → s.table.credit a = 0 →
      ∃ j, (s.pc j).heads a = true))
  | .call _ _ | .spurious _ => .isTrue trivial

def Covered (s : State κ ι) : Prop := ∀ a, 0 < s.table.credit a → ∃ j, (s.pc j).heads a = true

theorem heads_wait {p : Pc κ} (heads : p.heads a = true) :
    ∃ w, w.addr = a ∧ w.mode = .credit ∧ (p = .wait w .mint ∨ p = .wait w .enter) := by
  unfold Pc.heads at heads
  split at heads
  · rename_i w
    have both : w.addr = a ∧ w.mode = .credit := by simpa using heads
    exact ⟨w,both.1,both.2,.inl rfl⟩
  · rename_i w
    have both : w.addr = a ∧ w.mode = .credit := by simpa using heads
    exact ⟨w,both.1,both.2,.inr rfl⟩
  · cases heads

theorem Entries.credit_le {t : Table κ ι} (entries : Entries t) (a : Addr κ) : t.credit a ≤ 1 := by
  unfold Table.credit
  cases found : t.entry a with
  | none => exact Nat.zero_le 1
  | some e => exact (entries a e found).credit

theorem enter_credit (t : Table κ ι) (n : ι) (stored : 0 < t.credit a) : (t.enter a .credit n).2 = .pass := by
  rw [Table.credit] at stored
  rw [Table.enter_outcome]
  cases found : t.entry a with
  | none =>
    rw [found] at stored
    exact absurd stored (Nat.lt_irrefl 0)
  | some e =>
    rw [found] at stored
    exact congrArg Prod.snd (if_pos stored)

theorem wake_credit (t : Table κ ι) (mode : WakeMode) (before : t.credit a = 0)
    (after : 0 < (t.wake a 1 mode).1.credit a) :
    mode = .absorb ∧ t.waiters a = [] := by
  rw [Table.credit] at before
  rw [Table.credit,Table.entry_wake,if_pos rfl] at after
  rw [Table.waiters]
  cases found : t.entry a with
  | none =>
    rw [found,wakeEntry] at after
    split at after
    · rename_i absorb
      exact ⟨absorb,rfl⟩
    · exact absurd after (Nat.lt_irrefl 0)
  | some e =>
    rw [found] at before after
    have zero : e.credit = 0 := before
    rw [wakeEntry] at after
    dsimp only at after
    rw [Table.settle_credit] at after
    dsimp only at after
    split at after
    · rename_i absorbed
      have nothing : e.waiters.length < 1 := absorbed.1
      exact ⟨absorbed.2.1,List.length_eq_zero_iff.mp (Nat.lt_one_iff.mp nothing)⟩
    · exact absurd zero (Nat.pos_iff_ne_zero.mp after)

theorem wake_credit_discard (t : Table κ ι) (maxN : Nat) : (t.wake a maxN .discard).1.credit a = t.credit a := by
  rw [Table.credit,Table.credit,Table.entry_wake,if_pos rfl]
  cases t.entry a with
  | none => rfl
  | some e =>
    rw [wakeEntry]
    dsimp only
    rw [Table.settle_credit]
    simp

omit [DecidableEq κ] in
theorem absorbs_one {w : WakeCall κ} (absorb : w.mode = .absorb) : w.maxN = 1 := by
  cases w with
  | unlock m k => rfl
  | post o => rfl
  | signal c all => cases absorb

theorem heads_kept [DecidableEq ι] (taken : step T s e = some t) (owed : Owed s e)
    (heads : (s.pc e.thread).heads a = true)
    (outside : ∀ w, s.pc e.thread ≠ .wait w .enter) : (t.pc e.thread).heads a = true := by
  obtain ⟨w,addr,mode,mint | enter⟩ := heads_wait heads
  · cases e with
    | call i c =>
      dsimp only [Event.thread] at mint
      rw [step,mint] at taken
      cases taken
    | mintFails i => exact owed.elim
    | spurious i =>
      dsimp only [Event.thread] at mint
      rw [step,spuriousStep,mint] at taken
      cases taken
    | run i =>
      dsimp only [Event.thread] at mint ⊢
      rw [step,advance,mint] at taken
      obtain rfl := Option.some.inj taken
      simp [Pc.heads,addr,mode]
  · exact absurd enter (outside w)

theorem Covered.step [DecidableEq ι] (covered : Covered s) (entries : Entries s.table) (owed : Owed s e)
    (taken : Sync.step T s e = some t) : Covered t := by
  have others := (step_frame taken).pc
  intro a after
  -- A thread that has the credit before the step, and not to take it in this step, has it after.
  have stays : 0 < s.table.credit a → (∀ w, s.pc e.thread = .wait w .enter → w.addr ≠ a ∨ w.mode ≠ .credit) →
      ∃ j, (t.pc j).heads a = true := by
    intro before elsewhere
    obtain ⟨j,heads⟩ := covered a before
    rcases eq_or_ne j e.thread with rfl | other
    · refine ⟨e.thread,heads_kept taken owed heads fun w enter => ?_⟩
      obtain ⟨v,addr,mode,mint | enter'⟩ := heads_wait heads
      · cases enter.symm.trans mint
      · obtain rfl : w = v := by
          cases enter.symm.trans enter'
          rfl
        exact (elsewhere w enter).elim (fun apart => apart addr) fun apart => apart mode
    · exact ⟨j,by rw [others j other]; exact heads⟩
  by_cases genuine : e = .spurious e.thread
  · have moves := taken
    rw [genuine] at moves
    obtain ⟨table,w,p,before,phase,-⟩ := spurious_moves moves
    rw [table] at after
    refine stays after fun v enter => ?_
    cases before.symm.trans enter
    rcases phase with park | blocked
    · cases park
    · cases blocked
  · cases step_moves taken genuine with
    | other kernel table calm before place =>
      rw [table] at after
      refine stays after fun w enter => ?_
      cases before w _ enter
    | mint w kernel table before place =>
      rw [table] at after
      refine stays after fun v enter => ?_
      cases before.symm.trans enter
    | sleep w kernel table before place =>
      rw [table] at after
      refine stays after fun v enter => ?_
      cases before.symm.trans enter
    | resume w origin kernel table before place =>
      rw [table] at after
      refine stays after fun v enter => ?_
      cases before.symm.trans enter
    | leave w kernel table before place =>
      rw [table,Table.credit_leave] at after
      refine stays after fun v enter => ?_
      cases before.symm.trans enter
    | enter w kernel table before place =>
      rw [table,Table.credit_enter] at after
      split at after
      · have one := entries.credit_le w.addr
        omega
      · rename_i kept
        refine stays after fun v enter => ?_
        cases before.symm.trans enter
        by_contra same
        obtain ⟨addr,mode⟩ := not_or.mp same
        have addr := not_not.mp addr
        have mode := not_not.mp mode
        refine kept ⟨addr.symm,mode,?_⟩
        rw [mode,addr]
        exact enter_credit s.table e.thread after
    | wake w kernel table before place =>
      rw [table] at after
      have outside : ∀ v, s.pc e.thread = .wait v .enter → v.addr ≠ a ∨ v.mode ≠ .credit := by
        intro v enter
        cases before.symm.trans enter
      by_cases same : a = w.addr
      · subst same
        rcases Nat.eq_zero_or_pos (s.table.credit w.addr) with nothing | stored
        · cases mode : w.mode with
          | discard =>
            rw [mode,wake_credit_discard] at after
            exact absurd nothing (Nat.pos_iff_ne_zero.mp after)
          | absorb =>
            rw [absorbs_one mode] at after
            obtain ⟨-,empty⟩ := wake_credit s.table w.mode nothing after
            have absorbs : w.addr ∈ (s.pc e.thread).absorbs := by
              rw [before]
              exact if_pos mode
            cases e with
            | run i =>
              obtain ⟨j,heads⟩ := owed w.addr absorbs empty nothing
              have other : j ≠ i := by
                rintro rfl
                obtain ⟨v,-,-,mint | enter⟩ := heads_wait heads
                · cases before.symm.trans mint
                · cases before.symm.trans enter
              exact ⟨j,by rw [others j other]; exact heads⟩
            | call i c =>
              dsimp only [Event.thread] at before
              rw [Sync.step,before] at taken
              cases taken
            | mintFails i => exact owed.elim
            | spurious i => exact absurd rfl genuine
        · exact stays stored outside
      · rw [Table.credit_wake_other _ same] at after
        exact stays after outside

theorem Covered.initial (objects : κ → SyncT) (minted : ι → Bool) : Covered (start objects minted) := by
  intro a stored
  exact absurd (Table.credit_empty a) (Nat.pos_iff_ne_zero.mp stored)

omit [DecidableEq κ] in
theorem queues_awaits {p : Pc κ} (queues : p.Queues a) : p.awaits = some a := by
  unfold Pc.Queues at queues
  split at queues
  · exact congrArg some queues
  · exact congrArg some queues
  · exact congrArg some queues
  · exact queues.elim

theorem heads_awaits {p : Pc κ} (heads : p.heads a = true) : p.awaits = some a := by
  obtain ⟨w,rfl,-,rfl | rfl⟩ := heads_wait heads
  · rfl
  · rfl

theorem Covered.awaited {x : Entry κ ι} (covered : Covered s) (entries : Entries s.table) (kept : Queued s)
    (used : s.table.entry a = some x) : ∃ j, (s.pc j).awaits = some a := by
  have sound := entries a x used
  have waiters : s.table.waiters a = x.waiters := by
    rw [Table.waiters,used]
    rfl
  have credit : s.table.credit a = x.credit := by
    rw [Table.credit,used]
    rfl
  rcases sound.used with nonempty | one
  · obtain ⟨j,rest,list⟩ := List.exists_cons_of_ne_nil nonempty
    have member : j ∈ s.table.waiters a := by
      rw [waiters,list]
      exact List.mem_cons_self
    exact ⟨j,queues_awaits (kept.home a j member)⟩
  · obtain ⟨j,heads⟩ := covered a (by omega)
    exact ⟨j,heads_awaits heads⟩

/-- All entries are in use for other addresses than `a`, each of which somebody waits at. -/
def Crowded (s : State κ ι) (a : Addr κ) : Prop :=
  ∃ others : Fin maxEntries → Addr κ, Function.Injective others ∧ ∀ k, others k ≠ a ∧ ∃ j, (s.pc j).awaits =
    some (others k)

/-- An entry has all its waiters without thread `i`. -/
def Waited (s : State κ ι) (i : ι) (a : Addr κ) : Prop :=
  ∃ queue : List ι, queue.Nodup ∧ maxWaiters ≤ queue.length ∧ ∀ j ∈ queue, j ≠ i ∧ (s.pc j).awaits = some a

theorem Covered.crowded (covered : Covered s) (entries : Entries s.table) (kept : Queued s)
    (missing : s.table.entry a = none) (full : s.table.room = false) : Crowded s a := by
  have used : ∀ k, ∃ e, s.table.slots k = some e := by
    intro k
    refine Option.ne_none_iff_exists'.mp fun free => ?_
    exact of_decide_eq_false full ⟨k,free⟩
  choose entry there using used
  refine ⟨fun k => (entry k).addr,fun k l same => s.table.unique k l _ _ (there k) (there l) same,fun k => ⟨?_,?_⟩⟩
  · intro same
    have found := entry_of_slot (there k)
    rw [show (entry k).addr = a from same,missing] at found
    cases found
  · exact covered.awaited entries kept (entry_of_slot (there k))

@[simps] def State.forget (s : State κ ι) : State κ ι := { s with errno := fun _ => none }

/-- The call that thread `i` is in is about to fail with `ENOMEM`. -/
def NoMem [DecidableEq ι] (T : Threads ι) (s : State κ ι) (i : ι) : Prop :=
  ∃ t, step T s.forget (.run i) = some t ∧ t.errno i = some .enomem

theorem lockStep_noMem [DecidableEq ι] (clear : s.errno i = none) (m : κ) (k : LockCall) (p : LockPhase) :
    (lockStep T s i m k p).errno i ≠ some .enomem := by
  cases p <;> simp only [lockStep,acquired]
  case recLoad => simp [clear]
  case recStore c => simp [clear]
  all_goals
    split_ifs
    all_goals simp [clear]

theorem unlockStep_noMem [DecidableEq ι] (clear : s.errno i = none) (m : κ) (k : UnlockCall κ) (p : UnlockPhase) :
    (unlockStep T s i m k p).errno i ≠ some .enomem := by
  cases p <;> simp only [unlockStep,released]
  case test => simp [clear]
  case decLoad => simp [clear]
  case decStore c => simp [clear]
  all_goals
    split_ifs
    all_goals simp [clear]

theorem noMem_cases [DecidableEq ι] (fails : NoMem T s i) :
    (∃ w, s.pc i = .wait w .enter ∧ (s.table.enter w.addr w.mode i).2 = .full) ∨
      ∃ w, s.pc i = .wake w ∧ (s.table.wake w.addr w.maxN w.mode).2.2 = false := by
  obtain ⟨t,taken,errno⟩ := fails
  have clear : s.forget.errno i = none := rfl
  rw [step,advance,State.forget_pc] at taken
  cases counter : s.pc i <;> rw [counter] at taken
  case idle => cases taken
  case lock => cases taken; exact absurd errno (lockStep_noMem clear _ _ _)
  case unlock => cases taken; exact absurd errno (unlockStep_noMem clear _ _ _)
  case wake w =>
    cases taken
    refine .inr ⟨w,rfl,?_⟩
    cases out : (s.table.wake w.addr w.maxN w.mode).2.2 with
    | false => rfl
    | true => simp [wakeStep,out] at errno
  case wait w p =>
    cases p with
    | enter =>
      cases taken
      refine .inl ⟨w,rfl,?_⟩
      cases out : (s.table.enter w.addr w.mode i).2 with
      | full => rfl
      | pass => simp [waitEnter,out] at errno
      | parked => simp [waitEnter,out] at errno
    | blocked =>
      obtain ⟨result,-,rfl⟩ := Option.map_eq_some_iff.mp taken
      simp at errno
    | _ => cases taken; simp at errno
  all_goals
    cases taken
    (try simp only [postStep,semLoadStep,semTakeStep] at errno)
    (try split_ifs at errno) <;> simp at errno

theorem enter_full (t : Table κ ι) (mode : WaitMode) (n : ι) (full : (t.enter a mode n).2 = .full) :
    (t.entry a = none ∧ t.room = false) ∨ ∃ x, t.entry a = some x ∧ maxWaiters ≤ x.waiters.length := by
  have crowded : ∀ x : Entry κ ι, (parkEntry x n).2 = .full → maxWaiters ≤ x.waiters.length := by
    intro x refused
    unfold parkEntry at refused
    split at refused
    · cases refused
    · rename_i long
      exact Nat.le_of_not_lt long
  rw [Table.enter_outcome] at full
  cases found : t.entry a with
  | none =>
    rw [found] at full
    refine .inl ⟨rfl,?_⟩
    cases room : t.room with
    | false => rfl
    | true =>
      rw [room] at full
      cases mode with
      | credit => cases full
      | gen expected =>
        dsimp only [enterEntry] at full
        split at full
        · cases full
        · cases full
  | some x =>
    rw [found] at full
    refine .inr ⟨x,rfl,crowded x ?_⟩
    cases mode with
    | credit =>
      dsimp only [enterEntry] at full
      split at full
      · cases full
      · exact full
    | gen expected =>
      dsimp only [enterEntry] at full
      split at full
      · cases full
      · exact full

theorem wake_full (t : Table κ ι) (maxN : Nat) (mode : WakeMode) (full : (t.wake a maxN mode).2.2 = false) :
    t.entry a = none ∧ t.room = false := by
  rw [Table.wake_outcome] at full
  cases found : t.entry a with
  | some x =>
    rw [found] at full
    cases full
  | none =>
    rw [found] at full
    dsimp only [wakeEntry] at full
    refine ⟨rfl,?_⟩
    split at full
    · split at full
      · cases full
      · rename_i vacant
        exact Bool.of_not_eq_true vacant
    · cases full

/-- In a run that leaves no credit to nobody the table is empty whenever all threads are outside, and a
call fails with `ENOMEM` only where sixteen other addresses are waited at, or four other threads wait at
its own. -/
theorem wait_table_drains [DecidableEq ι] (run : Lts.Run (step T) Owed (start objects minted) es s) :
    ((∀ i, s.pc i = .idle) → ∀ k, s.table.slots k = none) ∧
      ∀ i, NoMem T s i → ∃ a, (s.pc i).entry = some a ∧ (Crowded s a ∨ Waited s i a) := by
  obtain ⟨entries,kept,covered⟩ := run.invariant (fun s => Entries s.table ∧ Queued s ∧ Covered s)
    (fun _ _ _ all owed taken => ⟨all.1.step taken,all.2.1.step taken,all.2.2.step all.1 owed taken⟩)
    ⟨fun a x found => absurd (found.symm.trans (Table.entry_empty a)) (Option.some_ne_none x),
      .initial objects minted,
      .initial objects minted⟩
  refine ⟨fun idle k => ?_,fun i fails => ?_⟩
  · refine Option.eq_none_iff_forall_ne_some.mpr fun x used => ?_
    obtain ⟨j,awaits⟩ := covered.awaited entries kept (entry_of_slot used)
    rw [idle j] at awaits
    cases awaits
  · rcases noMem_cases fails with ⟨w,counter,full⟩ | ⟨w,counter,full⟩
    · refine ⟨w.addr,by rw [counter]; rfl,?_⟩
      rcases enter_full s.table w.mode i full with ⟨missing,noRoom⟩ | ⟨x,used,long⟩
      · exact .inl (covered.crowded entries kept missing noRoom)
      · have waiters : s.table.waiters w.addr = x.waiters := by
          rw [Table.waiters,used]
          rfl
        refine .inr ⟨x.waiters,waiters ▸ kept.nodup w.addr,long,fun j member => ?_⟩
        have queues := kept.home w.addr j (waiters ▸ member)
        refine ⟨?_,queues_awaits queues⟩
        rintro rfl
        rw [counter] at queues
        exact queues
    · refine ⟨w.addr,by rw [counter]; rfl,.inl ?_⟩
      obtain ⟨missing,noRoom⟩ := wake_full s.table w.maxN w.mode full
      exact covered.crowded entries kept missing noRoom

/-- A thread has found a semaphore empty when another one posts to it. -/
def metPost (k : κ) (i j : ι) : List (Event κ ι) :=
  [.call j (.semWait (some k) false),.run j,.call i (.semPost (some k)),.run i,.run i] ++ Event.runs j 4

theorem wait_table_drains_post : ∃ s, Lts.Run (step two) Owed (start (fun _ => ⟨0,0⟩) fun _ => true)
    (metPost 0 0 1) s ∧
    (∀ i, s.pc i = .idle) ∧ (∀ k, s.table.slots k = none) ∧
      ∀ i, NoMem two s i → ∃ a, (s.pc i).entry = some a ∧ (Crowded s a ∨ Waited s i a) := by
  obtain ⟨s,run,idle⟩ := Lts.Run.exists_of_replay (step two) Owed (start (fun _ => ⟨0,0⟩) fun _ => true)
    (metPost 0 0 1) (fun s => ∀ i, s.pc i = .idle) (by decide +kernel)
  obtain ⟨empty,fails⟩ := wait_table_drains run
  exact ⟨s,run,idle,empty idle,fails⟩

/-- A post to a semaphore that nobody waits on keeps an entry. -/
theorem post_keeps_entry : ¬∀ es (s : State (Fin 1) (Fin 2)),
    Lts.Run (step two) (fun _ _ => True) (start (fun _ => ⟨0,0⟩) fun _ => true) es s →
      (∀ i, s.pc i = .idle) → ∀ k, s.table.slots k = none := by
  intro drains
  obtain ⟨s,run,idle,k,kept⟩ := Lts.Run.exists_of_replay (step two) (fun _ _ => True)
    (start (fun _ => ⟨0,0⟩) fun _ => true)
    [.call 0 (.semPost (some (0 : Fin 1))),.run 0,.run 0] (fun s => (∀ i, s.pc i = .idle) ∧
      ∃ k, (s.table.slots k).isSome = true)
    (by decide +kernel)
  rw [drains _ s run idle k] at kept
  cases kept

end Qsoe.Sync
