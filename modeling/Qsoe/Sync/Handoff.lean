import Qsoe.Sync.Parking

/-! Wakes owed to the waiters of one address. A thread that has decided to wait stays
committed until a credit or a pop releases it, and a pending wake is used up only by
releasing a committed thread. The mutex and the semaphore both rest on this. -/
namespace Qsoe.Sync

variable {κ ι : Type} [DecidableEq κ] {T : Threads ι} {s t : State κ ι} {i j : ι} {a : Addr κ}

/-- The thread has decided to wait at `a` and has been given neither a credit nor a wake. -/
def Committed (a : Addr κ) (s : State κ ι) (j : ι) : Prop :=
  match s.pc j with
  | .wait w .mint | .wait w .enter => w.addr = a
  | .wait w .park | .wait w .blocked => w.addr = a ∧ j ∈ s.table.waiters a
  | _ => False

instance [DecidableEq ι] (a : Addr κ) (s : State κ ι) (j : ι) : Decidable (Committed a s j) :=
  match counter : s.pc j with
  | .wait w .mint | .wait w .enter => decidable_of_iff (w.addr = a) (by simp [Committed,counter])
  | .wait w .park | .wait w .blocked =>
    decidable_of_iff (w.addr = a ∧ j ∈ s.table.waiters a) (by simp [Committed,counter])
  | .idle | .lock _ _ _ | .unlock _ _ _ | .wake _ | .condLoad _ _ | .signalAdd _ _ | .postAdd _
  | .semLoad _ _ | .semTake _ _ _ | .destroyCount _ | .destroyOwner _ | .wait _ .leave =>
    isFalse (by simp [Committed,counter])

def Pending (a : Addr κ) (s : State κ ι) : Prop :=
  0 < s.table.credit a ∨ ∃ k w, s.pc k = .wake w ∧ w.addr = a

/-- The thread was popped and has not run yet, or its wait returned 0. -/
def Released (a : Addr κ) (s : State κ ι) (j : ι) : Prop :=
  (∃ w, w.addr = a ∧ (s.pc j = .wait w .park ∨ s.pc j = .wait w .blocked) ∧ j ∉ s.table.waiters a) ∨
  ∃ w errno, w.addr = a ∧ s.pc j = (waitReturn errno true w).pc

/-- Blocked in `qsoe_sys_wait`, with no signal to run on. -/
def Sleeps (s : State κ ι) (j : ι) : Prop := (∃ w, s.pc j = .wait w .blocked) ∧ s.kernel.grant j = none

instance (s : State κ ι) (j : ι) : Decidable (Sleeps s j) :=
  match counter : s.pc j with
  | .wait w .blocked =>
    decidable_of_iff (s.kernel.grant j = none) ⟨fun nothing => ⟨⟨w,counter⟩,nothing⟩,fun sleeps => sleeps.2⟩
  | .idle | .lock _ _ _ | .unlock _ _ _ | .wake _ | .condLoad _ _ | .signalAdd _ _ | .postAdd _
  | .semLoad _ _ | .semTake _ _ _ | .destroyCount _ | .destroyOwner _ | .wait _ .mint | .wait _ .enter
  | .wait _ .park | .wait _ .leave =>
    isFalse fun sleeps => by
      obtain ⟨⟨w,blocked⟩,-⟩ := sleeps
      rw [counter] at blocked
      cases blocked

/-- A thread asleep without a signal is still on the list of its address. -/
theorem Sleeps.committed (sleeps : Sleeps s j) (parking : Parking s) :
    ∃ w, s.pc j = .wait w .blocked ∧ Committed w.addr s j := by
  obtain ⟨⟨w,blocked⟩,ungranted⟩ := sleeps
  have at_ := parking.at_ j
  rw [blocked] at at_
  rcases at_ with ⟨member,-⟩ | ⟨-,-,⟨-,-,granted⟩ | ⟨running,-⟩⟩
  · exact ⟨w,blocked,by simpa [Committed,blocked] using member⟩
  · rw [ungranted] at granted
    cases granted
  · exact absurd trivial running

theorem Parking.committed (parking : Parking s) (member : j ∈ s.table.waiters a) : Committed a s j := by
  obtain ⟨w,rfl,park | blocked⟩ := parking.home a j member
  · simpa [Committed,park] using member
  · simpa [Committed,blocked] using member

theorem committed_outer (committed : Committed a s j) (outer : ¬(s.pc j).Inner) :
    ∃ w, w.addr = a ∧ s.pc j = .wait w .mint := by
  unfold Committed at committed
  split at committed
  · rename_i w counter
    exact ⟨w,committed,counter⟩
  · rename_i counter
    simp [counter,Pc.Inner] at outer
  · rename_i counter
    simp [counter,Pc.Inner] at outer
  · rename_i counter
    simp [counter,Pc.Inner] at outer
  · exact committed.elim

theorem listed_step [DecidableEq ι] (moves : Moves s i t) (other : j ≠ i) (member : j ∈ t.table.waiters a) :
    j ∈ s.table.waiters a := by
  cases moves with
  | other kernel table calm before after => rwa [table] at member
  | mint w kernel table before after => rwa [table] at member
  | enter w kernel table before after =>
    rw [table,Table.waiters_enter] at member
    split_ifs at member with same
    · simpa [same.1,other] using member
    · exact member
  | sleep w kernel table before after => rwa [table] at member
  | resume w origin kernel table before after => rwa [table] at member
  | leave w kernel table before after =>
    rw [table,Table.waiters_leave] at member
    split_ifs at member with same
    · exact same ▸ List.mem_of_mem_erase member
    · exact member
  | wake w kernel table before after =>
    rw [table,Table.waiters_wake] at member
    split_ifs at member with same
    · exact same ▸ List.mem_of_mem_drop member
    · exact member

/-- The only new commitment of a step is its own thread's, on entry to the wait. -/
theorem committed_step [DecidableEq ι] (moves : Moves s i t) (others : ∀ j, j ≠ i → t.pc j = s.pc j)
    (committed : Committed a t j) :
    Committed a s j ∨ j = i ∧ ∃ w, w.addr = a ∧ t.pc i = .wait w .mint := by
  by_cases own : j = i
  · subst own
    cases moves with
    | other kernel table calm before after => exact .inr ⟨rfl,committed_outer committed after⟩
    | mint w kernel table before after =>
      exact .inl (by simpa [Committed,before,after] using committed)
    | enter w kernel table before after =>
      cases outcome : (s.table.enter w.addr w.mode j).2 with
      | parked =>
        simp only [enterNext,outcome] at after
        simp only [Committed,after] at committed
        exact .inl (by simpa [Committed,before] using committed.1)
      | pass =>
        simp only [enterNext,outcome] at after
        exact .inr ⟨rfl,committed_outer committed (by rw [after]; exact not_inner_waitReturn)⟩
      | full =>
        simp only [enterNext,outcome] at after
        exact .inr ⟨rfl,committed_outer committed (by rw [after]; exact not_inner_waitReturn)⟩
    | sleep w kernel table before after =>
      split_ifs at after
      · simp [Committed,after] at committed
      · simp only [Committed,after,table] at committed
        exact .inl (by simpa [Committed,before] using committed)
    | resume w origin kernel table before after => simp [Committed,after] at committed
    | leave w kernel table before after =>
      exact .inr ⟨rfl,committed_outer committed (by rw [after]; exact not_inner_waitReturn)⟩
    | wake w kernel table before after => exact .inr ⟨rfl,committed_outer committed after⟩
  · left
    unfold Committed at committed ⊢
    rw [others j own] at committed
    have listed := listed_step (a := a) moves own
    split at committed
    · exact committed
    · exact committed
    · exact ⟨committed.1,listed committed.2⟩
    · exact ⟨committed.1,listed committed.2⟩
    · exact committed

omit [DecidableEq κ] in
theorem wait_ne_waitReturn {w v : WaitCall κ} : (waitReturn errno ok w).pc ≠ .wait v p := by
  cases w with
  | lock m k => cases ok <;> cases k <;> simp [waitReturn,lockReturn,Next.pc]
  | cond c m seen => simp [waitReturn,Next.pc]
  | sem o => cases ok <;> simp [waitReturn,Next.pc]

theorem not_committed_waitReturn (returned : s.pc j = (waitReturn errno ok w).pc) : ¬Committed a s j := by
  intro committed
  obtain ⟨v,-,counter⟩ := committed_outer committed (by rw [returned]; exact not_inner_waitReturn)
  exact wait_ne_waitReturn (returned.symm.trans counter)

/-- A pending wake survives a step or has released a committed thread. -/
theorem pending_step [DecidableEq ι] (parking : Parking s) (moves : Moves s i t)
    (others : ∀ j, j ≠ i → t.pc j = s.pc j)
    (room : s.table.room = true) (absorbing : ∀ w, s.pc i = .wake w → w.addr = a → w.mode = .absorb)
    (pending : Pending a s) :
    Pending a t ∨ ∃ j, Committed a s j ∧ ¬Committed a t j ∧ Released a t j := by
  have wakers : (∀ w, s.pc i = .wake w → w.addr ≠ a) → s.table.credit a ≤ t.table.credit a → Pending a t := by
    intro calm credit
    rcases pending with stored | ⟨k,w,waking,addr⟩
    · exact .inl (Nat.lt_of_lt_of_le stored credit)
    · have other : k ≠ i := by rintro rfl; exact calm w waking addr
      exact .inr ⟨k,w,(others k other).trans waking,addr⟩
  cases moves with
  | other kernel table calm before after =>
    exact .inl (wakers (fun w waking => absurd waking (calm w)) (by rw [table]))
  | mint w kernel table before after => exact .inl (wakers (by simp [before]) (by rw [table]))
  | enter w kernel table before after =>
    by_cases consumed : a = w.addr ∧ w.mode = .credit ∧ (s.table.enter w.addr w.mode i).2 = .pass
    · obtain ⟨rfl,-,pass⟩ := consumed
      simp only [enterNext,pass] at after
      exact .inr ⟨i,by simp [Committed,before],not_committed_waitReturn after,.inr ⟨w,_,rfl,after⟩⟩
    · exact .inl (wakers (by simp [before]) (by rw [table,Table.credit_enter,if_neg consumed]))
  | sleep w kernel table before after => exact .inl (wakers (by simp [before]) (by rw [table]))
  | resume w origin kernel table before after => exact .inl (wakers (by simp [before]) (by rw [table]))
  | leave w kernel table before after =>
    exact .inl (wakers (by simp [before]) (by rw [table,Table.credit_leave]))
  | wake w kernel table before after =>
    by_cases there : w.addr = a
    · subst there
      cases waiting : s.table.waiters w.addr with
      | nil =>
        left; left
        rw [table,absorbing w before rfl]
        refine Table.credit_wake_absorb _ room ?_
        rw [waiting,wakeLimit]
        split_ifs with all
        · simp [maxWaiters]
        · simpa using Nat.pos_of_ne_zero all
      | cons n rest =>
        have member : n ∈ s.table.waiters w.addr := by simp [waiting]
        have other : n ≠ i := by rintro rfl; exact parking.not_listed (by simp [before,Pc.Asleep]) member
        have gone : n ∉ t.table.waiters w.addr := by
          have fresh := (List.nodup_cons.mp (waiting ▸ parking.nodup w.addr)).1
          rw [table,Table.waiters_wake,if_pos rfl,waiting]
          obtain ⟨k,limit⟩ : ∃ k, wakeLimit w.maxN = k + 1 := by
            refine Nat.exists_eq_succ_of_ne_zero ?_
            unfold wakeLimit
            split_ifs <;> simp_all [maxWaiters]
          rw [limit,List.drop_succ_cons]
          exact fun left => fresh (List.mem_of_mem_drop left)
        obtain ⟨v,addr,asleep⟩ := parking.home _ n member
        rw [← others n other] at asleep
        refine .inr ⟨n,parking.committed member,?_,.inl ⟨v,addr,asleep,gone⟩⟩
        rcases asleep with park | blocked
        · simp [Committed,park,gone]
        · simp [Committed,blocked,gone]
    · refine .inl (wakers (fun v waking => ?_) (by rw [table,Table.credit_wake_other _ (Ne.symm there)]))
      rw [before] at waking
      cases waking
      exact there

end Qsoe.Sync
