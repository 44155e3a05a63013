import Qsoe.Sync.Fifo
import Qsoe.Sync.Parking

/-! What holds of the wait table between critical sections, in every run of the calls, whatever Notifications signal
and however waits return. -/
namespace Qsoe.Sync

variable {κ ι : Type} [DecidableEq κ] {T : Threads ι} {s t : State κ ι} {i j : ι} {e : Event κ ι}

/-- An entry in use. -/
structure Entry.Sound (e : Entry κ ι) : Prop where
  few : e.waiters.length ≤ maxWaiters
  credit : e.credit ≤ 1
  used : e.waiters ≠ [] ∨ e.credit = 1

def queued (t : Slots κ ι) : List ι := (List.finRange maxEntries).flatMap fun i => (t i).elim [] Entry.waiters

/-- The table between two critical sections. -/
structure Sound (t : Slots κ ι) : Prop where
  unique : Unique t
  entries : ∀ i e, t i = some e → e.Sound
  once : (queued t).Nodup

section

omit [DecidableEq κ]

theorem settle_sound {e f : Entry κ ι} (few : e.waiters.length ≤ maxWaiters) (credit : e.credit ≤ 1)
    (settled : settle e = some f) : f.Sound := by
  unfold settle at settled
  split at settled
  · cases settled
  · rename_i busy
    obtain rfl := Option.some.inj settled
    refine ⟨few,credit,?_⟩
    by_cases empty : e.waiters = []
    · have nonzero : e.credit ≠ 0 := fun nothing => busy ⟨empty,nothing⟩
      exact .inr (by omega)
    · exact .inl empty

theorem parkEntry_sound {e f : Entry κ ι} (sound : e.Sound) (parked : (parkEntry e n).1 = some f) : f.Sound := by
  unfold parkEntry at parked
  split at parked
  · rename_i short
    obtain rfl := Option.some.inj parked
    refine ⟨?_,sound.credit,.inl (List.append_ne_nil_of_right_ne_nil _ (List.cons_ne_nil n []))⟩
    dsimp only
    rw [List.length_append,List.length_singleton]
    exact short
  · obtain rfl := Option.some.inj parked
    exact sound

theorem fresh_sound (a : Addr κ) (n : ι) : (⟨a,0,0,[n]⟩ : Entry κ ι).Sound :=
  ⟨Nat.succ_le_succ (Nat.zero_le _),Nat.zero_le _,.inl (List.cons_ne_nil n [])⟩

theorem enterEntry_sound {o : Option (Entry κ ι)} {f : Entry κ ι} (sound : ∀ e, o = some e → e.Sound)
    (left : (enterEntry a room mode n o).1 = some f) : f.Sound := by
  cases o with
  | none =>
    cases mode with
    | credit =>
      dsimp only [enterEntry] at left
      split at left
      · obtain rfl := Option.some.inj left
        exact fresh_sound a n
      · cases left
    | gen expected =>
      dsimp only [enterEntry] at left
      split at left
      · cases left
      · split at left
        · obtain rfl := Option.some.inj left
          exact fresh_sound a n
        · cases left
  | some e =>
    have old := sound e rfl
    cases mode with
    | credit =>
      dsimp only [enterEntry] at left
      split at left
      · exact settle_sound (e := { e with credit := e.credit - 1 }) old.few
          (Nat.le_trans (Nat.sub_le _ _) old.credit) left
      · exact parkEntry_sound old left
    | gen expected =>
      dsimp only [enterEntry] at left
      split at left
      · exact settle_sound old.few old.credit left
      · exact parkEntry_sound old left

end

omit [DecidableEq κ] in
theorem leaveEntry_sound [DecidableEq ι] {o : Option (Entry κ ι)} {f : Entry κ ι}
    (sound : ∀ e, o = some e → e.Sound) (left : leaveEntry n o = some f) : f.Sound := by
  obtain ⟨e,found,settled⟩ := Option.bind_eq_some_iff.mp left
  have old := sound e found
  exact settle_sound (e := removeWaiter e n) (List.erase_sublist.length_le.trans old.few) old.credit settled

omit [DecidableEq κ] in
theorem wakeEntry_sound {o : Option (Entry κ ι)} {f : Entry κ ι} (sound : ∀ e, o = some e → e.Sound)
    (left : (wakeEntry a room maxN mode o).1 = some f) : f.Sound := by
  cases o with
  | none =>
    dsimp only [wakeEntry] at left
    split at left
    · split at left
      · obtain rfl := Option.some.inj left
        exact ⟨Nat.zero_le _,Nat.le_refl 1,.inr rfl⟩
      · cases left
    · cases left
  | some e =>
    have old := sound e rfl
    dsimp only [wakeEntry] at left
    refine settle_sound ?_ ?_ left
    · exact (List.drop_sublist _ _).length_le.trans old.few
    · dsimp only
      split
      · exact Nat.le_refl 1
      · exact old.credit

inductive TableMoves [DecidableEq ι] (s : State κ ι) (i : ι) (t : State κ ι) : Prop where
  | same (table : t.table = s.table)
  | enter (w : WaitCall κ) (before : s.pc i = .wait w .enter) (table : t.table = (s.table.enter w.addr w.mode i).1)
  | leave (w : WaitCall κ) (before : s.pc i = .wait w .leave) (table : t.table = s.table.leave w.addr i)
  | wake (w : WakeCall κ) (before : s.pc i = .wake w) (table : t.table = (s.table.wake w.addr w.maxN w.mode).1)

omit [DecidableEq κ] in
theorem spurious_moves [DecidableEq ι] (taken : spuriousStep s i = some t) :
    t.table = s.table ∧ ∃ w p, s.pc i = .wait w p ∧ (p = .park ∨ p = .blocked) ∧ t.pc i = .wait w .leave := by
  unfold spuriousStep at taken
  split at taken
  · rename_i w park
    obtain rfl := Option.some.inj taken
    exact ⟨rfl,w,.park,park,.inl rfl,by simp⟩
  · rename_i w blocked
    split at taken
    · obtain rfl := Option.some.inj taken
      exact ⟨rfl,w,.blocked,blocked,.inr rfl,by simp⟩
    · cases taken
  · cases taken

def Pc.Queues (a : Addr κ) : Pc κ → Prop
  | .wait w .park | .wait w .blocked | .wait w .leave => w.addr = a
  | _ => False

/-- A thread is on the list of the address it waits at, once, and on no other. -/
structure Queued (s : State κ ι) : Prop where
  nodup : ∀ a, (s.table.waiters a).Nodup
  home : ∀ a j, j ∈ s.table.waiters a → (s.pc j).Queues a

theorem Queued.absent (kept : Queued s) (away : ¬(s.pc i).Queues a) : i ∉ s.table.waiters a :=
  fun member => away (kept.home a i member)

/-- The lists shrink and only the thread that runs moves. -/
theorem Queued.shrink (kept : Queued s) (others : ∀ j, j ≠ i → t.pc j = s.pc j)
    (fewer : ∀ a, (t.table.waiters a).Sublist (s.table.waiters a)) (own : ∀ a, i ∈ t.table.waiters a →
      (t.pc i).Queues a) :
    Queued t := by
  refine ⟨fun a => (kept.nodup a).sublist (fewer a),fun a j member => ?_⟩
  rcases eq_or_ne j i with rfl | other
  · exact own a member
  · rw [others j other]
    exact kept.home a j ((fewer a).subset member)

theorem Queued.same (kept : Queued s) (others : ∀ j, j ≠ i → t.pc j = s.pc j) (table : t.table = s.table)
    (own : ∀ a, (s.pc i).Queues a → (t.pc i).Queues a) : Queued t :=
  kept.shrink others (fun a => by rw [table]) fun a member => own a (kept.home a i (table ▸ member))

theorem Queued.enter {w : WaitCall κ} (kept : Queued s) (others : ∀ j, j ≠ i → t.pc j = s.pc j)
    (table : t.table = (s.table.enter w.addr w.mode i).1) (before : s.pc i = .wait w .enter)
    (after : t.pc i = enterNext s i w) :
    Queued t := by
  have absent : ∀ a, i ∉ s.table.waiters a := fun a => kept.absent (by rw [before]; exact id)
  have waiters : ∀ a, t.table.waiters a = _ := fun a => table ▸ s.table.waiters_enter w.addr a w.mode i
  by_cases parked : (s.table.enter w.addr w.mode i).2 = .parked
  · have place : t.pc i = .wait w .park := by rw [after,enterNext,parked]
    refine ⟨fun a => ?_,fun a j member => ?_⟩
    · rw [waiters]
      split
      · refine List.nodup_append.mpr ⟨kept.nodup _,List.nodup_singleton i,fun x old y new => ?_⟩
        obtain rfl := List.mem_singleton.mp new
        rintro rfl
        exact absent _ old
      · exact kept.nodup a
    · rcases eq_or_ne j i with rfl | other
      · rw [waiters] at member
        split at member
        · rename_i here
          rw [place]
          exact here.1.symm
        · exact absurd member (absent a)
      · rw [others j other]
        rw [waiters] at member
        split at member
        · rename_i here
          rw [here.1]
          exact kept.home _ j ((List.mem_append.mp member).resolve_right fun new =>
            other (List.mem_singleton.mp new))
        · exact kept.home a j member
  · have still : ∀ a, t.table.waiters a = s.table.waiters a :=
      fun a => by rw [waiters,if_neg fun both => parked both.2]
    exact kept.shrink others (fun a => by rw [still]) fun a member => absurd (still a ▸ member) (absent a)

theorem Queued.leave [DecidableEq ι] {w : WaitCall κ} (kept : Queued s) (others : ∀ j, j ≠ i → t.pc j = s.pc j)
    (table : t.table = s.table.leave w.addr i) (before : s.pc i = .wait w .leave) : Queued t := by
  have waiters : ∀ a, t.table.waiters a = _ := fun a => table ▸ s.table.waiters_leave w.addr a i
  refine kept.shrink others (fun a => ?_) fun a member => ?_
  · rw [waiters]
    split
    · rename_i here
      rw [here]
      exact List.erase_sublist
    · exact List.Sublist.refl _
  · rw [waiters] at member
    split at member
    · exact absurd member (List.Nodup.not_mem_erase (kept.nodup w.addr))
    · rename_i elsewhere
      have home := kept.home a i member
      rw [before] at home
      exact absurd home.symm elsewhere

theorem Queued.wake {w : WakeCall κ} (kept : Queued s) (others : ∀ j, j ≠ i → t.pc j = s.pc j)
    (table : t.table = (s.table.wake w.addr w.maxN w.mode).1) (before : s.pc i = .wake w) : Queued t := by
  have waiters : ∀ a, t.table.waiters a = _ := fun a => table ▸ s.table.waiters_wake w.addr a w.maxN w.mode
  have fewer : ∀ a, (t.table.waiters a).Sublist (s.table.waiters a) := by
    intro a
    rw [waiters]
    split
    · rename_i here
      rw [here]
      exact List.drop_sublist _ _
    · exact List.Sublist.refl _
  exact kept.shrink others fewer fun a member => absurd ((fewer a).subset member) (kept.absent (by rw [before]; exact id))

theorem step_tableMoves [DecidableEq ι] (taken : step T s e = some t) : TableMoves s e.thread t := by
  by_cases genuine : e = .spurious e.thread
  · rw [genuine] at taken
    exact .same (spurious_moves taken).1
  · cases step_moves taken genuine with
    | other kernel table => exact .same table
    | mint w kernel table => exact .same table
    | enter w kernel table before => exact .enter w before table
    | sleep w kernel table => exact .same table
    | resume w origin kernel table => exact .same table
    | leave w kernel table before => exact .leave w before table
    | wake w kernel table before => exact .wake w before table

theorem Queued.step [DecidableEq ι] (kept : Queued s) (taken : Sync.step T s e = some t) : Queued t := by
  have others := (step_frame taken).pc
  by_cases genuine : e = .spurious e.thread
  · rw [genuine] at taken
    obtain ⟨table,w,p,before,-,after⟩ := spurious_moves taken
    refine kept.same others table fun a home => ?_
    rw [before] at home
    rw [after]
    cases p with
    | park => exact home
    | blocked => exact home
    | leave => exact home
    | mint => exact home.elim
    | enter => exact home.elim
  · cases step_moves taken genuine with
    | other kernel table calm before after =>
      refine kept.same others table fun a home => ?_
      cases place : s.pc e.thread with
      | wait w p =>
        rw [place,before w p place] at home
        exact home.elim
      | _ =>
        rw [place] at home
        exact home.elim
    | mint w kernel table before after =>
      refine kept.same others table fun a home => ?_
      rw [before] at home
      exact home.elim
    | enter w kernel table before after => exact kept.enter others table before after
    | sleep w kernel table before after =>
      refine kept.same others table fun a home => ?_
      rw [before] at home
      rw [after]
      split
      · exact home
      · exact home
    | resume w origin kernel table before after =>
      refine kept.same others table fun a home => ?_
      rw [before] at home
      rw [after]
      exact home
    | leave w kernel table before after => exact kept.leave others table before
    | wake w kernel table before after => exact kept.wake others table before

theorem Queued.initial (objects : κ → SyncT) (minted : ι → Bool) : Queued (start objects minted) where
  nodup a := by simp [start]
  home a j member := by simp [start] at member

def Entries (t : Table κ ι) : Prop := ∀ a e, t.entry a = some e → e.Sound

theorem Entries.step [DecidableEq ι] (entries : Entries s.table) (taken : Sync.step T s e = some t) :
    Entries t.table := by
  cases step_tableMoves taken with
  | same table => exact table ▸ entries
  | enter w before table =>
    intro a f found
    rw [table,Table.entry_enter] at found
    split at found
    · exact enterEntry_sound (entries w.addr) found
    · exact entries a f found
  | leave w before table =>
    intro a f found
    rw [table,Table.entry_leave] at found
    split at found
    · exact leaveEntry_sound (entries w.addr) found
    · exact entries a f found
  | wake w before table =>
    intro a f found
    rw [table,Table.entry_wake] at found
    split at found
    · exact wakeEntry_sound (entries w.addr) found
    · exact entries a f found

theorem entry_of_slot {t : Table κ ι} {k : Fin maxEntries} {e : Entry κ ι} (used : t.slots k = some e) :
    t.entry e.addr = some e :=
  (lookup_eq_some_iff t.unique).mpr ⟨k,used,rfl⟩

/-- No thread is queued twice, in one entry or in two. -/
theorem Queued.once (kept : Queued s) : (queued s.table.slots).Nodup := by
  have listed : ∀ k e, s.table.slots k = some e → s.table.waiters e.addr = e.waiters := by
    intro k e used
    rw [Table.waiters,entry_of_slot used]
    rfl
  refine List.nodup_flatMap.mpr ⟨fun k _ => ?_,?_⟩
  · cases used : s.table.slots k with
    | none => exact List.nodup_nil
    | some e =>
      have nodup := kept.nodup e.addr
      rw [listed k e used] at nodup
      exact nodup
  · refine (List.nodup_finRange maxEntries).imp fun {k l} apart => ?_
    intro j first second
    dsimp only at first second
    cases used : s.table.slots k with
    | none =>
      rw [used] at first
      cases first
    | some e =>
      cases beside : s.table.slots l with
      | none =>
        rw [beside] at second
        cases second
      | some f =>
        rw [used] at first
        rw [beside] at second
        have here := kept.home e.addr j (listed k e used ▸ first)
        have there := kept.home f.addr j (listed l f beside ▸ second)
        have same : e.addr = f.addr := by
          cases place : s.pc j with
          | wait w p =>
            rw [place] at here there
            cases p with
            | park => exact here.symm.trans there
            | blocked => exact here.symm.trans there
            | leave => exact here.symm.trans there
            | mint => exact here.elim
            | enter => exact here.elim
          | _ =>
            rw [place] at here
            exact here.elim
        exact absurd (s.table.unique k l e f used beside same) apart

/-- Waiters keep their order, a new one goes to the end, and a wake takes those in front. -/
structure Ordered [DecidableEq ι] (s : State κ ι) (i : ι) (t : State κ ι) : Prop where
  order : ∀ a, (t.table.waiters a).Sublist (s.table.waiters a ++ [i])
  wakes : ∀ w, s.pc i = .wake w → ∃ ns, s.table.waiters w.addr = ns ++ t.table.waiters w.addr ∧
    t.kernel = s.kernel.signalAll ns

theorem step_ordered [DecidableEq ι] (taken : step T s e = some t) : Ordered s e.thread t := by
  constructor
  · intro a
    have front := List.sublist_append_left (s.table.waiters a) [e.thread]
    cases step_tableMoves taken with
    | same table =>
      rw [table]
      exact front
    | enter w before table =>
      rw [table,Table.waiters_enter]
      split
      · rename_i here
        rw [here.1]
      · exact front
    | leave w before table =>
      rw [table,Table.waiters_leave]
      split
      · rename_i here
        rw [← here]
        exact List.erase_sublist.trans front
      · exact front
    | wake w before table =>
      rw [table,Table.waiters_wake]
      split
      · rename_i here
        rw [← here]
        exact (List.drop_sublist _ _).trans front
      · exact front
  · intro w here
    by_cases genuine : e = .spurious e.thread
    · rw [genuine] at taken
      obtain ⟨-,v,p,before,-,-⟩ := spurious_moves taken
      cases here.symm.trans before
    · cases step_moves taken genuine with
      | other kernel table calm before after => exact absurd here (calm w)
      | mint v kernel table before after => cases here.symm.trans before
      | enter v kernel table before after => cases here.symm.trans before
      | sleep v kernel table before after => cases here.symm.trans before
      | resume v origin kernel table before after => cases here.symm.trans before
      | leave v kernel table before after => cases here.symm.trans before
      | wake v kernel table before after =>
        cases here.symm.trans before
        refine ⟨_,?_,kernel⟩
        rw [table,Table.waiters_wake,if_pos rfl,List.take_append_drop]

/-- The array of an entry holds its waiters. -/
structure Fifo.Backs [DecidableEq ι] (f : Fifo ι) (e : Entry κ ι) : Prop where
  push : ∀ n, (pushWaiter e n).map Entry.waiters = (f.push n).map Fifo.list
  pop : (popWaiter e).map (fun out => (out.1,out.2.waiters)) = f.pop.map fun out => (out.1,out.2.list)
  remove : ∀ n, (removeWaiter e n).waiters = (f.remove n).list

omit [DecidableEq κ] in
theorem Fifo.backs [DecidableEq ι] {f : Fifo ι} {e : Entry κ ι} (same : e.waiters = f.list) : f.Backs e := by
  constructor
  · intro n
    rw [list_push,pushWaiter,same]
    split
    · rfl
    · rfl
  · rw [list_pop,popWaiter,same]
    cases f.list with
    | nil => rfl
    | cons n rest => rfl
  · intro n
    rw [list_remove,removeWaiter,same]

/-- In every run of a process whose table lock has been minted the table keeps its invariant, and each step takes
its waiters in order, as the array does. -/
theorem wait_table_sound [DecidableEq ι] (T : Threads ι) (objects : κ → SyncT) (minted : ι → Bool) :
    (∀ es s, Lts.Run (step T) (fun _ _ => True) (start objects minted) es s →
      Sound s.table.slots ∧ ∀ e t, step T s e = some t → Ordered s e.thread t) ∧
    ∀ (f : Fifo ι) (e : Entry κ ι), e.waiters = f.list → f.Backs e := by
  refine ⟨fun es s run => ⟨?_,fun e t taken => step_ordered taken⟩,fun f e same => Fifo.backs same⟩
  obtain ⟨entries,kept⟩ := run.invariant (fun s => Entries s.table ∧ Queued s)
    (fun _ _ _ both _ taken => ⟨both.1.step taken,both.2.step taken⟩)
    ⟨fun a e found => absurd (found.symm.trans (Table.entry_empty a)) (Option.some_ne_none e),
      .initial objects minted⟩
  exact ⟨s.table.unique,fun k e used => entries e.addr e (entry_of_slot used),kept.once⟩

/-- Thread 0 sleeps on an empty semaphore and thread 1 is about to wake it. -/
theorem wait_table_sound_posted : ∃ s : State (Fin 1) (Fin 2),
    Lts.Run (step two) (fun _ _ => True) (start (fun _ => ⟨0,0⟩) fun _ => true)
      ([.call 0 (.semWait (some 0) false)] ++ Event.runs 0 4 ++ [.call 1 (.semPost (some 0)),.run 1]) s ∧
    s.table.waiters ⟨0,.count⟩ = [0] ∧ Sound s.table.slots ∧
    (∃ t, step two s (.run 1) = some t ∧ t.table.waiters ⟨0,.count⟩ = [] ∧ Ordered s 1 t) ∧
    (⟨fun _ => 0,1⟩ : Fifo (Fin 2)).Backs ⟨⟨(0 : Fin 1),.count⟩,0,0,[0]⟩ := by
  obtain ⟨s,run,parked,woken⟩ := Lts.Run.exists_of_replay (step two) (fun _ _ => True)
    (start (fun _ => ⟨0,0⟩) fun _ => true)
    ([.call 0 (.semWait (some 0) false)] ++ Event.runs 0 4 ++ [.call 1 (.semPost (some 0)),.run 1])
    (fun s : State (Fin 1) (Fin 2) => s.table.waiters ⟨0,.count⟩ = [0] ∧
      ((step two s (.run 1)).any fun t => decide (t.table.waiters ⟨0,.count⟩ = [])) = true) (by decide +kernel)
  obtain ⟨runs,arrays⟩ := wait_table_sound (κ := Fin 1) two (fun _ => ⟨0,0⟩) fun _ => true
  obtain ⟨t,taken,empty⟩ := (Option.any_eq_true _ _).mp woken
  obtain ⟨sound,ordered⟩ := runs _ s run
  exact ⟨s,run,parked,sound,⟨t,taken,of_decide_eq_true empty,ordered _ t taken⟩,arrays _ _ rfl⟩

end Qsoe.Sync
