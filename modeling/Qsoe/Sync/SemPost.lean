import Qsoe.Sync.Semaphore

/-! `SyncSemPost` adds its unit before the table operation that can fail. A post that finds neither an entry for its
address nor a free one returns -1, and its unit stays. -/
namespace Qsoe.Sync.Semaphore

variable {κ ι : Type} [DecidableEq κ] [DecidableEq ι] {T : Threads ι} {s t : State κ ι} {e : Event κ ι}
    {i : ι} {o : κ}

/-- The state; `extra` is history: the units that were added by posts that returned -1. -/
structure Posting (κ ι : Type) where
  state : State κ ι
  extra : κ → Nat

namespace Posting

/-- What a step to `t` adds: a post ends in its wake, behind its unit. -/
def spoil (p : Posting κ ι) (i : ι) (t : State κ ι) : κ → Nat :=
  match p.state.pc i with
  | .wake (.post o) => if t.ret i = some .minusOne then Function.update p.extra o (p.extra o + 1) else p.extra
  | _ => p.extra

def step (T : Threads ι) (p : Posting κ ι) (e : Event κ ι) : Option (Posting κ ι) :=
  (Sync.step T p.state e).map fun t => ⟨t,p.spoil e.thread t⟩

def start (objects : κ → SyncT) (minted : ι → Bool) : Posting κ ι := ⟨Sync.start objects minted,fun _ => 0⟩

/-- A post that comes to its wake finds an entry for its address or a free one. -/
def Roomy (p : Posting κ ι) (e : Event κ ι) : Prop :=
  ∀ o, p.state.pc e.thread = .wake (.post o) → (p.state.table.entry (address o)).isSome = true ∨
    p.state.table.room = true

/-- Any call of any thread. -/
def anyEvent (_ : Posting κ ι) (_ : Event κ ι) : Prop := True

end Posting

omit [DecidableEq ι] in
theorem wake_accepted (s : State κ ι) (o : κ) :
    (s.table.wake (address o) 1 .absorb).2.2 = true ↔ (s.table.entry (address o)).isSome = true ∨
      s.table.room = true := by
  rw [Table.wake_outcome]
  cases s.table.entry (address o) with
  | some e => exact ⟨fun _ => .inl rfl,fun _ => rfl⟩
  | none =>
    rw [wakeEntry,if_pos rfl]
    split
    · rename_i room
      exact ⟨fun _ => .inr room,fun _ => rfl⟩
    · rename_i full
      refine ⟨fun refused => ?_,fun roomy => ?_⟩
      · cases refused
      · rcases roomy with found | room
        · cases found
        · exact absurd room full

theorem step_wake (taken : step T s e = some t) (before : s.pc e.thread = .wake w) : t = wakeStep s e.thread w := by
  cases e with
  | call i c =>
    dsimp only [Sync.step] at taken
    split at taken
    · rename_i idle
      cases idle.symm.trans before
    · cases taken
  | run i =>
    dsimp only [Event.thread] at before
    have ran : advance T s i = some (wakeStep s i w) := by rw [advance,before]
    exact Option.some.inj (taken.symm.trans ran)
  | mintFails i =>
    dsimp only [Sync.step,mintFailsStep] at taken
    dsimp only [Event.thread] at before
    rw [before] at taken
    cases taken
  | spurious i =>
    dsimp only [Sync.step,spuriousStep] at taken
    dsimp only [Event.thread] at before
    rw [before] at taken
    cases taken

theorem wakeStep_ret (s : State κ ι) (i : ι) (o : κ) :
    (wakeStep s i (.post o)).ret i = some .minusOne ↔ ¬(s.table.wake (address o) 1 .absorb).2.2 = true := by
  unfold wakeStep
  dsimp only
  change (if (s.table.wake (address o) 1 .absorb).2.2 = true then _ else _ : State κ ι).ret i = some .minusOne ↔ _
  split
  · rename_i fine
    simp [wakeReturn,fine]
  · rename_i refused
    simp [wakeReturn,refused]

namespace Posting

variable {p q : Posting κ ι}

theorem step_extra (taken : step T p e = some q) : q.extra = p.extra ↔ p.Roomy e := by
  obtain ⟨t,moved,rfl⟩ := Option.map_eq_some_iff.mp taken
  show p.spoil e.thread t = p.extra ↔ _
  unfold spoil
  split
  · rename_i o before
    have last := step_wake moved before
    have refused := (wakeStep_ret p.state e.thread o).trans (not_congr (wake_accepted p.state o))
    rw [← last] at refused
    constructor
    · intro same o' here
      obtain rfl : o = o' := by
        cases before.symm.trans here
        rfl
      by_contra full
      rw [if_pos (refused.mpr full)] at same
      have count := congrFun same o
      rw [Function.update_self] at count
      omega
    · intro roomy
      rw [if_neg fun failed => refused.mp failed (roomy o before)]
  · rename_i other
    exact ⟨fun _ o before => absurd before (other o),fun _ => rfl⟩

end Posting

/-- Where each post finds an entry of its address or a free one, no post that returns -1 has added a unit; a post
elsewhere has, and one without a semaphore has not. -/
theorem failed_posts_add_nothing (T : Threads ι) (objects : κ → SyncT) (minted : ι → Bool) :
    (∀ es p, Lts.Run (Posting.step T) Posting.Roomy (Posting.start objects minted) es p → ∀ o, p.extra o = 0) ∧
      (∀ (p : Posting κ ι) e q, Posting.step T p e = some q → (q.extra = p.extra ↔ p.Roomy e)) ∧
      ∀ (s : State κ ι) i t, step T s (.call i (.semPost none)) = some t →
        t.ret i = some .minusOne ∧ t.count = s.count ∧ t.table = s.table := by
  refine ⟨fun es p run o => ?_,fun p e q taken => Posting.step_extra taken,fun s i t taken => ?_⟩
  · have nothing := run.invariant (fun p => p.extra = fun _ => 0)
      (fun p e q before roomy taken => ((Posting.step_extra taken).mpr roomy).trans before) rfl
    exact congrFun nothing o
  · dsimp only [Sync.step] at taken
    split at taken
    · obtain rfl := Option.some.inj taken
      exact ⟨Function.update_self ..,rfl,rfl⟩
    · cases taken

/-- Seventeen semaphores without a unit. -/
def seventeen : Fin 17 → SyncT := fun _ => ⟨0,0⟩

def posted (i : ι) (o : κ) : List (Event κ ι) := .call i (.semPost (some o)) :: Event.runs i 2

/-- Thread `i` posts once to each of the objects, and thread `j` takes a unit of `o`. -/
def crowd (os : List κ) (o : κ) (i j : ι) : List (Event κ ι) :=
  os.flatMap (posted i) ++ .call j (.semWait (some o) true) :: Event.runs j 2

/-- The last post returns -1, and yet its unit is there to be taken. -/
theorem failed_post_taken : ∃ p : Posting (Fin 17) (Fin 2),
    Lts.Run (Posting.step two) Posting.anyEvent (.start seventeen fun _ => true)
      (crowd (List.finRange 17) 16 0 1) p ∧
    p.state.ret 0 = some .minusOne ∧ p.extra 16 = 1 ∧ p.state.posts 16 = 1 ∧ p.state.ret 1 = some .zero ∧
      p.state.takes 16 = 1 :=
  Lts.Run.exists_of_replay (Posting.step two) (fun _ _ => True) (.start seventeen fun _ => true)
    (crowd (List.finRange 17) 16 0 1)
    (fun p => p.state.ret 0 = some .minusOne ∧ p.extra 16 = 1 ∧ p.state.posts 16 = 1 ∧
      p.state.ret 1 = some .zero ∧ p.state.takes 16 = 1)
    (by decide +kernel)

end Qsoe.Sync.Semaphore
