import Qsoe.Lib.Run
import Qsoe.Sync.Frame

/-! The width of the `count` word. A step moves a count by one at most, so a run of fewer
than `2 ^ 63` steps keeps every count in the range of the C `long` it is stored in. -/
namespace Qsoe.Sync

variable {κ ι : Type}

/-- The count a thread has loaded and is about to write back changed. -/
def Pc.loaded : Pc κ → Option Int
  | .lock _ _ (.recStore c) | .unlock _ _ (.decStore c) | .semTake _ _ c => some c
  | _ => none

/-- Every count, stored or loaded, is at most `bound` away from 0. -/
structure Within (bound : Nat) (s : State κ ι) : Prop where
  count : ∀ o, (s.count o).natAbs ≤ bound
  loaded : ∀ i c, (s.pc i).loaded = some c → c.natAbs ≤ bound

@[simp] theorem lockReturn_loaded : (lockReturn errno ok k : Next κ).pc.loaded = none := by cases k <;> rfl

@[simp] theorem waitReturn_loaded : (waitReturn errno ok w : Next κ).pc.loaded = none := by
  cases w with
  | lock m k =>
    cases ok with
    | false => exact lockReturn_loaded
    | true => rfl
  | cond c m seen => rfl
  | sem o => cases ok <;> rfl

@[simp] theorem unlockReturn_loaded : (unlockReturn errno m ok k : Next κ).pc.loaded = none := by
  cases k with
  | user => rfl
  | cond c seen => cases ok <;> rfl

@[simp] theorem wakeReturn_loaded : (wakeReturn errno ok w : Next κ).pc.loaded = none := by
  cases w with
  | unlock m k => exact unlockReturn_loaded
  | post o => rfl
  | signal c all => rfl

variable [DecidableEq κ] [DecidableEq ι] {T : Threads ι} {s t : State κ ι} {i : ι}

theorem waitStep_loaded (taken : waitStep s i w p = some t) : (t.pc i).loaded = none := by
  cases p with
  | mint => cases taken; simp [Pc.loaded]
  | enter =>
    cases taken
    simp only [waitEnter]
    split
    · simp
    · simp [Pc.loaded]
    · simp
  | park => cases taken; simp [Pc.loaded]
  | blocked =>
    obtain ⟨result,-,rfl⟩ := Option.map_eq_some_iff.mp taken
    simp [Pc.loaded]
  | leave => cases taken; simp

theorem lockStep_loaded (loaded : ((lockStep T s i m k p).pc i).loaded = some c) : s.count m = c := by
  cases p with
  | recLoad => simpa [lockStep,Pc.loaded] using loaded
  | recStore v => simp [lockStep,acquired] at loaded
  | check | load | take | mark =>
    simp only [lockStep,acquired] at loaded
    split_ifs at loaded <;> simp at loaded <;> cases loaded

theorem unlockStep_loaded (loaded : ((unlockStep T s i m k p).pc i).loaded = some c) : s.count m = c := by
  cases p with
  | decLoad => simpa [unlockStep,Pc.loaded] using loaded
  | decStore v => simp [unlockStep,released] at loaded
  | load | test | swap =>
    simp only [unlockStep,released] at loaded
    split_ifs at loaded <;> simp at loaded <;> cases loaded

theorem advance_loaded (taken : advance T s i = some t) (loaded : (t.pc i).loaded = some c) :
    ∃ o, s.count o = c := by
  unfold advance at taken
  cases counter : s.pc i <;> rw [counter] at taken
  case idle => cases taken
  case lock m k p => cases taken; exact ⟨m,lockStep_loaded loaded⟩
  case unlock m k p => cases taken; exact ⟨m,unlockStep_loaded loaded⟩
  case wait => rw [waitStep_loaded taken] at loaded; cases loaded
  case wake =>
    cases taken
    simp only [wakeStep] at loaded
    split at loaded <;> simp at loaded
  case semLoad o tryOnly =>
    cases taken
    simp only [semLoadStep] at loaded
    split_ifs at loaded
    · exact ⟨o,by simpa [Pc.loaded] using loaded⟩
    · simp [Pc.loaded] at loaded
    · simp [Pc.loaded] at loaded
  all_goals
    cases taken
    (try simp only [postStep,semTakeStep] at loaded)
    (try split_ifs at loaded) <;> simp [Pc.loaded] at loaded

theorem step_loaded (taken : step T s e = some t) (loaded : (t.pc e.thread).loaded = some c) :
    ∃ o, s.count o = c := by
  cases e with
  | call i call =>
    simp only [step] at taken
    split at taken
    · cases taken
      unfold callStep at loaded
      split at loaded <;> simp [Event.thread,Pc.loaded] at loaded
    · cases taken
  | run i => exact advance_loaded taken loaded
  | mintFails i =>
    simp only [step,mintFailsStep] at taken
    split at taken
    · split at taken
      · cases taken
      · cases taken; simp [Event.thread] at loaded
    · cases taken
  | spurious i =>
    simp only [step,spuriousStep] at taken
    split at taken
    · cases taken; simp [Event.thread,Pc.loaded] at loaded
    · split at taken
      · cases taken; simp [Event.thread,Pc.loaded] at loaded
      · cases taken
    · cases taken

theorem advance_count (taken : advance T s i = some t) (word : (s.pc i).word = some o) :
    t.count o = s.count o ∨ t.count o = 0 ∨
      ∃ c, (c = s.count o ∨ (s.pc i).loaded = some c) ∧ (t.count o = c + 1 ∨ t.count o = c - 1) := by
  unfold advance at taken
  cases counter : s.pc i <;> rw [counter] at taken word
  case lock m k p =>
    cases taken
    cases word
    cases p with
    | recStore c => exact .inr (.inr ⟨c,.inr rfl,by simp [lockStep,acquired]⟩)
    | check | load | take | recLoad | mark =>
      simp only [lockStep,acquired]
      (try split_ifs) <;> exact .inl rfl
  case unlock m k p =>
    cases taken
    cases word
    cases p with
    | decStore c => exact .inr (.inr ⟨c,.inr rfl,by simp [unlockStep,released]⟩)
    | load | test | decLoad | swap =>
      simp only [unlockStep,released]
      (try split_ifs) <;> exact .inl rfl
  case signalAdd c all =>
    cases taken
    cases word
    exact .inr (.inr ⟨_,.inl rfl,by simp⟩)
  case postAdd o' =>
    cases taken
    cases word
    refine .inr (.inr ⟨_,.inl rfl,?_⟩)
    simp only [postStep]
    split <;> simp
  case semTake o' tryOnly c =>
    cases taken
    cases word
    simp only [semTakeStep]
    split
    · exact .inr (.inr ⟨c,.inr rfl,by simp⟩)
    · exact .inl rfl
  case destroyCount o' =>
    cases taken
    cases word
    exact .inr (.inl (by simp))
  case destroyOwner o' =>
    cases taken
    exact .inl rfl
  all_goals cases word

theorem Within.step (within : Within bound s) (taken : step T s e = some t) : Within (bound + 1) t where
  count o := by
    by_cases word : e.word s = some o
    · cases e with
      | run i =>
        rcases advance_count taken word with same | zero | ⟨c,source,near⟩
        · rw [same]; exact (within.count o).trans (by omega)
        · rw [zero]; simp
        · have before : c.natAbs ≤ bound := by
            rcases source with rfl | loaded
            · exact within.count o
            · exact within.loaded i c loaded
          omega
      | call i c => cases word
      | mintFails i => cases word
      | spurious i => cases word
    · rw [(step_frame taken).count o word]
      exact (within.count o).trans (by omega)
  loaded j c loaded := by
    by_cases own : j = e.thread
    · subst own
      obtain ⟨o,rfl⟩ := step_loaded taken loaded
      exact (within.count o).trans (by omega)
    · rw [(step_frame taken).pc j own] at loaded
      exact (within.loaded j c loaded).trans (by omega)

theorem Within.run (within : Within bound s) (run : Lts.Run (Sync.step T) allow s es t) :
    Within (bound + es.length) t := by
  induction run generalizing bound with
  | nil => exact within
  | @cons _ _ _ es _ _ taken _ ih =>
    have after := ih (within.step taken)
    rwa [Nat.add_assoc,Nat.add_comm 1] at after

/-- Within `2 ^ 63` steps of the creation no count leaves the range of a `long`. -/
theorem count_word (run : Lts.Run (step T) allow (start objects minted) es s)
    (created : ∀ o, (objects o).count.natAbs ≤ bound) (steps : bound + es.length < 2 ^ 63) (o : κ) :
    (BitVec.ofInt 64 (s.count o)).toInt = s.count o := by
  have initial : Within bound (start objects minted) := ⟨created,fun i c loaded => by cases loaded⟩
  have range := (initial.run run).count o
  apply BitVec.toInt_ofInt_eq_self <;> omega

end Qsoe.Sync
