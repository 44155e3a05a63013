import Qsoe.Rsrc.Batches

/-! `tm_rsrc_release_pid`, run at the end of a process: its addresses become free and every other
address keeps its owner. -/
namespace Qsoe.Rsrc

open Linked Database
open Segment (At Ordered)

variable {k : Consts} {db db' : Database} {lists lists' : Option Place → List Index} {e i j : Index} {c : Nat}
variable {pid : BitVec 32}

/-- The addresses of `pid` are free now, the others have the owner they had. -/
def Reclaimed (pid : BitVec 32) (before now : List (Segment (BitVec 32))) : Prop :=
  ∀ n b, At now n b ↔ (b ≠ pid ∧ At before n b) ∨ (b = 0 ∧ At before n pid)

theorem Reclaimed.of_none {segs : List (Segment (BitVec 32))} (nothing : ∀ s ∈ segs, s.label ≠ pid) :
    Reclaimed pid segs segs := by
  intro n b
  have absent : ¬ At segs n pid := fun ⟨s,there,label,_⟩ => nothing s there label
  simp only [absent,and_false,or_false]
  exact ⟨fun here => ⟨fun same => absent (same ▸ here),here⟩,And.right⟩

theorem Reclaimed.absent {before now : List (Segment (BitVec 32))} (reclaimed : Reclaimed pid before now)
    (ordered : Ordered now) (real : pid ≠ 0) : ∀ s ∈ now, s.label ≠ pid := by
  intro s there label
  rcases (reclaimed s.start pid).mp ⟨s,there,label,le_rfl,ordered.proper s there⟩ with ⟨different,-⟩ | ⟨zero,-⟩
  · exact different rfl
  · exact real zero

theorem Reclaimed.step {pre post mid now : List (Segment (BitVec 32))} {s : Segment (BitVec 32)}
    (later : Reclaimed pid mid now) (real : pid ≠ 0) (mine : s.label = pid)
    (given : ∀ n b, At mid n b ↔ At (pre ++ ⟨s.start,s.stop,0⟩ :: post) n b) :
    Reclaimed pid (pre ++ s :: post) now := by
  intro n b
  rw [later n b,given,given]
  simp only [Segment.at_append,Segment.at_cons,mine]
  have real' : ¬ 0 = pid := real.symm
  by_cases same : b = pid
  · subst same
    simp only [ne_eq,not_true_eq_false,false_and,false_or,real]
  · have same' : ¬ pid = b := Ne.symm same
    by_cases zero : b = 0
    · subst zero
      simp only [real',real,ne_eq,not_false_eq_true,true_and,false_and,false_or]
      grind
    · have zero' : ¬ 0 = b := Ne.symm zero
      simp only [same,same',zero,zero',ne_eq,not_false_eq_true,true_and,false_and,false_or,or_false]

theorem Tidy.releaseClass_reclaims (tidy : Tidy k db lists) (real : pid ≠ 0)
    (done : db.releaseClass pid c fuel = some db') :
    ∃ lists', Tidy k db' lists' ∧ Reclaimed pid (segments db lists c) (segments db' lists' c) ∧
      ∀ d ≠ c, segments db' lists' d = segments db lists d := by
  induction fuel generalizing db lists with
  | zero => cases done
  | succ fuel ih =>
    obtain ⟨pre,post,split,passed,stopped,walked⟩ := tidy.threaded.walk c fun i => (db.entries i).owner == pid
    rw [Database.releaseClass,walked,Option.bind_some] at done
    cases post with
    | nil =>
      obtain rfl : db = db' := by simpa using done
      refine ⟨lists,tidy,Reclaimed.of_none fun s there => ?_,fun _ _ => rfl⟩
      obtain ⟨i,inside,rfl⟩ := List.mem_map.mp there
      rw [split,List.append_nil] at inside
      exact fun label => absurd (passed i inside) (by simp [show (db.entries i).owner = pid from label])
    | cons e post =>
      have mine : (db.entries e).owner = pid := by simpa using stopped e rfl
      obtain ⟨db₁,lists₁,merged,released⟩ := tidy.release (e := e) (c := c) (by simp [split]) 0
      have given : db.giveUp e = some db₁ := merged
      simp only [List.head?_cons,given,Option.bind_some] at done
      obtain ⟨lists₂,tidy₂,reclaimed,others⟩ := ih released.toTidy done
      refine ⟨lists₂,tidy₂,?_,fun d different => (others d different).trans (released.others d different)⟩
      obtain ⟨before,after,whole,joined⟩ := released.joined
      have ordered := tidy.toSound.ordered c
      rw [whole] at ordered ⊢
      refine reclaimed.step real mine fun n b => ?_
      rw [joined]
      refine (Segment.join_joins ?_ rfl).labels n b
      intro s there
      rcases List.mem_append.mp there with early | here
      · exact ordered.proper s (by simp [early])
      · rcases List.mem_cons.mp here with rfl | late
        · exact ordered.proper (db.entries e).segment (by simp)
        · exact ordered.proper s (by simp [late])

theorem Tidy.releaseClasses (tidy : Tidy k db lists) (real : pid ≠ 0) (classes : List Nat) (once : classes.Nodup)
    (done : classes.foldlM (fun db cls => db.releaseClass pid cls (poolSize + 1)) db = some db') :
    ∃ lists', Tidy k db' lists' ∧
      (∀ c ∈ classes, Reclaimed pid (segments db lists c) (segments db' lists' c)) ∧
      ∀ c ∉ classes, segments db' lists' c = segments db lists c := by
  induction classes generalizing db lists with
  | nil =>
    obtain rfl : db = db' := by simpa using done
    exact ⟨lists,tidy,by simp,fun _ _ => rfl⟩
  | cons c classes ih =>
    obtain ⟨absent,rest⟩ := List.nodup_cons.mp once
    rw [List.foldlM_cons] at done
    obtain ⟨db₁,first,later⟩ := Option.bind_eq_some_iff.mp done
    obtain ⟨lists₁,tidy₁,reclaimed₁,others₁⟩ := tidy.releaseClass_reclaims real first
    obtain ⟨lists₂,tidy₂,reclaimed₂,others₂⟩ := ih tidy₁ rest later
    refine ⟨lists₂,tidy₂,fun d member => ?_,fun d outside => ?_⟩
    · rcases List.mem_cons.mp member with rfl | inside
      · rw [others₂ d absent]
        exact reclaimed₁
      · have other : d ≠ c := fun same => absent (same ▸ inside)
        rw [← others₁ d other]
        exact reclaimed₂ d inside
    · have other : d ≠ c := fun same => outside (by simp [same])
      exact (others₂ d fun inside => outside (List.mem_cons_of_mem _ inside)).trans (others₁ d other)

/-- The end of a process frees what it owned and nothing else, and the restarts end. -/
theorem release_exact (tidy : Tidy k db lists) (positive : 0 < pid.toInt) :
    ∃ db' lists', db.releasePid k pid = some db' ∧ Tidy k db' lists' ∧
      (∀ c, ∀ s ∈ segments db' lists' c, s.label ≠ pid) ∧
      ∀ c n owner, At (segments db' lists' c) n owner ↔
        (owner ≠ pid ∧ At (segments db lists c) n owner) ∨ (owner = 0 ∧ At (segments db lists c) n pid) := by
  have real : pid ≠ 0 := by
    rintro rfl
    simp at positive
  obtain ⟨db',released,-⟩ := Good.releasePid ⟨lists,tidy⟩ pid
  have done := released
  rw [Database.releasePid,if_neg (by omega)] at done
  obtain ⟨lists',tidy',reclaimed,others⟩ := tidy.releaseClasses real _ List.nodup_range done
  have all : ∀ c, Reclaimed pid (segments db lists c) (segments db' lists' c) := by
    intro c
    by_cases known : c < k.typeCount
    · exact reclaimed c (List.mem_range.mpr known)
    · rw [others c (by simpa using known)]
      -- no class, so nothing is listed
      refine Reclaimed.of_none fun s there => ?_
      obtain ⟨i,inside,-⟩ := List.mem_map.mp there
      exact absurd ((tidy.sorted c).cls i inside).2 known
  exact ⟨db',lists',released,tidy',fun c => (all c).absent (tidy'.toSound.ordered c) real,all⟩

/-- Process 3 holds two pages of a class when it ends. -/
theorem release_exact_pages : ∃ db lists,
    Lts.Run (step fewConsts) (aligned fewConsts) Database.init
      [.create 2 [⟨0x1800,0x8fff,0⟩],.attach 3 twoPages] db ∧
    ∃ db' lists', db.releasePid fewConsts 3 = some db' ∧ Tidy fewConsts db' lists' ∧
      (∀ c, ∀ s ∈ segments db' lists' c, s.label ≠ 3) ∧
      ∀ c n owner, At (segments db' lists' c) n owner ↔
        (owner ≠ 3 ∧ At (segments db lists c) n owner) ∨ (owner = 0 ∧ At (segments db lists c) n 3) := by
  obtain ⟨db,run,-⟩ := Lts.Run.exists_of_replay (step fewConsts) (aligned fewConsts) Database.init
    [.create 2 [⟨0x1800,0x8fff,0⟩],.attach 3 twoPages] (fun _ => True) (by decide +kernel)
  obtain ⟨lists,tidy⟩ := run_good run
  exact ⟨db,lists,run,release_exact tidy (by decide)⟩

end Qsoe.Rsrc
