import Mathlib.Algebra.GroupWithZero.Nat
import Mathlib.Data.List.Pairwise
import Mathlib.Data.List.Perm.Basic
import Mathlib.Data.List.Sort
import Mathlib.Algebra.BigOperators.Group.List.Basic

/-! Labelled ranges of numbers, both bounds included. Cutting a range and joining two neighbours
keep what is labelled. A list of ranges in ascending order, no two free ones of which meet, is
determined by the numbers that are free and the ranges that are not. -/
structure Segment (β : Type) where
  start : Nat
  stop : Nat
  label : β
  deriving DecidableEq

namespace Segment

variable {β : Type} {free : β} {s t : Segment β} {segs others pre post : List (Segment β)}

/-- A range of the list labels `n` with `b`. -/
def At (segs : List (Segment β)) (n : Nat) (b : β) : Prop := ∃ s ∈ segs, s.label = b ∧ s.start ≤ n ∧ n ≤ s.stop

structure Ordered (segs : List (Segment β)) : Prop where
  proper : ∀ s ∈ segs, s.start ≤ s.stop
  order : segs.Pairwise fun s t => s.stop < t.start

/-- No free range ends where another one begins. -/
def Coalesced (free : β) (segs : List (Segment β)) : Prop :=
  ∀ s ∈ segs, ∀ t ∈ segs, s.label = free → t.label = free → s.stop + 1 ≠ t.start

def total (segs : List (Segment β)) : Nat := (segs.map fun s => s.stop + 1 - s.start).sum

theorem at_append (segs others : List (Segment β)) (n : Nat) (b : β) :
    At (segs ++ others) n b ↔ At segs n b ∨ At others n b := by
  simp [At,or_and_right,exists_or]

theorem at_cons (s : Segment β) (segs : List (Segment β)) (n : Nat) (b : β) :
    At (s :: segs) n b ↔ (s.label = b ∧ s.start ≤ n ∧ n ≤ s.stop) ∨ At segs n b := by
  simp [At,or_and_right,exists_or]

theorem at_perm (same : segs.Perm others) (n : Nat) (b : β) : At segs n b ↔ At others n b := by
  simp [At,same.mem_iff]

theorem total_perm (same : segs.Perm others) : total segs = total others := (same.map _).sum_eq

@[simp] theorem total_cons (s : Segment β) (segs : List (Segment β)) :
    total (s :: segs) = (s.stop + 1 - s.start) + total segs := by simp [total]

@[simp] theorem total_append (segs others : List (Segment β)) :
    total (segs ++ others) = total segs + total others := by
  simp [total]

theorem Ordered.same (ordered : Ordered segs) (here : s ∈ segs) (there : t ∈ segs)
    (first : s.start ≤ n ∧ n ≤ s.stop) (second : t.start ≤ n ∧ n ≤ t.stop) : s = t := by
  by_contra different
  have pairs : segs.Pairwise fun s t => s.stop < t.start ∨ t.stop < s.start :=
    ordered.order.imp fun before => .inl before
  have : Std.Symm fun s t : Segment β => s.stop < t.start ∨ t.stop < s.start := ⟨fun _ _ => Or.symm⟩
  have apart := pairs.forall here there different
  omega

theorem Ordered.nodup (ordered : Ordered segs) : segs.Nodup := by
  apply ordered.order.imp_of_mem
  intro s t here _ before
  have range := ordered.proper s here
  rintro rfl
  omega

theorem Ordered.eq_of_mem (first : Ordered segs) (second : Ordered others) (same : ∀ s, s ∈ segs ↔ s ∈ others) :
    segs = others := by
  have perm : segs.Perm others := (List.perm_ext_iff_of_nodup first.nodup second.nodup).mpr same
  refine perm.eq_of_pairwise ?_ first.order second.order
  intro s t here there before after
  have range := first.proper s here
  have range' := second.proper t there
  omega

/-- A free range is found again where the same numbers are free. -/
theorem Coalesced.mem (coalesced : Coalesced free segs) (coalesced' : Coalesced free others)
    (ordered : Ordered segs)
    (ordered' : Ordered others) (freed : ∀ n, At segs n free ↔ At others n free) (member : s ∈ segs)
    (label : s.label = free) : s ∈ others := by
  have range := ordered.proper s member
  obtain ⟨t,there,label',low,high⟩ := (freed s.start).mp ⟨s,member,label,le_rfl,range⟩
  have starts : t.start = s.start := by
    by_contra different
    -- the number before `s` would be free, in a range that `s` continues
    obtain ⟨r,here,label'',below,above⟩ := (freed (s.start - 1)).mpr ⟨t,there,label',by omega,by omega⟩
    have meets := coalesced r here s member label'' label
    have inside := ordered.same here member (n := s.start)
    by_cases beyond : s.start ≤ r.stop
    · have same := inside ⟨by omega,beyond⟩ ⟨le_rfl,range⟩
      rw [same] at below
      omega
    · omega
  have stops : t.stop = s.stop := by
    rcases Nat.lt_trichotomy t.stop s.stop with less | same | more
    · obtain ⟨r,here,label'',below,above⟩ := (freed (t.stop + 1)).mp ⟨s,member,label,by omega,less⟩
      have meets := coalesced' t there r here label' label''
      have inside := ordered'.same here there (n := t.stop)
      by_cases beyond : r.start ≤ t.stop
      · have same := inside ⟨beyond,by omega⟩ ⟨by omega,le_rfl⟩
        rw [same] at above
        omega
      · omega
    · exact same
    · obtain ⟨r,here,label'',below,above⟩ := (freed (s.stop + 1)).mpr ⟨t,there,label',by omega,more⟩
      have meets := coalesced s member r here label label''
      have inside := ordered.same here member (n := s.stop)
      by_cases beyond : r.start ≤ s.stop
      · have same := inside ⟨beyond,by omega⟩ ⟨range,le_rfl⟩
        rw [same] at above
        omega
      · omega
  have same : t = s := by
    cases s
    cases t
    simp_all
  rwa [← same]

theorem Coalesced.unique (coalesced : Coalesced free segs) (coalesced' : Coalesced free others)
    (ordered : Ordered segs) (ordered' : Ordered others) (freed : ∀ n, At segs n free ↔ At others n free)
    (used : ∀ s, s.label ≠ free → (s ∈ segs ↔ s ∈ others)) : segs = others := by
  refine ordered.eq_of_mem ordered' fun s => ?_
  by_cases label : s.label = free
  · exact ⟨fun here => coalesced.mem coalesced' ordered ordered' freed here label,
      fun there => coalesced'.mem coalesced ordered' ordered (fun n => (freed n).symm) there label⟩
  · exact used s label

theorem Coalesced.insert (coalesced : Coalesced free (pre ++ post)) (proper : s.start ≤ s.stop)
    (right : ∀ t ∈ pre ++ post, t.label = free → s.stop + 1 ≠ t.start)
    (left : ∀ t ∈ pre ++ post, t.label = free → t.stop + 1 ≠ s.start) : Coalesced free (pre ++ s :: post) := by
  have members : ∀ r, r ∈ pre ++ s :: post → r = s ∨ r ∈ pre ++ post := by
    intro r member
    simp only [List.mem_append,List.mem_cons] at member ⊢
    grind
  intro a here b there labelA labelB
  rcases members a here with rfl | inA
  · rcases members b there with rfl | inB
    · omega
    · exact right b inB labelB
  · rcases members b there with rfl | inB
    · exact left a inA labelA
    · exact coalesced a inA b inB labelA labelB

/-- What is left of `s` below `low` and above `high`. -/
def residues (s : Segment β) (low high : Nat) : List (Segment β) :=
  (if s.start < low then [⟨s.start,low - 1,s.label⟩] else []) ++
    (if high < s.stop then [⟨high + 1,s.stop,s.label⟩] else [])

theorem at_optional (present : Prop) [Decidable present] (s : Segment β) (n : Nat) (b : β) :
    At (if present then [s] else []) n b ↔ present ∧ s.label = b ∧ s.start ≤ n ∧ n ≤ s.stop := by
  split
  · rename_i here
    simp [At,here]
  · rename_i absent
    simp [At,absent]

theorem mem_residues : t ∈ residues s low high ↔
    (s.start < low ∧ t = ⟨s.start,low - 1,s.label⟩) ∨ (high < s.stop ∧ t = ⟨high + 1,s.stop,s.label⟩) := by
  unfold residues
  rw [List.mem_append]
  apply or_congr
  · split <;> simp_all
  · split <;> simp_all

theorem at_residues (s : Segment β) (below : s.start ≤ low) (range : low ≤ high) (above : high ≤ s.stop) (n : Nat)
    (b : β) : At (residues s low high) n b ↔ s.label = b ∧ (s.start ≤ n ∧ n ≤ s.stop) ∧ ¬ (low ≤ n ∧ n ≤ high) := by
  rw [residues,at_append,at_optional,at_optional]
  dsimp only
  constructor
  · rintro (⟨left,label,inside⟩ | ⟨right,label,inside⟩)
    · exact ⟨label,by omega,by omega⟩
    · exact ⟨label,by omega,by omega⟩
  · rintro ⟨label,inside,outside⟩
    by_cases before : n < low
    · exact .inl ⟨by omega,label,by omega,by omega⟩
    · exact .inr ⟨by omega,label,by omega,by omega⟩

/-- A cut keeps the length, unless it starts before the range does. -/
theorem total_residues (s : Segment β) (range : low ≤ high) (above : high ≤ s.stop) :
    (s.start ≤ low → total (residues s low high) + (high + 1 - low) = s.stop + 1 - s.start) ∧
      (low < s.start → s.stop + 1 - s.start < total (residues s low high) + (high + 1 - low)) := by
  unfold residues
  constructor <;> intro first <;> split <;> split <;> simp [total] <;> omega

/-- The part `low` to `high` of a free range is given a label of its own. -/
def Cuts (free label : β) (low high : Nat) (segs others : List (Segment β)) : Prop :=
  ∃ s rest, s.label = free ∧ s.start ≤ low ∧ low ≤ high ∧ high ≤ s.stop ∧ segs.Perm (s :: rest) ∧
    others.Perm (⟨low,high,label⟩ :: (residues s low high ++ rest))

namespace Cuts

variable {label : β} (cuts : Cuts free label low high segs others)
include cuts

theorem inside : low ≤ high ∧ ∀ n, low ≤ n → n ≤ high → At segs n free := by
  obtain ⟨s,rest,freed,below,range,above,before,-⟩ := cuts
  exact ⟨range,fun n first last => ⟨s,before.mem_iff.mpr List.mem_cons_self,freed,by omega,by omega⟩⟩

theorem freed (ordered : Ordered segs) (different : label ≠ free) (n : Nat) :
    At others n free ↔ At segs n free ∧ ¬ (low ≤ n ∧ n ≤ high) := by
  obtain ⟨s,rest,freed,below,range,above,before,after⟩ := cuts
  have here := before.mem_iff.mpr (List.mem_cons_self (a := s) (l := rest))
  have once := (List.nodup_cons.mp (before.nodup_iff.mp ordered.nodup)).1
  rw [at_perm after,at_perm before,at_cons,at_append,at_residues s below range above,at_cons]
  have apart : At rest n free → ¬ (low ≤ n ∧ n ≤ high) := by
    rintro ⟨t,there,-,first,last⟩ ⟨first',last'⟩
    have same := ordered.same here (before.mem_iff.mpr (List.mem_cons_of_mem s there)) (n := n) ⟨by omega,by omega⟩
      ⟨first,last⟩
    exact once (same ▸ there)
  simp only [different,false_and,false_or]
  grind

theorem used (t : Segment β) (label' : t.label ≠ free) : t ∈ others ↔ t ∈ segs ∨ t = ⟨low,high,label⟩ := by
  obtain ⟨s,rest,freed,-,-,-,before,after⟩ := cuts
  have notS : t ≠ s := fun same => label' (same ▸ freed)
  have notResidue : t ∉ residues s low high := by
    intro member
    rcases mem_residues.mp member with ⟨-,rfl⟩ | ⟨-,rfl⟩
    · exact label' freed
    · exact label' freed
  rw [after.mem_iff,before.mem_iff]
  simp only [List.mem_cons,List.mem_append,notS,notResidue,false_or]
  grind

theorem coalesced (ordered : Ordered segs) (different : label ≠ free) (coalesced : Coalesced free segs) :
    Coalesced free others := by
  obtain ⟨s,rest,freed,below,range,above,before,after⟩ := cuts
  have here := before.mem_iff.mpr (List.mem_cons_self (a := s) (l := rest))
  have once := (List.nodup_cons.mp (before.nodup_iff.mp ordered.nodup)).1
  have kept : ∀ r ∈ rest, r ∈ segs := fun r inside => before.mem_iff.mpr (List.mem_cons_of_mem s inside)
  have apart : ∀ r ∈ rest, r.stop < s.start ∨ s.stop < r.start := by
    intro r inside
    by_contra meets
    have proper := ordered.proper r (kept r inside)
    have same := ordered.same here (kept r inside) (n := max s.start r.start) (by omega) (by omega)
    exact once (same ▸ inside)
  have members : ∀ t ∈ others, t.label = free → t ∈ rest ∨ (t.start = s.start ∧ t.stop + 1 = low ∧ s.start < low) ∨
      (t.start = high + 1 ∧ t.stop = s.stop ∧ high < s.stop) := by
    intro t member label'
    rcases List.mem_cons.mp (after.mem_iff.mp member) with rfl | inside
    · exact absurd label' different
    · rcases List.mem_append.mp inside with residue | inRest
      · rcases mem_residues.mp residue with ⟨more,rfl⟩ | ⟨more,rfl⟩
        · exact .inr (.inl ⟨rfl,by dsimp only; omega,more⟩)
        · exact .inr (.inr ⟨rfl,rfl,more⟩)
      · exact .inl inRest
  intro a inA b inB labelA labelB
  rcases members a inA labelA with restA | leftA | rightA
  · have proper := ordered.proper a (kept a restA)
    have side := apart a restA
    rcases members b inB labelB with restB | leftB | rightB
    · exact coalesced a (kept a restA) b (kept b restB) labelA labelB
    · have meets := coalesced a (kept a restA) s here labelA freed
      omega
    · omega
  · rcases members b inB labelB with restB | leftB | rightB
    · have side := apart b restB
      have proper := ordered.proper b (kept b restB)
      omega
    · omega
    · omega
  · rcases members b inB labelB with restB | leftB | rightB
    · have meets := coalesced s here b (kept b restB) freed labelB
      omega
    · omega
    · omega

end Cuts

/-- Ranges `segs` are joined to `others`: the labels stay, and so does every range that is not free. -/
structure Joins (free : β) (segs others : List (Segment β)) : Prop where
  labels : ∀ n b, At others n b ↔ At segs n b
  length : total others = total segs
  used : ∀ s, s.label ≠ free → (s ∈ others ↔ s ∈ segs)
  proper : ∀ s ∈ others, s.start ≤ s.stop
  ordered : Ordered segs → Ordered others

theorem Joins.refl (proper : ∀ s ∈ segs, s.start ≤ s.stop) : Joins free segs segs :=
  ⟨fun _ _ => Iff.rfl,rfl,fun _ _ => Iff.rfl,proper,id⟩

theorem Joins.trans {mid : List (Segment β)} (first : Joins free segs mid) (second : Joins free mid others) :
    Joins free segs others where
  labels n b := (second.labels n b).trans (first.labels n b)
  length := second.length.trans first.length
  used s label := (second.used s label).trans (first.used s label)
  proper := second.proper
  ordered ordered := second.ordered (first.ordered ordered)

theorem Joins.merge (proper : ∀ r ∈ pre ++ s :: t :: post, r.start ≤ r.stop)
    (first : s.label = free) (second : t.label = free) (meets : s.stop + 1 = t.start) :
    Joins free (pre ++ s :: t :: post) (pre ++ ⟨s.start,t.stop,s.label⟩ :: post) where
  labels n b := by
    have range := proper s (by simp)
    have range' := proper t (by simp)
    simp only [at_append,at_cons,first,second]
    have whole : (s.start ≤ n ∧ n ≤ t.stop) ↔ (s.start ≤ n ∧ n ≤ s.stop) ∨ (t.start ≤ n ∧ n ≤ t.stop) := by omega
    rw [whole]
    grind
  length := by
    have range := proper s (by simp)
    have range' := proper t (by simp)
    simp only [total_append,total_cons]
    omega
  used r label := by
    have notS : r ≠ s := fun same => label (same ▸ first)
    have notT : r ≠ t := fun same => label (same ▸ second)
    have notNew : r ≠ ⟨s.start,t.stop,s.label⟩ := fun same => label (same ▸ first)
    simp [notS,notT,notNew]
  proper r member := by
    have range := proper s (by simp)
    have range' := proper t (by simp)
    rcases List.mem_append.mp member with before | here
    · exact proper r (by simp [before])
    · rcases List.mem_cons.mp here with rfl | after
      · dsimp only
        omega
      · exact proper r (by simp [after])
  ordered ordered := by
    obtain ⟨front,back,across⟩ := List.pairwise_append.mp ordered.order
    obtain ⟨next,rest⟩ := List.pairwise_cons.mp back
    obtain ⟨last,tail⟩ := List.pairwise_cons.mp rest
    have range := proper s (by simp)
    have range' := proper t (by simp)
    refine ⟨?_,List.pairwise_append.mpr ⟨front,List.pairwise_cons.mpr ⟨last,tail⟩,?_⟩⟩
    · intro r member
      rcases List.mem_append.mp member with before | here
      · exact proper r (by simp [before])
      · rcases List.mem_cons.mp here with rfl | after
        · dsimp only
          omega
        · exact proper r (by simp [after])
    · intro a before r member
      rcases List.mem_cons.mp member with rfl | after
      · exact across a before s List.mem_cons_self
      · exact across a before r (by simp [after])

variable [DecidableEq β]

/-- `s` takes over the next range if that one is free and `s` meets it. -/
def joinRight (free : β) (s : Segment β) : List (Segment β) → Segment β × List (Segment β)
  | [] => (s,[])
  | t :: post => if t.label = free ∧ s.stop + 1 = t.start then (⟨s.start,t.stop,s.label⟩,post) else (s,t :: post)

/-- The range before `s` takes it over if it is free and meets it. -/
def joinLeft (free : β) (pre : List (Segment β)) (s : Segment β) : List (Segment β) :=
  match pre.getLast? with
  | none => [s]
  | some p =>
    if p.label = free ∧ p.stop + 1 = s.start then pre.dropLast ++ [⟨p.start,s.stop,p.label⟩] else pre ++ [s]

def join (free : β) (pre : List (Segment β)) (s : Segment β) (post : List (Segment β)) : List (Segment β) :=
  joinLeft free pre (joinRight free s post).1 ++ (joinRight free s post).2

theorem joinLeft_concat (p : Segment β) :
    joinLeft free (pre ++ [p]) s =
      if p.label = free ∧ p.stop + 1 = s.start then pre ++ [⟨p.start,s.stop,p.label⟩] else pre ++ [p,s] := by
  simp [joinLeft]

theorem joinRight_joins (proper : ∀ r ∈ pre ++ s :: post, r.start ≤ r.stop) (label : s.label = free) :
    Joins free (pre ++ s :: post) (pre ++ (joinRight free s post).1 :: (joinRight free s post).2) ∧
      (joinRight free s post).1.label = free := by
  cases post with
  | nil => exact ⟨Joins.refl proper,label⟩
  | cons t post =>
    rw [joinRight]
    split
    · rename_i fits
      exact ⟨Joins.merge proper label fits.1 fits.2,label⟩
    · exact ⟨Joins.refl proper,label⟩

theorem joinLeft_joins (proper : ∀ r ∈ pre ++ s :: post, r.start ≤ r.stop) (label : s.label = free) :
    Joins free (pre ++ s :: post) (joinLeft free pre s ++ post) := by
  rcases List.eq_nil_or_concat pre with rfl | ⟨before,p,rfl⟩
  · exact Joins.refl proper
  · rw [List.concat_eq_append] at proper ⊢
    rw [joinLeft_concat]
    have shape : before ++ [p] ++ s :: post = before ++ p :: s :: post := by simp
    rw [shape] at proper ⊢
    split
    · rename_i fits
      have merged := Joins.merge proper fits.1 label fits.2
      simpa using merged
    · simpa using Joins.refl proper

theorem join_joins (proper : ∀ r ∈ pre ++ s :: post, r.start ≤ r.stop) (label : s.label = free) :
    Joins free (pre ++ s :: post) (join free pre s post) := by
  obtain ⟨right,label'⟩ := joinRight_joins proper label
  exact right.trans (joinLeft_joins right.proper label')

theorem joinRight_apart (ordered : Ordered (pre ++ s :: post)) (coalesced : Coalesced free (pre ++ post)) :
    Coalesced free (pre ++ (joinRight free s post).2) ∧
      ∀ t ∈ pre ++ (joinRight free s post).2, t.label = free → (joinRight free s post).1.stop + 1 ≠ t.start := by
  obtain ⟨-,back,across⟩ := List.pairwise_append.mp ordered.order
  obtain ⟨next,rest⟩ := List.pairwise_cons.mp back
  have range := ordered.proper s (by simp)
  have low : ∀ p ∈ pre, p.start ≤ s.stop := by
    intro p before
    have above := across p before s List.mem_cons_self
    have range' := ordered.proper p (by simp [before])
    omega
  cases post with
  | nil =>
    refine ⟨coalesced,fun t member label => ?_⟩
    have below := low t (by simpa [joinRight] using member)
    simp only [joinRight]
    omega
  | cons t post =>
    have range' := ordered.proper t (by simp)
    have starts := next t List.mem_cons_self
    rw [joinRight]
    split
    · rename_i fits
      refine ⟨fun a here b there => coalesced a ?_ b ?_,fun r member label => ?_⟩
      · simp only [List.mem_append,List.mem_cons] at here ⊢
        grind
      · simp only [List.mem_append,List.mem_cons] at there ⊢
        grind
      · rcases List.mem_append.mp member with before | after
        · have below := low r before
          dsimp only
          omega
        · exact coalesced t (by simp) r (by simp [after]) fits.1 label
    · rename_i unfit
      refine ⟨coalesced,fun r member label => ?_⟩
      rcases List.mem_append.mp member with before | after
      · have below := low r before
        dsimp only
        omega
      · rcases List.mem_cons.mp after with rfl | later
        · exact fun meets => unfit ⟨label,meets⟩
        · have beyond := (List.pairwise_cons.mp rest).1 r later
          dsimp only
          omega

theorem joinLeft_coalesced (ordered : Ordered (pre ++ s :: post))
    (coalesced : Coalesced free (pre ++ post)) (right : ∀ t ∈ pre ++ post, t.label = free → s.stop + 1 ≠ t.start) :
    Coalesced free (joinLeft free pre s ++ post) := by
  have range := ordered.proper s (by simp)
  obtain ⟨-,back,-⟩ := List.pairwise_append.mp ordered.order
  have after : ∀ t ∈ post, t.stop + 1 ≠ s.start := by
    intro t member
    have above := (List.pairwise_cons.mp back).1 t member
    have range' := ordered.proper t (by simp [member])
    omega
  rcases List.eq_nil_or_concat pre with rfl | ⟨before,p,rfl⟩
  · exact Coalesced.insert coalesced range right fun t member _ => after t member
  · rw [List.concat_eq_append] at ordered coalesced right ⊢
    obtain ⟨front,-,across⟩ := List.pairwise_append.mp ordered.order
    have first := ordered.proper p (by simp)
    have below : ∀ r ∈ before, r.stop < p.start := fun r member =>
      (List.pairwise_append.mp front).2.2 r member p (by simp)
    rw [joinLeft_concat]
    split
    · rename_i fits
      have whole : Coalesced free (before ++ ⟨p.start,s.stop,p.label⟩ :: post) := by
        apply Coalesced.insert
        · intro a here b there
          refine coalesced a ?_ b ?_
          · simp only [List.mem_append] at here ⊢
            grind
          · simp only [List.mem_append] at there ⊢
            grind
        · dsimp only
          omega
        · intro t member
          refine right t ?_
          simp only [List.mem_append] at member ⊢
          grind
        · intro t member label'
          refine coalesced t ?_ p (by simp) label' fits.1
          simp only [List.mem_append] at member ⊢
          grind
      simpa using whole
    · rename_i unfit
      have whole : Coalesced free ((before ++ [p]) ++ s :: post) := by
        refine Coalesced.insert coalesced range right fun t member label' => ?_
        rcases List.mem_append.mp member with inPre | inPost
        · rcases List.mem_append.mp inPre with early | last
          · have early' := below t early
            have gap := across p (by simp) s List.mem_cons_self
            omega
          · obtain rfl := List.mem_singleton.mp last
            exact fun meets => unfit ⟨label',meets⟩
        · exact after t inPost
      simpa using whole

theorem join_coalesced (ordered : Ordered (pre ++ s :: post)) (label : s.label = free)
    (coalesced : Coalesced free (pre ++ post)) : Coalesced free (join free pre s post) := by
  have right := (joinRight_joins ordered.proper label).1
  obtain ⟨coalesced',apart⟩ := joinRight_apart ordered coalesced
  exact joinLeft_coalesced (right.ordered ordered) coalesced' apart

theorem freed_join (ordered : Ordered (pre ++ s :: post)) (used : s.label ≠ free) :
    Ordered (join free pre ⟨s.start,s.stop,free⟩ post) ∧
      (∀ n, At (join free pre ⟨s.start,s.stop,free⟩ post) n free ↔
        At (pre ++ s :: post) n free ∨ (s.start ≤ n ∧ n ≤ s.stop)) ∧
      (∀ t, t.label ≠ free → (t ∈ join free pre ⟨s.start,s.stop,free⟩ post ↔ t ∈ pre ++ s :: post ∧ t ≠ s)) ∧
      (Coalesced free (pre ++ s :: post) → Coalesced free (join free pre ⟨s.start,s.stop,free⟩ post)) := by
  have ordered' : Ordered (pre ++ ⟨s.start,s.stop,free⟩ :: post) := by
    obtain ⟨front,back,across⟩ := List.pairwise_append.mp ordered.order
    refine ⟨?_,List.pairwise_append.mpr ⟨front,List.pairwise_cons.mpr (List.pairwise_cons.mp back),?_⟩⟩
    · intro t member
      rcases List.mem_append.mp member with before | here
      · exact ordered.proper t (by simp [before])
      · rcases List.mem_cons.mp here with rfl | after
        · exact ordered.proper s (by simp)
        · exact ordered.proper t (by simp [after])
    · intro a before t member
      rcases List.mem_cons.mp member with rfl | after
      · exact across a before s List.mem_cons_self
      · exact across a before t (by simp [after])
  have joins := join_joins ordered'.proper rfl
  have once := ordered.nodup
  refine ⟨joins.ordered ordered',fun n => ?_,fun t label => ?_,fun coalesced => ?_⟩
  · rw [joins.labels,at_append,at_cons,at_append,at_cons]
    simp only [used,false_and,false_or,true_and]
    grind
  · have other : t ≠ ⟨s.start,s.stop,free⟩ := fun same => label (by rw [same])
    rw [joins.used t label]
    simp only [List.mem_append,List.mem_cons,other,false_or]
    constructor
    · rintro (before | after)
      · refine ⟨.inl before,?_⟩
        rintro rfl
        exact List.disjoint_of_nodup_append once before List.mem_cons_self
      · refine ⟨.inr (.inr after),?_⟩
        rintro rfl
        exact (List.nodup_cons.mp (List.nodup_append.mp once).2.1).1 after
    · grind
  · refine join_coalesced ordered' rfl ?_
    intro a here b there
    refine coalesced a ?_ b ?_
    · simp only [List.mem_append,List.mem_cons] at here ⊢
      grind
    · simp only [List.mem_append,List.mem_cons] at there ⊢
      grind

end Segment
