import Mathlib.Data.List.FinRange
import Mathlib.Data.List.Perm.Subperm
import Mathlib.Logic.Function.Basic

/-! A fixed array of records with an `in_use` flag, searched and filled from index 0.
`none` is a free index. -/
namespace Slab

abbrev Table (n : Nat) (α : Type) := Fin n → Option α

variable {n : Nat} {α : Type}

/-- The first record in use that passes `test`, with its index. -/
def find (t : Table n α) (test : α → Bool) : Option (Fin n × α) :=
  (List.finRange n).findSome? fun i => (t i).bind fun a => if test a then some (i,a) else none

def free (t : Table n α) : Option (Fin n) := (List.finRange n).find? fun i => (t i).isNone

def put (t : Table n α) (i : Fin n) (a : α) : Table n α := Function.update t i (some a)

def erase (t : Table n α) (i : Fin n) : Table n α := Function.update t i none

/-- The same records, seen through `f`. -/
def map (f : α → β) (t : Table n α) : Table n β := fun i => (t i).map f

def values (t : Table n α) : List α := (List.finRange n).filterMap t

/-- Frees every record that passes `test`. -/
def drop (t : Table n α) (test : α → Bool) : Table n α := fun i => (t i).filter fun a => !test a

@[simp] theorem put_same (t : Table n α) : put t i a i = some a := Function.update_self ..

@[simp] theorem put_other (t : Table n α) (h : k ≠ i) : put t i a k = t k :=
  Function.update_of_ne h ..

@[simp] theorem erase_same (t : Table n α) : erase t i i = none := Function.update_self ..

@[simp] theorem erase_other (t : Table n α) (h : k ≠ i) : erase t i k = t k :=
  Function.update_of_ne h ..

theorem find_some {t : Table n α} (found : find t test = some (i,a)) : t i = some a ∧ test a = true := by
  obtain ⟨k,-,hit⟩ := List.exists_of_findSome?_eq_some found
  obtain ⟨b,used,tested⟩ := Option.bind_eq_some_iff.mp hit
  split at tested
  · obtain ⟨rfl,rfl⟩ : k = i ∧ b = a := by simpa using tested
    exact ⟨used,by assumption⟩
  · cases tested

theorem find_none {t : Table n α} (missing : find t test = none) (used : t i = some a) :
    test a = false := by
  have nothing := List.findSome?_eq_none_iff.mp missing i (List.mem_finRange i)
  cases tested : test a with
  | false => rfl
  | true => simp [used,tested] at nothing

/-- A record that passes the test is enough for the search to succeed. -/
theorem find_of_used {t : Table n α} (test : α → Bool) (used : t i = some a) (tested : test a = true) :
    ∃ k b, find t test = some (k,b) := by
  cases found : find t test with
  | none => simp [find_none found used] at tested
  | some hit => exact ⟨hit.1,hit.2,rfl⟩

theorem free_some {t : Table n α} (found : free t = some i) : t i = none := by
  simpa using List.find?_some found

theorem put_cases {t : Table n α} (used : put t i a k = some b) : (k = i ∧ b = a) ∨ t k = some b := by
  rcases eq_or_ne k i with rfl | other
  · left
    simpa using used.symm
  · right
    simpa [other] using used

theorem erase_some {t : Table n α} (used : erase t i k = some b) : k ≠ i ∧ t k = some b := by
  rcases eq_or_ne k i with rfl | other
  · simp at used
  · exact ⟨other,by simpa [other] using used⟩

@[simp] theorem drop_some {t : Table n α} : drop t test i = some a ↔ t i = some a ∧ test a = false := by
  simp [drop,Option.filter_eq_some_iff]

/-- Rewriting the record a search ends at so that it still passes. -/
theorem find_put {t : Table n α} (found : find t test = some (i,a)) (tested : test b = true) :
    find (put t i b) test = some (i,b) := by
  obtain ⟨before,k,after,order,hit,skipped⟩ := List.findSome?_eq_some_iff.mp found
  obtain rfl : k = i := by
    obtain ⟨c,-,passed⟩ := Option.bind_eq_some_iff.mp hit
    split at passed
    · exact (Prod.mk.inj (Option.some.inj passed)).1
    · cases passed
  refine List.findSome?_eq_some_iff.mpr ⟨before,k,after,order,by simp [tested],?_⟩
  intro l earlier
  have other : l ≠ k := by
    rintro rfl
    have nodup := List.nodup_finRange n
    rw [order] at nodup
    exact (List.nodup_append.mp nodup).2.2 l earlier l (by simp) rfl
  simpa [other] using skipped l earlier

theorem find_put_only {t : Table n α} (others : ∀ k b, t k = some b → test b = false) (tested : test a = true) :
    find (put t i a) test = some (i,a) := by
  obtain ⟨k,b,found⟩ := find_of_used test (put_same (i := i) (a := a) t) tested
  obtain ⟨used,passes⟩ := find_some found
  rcases eq_or_ne k i with rfl | other
  · obtain rfl : a = b := by simpa using used
    exact found
  · have fails := others k b (by simpa [other] using used)
    simp [passes] at fails

theorem find_put_skip {t : Table n α} (free : t i = none) (fails : test a = false) :
    find (put t i a) test = find t test := by
  unfold find
  congr 1
  funext k
  rcases eq_or_ne k i with rfl | other
  · simp [free,fails]
  · simp [other]

theorem find_none_of {t : Table n α} (others : ∀ k b, t k = some b → test b = false) : find t test = none := by
  cases found : find t test with
  | none => rfl
  | some hit =>
    have passes := find_some (i := hit.1) (a := hit.2) found
    simp [others _ _ passes.1] at passes

theorem find_first {t : Table n α} (found : find t test = some (i,a)) (before : k < i) (used : t k = some b) :
    test b = false := by
  obtain ⟨earlier,l,later,order,hit,skipped⟩ := List.findSome?_eq_some_iff.mp found
  obtain ⟨c,-,passed⟩ := Option.bind_eq_some_iff.mp hit
  obtain rfl : l = i := by
    split at passed
    · exact (Prod.mk.inj (Option.some.inj passed)).1
    · cases passed
  have sorted := List.pairwise_lt_finRange n
  rw [order] at sorted
  have member : k ∈ earlier ++ l :: later := order ▸ List.mem_finRange k
  have inside : k ∈ earlier := by
    rcases List.mem_append.mp member with inside | outside
    · exact inside
    · rcases List.mem_cons.mp outside with rfl | after
      · exact absurd before (lt_irrefl k)
      · have above := List.rel_of_pairwise_cons (List.pairwise_append.mp sorted).2.1 after
        exact absurd before (lt_asymm above)
  have nothing := skipped k inside
  cases tested : test b with
  | false => rfl
  | true => simp [used,tested] at nothing

/-- A new record is where the search ends exactly if no lower index passes. -/
theorem find_put_iff {t : Table n α} (test : α → Bool) (tested : test a = true) :
    (∃ b, find (put t i a) test = some (i,b)) ↔ ∀ k b, k < i → t k = some b → test b = false := by
  constructor
  · rintro ⟨b,found⟩ k c before used
    exact find_first found before (by simpa [before.ne] using used)
  · intro below
    obtain ⟨k,b,found⟩ := find_of_used test (put_same (i := i) (a := a) t) tested
    obtain ⟨used,passes⟩ := find_some found
    rcases lt_trichotomy k i with before | rfl | after
    · have fails := below k b before (by simpa [before.ne] using used)
      simp [passes] at fails
    · exact ⟨b,found⟩
    · have fails := find_first found after (put_same t)
      simp [tested] at fails

theorem put_put (t : Table n α) : put (put t i a) i b = put t i b := Function.update_idem ..

theorem erase_put {t : Table n α} (free : t i = none) : erase (put t i a) i = t := by
  rw [erase,put,Function.update_idem]
  exact Function.update_eq_self_iff.mpr free.symm

theorem put_some_iff {t : Table n α} (free : t i = none) (different : b ≠ a) :
    put t i a k = some b ↔ t k = some b := by
  rcases eq_or_ne k i with rfl | other
  · simp [free,different.symm]
  · simp [other]

theorem free_none_iff (t : Table n α) : free t = none ↔ ¬ ∃ i, t i = none := by
  simp [free]

/-- A new record leaves room for another exactly if there was room for two. -/
theorem free_put_none {t : Table n α} (found : free t = some i) :
    free (put t i a) = none ↔ ¬ ∃ k l, k ≠ l ∧ t k = none ∧ t l = none := by
  rw [free_none_iff,not_iff_not]
  constructor
  · rintro ⟨k,empty⟩
    have other : k ≠ i := by
      rintro rfl
      rw [put_same] at empty
      cases empty
    exact ⟨k,i,other,by rwa [put_other _ other] at empty,free_some found⟩
  · rintro ⟨k,l,apart,first,second⟩
    by_cases same : k = i
    · exact ⟨l,by rwa [put_other _ fun equal => apart (same.trans equal.symm)]⟩
    · exact ⟨k,by rwa [put_other _ same]⟩

theorem values_erase {t : Table n α} (used : t i = some a) : (values t).Perm (a :: values (erase t i)) := by
  have split := List.perm_cons_erase (List.mem_finRange i)
  have without : ∀ k ∈ (List.finRange n).erase i, t k = erase t i k := by
    intro k member
    have other : k ≠ i := ((List.nodup_finRange n).mem_erase_iff.mp member).1
    exact (erase_other t other).symm
  have first := split.filterMap t
  have second := split.filterMap (erase t i)
  rw [List.filterMap_cons,used] at first
  rw [List.filterMap_cons,erase_same,← List.filterMap_congr without] at second
  exact first.trans (second.symm.cons a)

theorem values_put {t : Table n α} (free : t i = none) : (values (put t i a)).Perm (a :: values t) := by
  have taken := values_erase (put_same (i := i) (a := a) t)
  rwa [erase_put free] at taken

/-- What a table names after an entry is written, used or not before. -/
theorem values_write (t : Table n α) : (values (put t i a)).Perm (a :: values (erase t i)) := by
  have same : erase (put t i a) i = erase t i := Function.update_idem ..
  rw [← same]
  exact values_erase (put_same t)

theorem values_erase_subperm (t : Table n α) (i : Fin n) : (values (erase t i)).Subperm (values t) := by
  cases used : t i with
  | none =>
    have same : erase t i = t := Function.update_eq_self_iff.mpr used.symm
    rw [same]
  | some a => exact (List.sublist_cons_self a _).subperm.trans (values_erase used).symm.subperm

theorem find_map (f : α → β) (t : Table n α) (test : β → Bool) :
    find (map f t) test = (find t fun a => test (f a)).map fun hit => (hit.1,f hit.2) := by
  simp only [find,List.map_findSome?]
  congr
  funext i
  cases record : t i with
  | none => simp [map,record]
  | some a => by_cases tested : test (f a) <;> simp [map,record,tested]

theorem free_map (f : α → β) (t : Table n α) : free (map f t) = free t := by
  simp [free,map]

theorem map_put (f : α → β) (t : Table n α) : map f (put t i a) = put (map f t) i (f a) := by
  funext k
  rcases eq_or_ne k i with rfl | other
  · simp [map]
  · simp [map,other]

theorem map_erase (f : α → β) (t : Table n α) : map f (erase t i) = erase (map f t) i := by
  funext k
  rcases eq_or_ne k i with rfl | other
  · simp [map]
  · simp [map,other]

theorem map_put_same {t : Table n α} (f : α → β) (used : t i = some a) (same : f b = f a) :
    map f (put t i b) = map f t := by
  rw [map_put,same]
  funext k
  rcases eq_or_ne k i with rfl | other
  · simp [map,used]
  · simp [other]

end Slab
