import Mathlib.Data.List.Basic
import Mathlib.Data.List.TakeDrop

/-! A sequence that is read from a position on: a read yields at most so many elements and goes on
behind them, a seek sets the position. A position past the end reads as the end. -/

structure Reader (α : Type u) where
  content : List α
  pos : Nat

namespace Reader

variable {r : Reader α}

def rest (r : Reader α) : List α := r.content.drop r.pos

/-- What a read of at most `n` elements yields. -/
def chunk (r : Reader α) (n : Nat) : List α := r.rest.take n

def read (r : Reader α) (n : Nat) : Reader α := { r with pos := r.pos + (r.chunk n).length }

def chunks : Reader α → List Nat → List (List α)
  | _, [] => []
  | r, n :: ns => r.chunk n :: (r.read n).chunks ns

/-- A seek to a position below `limit`. -/
def seek (r : Reader α) (limit : Nat) (target : Int) : Option (Reader α) :=
  if 0 ≤ target ∧ target < limit then some { r with pos := target.toNat } else none

theorem length_chunk (r : Reader α) (n : Nat) : (r.chunk n).length = min n (r.content.length - r.pos) := by
  rw [chunk,rest,List.length_take,List.length_drop]

theorem chunk_append_rest (r : Reader α) (n : Nat) : r.chunk n ++ (r.read n).rest = r.rest := by
  have split := List.take_append_drop n r.rest
  have left : (r.read n).rest = r.rest.drop n := by
    unfold read
    simp only [rest]
    rw [length_chunk,List.drop_drop,List.drop_eq_drop_iff]
    omega
  rw [left]
  exact split

theorem chunk_nil (positive : 0 < n) : r.chunk n = [] ↔ r.rest = [] := by
  rw [chunk,List.take_eq_nil_iff]
  exact ⟨fun h => h.resolve_left (by omega),.inr⟩

/-- The reads before one that yields nothing have yielded everything. -/
theorem chunks_flatten (positive : ∀ n ∈ ns, 0 < n) (ended : [] ∈ r.chunks ns) : (r.chunks ns).flatten = r.rest := by
  induction ns generalizing r with
  | nil => cases ended
  | cons n ns ih =>
    have whole := r.chunk_append_rest n
    rw [chunks,List.flatten_cons]
    rcases List.mem_cons.mp ended with now | later
    · -- nothing is ahead, so the reads that follow yield nothing either
      have vacant := (chunk_nil (positive n List.mem_cons_self)).mp now.symm
      have still : (r.read n).rest = [] := by
        rw [vacant] at whole
        exact (List.append_eq_nil_iff.mp whole).2
      have rest : ((r.read n).chunks ns).flatten = [] := by
        cases ns with
        | nil => rfl
        | cons m ms =>
          have next : (r.read n).chunk m = [] := by rw [chunk,still,List.take_nil]
          rw [ih (fun m member => positive m (List.mem_cons_of_mem _ member))
            (by rw [chunks,next]; exact List.mem_cons_self),still]
      rw [rest,← now,vacant]
      rfl
    · rw [ih (fun m member => positive m (List.mem_cons_of_mem _ member)) later]
      exact whole

theorem chunks_end (positive : ∀ n ∈ ns, 0 < n) (enough : r.rest.length < ns.length) : [] ∈ r.chunks ns := by
  induction ns generalizing r with
  | nil => cases enough
  | cons n ns ih =>
    have whole := congrArg List.length (r.chunk_append_rest n)
    rw [List.length_append] at whole
    rw [chunks]
    cases yielded : r.chunk n with
    | nil => exact List.mem_cons_self
    | cons x xs =>
      rw [yielded,List.length_cons] at whole
      rw [List.length_cons] at enough
      exact List.mem_cons_of_mem _ (ih (fun m member => positive m (List.mem_cons_of_mem _ member)) (by omega))

end Reader
