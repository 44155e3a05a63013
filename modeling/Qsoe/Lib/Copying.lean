import Mathlib.Logic.Function.Basic

/-! A copy that goes from cell to cell: each cell of the destination gets what its cell of the source
holds by then. -/
namespace Copying

variable {α β : Type} [DecidableEq α] {src dst src' dst' : Nat → α} {m : α → β} {k n i j : Nat} {x : α}

/-- The first `n` cells. -/
def copy (src dst : Nat → α) (m : α → β) : Nat → α → β
  | 0 => m
  | n + 1 => Function.update (copy src dst m n) (dst n) (copy src dst m n (src n))

theorem copy_outside (outside : ∀ i < n, dst i ≠ x) : copy src dst m n x = m x := by
  induction n with
  | zero => rfl
  | succ n ih =>
    rw [copy,Function.update_of_ne (outside n (Nat.lt_succ_self n)).symm]
    exact ih fun i below => outside i (Nat.lt_succ_of_lt below)

/-- Where no cell of the source is written and none of the destination twice, the copy is exact. -/
theorem copy_exact (apart : ∀ i < n, ∀ j < n, dst i ≠ src j) (once : ∀ i < n, ∀ j < n, dst i = dst j → i = j)
    (below : i < n) :
    copy src dst m n (dst i) = m (src i) := by
  induction n with
  | zero => exact absurd below (Nat.not_lt_zero i)
  | succ n ih =>
    have last := Nat.lt_succ_self n
    rw [copy]
    by_cases same : i = n
    · rw [same,Function.update_self]
      exact copy_outside fun j before => apart j (Nat.lt_succ_of_lt before) n last
    · have before : i < n := by omega
      rw [Function.update_of_ne fun hit => same (once i below n last hit)]
      exact ih (fun i less j less' => apart i (Nat.lt_succ_of_lt less) j (Nat.lt_succ_of_lt less'))
        (fun i less j less' => once i (Nat.lt_succ_of_lt less) j (Nat.lt_succ_of_lt less')) before

theorem copy_add (src dst : Nat → α) (m : α → β) (k n : Nat) :
    copy src dst m (k + n) = copy (fun i => src (k + i)) (fun i => dst (k + i)) (copy src dst m k) n := by
  induction n with
  | zero => rfl
  | succ n ih => rw [← Nat.add_assoc,copy,copy,ih]

end Copying
