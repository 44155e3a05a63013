import Mathlib.Data.List.Basic
import Mathlib.Data.List.Pairwise

/-! The mappings of an address space: blocks of addresses, each with what stands behind it. A new
one is taken where the space is clear, so that no address is mapped twice. -/

structure Mapping (κ : Type u) where
  start : Nat
  size : Nat
  target : κ
  deriving DecidableEq, Repr

namespace Mapping

variable {m : Mapping κ} {ms : List (Mapping κ)} {start size : Nat}

/-- The end of the block, the first address behind it. -/
def stop (m : Mapping κ) : Nat := m.start + m.size

def Contains (m : Mapping κ) (x : Nat) : Prop := m.start ≤ x ∧ x < m.stop

def Clear (ms : List (Mapping κ)) (start size : Nat) : Prop :=
  ∀ m ∈ ms, start + size ≤ m.start ∨ m.stop ≤ start

instance : Decidable (Clear ms start size) :=
  inferInstanceAs (Decidable (∀ m ∈ ms, start + size ≤ m.start ∨ m.stop ≤ start))

def Apart (ms : List (Mapping κ)) : Prop := ms.Pairwise fun a b => a.stop ≤ b.start ∨ b.stop ≤ a.start

theorem Apart.cons (apart : Apart ms) (clear : Clear ms m.start m.size) : Apart (m :: ms) := by
  refine List.pairwise_cons.mpr ⟨fun other member => ?_,apart⟩
  exact clear other member

theorem Apart.sublist (apart : Apart ms) (less : ns.Sublist ms) : Apart ns := List.Pairwise.sublist less apart

theorem Apart.unique (apart : Apart ms) (one : a ∈ ms) (two : b ∈ ms) (x : Nat) (inside : a.Contains x)
    (inside' : b.Contains x) : a = b := by
  have : Std.Symm fun a b : Mapping κ => a.stop ≤ b.start ∨ b.stop ≤ a.start := ⟨fun _ _ => Or.symm⟩
  by_contra different
  have meets := List.Pairwise.forall apart one two different
  unfold Contains at inside inside'
  omega

theorem Apart.retarget (apart : Apart ms) (change : Mapping κ → Mapping κ)
    (same : ∀ m, (change m).start = m.start ∧ (change m).size = m.size) : Apart (ms.map change) := by
  refine List.pairwise_map.mpr (List.Pairwise.imp ?_ apart)
  intro a b meets
  unfold stop at meets ⊢
  rw [(same a).1,(same a).2,(same b).1,(same b).2]
  exact meets

theorem Clear.sublist (clear : Clear ms start size) (less : ns ⊆ ms) : Clear ns start size :=
  fun m member => clear m (less member)

end Mapping
