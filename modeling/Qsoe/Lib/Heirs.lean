import Mathlib.Logic.Function.Basic

/-! A value that is handed down. Individuals are numbered in the order of their births; each starts with the value
of the one it is born to and may change its own later. -/

/-- `clock` is the number of the next one, and `origin` whom each was born to. -/
structure Heirs (α : Type) where
  value : Nat → α
  origin : Nat → Nat
  clock : Nat

namespace Heirs

variable {α : Type} {h : Heirs α} {P : α → Prop} {k a m n : Nat}

def birth (h : Heirs α) (m : Nat) : Heirs α where
  value := Function.update h.value h.clock (h.value m)
  origin := Function.update h.origin h.clock m
  clock := h.clock + 1

def change (h : Heirs α) (n : Nat) (x : α) : Heirs α := { h with value := Function.update h.value n x }

@[simp] theorem birth_new (h : Heirs α) (m : Nat) : (h.birth m).value h.clock = h.value m := Function.update_self ..

theorem birth_old (older : n < h.clock) (m : Nat) : (h.birth m).value n = h.value n :=
  Function.update_of_ne (Nat.ne_of_lt older) ..

@[simp] theorem change_self (h : Heirs α) (n : Nat) (x : α) : (h.change n x).value n = x := Function.update_self ..

theorem change_other (other : m ≠ n) (h : Heirs α) (x : α) : (h.change n x).value m = h.value m :=
  Function.update_of_ne other ..

/-- Nobody is born before the one it is born to. -/
def Ordered (h : Heirs α) : Prop := ∀ n < h.clock, h.origin n < h.clock

theorem Ordered.birth (ordered : h.Ordered) (older : m < h.clock) : (h.birth m).Ordered := by
  intro n new
  rcases Nat.lt_succ_iff_lt_or_eq.mp new with old | rfl
  · have before := ordered n old
    simp only [Heirs.birth,Function.update_of_ne (Nat.ne_of_lt old)]
    omega
  · simp only [Heirs.birth,Function.update_self]
    omega

/-- `n` is `a`, or descends from it by way of births from number `k` on. -/
inductive From (h : Heirs α) (k a : Nat) : Nat → Prop where
  | self : From h k a a
  | child : k ≤ i → From h k a (h.origin i) → From h k a i

theorem From.of_birth (line : (h.birth m).From k a n) (ordered : h.Ordered) (older : n < h.clock) :
    h.From k a n := by
  induction line with
  | self => exact .self
  | @child i late _ ih =>
    have same : (h.birth m).origin i = h.origin i := Function.update_of_ne (Nat.ne_of_lt older) ..
    rw [same] at ih
    exact .child late (ih (ordered i older))

theorem From.of_newborn (line : (h.birth m).From k a h.clock) (ordered : h.Ordered) (older : m < h.clock)
    (there : a < h.clock) : h.From k a m := by
  cases line with
  | self => exact absurd there (Nat.lt_irrefl _)
  | child _ rest =>
    have same : (h.birth m).origin h.clock = m := Function.update_self ..
    rw [same] at rest
    exact rest.of_birth ordered older

theorem From.birth (line : h.From k a n) (ordered : h.Ordered) (older : n < h.clock) : (h.birth m).From k a n := by
  induction line with
  | self => exact .self
  | @child i late _ ih =>
    have same : (h.birth m).origin i = h.origin i := Function.update_of_ne (Nat.ne_of_lt older) ..
    refine .child late ?_
    rw [same]
    exact ih (ordered i older)

theorem From.newborn (line : h.From k a m) (ordered : h.Ordered) (older : m < h.clock) (late : k ≤ h.clock) :
    (h.birth m).From k a h.clock := by
  have same : (h.birth m).origin h.clock = m := Function.update_self ..
  refine .child late ?_
  rw [same]
  exact line.birth ordered older

/-- `P` holds of `a` and of everyone who descends from it by births from `k` on. -/
structure Line (P : α → Prop) (k a : Nat) (h : Heirs α) : Prop where
  ordered : h.Ordered
  begun : k ≤ h.clock
  there : a < h.clock
  holds : ∀ n < h.clock, h.From k a n → P (h.value n)

theorem Line.start (ordered : h.Ordered) (there : a < h.clock) (holds : P (h.value a)) : h.Line P h.clock a where
  ordered := ordered
  begun := Nat.le_refl _
  there := there
  holds n older line := by
    cases line with
    | self => exact holds
    | child late _ => exact absurd late (Nat.not_le.mpr older)

theorem Line.birth (line : h.Line P k a) (older : m < h.clock) : (h.birth m).Line P k a where
  ordered := line.ordered.birth older
  begun := Nat.le_succ_of_le line.begun
  there := Nat.lt_succ_of_lt line.there
  holds n new descends := by
    rcases Nat.lt_succ_iff_lt_or_eq.mp new with old | rfl
    · rw [birth_old old]
      exact line.holds n old (descends.of_birth line.ordered old)
    · rw [birth_new]
      exact line.holds m older (descends.of_newborn line.ordered older line.there)

theorem From.of_change {x : α} (line : (h.change m x).From k a n) : h.From k a n := by
  induction line with
  | self => exact .self
  | child late _ ih => exact .child late ih

/-- A change keeps the line when it keeps `P`. -/
theorem Line.change {x : α} (line : h.Line P k a) (keeps : P (h.value m) → P x) : (h.change m x).Line P k a where
  ordered := line.ordered
  begun := line.begun
  there := line.there
  holds n older descends := by
    have before := line.holds n older descends.of_change
    by_cases same : n = m
    · subst same
      rw [change_self]
      exact keeps before
    · rw [change_other same]
      exact before

end Heirs
