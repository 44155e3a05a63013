import Mathlib.Logic.Function.Basic

/-! A partial one-to-one pairing kept from both sides, as a kernel keeps the thread of a
notification and the notification of a thread. -/
structure Pairing (α β : Type) where
  left : α → Option β
  right : β → Option α
  agree : ∀ a b, left a = some b ↔ right b = some a

namespace Pairing

variable {α β : Type} [DecidableEq α] [DecidableEq β] {p q : Pairing α β}

def empty : Pairing α β := ⟨fun _ => none,fun _ => none,by simp⟩

def join (p : Pairing α β) (a : α) (b : β) : Option (Pairing α β) :=
  if free : p.left a = none ∧ p.right b = none then
    some {
      left := Function.update p.left a (some b)
      right := Function.update p.right b (some a)
      agree := by
        intro x y
        have agree := p.agree x y
        rcases eq_or_ne x a with rfl | first <;> rcases eq_or_ne y b with rfl | second
        · simp
        · simp only [Function.update_self,Option.some.injEq,ne_eq,second,not_false_eq_true,
            Function.update_of_ne,← agree,free.1,reduceCtorEq,iff_false]
          exact second.symm
        · simp only [Function.update_self,Option.some.injEq,ne_eq,first,not_false_eq_true,
            Function.update_of_ne,agree,free.2,reduceCtorEq,false_iff]
          exact first.symm
        · simpa [first,second] using agree }
  else none

/-- Frees `a` and what it was paired with. -/
def partLeft (p : Pairing α β) (a : α) : Pairing α β where
  left x := if x = a then none else p.left x
  right y := if p.right y = some a then none else p.right y
  agree x y := by
    have agree := p.agree x y
    grind

/-- Frees `b` and what it was paired with. -/
def partRight (p : Pairing α β) (b : β) : Pairing α β where
  left x := if p.left x = some b then none else p.left x
  right y := if y = b then none else p.right y
  agree x y := by
    have agree := p.agree x y
    grind

omit [DecidableEq β] in
theorem partLeft_left : (p.partLeft a).left x = some y ↔ x ≠ a ∧ p.left x = some y := by
  simp [partLeft]

omit [DecidableEq α] in
theorem partRight_left : (p.partRight b).left x = some y ↔ y ≠ b ∧ p.left x = some y := by
  simp only [partRight]
  split
  · rename_i old
    simp only [reduceCtorEq,old,Option.some.injEq,false_iff,not_and]
    exact fun other same => other same.symm
  · rename_i old
    constructor
    · intro paired
      refine ⟨?_,paired⟩
      rintro rfl
      exact old paired
    · exact And.right

theorem join_left (joined : p.join a b = some q) : q.left x = some y ↔ (x = a ∧ y = b) ∨ p.left x = some y := by
  unfold join at joined
  split at joined
  · rename_i free
    obtain rfl := Option.some.inj joined
    rcases eq_or_ne x a with rfl | other
    · simp [free.1,eq_comm]
    · simp [other]
  · cases joined

end Pairing
