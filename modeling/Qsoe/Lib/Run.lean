import Mathlib.Data.List.Basic

/-! Finite runs of a partial step function. A run records the condition each of
its steps met in the state before it, so a property of restricted executions is
stated and proved with the same rules as a property of all executions. -/
namespace Lts

/-- Every step is enabled and meets `allow` in the state it is taken from. -/
inductive Run (step : σ → ε → Option σ) (allow : σ → ε → Prop) : σ → List ε → σ → Prop where
  | nil : Run step allow s [] s
  | cons : allow s e → step s e = some t → Run step allow t es u → Run step allow s (e :: es) u

theorem Run.append (first : Run step allow s es t) (second : Run step allow t fs u) :
    Run step allow s (es ++ fs) u := by
  induction first with
  | nil => exact second
  | cons allowed taken _ ih => exact .cons allowed taken (ih second)

theorem Run.mono (weaker : ∀ s e, allow s e → allow' s e) (run : Run step allow s es t) :
    Run step allow' s es t := by
  induction run with
  | nil => exact .nil
  | cons allowed taken _ ih => exact .cons (weaker _ _ allowed) taken ih

/-- The invariant rule: one step preserves it, so every run does. -/
theorem Run.invariant (property : σ → Prop)
    (preserved : ∀ s e t, property s → allow s e → step s e = some t → property t)
    (run : Run step allow s es t) (initial : property s) : property t := by
  induction run with
  | nil => exact initial
  | cons allowed taken _ ih => exact ih (preserved _ _ _ initial allowed taken)

/-- A condition that an invariant turns into another one. -/
theorem Run.exchange (property : σ → Prop)
    (preserved : ∀ s e t, property s → step s e = some t → property t)
    (meets : ∀ s e, property s → allow s e → allow' s e)
    (run : Run step allow s es t) (initial : property s) : Run step allow' s es t := by
  induction run with
  | nil => exact .nil
  | cons allowed taken _ ih =>
    exact .cons (meets _ _ initial allowed) taken (ih (preserved _ _ _ initial taken))

def replay (step : σ → ε → Option σ) (allow : σ → ε → Prop) [∀ s e, Decidable (allow s e)] :
    σ → List ε → Option σ
  | s, [] => some s
  | s, e :: es => if allow s e then (step s e).bind (replay step allow · es) else none

theorem Run.of_replay {step : σ → ε → Option σ} {allow : σ → ε → Prop}
    [∀ s e, Decidable (allow s e)] (replayed : replay step allow s es = some t) :
    Run step allow s es t := by
  induction es generalizing s with
  | nil =>
    obtain rfl : s = t := by simpa [replay] using replayed
    exact .nil
  | cons e es ih =>
    rw [replay] at replayed
    split at replayed
    · rename_i allowed
      obtain ⟨next,taken,rest⟩ := Option.bind_eq_some_iff.mp replayed
      exact .cons allowed taken (ih rest)
    · cases replayed

/-- A replayed schedule whose last state passes a test reaches such a state. -/
theorem Run.exists_of_replay (step : σ → ε → Option σ) (allow : σ → ε → Prop)
    [∀ s e, Decidable (allow s e)] (s : σ) (es : List ε) (test : σ → Prop) [DecidablePred test]
    (passes : (replay step allow s es).any (fun t => decide (test t)) = true) :
    ∃ t, Run step allow s es t ∧ test t := by
  obtain ⟨t,replayed,tested⟩ := (Option.any_eq_true _ _).mp passes
  exact ⟨t,Run.of_replay replayed,of_decide_eq_true tested⟩

/-- Steps that succeed exactly while a budget lasts, each of which takes one from it. -/
theorem foldlM_isSome_iff {step : σ → ε → Option σ} {es : List ε} (good : σ → Prop) (budget : σ → Nat)
    (fit : ε → Prop) (stops : ∀ s e, good s → fit e → step s e = none → budget s = 0)
    (goes : ∀ s e t, good s → fit e → step s e = some t → good t ∧ budget t + 1 = budget s)
    (fits : ∀ e ∈ es, fit e) (initial : good s) : (es.foldlM step s).isSome ↔ es.length ≤ budget s := by
  induction es generalizing s with
  | nil => simp
  | cons e es ih =>
    have head := fits e List.mem_cons_self
    rw [List.foldlM_cons,List.length_cons]
    cases taken : step s e with
    | none =>
      have spent := stops s e initial head taken
      simp [spent]
    | some t =>
      obtain ⟨kept,less⟩ := goes s e t initial head taken
      have rest := ih (fun e member => fits e (List.mem_cons_of_mem _ member)) kept
      simp only [Option.bind_eq_bind,Option.bind_some]
      rw [rest]
      omega

end Lts
