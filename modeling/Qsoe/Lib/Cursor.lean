import Mathlib.Data.List.Nodup
import Mathlib.Data.List.Dedup

/-! A cursor hands out the items of a list call by call and then answers with an error for good. The lists
here come of entries of which some stand alone and others are one of a group, listed once. -/

namespace Cursor

variable {σ : Type u} {α : Type v} {ε : Type w} {next : σ → σ × Except ε α}

/-- The state after `n` calls. -/
def after (next : σ → σ × Except ε α) : Nat → σ → σ
  | 0, s => s
  | n + 1, s => after next n (next s).1

/-- What a call answers when this is the next item. -/
def answer (stop : ε) : Option α → Except ε α
  | none => .error stop
  | some a => .ok a

/-- A cursor over `items`. -/
def Yields (next : σ → σ × Except ε α) (stop : ε) (s : σ) (items : List α) : Prop :=
  ∀ n, (next (after next n s)).2 = answer stop items[n]?

theorem yields (good : σ → Prop) (left : σ → List α) (stop : ε)
    (step : ∀ s, good s → good (next s).1 ∧ (next s).2 = answer stop (left s).head? ∧ left (next s).1 =
      (left s).tail)
    (initial : good s) : Yields next stop s (left s) := by
  intro n
  induction n generalizing s with
  | zero =>
    rw [after,(step s initial).2.1,List.head?_eq_getElem?]
  | succ n ih =>
    obtain ⟨again,-,tail⟩ := step s initial
    rw [after,ih again,tail,List.getElem?_tail]

theorem Yields.unique {stop : ε} (one : Yields next stop s items) (two : Yields next stop s items') :
    items = items' := by
  refine List.ext_getElem? fun n => ?_
  have same := (one n).symm.trans (two n)
  cases h : items[n]? <;> cases h' : items'[n]? <;> rw [h,h'] at same
  · cases same
  · cases same
  · exact congrArg some (Except.ok.inj same)

theorem Yields.item {stop : ε} (yields : Yields next stop s items) (answered : (next (after next n s)).2 = .ok a) :
    items[n]? = some a := by
  have same := (yields n).symm.trans answered
  cases h : items[n]? with
  | none =>
    rw [h] at same
    cases same
  | some b =>
    rw [h] at same
    exact congrArg some (Except.ok.inj same)

inductive Item (κ : Type u) where
  | single (key : κ)
  | group (key : κ)
  deriving DecidableEq, Repr

namespace Item

variable {κ : Type u} [DecidableEq κ] {seen : List κ} {items : List (Item κ)} {k : κ}

def key : Item κ → κ
  | single k => k
  | group k => k

def single? : Item κ → Option κ
  | single k => some k
  | group _ => none

def group? : Item κ → Option κ
  | single _ => none
  | group k => some k

def listed : List κ → List (Item κ) → List (Item κ)
  | _, [] => []
  | seen, single k :: rest => single k :: listed seen rest
  | seen, group k :: rest => if k ∈ seen then listed seen rest else group k :: listed (k :: seen) rest

theorem mem_single : single k ∈ listed seen items ↔ single k ∈ items := by
  induction items generalizing seen with
  | nil => exact Iff.rfl
  | cons item items ih =>
    cases item with
    | single j =>
      rw [listed,List.mem_cons,List.mem_cons,ih]
    | group j =>
      rw [listed]
      split <;> simp [ih]

theorem mem_group : group k ∈ listed seen items ↔ group k ∈ items ∧ k ∉ seen := by
  induction items generalizing seen with
  | nil => simp [listed]
  | cons item items ih =>
    cases item with
    | single j => simp [listed,ih]
    | group j =>
      rw [listed]
      by_cases there : j ∈ seen
      · rw [if_pos there,ih]
        refine ⟨fun ⟨member,new⟩ => ⟨List.mem_cons_of_mem _ member,new⟩,fun ⟨member,new⟩ => ⟨?_,new⟩⟩
        rcases List.mem_cons.mp member with same | later
        · obtain rfl := Item.group.inj same
          exact absurd there new
        · exact later
      · rw [if_neg there,List.mem_cons,List.mem_cons,ih,List.mem_cons,not_or]
        constructor
        · rintro (same | ⟨member,-,new⟩)
          · obtain rfl := Item.group.inj same
            exact ⟨.inl rfl,there⟩
          · exact ⟨.inr member,new⟩
        · rintro ⟨same | member,new⟩
          · exact .inl same
          · by_cases same : k = j
            · exact .inl (congrArg group same)
            · exact .inr ⟨member,same,new⟩

theorem mem_key : k ∈ (listed seen items).map key ↔ single k ∈ items ∨ group k ∈ items ∧ k ∉ seen := by
  rw [← (mem_single : single k ∈ listed seen items ↔ _),← mem_group,List.mem_map]
  constructor
  · rintro ⟨item,member,rfl⟩
    cases item with
    | single k => exact .inl member
    | group k => exact .inr member
  · rintro (member | member)
    · exact ⟨_,member,rfl⟩
    · exact ⟨_,member,rfl⟩

/-- A key is listed twice only if it stands alone twice, or alone and for a group. -/
theorem listed_nodup : ((listed seen items).map key).Nodup ↔
    (items.filterMap single?).Nodup ∧ ∀ k, single k ∈ items → group k ∈ items → k ∈ seen := by
  induction items generalizing seen with
  | nil => simp [listed]
  | cons item items ih =>
    have alone : ∀ k, k ∈ items.filterMap single? ↔ single k ∈ items := by
      intro k
      rw [List.mem_filterMap]
      constructor
      · rintro ⟨item,member,same⟩
        cases item with
        | single j =>
          obtain rfl := Option.some.inj same
          exact member
        | group j => cases same
      · exact fun member => ⟨_,member,rfl⟩
    cases item with
    | single j =>
      rw [listed,List.map_cons,List.nodup_cons,ih,show (single j).key = j from rfl,mem_key,
        List.filterMap_cons_some (show (single j).single? = some j from rfl),List.nodup_cons,alone]
      simp only [List.mem_cons,reduceCtorEq,false_or,Item.single.injEq]
      constructor
      · rintro ⟨new,once,apart⟩
        obtain ⟨fresh,unseen⟩ := not_or.mp new
        refine ⟨⟨fresh,once⟩,?_⟩
        rintro k (rfl | member) grouped
        · by_contra out
          exact unseen ⟨grouped,out⟩
        · exact apart k member grouped
      · rintro ⟨⟨fresh,once⟩,apart⟩
        refine ⟨not_or.mpr ⟨fresh,fun ⟨grouped,out⟩ => out (apart j (.inl rfl) grouped)⟩,once,?_⟩
        exact fun k member grouped => apart k (.inr member) grouped
    | group j =>
      rw [List.filterMap_cons_none (show (group j).single? = none from rfl),listed]
      simp only [List.mem_cons,reduceCtorEq,false_or,Item.group.injEq]
      by_cases there : j ∈ seen
      · rw [if_pos there,ih]
        refine and_congr_right fun _ => ⟨fun apart k member => ?_,fun apart k member grouped =>
          apart k member (.inr grouped)⟩
        rintro (rfl | grouped)
        · exact there
        · exact apart k member grouped
      · rw [if_neg there,List.map_cons,List.nodup_cons,ih,show (group j).key = j from rfl,mem_key]
        simp only [List.mem_cons,true_or,not_true_eq_false,and_false,or_false]
        constructor
        · rintro ⟨fresh,once,apart⟩
          refine ⟨once,fun k member => ?_⟩
          rintro (rfl | grouped)
          · exact absurd member fresh
          · rcases apart k member grouped with rfl | old
            · exact absurd member fresh
            · exact old
        · rintro ⟨once,apart⟩
          exact ⟨fun member => there (apart j member (.inl rfl)),once,fun k member grouped =>
            .inr (apart k member (.inr grouped))⟩

theorem listed_congr (same : ∀ k, group k ∈ items → (k ∈ seen ↔ k ∈ seen')) :
    listed seen items = listed seen' items := by
  induction items generalizing seen seen' with
  | nil => rfl
  | cons item items ih =>
    have later : ∀ k, group k ∈ items → (k ∈ seen ↔ k ∈ seen') := fun k member =>
      same k (List.mem_cons_of_mem _ member)
    cases item with
    | single j => rw [listed,listed,ih later]
    | group j =>
      have here := same j List.mem_cons_self
      rw [listed,listed]
      by_cases there : j ∈ seen
      · rw [if_pos there,if_pos (here.mp there),ih later]
      · rw [if_neg there,if_neg fun member => there (here.mpr member)]
        refine congrArg _ (ih fun k member => ?_)
        rw [List.mem_cons,List.mem_cons,later k member]

end Item

end Cursor
