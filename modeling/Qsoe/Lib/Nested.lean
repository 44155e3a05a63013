import Mathlib.Algebra.BigOperators.Group.List.Basic
import Mathlib.Algebra.GroupWithZero.Nat
import Mathlib.Algebra.Ring.Int.Defs
import Mathlib.Data.List.Basic

/-! Nested groups written as a flat row of tokens, and walks over such a row that keep nothing but a
position and a depth. What a walk answers on the tokens of a forest is read off the forest. -/
namespace Nested

inductive Token (α β : Type) where
  | opening (a : α)
  | closing
  | leaf (b : β)
  deriving DecidableEq, Repr

/-- Each constructor names the rest of the row it stands in front of. -/
inductive Forest (α β : Type) where
  | nil
  | leaf (b : β) (rest : Forest α β)
  | node (a : α) (inner rest : Forest α β)
  deriving DecidableEq, Repr

variable {α β σ ρ : Type}

def Forest.tokens : Forest α β → List (Token α β)
  | .nil => []
  | .leaf b rest => .leaf b :: rest.tokens
  | .node a inner rest => .opening a :: (inner.tokens ++ .closing :: rest.tokens)

def Forest.leaves : Forest α β → List β
  | .nil => []
  | .leaf b rest => b :: rest.leaves
  | .node _ inner rest => inner.leaves ++ rest.leaves

def Token.turn : Token α β → Int
  | .opening _ => 1
  | .closing => -1
  | .leaf _ => 0

variable (width : Token α β → Nat)

def extent (ts : List (Token α β)) : Nat := (ts.map width).sum

structure Group (α β : Type) where
  start : Nat
  label : α
  inner : Forest α β
  deriving DecidableEq, Repr

def Group.tokens (g : Group α β) : List (Token α β) := .opening g.label :: (g.inner.tokens ++ [.closing])

def Group.body (g : Group α β) : Nat := g.start + width (.opening g.label)

def Group.stop (g : Group α β) : Nat := g.start + extent width g.tokens

def siblings : Nat → Forest α β → List (Group α β)
  | _, .nil => []
  | o, .leaf b rest => siblings (o + width (.leaf b)) rest
  | o, .node a inner rest => ⟨o,a,inner⟩ :: siblings (Group.stop width ⟨o,a,inner⟩) rest

def groups : Nat → Forest α β → List (Group α β)
  | _, .nil => []
  | o, .leaf b rest => groups (o + width (.leaf b)) rest
  | o, .node a inner rest =>
    ⟨o,a,inner⟩ :: (groups (Group.body width ⟨o,a,inner⟩) inner ++ groups (Group.stop width ⟨o,a,inner⟩) rest)

/-- The leaves of the outermost level with their positions, up to the first group with a loud leaf. -/
def visible (loud : β → Bool) : Nat → Forest α β → List (Nat × β)
  | _, .nil => []
  | o, .leaf b rest => (o,b) :: visible loud (o + width (.leaf b)) rest
  | o, .node a inner rest => if inner.leaves.any loud then [] else visible loud (Group.stop width ⟨o,a,inner⟩) rest

def walk (visit : Nat → Int → Token α β → Option ρ) : List (Token α β) → Nat → Int → Option ρ
  | [], _, _ => none
  | t :: ts, o, d => (visit o d t).or (walk visit ts (o + width t) (d + t.turn))

def Standing (there : Nat → Token α β → Prop) : Nat → List (Token α β) → Prop
  | _, [] => True
  | o, t :: ts => there o t ∧ Standing there (o + width t) ts

variable {width} {f : Forest α β} {g : Group α β} {ts us : List (Token α β)}
    {visit : Nat → Int → Token α β → Option ρ}
  {there : Nat → Token α β → Prop} {o : Nat} {d : Int} {r : ρ}

@[simp] theorem extent_nil : extent width [] = 0 := rfl

@[simp] theorem extent_cons (t : Token α β) (ts : List (Token α β)) :
    extent width (t :: ts) = width t + extent width ts :=
  List.sum_cons

@[simp] theorem extent_append (ts us : List (Token α β)) :
    extent width (ts ++ us) = extent width ts + extent width us := by
  rw [extent,List.map_append,List.sum_append]
  rfl

theorem length_le_extent (positive : ∀ t, 0 < width t) (ts : List (Token α β)) : ts.length ≤ extent width ts := by
  induction ts with
  | nil => exact Nat.le_refl 0
  | cons t ts ih =>
    have one := positive t
    rw [List.length_cons,extent_cons]
    omega

theorem mem_tokens {b : β} : .leaf b ∈ f.tokens ↔ b ∈ f.leaves := by
  induction f with
  | nil => simp [Forest.tokens,Forest.leaves]
  | leaf b rest ih => simp [Forest.tokens,Forest.leaves,ih]
  | node a inner rest first later => simp [Forest.tokens,Forest.leaves,first,later]

theorem tokens_node (a : α) (inner rest : Forest α β) :
    (Forest.node a inner rest).tokens = Group.tokens ⟨o,a,inner⟩ ++ rest.tokens := by
  simp [Forest.tokens,Group.tokens]

theorem standing_append :
    Standing width there o (ts ++ us) ↔ Standing width there o ts ∧
      Standing width there (o + extent width ts) us := by
  induction ts generalizing o with
  | nil => simp [Standing]
  | cons t ts ih => simp only [List.cons_append,Standing,ih,extent_cons,and_assoc,Nat.add_assoc]

theorem Standing.and {also : Nat → Token α β → Prop} (standing : Standing width there o ts)
    (too : Standing width also o ts) :
    Standing width (fun o t => there o t ∧ also o t) o ts := by
  induction ts generalizing o with
  | nil => trivial
  | cons t ts ih => exact ⟨⟨standing.1,too.1⟩,ih standing.2 too.2⟩

theorem Standing.mono {also : Nat → Token α β → Prop} (standing : Standing width there o ts)
    (weaker : ∀ o t, there o t → also o t) :
    Standing width also o ts := by
  induction ts generalizing o with
  | nil => trivial
  | cons t ts ih => exact ⟨weaker _ _ standing.1,ih standing.2⟩

theorem siblings_sublist (o : Nat) (f : Forest α β) : (siblings width o f).Sublist (groups width o f) := by
  induction f generalizing o with
  | nil => exact List.Sublist.refl _
  | leaf b rest ih => exact ih _
  | node a inner rest _ ih => exact ((ih _).trans (List.sublist_append_right _ _)).cons_cons _

theorem groups_inner {h : Group α β} (outer : g ∈ groups width o f)
    (inside : h ∈ groups width (g.body width) g.inner) :
    h ∈ groups width o f := by
  induction f generalizing o with
  | nil => cases outer
  | leaf b rest ih => exact ih outer
  | node a inner rest first later =>
    rcases List.mem_cons.mp outer with rfl | other
    · exact List.mem_cons_of_mem _ (List.mem_append_left _ inside)
    · rcases List.mem_append.mp other with deep | beside
      · exact List.mem_cons_of_mem _ (List.mem_append_left _ (first deep))
      · exact List.mem_cons_of_mem _ (List.mem_append_right _ (later beside))

theorem groups_row (member : g ∈ groups width o f) :
    ∃ before after, f.tokens = before ++ (g.tokens ++ after) ∧ g.start = o + extent width before := by
  induction f generalizing o with
  | nil => cases member
  | leaf b rest ih =>
    obtain ⟨before,after,row,start⟩ := ih member
    refine ⟨.leaf b :: before,after,?_,?_⟩
    · rw [Forest.tokens,row,List.cons_append]
    · rw [start,extent_cons,Nat.add_assoc]
  | node a inner rest first later =>
    rcases List.mem_cons.mp member with rfl | other
    · exact ⟨[],rest.tokens,tokens_node a inner rest,rfl⟩
    · rcases List.mem_append.mp other with deep | beside
      · obtain ⟨before,after,row,start⟩ := first deep
        refine ⟨.opening a :: before,after ++ .closing :: rest.tokens,?_,?_⟩
        · rw [Forest.tokens,row]
          simp
        · rw [start,extent_cons,← Nat.add_assoc]
          rfl
      · obtain ⟨before,after,row,start⟩ := later beside
        refine ⟨Group.tokens ⟨o,a,inner⟩ ++ before,after,?_,?_⟩
        · rw [tokens_node (o := o),row,List.append_assoc]
        · rw [start,extent_append,← Nat.add_assoc]
          rfl

theorem Standing.group (standing : Standing width there o f.tokens) (member : g ∈ groups width o f) :
    Standing width there g.start g.tokens := by
  obtain ⟨before,after,row,start⟩ := groups_row member
  rw [row,standing_append,standing_append,← start] at standing
  exact standing.2.1

theorem standing_openings (o : Nat) (f : Forest α β) :
    Standing width (fun x t => ∀ a, t = .opening a → ∃ g ∈ groups width o f, g.start = x) o f.tokens := by
  induction f generalizing o with
  | nil => trivial
  | leaf b rest ih => exact ⟨fun a same => (by cases same),ih _⟩
  | node a inner rest first later =>
    rw [tokens_node (o := o),standing_append,Group.tokens,Standing,standing_append]
    refine ⟨⟨fun _ _ => ⟨_,List.mem_cons_self,rfl⟩,?_,⟨fun a same => (by cases same),trivial⟩⟩,?_⟩
    · refine (first _).mono fun x t known a same => ?_
      obtain ⟨g,member,start⟩ := known a same
      exact ⟨g,List.mem_cons_of_mem _ (List.mem_append_left _ member),start⟩
    · refine (later _).mono fun x t known a same => ?_
      obtain ⟨g,member,start⟩ := known a same
      exact ⟨g,List.mem_cons_of_mem _ (List.mem_append_right _ member),start⟩

theorem Standing.visible {loud : β → Bool} {l : Nat × β} (standing : Standing width there o f.tokens)
    (member : l ∈ visible width loud o f) :
    there l.1 (.leaf l.2) := by
  induction f generalizing o with
  | nil => cases member
  | leaf b rest ih =>
    rcases List.mem_cons.mp member with rfl | later
    · exact standing.1
    · exact ih standing.2 later
  | node a inner rest _ ih =>
    rw [tokens_node (o := o),standing_append] at standing
    rw [Nested.visible] at member
    split at member
    · cases member
    · exact ih standing.2 member

theorem walk_append (ts us : List (Token α β)) (o : Nat) (d : Int) :
    walk width visit (ts ++ us) o d = (walk width visit ts o d).or
      (walk width visit us (o + extent width ts) (d + (ts.map Token.turn).sum)) := by
  induction ts generalizing o d with
  | nil => simp [walk]
  | cons t ts ih =>
    rw [List.cons_append,walk,walk,ih,Option.or_assoc,extent_cons,List.map_cons,List.sum_cons,Nat.add_assoc,
      Int.add_assoc]

theorem turn_tokens (f : Forest α β) : (f.tokens.map Token.turn).sum = 0 := by
  induction f with
  | nil => rfl
  | leaf b rest ih => simp [Forest.tokens,Token.turn,ih]
  | node a inner rest first later => simp [Forest.tokens,Token.turn,first,later]

theorem walk_node (a : α) (inner rest : Forest α β) (o : Nat) (d : Int) :
    walk width visit (Forest.node a inner rest).tokens o d = (visit o d (.opening a)).or
      ((walk width visit inner.tokens (Group.body width ⟨o,a,inner⟩) (d + 1)).or
        ((visit (Group.body width ⟨o,a,inner⟩ + extent width inner.tokens) (d + 1) .closing).or
          (walk width visit rest.tokens (Group.stop width ⟨o,a,inner⟩) d))) := by
  have back : d + 1 + -1 = d := by omega
  have behind : Group.body width ⟨o,a,inner⟩ + extent width inner.tokens + width .closing = Group.stop width
    ⟨o,a,inner⟩ := by
    simp only [Group.body,Group.stop,Group.tokens,extent_cons,extent_append,extent_nil]
    omega
  rw [Forest.tokens,walk,walk_append,turn_tokens,walk,Int.add_zero]
  simp only [Token.turn]
  rw [back,← behind]
  rfl

theorem walk_quiet (openings : ∀ o e a, d ≤ e → visit o e (.opening a) = none)
    (closings : ∀ o e, d < e → visit o e .closing = none) (leaves : ∀ o e, ∀ b ∈ f.leaves, d ≤ e →
      visit o e (.leaf b) = none)
    (o : Nat) (e : Int) (deep : d ≤ e) : walk width visit f.tokens o e = none := by
  induction f generalizing o e with
  | nil => rfl
  | leaf b rest ih =>
    have later := ih (fun o e b member => leaves o e b (List.mem_cons_of_mem _ member)) (o + width (.leaf b)) e deep
    rw [Forest.tokens,walk,leaves o e b List.mem_cons_self deep,Option.none_or,Token.turn,Int.add_zero]
    exact later
  | node a inner rest first later =>
    have inside := first (fun o e b member => leaves o e b (List.mem_append_left _ member))
      (Group.body width ⟨o,a,inner⟩) (e + 1) (by omega)
    have beside := later (fun o e b member => leaves o e b (List.mem_append_right _ member))
      (Group.stop width ⟨o,a,inner⟩) e deep
    rw [walk_node,openings o e a deep,inside,closings _ _ (by omega),beside]
    rfl

/-- A walk that answers only at openings of its first level goes from sibling to sibling. -/
theorem walk_siblings (pick : Nat → α → Option ρ) (openings : ∀ o a, visit o d (.opening a) = pick o a)
    (deeper : ∀ o e a, d < e → visit o e (.opening a) = none) (closings : ∀ o e, d < e → visit o e .closing = none)
    (leaves : ∀ o e b, d ≤ e → visit o e (.leaf b) = none) (o : Nat) (f : Forest α β) :
    walk width visit f.tokens o d = (siblings width o f).findSome? fun g => pick g.start g.label := by
  induction f generalizing o with
  | nil => rfl
  | leaf b rest ih =>
    rw [Forest.tokens,walk,leaves o d b (Int.le_refl d),Option.none_or,Token.turn,Int.add_zero]
    exact ih _
  | node a inner rest _ ih =>
    have inside : walk width visit inner.tokens (Group.body width ⟨o,a,inner⟩) (d + 1) = none :=
      walk_quiet (d := d + 1) (fun o e a deep => deeper o e a (by omega)) (fun o e deep => closings o e (by omega))
        (fun o e b _ deep => leaves o e b (by omega)) _ _ (Int.le_refl _)
    rw [walk_node,inside,closings _ _ (by omega),openings,ih,siblings,List.findSome?_cons,Option.none_or,
      Option.none_or]
    cases pick o a with
    | none => rfl
    | some r => rfl

/-- A walk that answers at openings of any level comes to every group. -/
theorem walk_groups (pick : Nat → α → Option ρ) (openings : ∀ o e a, d ≤ e → visit o e (.opening a) = pick o a)
    (closings : ∀ o e, d < e → visit o e .closing = none) (leaves : ∀ o e b, d ≤ e → visit o e (.leaf b) = none)
    (o : Nat) (e : Int) (deep : d ≤ e) (f : Forest α β) :
    walk width visit f.tokens o e = (groups width o f).findSome? fun g => pick g.start g.label := by
  induction f generalizing o e with
  | nil => rfl
  | leaf b rest ih =>
    rw [Forest.tokens,walk,leaves o e b deep,Option.none_or,Token.turn,Int.add_zero]
    exact ih _ e deep
  | node a inner rest first later =>
    rw [walk_node,first _ (e + 1) (by omega),closings _ _ (by omega),openings o e a deep,later _ e deep,groups,
      List.findSome?_cons,List.findSome?_append,Option.none_or]
    cases pick o a with
    | none => rfl
    | some r => rfl

theorem walk_loud {loud : β → Bool} (openings : ∀ o e a, d ≤ e → visit o e (.opening a) = none)
    (closings : ∀ o e, d < e → visit o e .closing = none)
    (deeper : ∀ o e b, d < e → visit o e (.leaf b) = if loud b then some r else none) (o : Nat) (e : Int)
    (deep : d < e)
    (f : Forest α β) : walk width visit f.tokens o e = if f.leaves.any loud then some r else none := by
  induction f generalizing o e with
  | nil => rfl
  | leaf b rest ih =>
    rw [Forest.tokens,walk,deeper o e b deep,Token.turn,Int.add_zero,ih _ e deep,Forest.leaves,List.any_cons]
    cases loud b with
    | false => rfl
    | true => rfl
  | node a inner rest first later =>
    rw [walk_node,openings o e a (by omega),first _ (e + 1) (by omega),closings _ _ (by omega),later _ e deep,
      Forest.leaves,List.any_append]
    cases inner.leaves.any loud with
    | false => rfl
    | true => rfl

/-- A walk for a leaf of its first level, which gives up at a loud leaf further inside. -/
theorem walk_visible (pick : Nat → β → Option ρ) (loud : β → Bool) (openings : ∀ o e a, d ≤ e →
    visit o e (.opening a) = none)
    (closings : ∀ o e, d < e → visit o e .closing = none) (leaves : ∀ o b, visit o d (.leaf b) = pick o b)
    (deeper : ∀ o e b, d < e → visit o e (.leaf b) = if loud b then some r else none) (o : Nat) (f : Forest α β) :
    (walk width visit f.tokens o d).getD r = ((visible width loud o f).findSome? fun l => pick l.1 l.2).getD r := by
  induction f generalizing o with
  | nil => rfl
  | leaf b rest ih =>
    rw [Forest.tokens,walk,leaves,Token.turn,Int.add_zero,visible,List.findSome?_cons]
    cases pick o b with
    | none =>
      rw [Option.none_or]
      exact ih _
    | some r' => rfl
  | node a inner rest _ ih =>
    rw [walk_node,openings o d a (Int.le_refl d),walk_loud openings closings deeper _ (d + 1) (by omega),
      closings _ _ (by omega),visible,
      Option.none_or,Option.none_or]
    cases inner.leaves.any loud with
    | false => exact ih _
    | true => rfl

/-- The closing token of a level has the last word. -/
theorem walk_closing (ends : ∀ o, visit o d .closing = some r) (o : Nat) (f : Forest α β) :
    walk width visit (f.tokens ++ [.closing]) o d = some ((walk width visit f.tokens o d).getD r) := by
  rw [walk_append,turn_tokens,Int.add_zero,walk,ends,Option.some_or]
  cases walk width visit f.tokens o d with
  | none => rfl
  | some r' => rfl

/-- `rounds` turns of a loop whose turn goes on, answers or does not end itself. -/
def loop (turn : σ → Option (σ ⊕ ρ)) : Nat → σ → Option ρ
  | 0, _ => none
  | rounds + 1, s =>
    match turn s with
    | none => none
    | some (.inl t) => loop turn rounds t
    | some (.inr r) => some r

/-- A loop that takes the tokens of a row one by one answers what the walk over them answers. -/
theorem loop_walk {turn : σ → Option (σ ⊕ ρ)} (state : Nat → Int → σ)
    (turns : ∀ o d t, there o t → turn (state o d) =
      some ((visit o d t).elim (.inl (state (o + width t) (d + t.turn))) .inr))
    (standing : Standing width there o ts) (answer : walk width visit ts o d = some r) {rounds : Nat}
    (enough : ts.length ≤ rounds) :
    loop turn rounds (state o d) = some r := by
  induction ts generalizing o d rounds with
  | nil => cases answer
  | cons t ts ih =>
    obtain ⟨here,later⟩ := standing
    rw [List.length_cons] at enough
    obtain ⟨more,rfl⟩ : ∃ more, rounds = more + 1 := ⟨rounds - 1,by omega⟩
    have one := turns o d t here
    rw [walk] at answer
    rw [loop,one]
    cases visited : visit o d t with
    | none =>
      rw [visited,Option.none_or] at answer
      exact ih later answer (by omega)
    | some r' =>
      rw [visited,Option.some_or] at answer
      exact answer

end Nested
