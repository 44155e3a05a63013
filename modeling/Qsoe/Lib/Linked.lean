import Mathlib.Data.List.Nodup
import Mathlib.Data.Fintype.Card
import Mathlib.Logic.Function.Basic

/-! Singly linked lists threaded through an array of nodes. A list is a root pointer and the
`next` pointers; a cell of it is the root or the pointer of its predecessor. The lists of one
store share the array, and a node is on one of them or on none. -/
namespace Linked

variable {ι : Type} {next : ι → Option ι} {head : Option ι} {xs pre post : List ι}

/-- Following the pointers from `head` visits `xs` and ends. -/
def Chain (next : ι → Option ι) : Option ι → List ι → Prop
  | head, [] => head = none
  | head, i :: xs => head = some i ∧ Chain next (next i) xs

/-- The walk of a `for` or a `while` loop: it stops at the first node that passes the test, with
the node before it, or at the end. It gives nothing where the loop runs on. -/
def seek (next : ι → Option ι) (stop : ι → Bool) : Nat → Option ι → Option ι → Option (Option ι × Option ι)
  | _, prev, none => some (prev,none)
  | 0, _, some _ => none
  | fuel + 1, prev, some i => if stop i then some (prev,some i) else seek next stop fuel (some i) (next i)

namespace Chain

theorem head_eq (chain : Chain next head xs) : head = xs.head? := by
  cases xs with
  | nil => exact chain
  | cons i xs => exact chain.1

theorem congr {next' : ι → Option ι} (chain : Chain next head xs) (same : ∀ i ∈ xs, next' i = next i) :
    Chain next' head xs := by
  induction xs generalizing head with
  | nil => exact chain
  | cons i xs ih =>
    refine ⟨chain.1,?_⟩
    rw [same i List.mem_cons_self]
    exact ih chain.2 fun j member => same j (List.mem_cons_of_mem i member)

theorem unique {ys : List ι} (chain : Chain next head xs) (other : Chain next head ys) : xs = ys := by
  induction xs generalizing head ys with
  | nil =>
    cases ys with
    | nil => rfl
    | cons j ys => exact absurd (chain.symm.trans other.1) (by simp)
  | cons i xs ih =>
    cases ys with
    | nil => exact absurd (other.symm.trans chain.1) (by simp)
    | cons j ys =>
      obtain rfl : i = j := Option.some.inj (chain.1.symm.trans other.1)
      rw [ih chain.2 other.2]

theorem drop (chain : Chain next head (pre ++ post)) : ∃ mid, Chain next mid post := by
  induction pre generalizing head with
  | nil => exact ⟨head,chain⟩
  | cons i pre ih => exact ih chain.2

theorem nodup (chain : Chain next head xs) : xs.Nodup := by
  induction xs generalizing head with
  | nil => exact List.nodup_nil
  | cons i xs ih =>
    refine List.nodup_cons.mpr ⟨?_,ih chain.2⟩
    intro member
    obtain ⟨before,after,rfl⟩ := List.append_of_mem member
    obtain ⟨mid,again⟩ := chain.2.drop
    have shorter := congrArg List.length (unique chain.2 again.2)
    simp at shorter
    omega

theorem seek (chain : Chain next head xs) (stop : ι → Bool) (prev : Option ι) (enough : xs.length ≤ fuel) :
    ∃ pre post, xs = pre ++ post ∧ (∀ i ∈ pre, stop i = false) ∧ (∀ i ∈ post.head?, stop i = true) ∧
      Linked.seek next stop fuel prev head = some (pre.getLast?.or prev,post.head?) := by
  induction xs generalizing head prev fuel with
  | nil =>
    obtain rfl : head = none := chain
    exact ⟨[],[],rfl,by simp,by simp,by simp [Linked.seek]⟩
  | cons i xs ih =>
    obtain ⟨rfl,rest⟩ := chain
    cases fuel with
    | zero => simp at enough
    | succ fuel =>
      by_cases here : stop i = true
      · exact ⟨[],i :: xs,rfl,by simp,by simpa using here,by simp [Linked.seek,here]⟩
      · obtain ⟨pre,post,rfl,passed,stopped,found⟩ := ih rest (some i) (Nat.le_of_succ_le_succ enough)
        refine ⟨i :: pre,post,rfl,?_,stopped,?_⟩
        · intro j member
          rcases List.mem_cons.mp member with rfl | later
          · simpa using here
          · exact passed j later
        · rw [Linked.seek,if_neg here,found]
          cases pre with
          | nil => simp
          | cons j pre => simp [List.getLast?_eq_some_getLast (List.cons_ne_nil j pre)]

theorem length_le [Fintype ι] (chain : Chain next head xs) : xs.length ≤ Fintype.card ι :=
  chain.nodup.length_le_card

end Chain

variable {κ : Type} {root : κ → Option ι} {lists : Option κ → List ι}

/-- Every list ends, and every node is on exactly one of the lists or is loose (`none`). -/
structure Shape (next : ι → Option ι) (root : κ → Option ι) (lists : Option κ → List ι) : Prop where
  chain : ∀ p, Chain next (root p) (lists (some p))
  account : ∀ i, ∃ p, ∀ q, i ∈ lists q ↔ q = p

namespace Shape

theorem apart (shape : Shape next root lists) (here : i ∈ lists p) (there : i ∈ lists q) : p = q := by
  obtain ⟨r,only⟩ := shape.account i
  rw [(only p).mp here,(only q).mp there]

theorem other_node (shape : Shape next root lists) (here : i ∈ lists p) (there : j ∈ lists q)
    (different : p ≠ q) : i ≠ j := by
  rintro rfl
  exact different (shape.apart here there)

end Shape

variable [DecidableEq ι]

/-- The pointers after the cell behind `prev` is written. -/
def aim (next : ι → Option ι) (prev v : Option ι) : ι → Option ι :=
  match prev with
  | none => next
  | some p => Function.update next p v

def aimRoot (head prev v : Option ι) : Option ι :=
  match prev with
  | none => v
  | some _ => head

/-- Writing the cell after `pre` keeps `pre` and continues with what the new pointer leads to. -/
theorem Chain.aim (chain : Chain next head (pre ++ post)) (tail : Chain (aim next pre.getLast? v) v rest) :
    Chain (Linked.aim next pre.getLast? v) (aimRoot head pre.getLast? v) (pre ++ rest) := by
  induction pre generalizing head with
  | nil => exact tail
  | cons i pre ih =>
    obtain ⟨rfl,after⟩ := chain
    cases pre with
    | nil => exact ⟨rfl,by simpa [Linked.aim] using tail⟩
    | cons j pre =>
      rw [List.getLast?_cons_cons] at tail ⊢
      obtain ⟨last,atEnd⟩ : ∃ last, (j :: pre).getLast? = some last :=
        ⟨_,List.getLast?_eq_some_getLast (List.cons_ne_nil j pre)⟩
      have rest := ih after tail
      have whole : Chain next (some i) (i :: (j :: pre ++ post)) := ⟨rfl,after⟩
      have fresh := (List.nodup_cons.mp whole.nodup).1
      have other : i ≠ last := by
        rintro rfl
        exact fresh (List.mem_append_left _ (List.mem_of_getLast? atEnd))
      rw [atEnd] at rest ⊢
      refine ⟨rfl,?_⟩
      simpa [Linked.aim,aimRoot,Function.update_of_ne other] using rest

theorem Shape.scratch (shape : Shape next root lists) (loose : i ∈ lists none) (v : Option ι) :
    Shape (Function.update next i v) root lists where
  chain p := (shape.chain p).congr fun j member =>
    Function.update_of_ne (shape.other_node member loose (by simp)) _ _
  account := shape.account

variable [DecidableEq κ]

/-- Node `i` is moved to the list `q`, which becomes `ys`; where it was, `xs` is left. -/
def moved (lists : Option κ → List ι) (p q : Option κ) (xs ys : List ι) : Option κ → List ι :=
  Function.update (Function.update lists p xs) q ys

namespace Shape

theorem moved_account (shape : Shape next root lists) (here : i ∈ lists p) (different : p ≠ q)
    (left : ∀ j, j ∈ xs ↔ j ∈ lists p ∧ j ≠ i) (joined : ∀ j, j ∈ ys ↔ j ∈ lists q ∨ j = i) (j : ι) :
    ∃ r, ∀ r', j ∈ moved lists p q xs ys r' ↔ r' = r := by
  have member : ∀ r', j ∈ moved lists p q xs ys r' ↔
      if r' = q then j ∈ lists q ∨ j = i else j ∈ lists r' ∧ (r' = p → j ≠ i) := by
    intro r'
    by_cases toQ : r' = q
    · subst toQ
      simp [moved,joined]
    · by_cases fromP : r' = p
      · subst fromP
        simp [moved,toQ,left]
      · simp [moved,toQ,fromP]
  by_cases same : j = i
  · subst same
    refine ⟨q,fun r' => ?_⟩
    rw [member]
    by_cases toQ : r' = q
    · simp [toQ]
    · simp only [toQ,if_false,iff_false]
      rintro ⟨inside,outside⟩
      exact outside (shape.apart inside here) rfl
  · obtain ⟨r,only⟩ := shape.account j
    refine ⟨r,fun r' => ?_⟩
    rw [member]
    by_cases toQ : r' = q
    · subst toQ
      simp [only,same]
    · simp [toQ,only,same]

/-- Taking the node after `pre` off its list. -/
theorem unlink (shape : Shape next root lists) (at' : lists (some p) = pre ++ i :: post) :
    Shape (aim next pre.getLast? (next i)) (Function.update root p (aimRoot (root p) pre.getLast? (next i)))
      (moved lists (some p) none (pre ++ post) (i :: lists none)) := by
  have chain := shape.chain p
  rw [at'] at chain
  have once := chain.nodup
  have here : i ∈ lists (some p) := by rw [at']; simp
  refine ⟨fun q => ?_,shape.moved_account here (by simp) ?_ (by simp [or_comm])⟩
  · by_cases same : q = p
    · subst same
      obtain ⟨mid,found,tail⟩ := chain.drop
      have kept : Chain (aim next pre.getLast? (next i)) (next i) post := by
        apply tail.congr
        intro j member
        cases last : pre.getLast? with
        | none => rfl
        | some k =>
          have before := List.mem_of_getLast? last
          have other : j ≠ k := by
            rintro rfl
            exact List.disjoint_of_nodup_append once before (List.mem_cons_of_mem i member)
          exact Function.update_of_ne other _ _
      simpa [moved] using chain.aim kept
    · have kept : Chain (aim next pre.getLast? (next i)) (root q) (lists (some q)) := by
        apply (shape.chain q).congr
        intro j member
        cases last : pre.getLast? with
        | none => rfl
        | some k =>
          have before : k ∈ lists (some p) := by
            rw [at']
            exact List.mem_append_left _ (List.mem_of_getLast? last)
          exact Function.update_of_ne (shape.other_node member before (by simpa using same)) _ _
      simpa [moved,same] using kept
  · intro j
    rw [at']
    simp only [List.mem_append,List.mem_cons]
    have notBefore : i ∉ pre := fun member => List.disjoint_of_nodup_append once member List.mem_cons_self
    have notAfter : i ∉ post := (List.nodup_cons.mp (List.nodup_append.mp once).2.1).1
    constructor
    · rintro (before | after)
      · exact ⟨.inl before,fun same => notBefore (same ▸ before)⟩
      · exact ⟨.inr (.inr after),fun same => notAfter (same ▸ after)⟩
    · rintro ⟨before | same | after,different⟩
      · exact .inl before
      · exact absurd same different
      · exact .inr after

/-- Putting a loose node on a list, after `pre`. -/
theorem link (shape : Shape next root lists) (loose : i ∈ lists none) (at' : lists (some p) = pre ++ post) :
    Shape (aim (Function.update next i post.head?) pre.getLast? (some i))
      (Function.update root p (aimRoot (root p) pre.getLast? (some i)))
      (moved lists none (some p) ((lists none).filter (· ≠ i)) (pre ++ i :: post)) := by
  have ready := shape.scratch loose post.head?
  have chain := ready.chain p
  rw [at'] at chain
  have once := chain.nodup
  have foreign : ∀ q j, j ∈ lists (some q) → j ≠ i := fun q j member =>
    shape.other_node member loose (by simp)
  have inPost : ∀ j ∈ post, j ∈ lists (some p) := fun j member => by
    rw [at']
    exact List.mem_append_right _ member
  have inPre : ∀ j ∈ pre, j ∈ lists (some p) := fun j member => by
    rw [at']
    exact List.mem_append_left _ member
  have quiet : ∀ j, j ∉ pre → aim (Function.update next i post.head?) pre.getLast? (some i) j =
      Function.update next i post.head? j := by
    intro j absent
    cases last : pre.getLast? with
    | none => rfl
    | some k =>
      have other : j ≠ k := fun same => absent (same ▸ List.mem_of_getLast? last)
      exact Function.update_of_ne other _ _
  refine ⟨fun q => ?_,shape.moved_account loose (by simp) (by simp) ?_⟩
  · by_cases same : q = p
    · subst same
      obtain ⟨mid,tail⟩ := chain.drop
      rw [tail.head_eq] at tail
      have kept : Chain (aim (Function.update next i post.head?) pre.getLast? (some i)) (some i) (i :: post) := by
        refine ⟨rfl,?_⟩
        rw [quiet i fun member => foreign q i (inPre i member) rfl,Function.update_self]
        apply tail.congr
        intro j member
        exact quiet j fun before => List.disjoint_of_nodup_append once before member
      simpa [moved] using chain.aim kept
    · have kept : Chain (aim (Function.update next i post.head?) pre.getLast? (some i)) (root q)
          (lists (some q)) := by
        apply (ready.chain q).congr
        intro j member
        exact quiet j fun before => same (Option.some.inj (shape.apart member (inPre j before)))
      simpa [moved,same] using kept
  · intro j
    rw [at']
    simp only [List.mem_append,List.mem_cons]
    grind

end Shape

end Linked
