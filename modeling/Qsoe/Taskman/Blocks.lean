import Qsoe.Taskman.Estate
import Mathlib.Algebra.Order.BigOperators.Group.Finset
import Mathlib.Data.Fintype.Sum
import Mathlib.Tactic.DeriveFintype

/-! The pp_ut blocks while a request is served. `s_cur_pput` is the block objects are retyped
from and `s_cur_pput_list` the array that grows when it is exhausted: a staging array, the one
of an image that is read, or the one of a process record. Beside them stand the blocks that
were dropped and, for each block, whom the objects in it were retyped for. -/
namespace Qsoe.Taskman

/-- The arrays of blocks: `staging` of `tm_process_create_by_name`, `pput` of `tm_fs_load_t` and
`pput` of a record. -/
inductive Shelf where
  | staging
  | image
  | record (i : Fin maxProcesses)
  deriving DecidableEq, Fintype

/-- Whom an object is retyped for: the read buffer of an image, or a process. -/
inductive Tenant where
  | image
  | process (pid : Pid)
  deriving DecidableEq, Repr

/-- The results of the two kernel calls of `taskman_alloc_and_retype`. -/
structure Retype where
  fits : Bool
  regrown : Bool
  deriving DecidableEq, Repr

structure Arena where
  pool : Pool
  dropped : List Nat
  shelves : Shelf → List Nat
  cur : Option Nat
  list : Option Shelf
  tenants : Nat → List Tenant

namespace Arena

def setShelf (a : Arena) (sh : Shelf) (blocks : List Nat) : Arena :=
  { a with shelves := Function.update a.shelves sh blocks }

/-- An object is retyped from `b`. -/
def charge (a : Arena) (b : Nat) (t : Tenant) : Arena :=
  { a with tenants := Function.update a.tenants b (t :: a.tenants b) }

def extend (a : Arena) (sh : Shelf) (pool : Pool) (b : Nat) : Arena :=
  { a with
    pool := pool
    shelves := Function.update a.shelves sh (a.shelves sh ++ [b])
    cur := some b
    list := some sh }

/-- The Revoke leaves the block without objects. -/
def ppUtRelease (a : Arena) (b : Nat) : Arena :=
  { a with
    pool := a.pool.release b
    dropped := if a.pool.free.length < ppUtFreeMax then a.dropped else b :: a.dropped
    tenants := Function.update a.tenants b [] }

def pputReleaseList (a : Arena) (blocks : List Nat) : Arena := blocks.foldl ppUtRelease a

/-- The count of the array is set to one, whatever it was. -/
def pputSpawnBegin (a : Arena) (sh : Shelf) : Option Arena :=
  a.pool.acquire.map fun first => (a.setShelf sh []).extend sh first.1 first.2

def pputProcBegin (a : Arena) (i : Fin maxProcesses) : Arena :=
  match (a.shelves (.record i)).getLast? with
  | none => a
  | some last => { a with cur := some last, list := some (.record i) }

def pputEnd (a : Arena) : Arena := { a with cur := none, list := none }

/-- Without an active block the object comes from the master pool. -/
def allocAndRetype (a : Arena) (t : Tenant) (r : Retype) : Arena × Bool :=
  match a.cur with
  | none => (a,r.fits)
  | some ut =>
    if r.fits then (a.charge ut t,true)
    else match a.list with
      | none => (a,false)
      | some sh =>
        if (a.shelves sh).length < ppUtPerProc then
          match a.pool.acquire with
          | none => (a,false)
          | some (pool,nut) =>
            if r.regrown then ((a.extend sh pool nut).charge nut t,true) else (a.extend sh pool nut,false)
        else (a,false)

def retypes (a : Arena) (t : Tenant) : List Retype → Arena
  | [] => a
  | r :: rest =>
    let next := a.allocAndRetype t r
    if next.2 then next.1.retypes t rest else next.1

def tally (a : Arena) (b : Nat) : Nat :=
  a.pool.free.count b + a.dropped.count b + ∑ sh, (a.shelves sh).count b

/-- `who` is whom each array is for. -/
structure Sound (who : Shelf → Tenant) (a : Arena) : Prop where
  once : ∀ b, b < a.pool.carved → a.tally b = 1
  fresh : ∀ b, a.pool.carved ≤ b → a.tally b = 0
  room : ∀ sh, (a.shelves sh).length ≤ ppUtPerProc
  vacant : ∀ b, b ∈ a.pool.free ∨ a.pool.carved ≤ b → a.tenants b = []
  lets : ∀ sh, ∀ b ∈ a.shelves sh, ∀ t ∈ a.tenants b, t = who sh
  active : ∀ b, a.cur = some b → ∃ sh, a.list = some sh ∧ b ∈ a.shelves sh

variable {a a' a'' : Arena} {who who' : Shelf → Tenant} {sh sh' x : Shelf} {left : Pool} {b c : Nat}
    {rest blocks : List Nat}

theorem sum_update (shelves : Shelf → List Nat) (sh : Shelf) (blocks : List Nat) (b : Nat) :
    ∑ x, (Function.update shelves sh blocks x).count b + (shelves sh).count b =
      ∑ x, (shelves x).count b + blocks.count b := by
  have split : ∀ f : Shelf → List Nat,
      ∑ x, (f x).count b = (f sh).count b + ∑ x ∈ Finset.univ.erase sh, (f x).count b :=
    fun f => (Finset.add_sum_erase _ _ (Finset.mem_univ sh)).symm
  have others : ∑ x ∈ Finset.univ.erase sh, (Function.update shelves sh blocks x).count b =
      ∑ x ∈ Finset.univ.erase sh, (shelves x).count b := by
    apply Finset.sum_congr rfl
    intro x other
    rw [Function.update_of_ne (Finset.ne_of_mem_erase other)]
  rw [split,split shelves,others,Function.update_self]
  omega

theorem count_le_sum (a : Arena) (sh : Shelf) (b : Nat) : (a.shelves sh).count b ≤ ∑ x, (a.shelves x).count b :=
  Finset.single_le_sum (f := fun x => (a.shelves x).count b) (fun _ _ => Nat.zero_le _) (Finset.mem_univ sh)

theorem Sound.mono (sound : Sound who a) (same : ∀ sh, a.shelves sh ≠ [] → who' sh = who sh) : Sound who' a := by
  refine { sound with lets := ?_ }
  intro sh b member t lodged
  rw [same sh (List.ne_nil_of_mem member)]
  exact sound.lets sh b member t lodged

theorem Sound.carved (sound : Sound who a) (member : b ∈ a.shelves sh) : b < a.pool.carved ∧ b ∉ a.pool.free := by
  have held : 0 < (a.shelves sh).count b := List.count_pos_iff.mpr member
  have counted := a.count_le_sum sh b
  have below : b < a.pool.carved := by
    by_contra above
    have never := sound.fresh b (not_lt.mp above)
    unfold Arena.tally at never
    omega
  refine ⟨below,?_⟩
  intro free
  have spare : 0 < a.pool.free.count b := List.count_pos_iff.mpr free
  have once := sound.once b below
  unfold Arena.tally at once
  omega

theorem Sound.one_shelf (sound : Sound who a) (member : b ∈ a.shelves sh) (member' : b ∈ a.shelves sh') :
    sh' = sh := by
  by_contra other
  have once := sound.once b (sound.carved member).1
  have held : 0 < (a.shelves sh).count b := List.count_pos_iff.mpr member
  have held' : 0 < (a.shelves sh').count b := List.count_pos_iff.mpr member'
  have pair := Finset.add_le_sum (f := fun x => (a.shelves x).count b) (fun _ _ => Nat.zero_le _)
    (Finset.mem_univ sh) (Finset.mem_univ sh') (fun same => other same.symm)
  unfold Arena.tally at once
  omega

@[simp] theorem setShelf_shelves (a : Arena) (sh : Shelf) (blocks : List Nat) :
    (a.setShelf sh blocks).shelves sh = blocks := Function.update_self ..

theorem setShelf_other (a : Arena) (other : x ≠ sh) (blocks : List Nat) :
    (a.setShelf sh blocks).shelves x = a.shelves x := Function.update_of_ne other ..

theorem extend_mem (member : c ∈ (a.extend sh left b).shelves x) : c ∈ a.shelves x ∨ x = sh ∧ c = b := by
  by_cases own : x = sh
  · subst own
    simp only [extend,Function.update_self] at member
    rcases List.mem_append.mp member with old | last
    · exact .inl old
    · exact .inr ⟨rfl,List.mem_singleton.mp last⟩
  · simp only [extend,Function.update_of_ne own] at member
    exact .inl member

theorem Sound.extend (sound : Sound who a) (got : a.pool.acquire = some (left,b))
    (short : (a.shelves sh).length < ppUtPerProc) : Sound who (a.extend sh left b) := by
  have moved := sum_update a.shelves sh (a.shelves sh ++ [b])
  have fresh : a.tenants b = [] := by
    apply sound.vacant
    rcases Pool.acquire_cases got with ⟨popped,-⟩ | ⟨-,-,rfl,-⟩
    · exact .inl (popped ▸ List.mem_cons_self)
    · exact .inr le_rfl
  have balance : ∀ c, (a.extend sh left b).tally c + a.pool.free.count c = a.tally c + left.free.count c +
    [b].count c := by
    intro c
    have placed := moved c
    rw [List.count_append] at placed
    simp only [Arena.tally,Arena.extend]
    omega
  refine ⟨?_,?_,?_,?_,?_,?_⟩
  · intro c below
    have sum := balance c
    rcases Pool.acquire_cases got with ⟨popped,same⟩ | ⟨empty,empty',rfl,more⟩
    · have once := sound.once c (same ▸ below)
      rw [popped,List.count_cons] at sum
      rw [List.count_singleton] at sum
      omega
    · rw [empty,empty',List.count_nil,List.count_singleton] at sum
      by_cases last : c = a.pool.carved
      · subst last
        have never := sound.fresh _ le_rfl
        simp only [beq_self_eq_true,if_true] at sum
        omega
      · have older : c < left.carved := below
        have once := sound.once c (by omega)
        have differs : (a.pool.carved == c) = false := by simpa using Ne.symm last
        simp only [differs,Bool.false_eq_true,if_false] at sum
        omega
  · intro c above
    have sum := balance c
    have high : left.carved ≤ c := above
    rcases Pool.acquire_cases got with ⟨popped,same⟩ | ⟨empty,empty',rfl,more⟩
    · have never := sound.fresh c (same ▸ above)
      rw [popped,List.count_cons,List.count_singleton] at sum
      omega
    · have never := sound.fresh c (by omega)
      have differs : (a.pool.carved == c) = false := by
        rw [beq_eq_false_iff_ne]
        omega
      rw [empty,empty',List.count_nil,List.count_singleton] at sum
      simp only [differs,Bool.false_eq_true,if_false] at sum
      omega
  · intro x
    by_cases own : x = sh
    · subst own
      simp only [Arena.extend,Function.update_self,List.length_append,List.length_singleton]
      exact short
    · simp only [Arena.extend,Function.update_of_ne own]
      exact sound.room x
  · intro c spare
    apply sound.vacant
    simp only [Arena.extend] at spare
    rcases Pool.acquire_cases got with ⟨popped,same⟩ | ⟨empty,empty',rfl,more⟩
    · rcases spare with free | above
      · exact .inl (popped ▸ List.mem_cons_of_mem b free)
      · exact .inr (same ▸ above)
    · rcases spare with free | above
      · rw [empty'] at free
        cases free
      · exact .inr (by omega)
  · intro x c member t lodged
    rcases extend_mem member with old | ⟨-,rfl⟩
    · exact sound.lets x c old t lodged
    · have none_there : t ∈ a.tenants c := lodged
      rw [fresh] at none_there
      cases none_there
  · intro c current
    obtain rfl : b = c := by simpa [Arena.extend] using current
    exact ⟨sh,rfl,by simp [Arena.extend]⟩

theorem Sound.charge (sound : Sound who a) (member : b ∈ a.shelves sh) : Sound who (a.charge b (who sh)) := by
  obtain ⟨below,taken⟩ := sound.carved member
  refine { sound with vacant := ?_, lets := ?_ }
  · intro c spare
    have other : c ≠ b := by
      rintro rfl
      rcases spare with free | above
      · exact taken free
      · exact absurd below (not_lt.mpr above)
    simp only [Arena.charge,Function.update_of_ne other]
    exact sound.vacant c spare
  · intro x c there t lodged
    by_cases own : c = b
    · subst own
      obtain rfl := sound.one_shelf member there
      simp only [Arena.charge,Function.update_self] at lodged
      rcases List.mem_cons.mp lodged with rfl | old
      · rfl
      · exact sound.lets x c there t old
    · simp only [Arena.charge,Function.update_of_ne own] at lodged
      exact sound.lets x c there t lodged

theorem Sound.ppUtRelease (sound : Sound who (a.setShelf sh (b :: rest))) (idle : a.cur = none) :
    Sound who ((a.ppUtRelease b).setShelf sh rest) := by
  have carved : (a.ppUtRelease b).pool.carved = a.pool.carved := by
    simp only [Arena.ppUtRelease,Pool.release]
    split <;> rfl
  have head : b ∈ (a.setShelf sh (b :: rest)).shelves sh := by simp
  obtain ⟨below,-⟩ := sound.carved head
  have apart : b ∉ rest := by
    intro again
    have once := sound.once b below
    have twice := (a.setShelf sh (b :: rest)).count_le_sum sh b
    have more : 0 < rest.count b := List.count_pos_iff.mpr again
    rw [setShelf_shelves,List.count_cons_self] at twice
    unfold Arena.tally at once
    omega
  have elsewhere : ∀ x, b ∉ ((a.ppUtRelease b).setShelf sh rest).shelves x := by
    intro x member
    by_cases own : x = sh
    · subst own
      rw [setShelf_shelves] at member
      exact apart member
    · rw [setShelf_other _ own] at member
      refine own (sound.one_shelf head ?_)
      rwa [setShelf_other _ own]
  have balance : ∀ c, ((a.ppUtRelease b).setShelf sh rest).tally c = (a.setShelf sh (b :: rest)).tally c := by
    intro c
    have before := sum_update a.shelves sh (b :: rest) c
    have after := sum_update a.shelves sh rest c
    rw [List.count_cons] at before
    by_cases full : a.pool.free.length < ppUtFreeMax
    · simp only [Arena.tally,Arena.setShelf,Arena.ppUtRelease,Pool.release,dif_pos full,if_pos full,List.count_cons]
      omega
    · simp only [Arena.tally,Arena.setShelf,Arena.ppUtRelease,Pool.release,dif_neg full,if_neg full,List.count_cons]
      omega
  refine ⟨?_,?_,?_,?_,?_,?_⟩
  · intro c low
    rw [balance]
    exact sound.once c (carved ▸ low)
  · intro c high
    rw [balance]
    exact sound.fresh c (carved ▸ high)
  · intro x
    by_cases own : x = sh
    · subst own
      have long := sound.room x
      rw [setShelf_shelves,List.length_cons] at long
      rw [setShelf_shelves]
      omega
    · have long := sound.room x
      rw [setShelf_other _ own] at long ⊢
      exact long
  · intro c spare
    by_cases own : c = b
    · subst own
      exact Function.update_self ..
    · have kept : (a.setShelf sh (b :: rest)).tenants c = [] := by
        apply sound.vacant
        rcases spare with free | above
        · left
          simp only [Arena.setShelf,Arena.ppUtRelease,Pool.release] at free ⊢
          split at free
          · exact (List.mem_cons.mp free).resolve_left own
          · exact free
        · exact .inr (carved ▸ above)
      exact (Function.update_of_ne own ..).trans kept
  · intro x c member t lodged
    have own : c ≠ b := fun same => elsewhere x (same ▸ member)
    have old : t ∈ (a.setShelf sh (b :: rest)).tenants c := by
      simpa [Arena.setShelf,Arena.ppUtRelease,Function.update_of_ne own] using lodged
    apply sound.lets x c ?_ t old
    by_cases here : x = sh
    · subst here
      rw [setShelf_shelves] at member ⊢
      exact List.mem_cons_of_mem b member
    · rw [setShelf_other _ here] at member ⊢
      exact member
  · intro c current
    have stale : a.cur = some c := current
    rw [idle] at stale
    cases stale

theorem Sound.pputReleaseList (sound : Sound who (a.setShelf sh blocks)) (idle : a.cur = none) :
    Sound who ((a.pputReleaseList blocks).setShelf sh []) := by
  induction blocks generalizing a with
  | nil => exact sound
  | cons b rest ih => exact ih (sound.ppUtRelease idle) idle

structure Serves (sh : Shelf) (a a' : Arena) : Prop where
  list : a'.list = some sh
  others : ∀ x, x ≠ sh → a'.shelves x = a.shelves x

theorem Serves.trans (first : Serves sh a a') (second : Serves sh a' a'') : Serves sh a a'' :=
  ⟨second.list,fun x other => (second.others x other).trans (first.others x other)⟩

theorem extend_serves (a : Arena) (sh : Shelf) (left : Pool) (b : Nat) : Serves sh a (a.extend sh left b) :=
  ⟨rfl,fun _ other => Function.update_of_ne other ..⟩

theorem setShelf_empty (empty : a.shelves sh = []) : a.setShelf sh [] = a := by
  have same : Function.update a.shelves sh [] = a.shelves := by
    rw [← empty]
    exact Function.update_eq_self ..
  rw [setShelf,same]

theorem Sound.pputSpawnBegin (sound : Sound who a) (empty : a.shelves sh = [])
    (begun : a.pputSpawnBegin sh = some a') : Sound who a' ∧ Serves sh a a' := by
  obtain ⟨⟨left,b⟩,got,rfl⟩ := Option.map_eq_some_iff.mp begun
  rw [setShelf_empty empty]
  refine ⟨sound.extend got ?_,extend_serves ..⟩
  rw [empty]
  decide

theorem Sound.allocAndRetype (sound : Sound who a) (serving : a.list = some sh) (r : Retype) :
    Sound who (a.allocAndRetype (who sh) r).1 ∧ Serves sh a (a.allocAndRetype (who sh) r).1 := by
  have same : Sound who a ∧ Serves sh a a := ⟨sound,serving,fun _ _ => rfl⟩
  unfold Arena.allocAndRetype
  split
  · exact same
  · rename_i ut current
    obtain ⟨x,listed,member⟩ := sound.active ut current
    obtain rfl : sh = x := by simpa [serving] using listed
    split
    · exact ⟨sound.charge member,serving,fun _ _ => rfl⟩
    · rw [serving]
      dsimp only
      split
      · rename_i short
        split
        · exact same
        · rename_i left nut got
          have grown := sound.extend got short
          split
          · have kept := extend_serves a sh left nut
            refine ⟨grown.charge ?_,kept.list,kept.others⟩
            simp [Arena.extend]
          · exact ⟨grown,extend_serves ..⟩
      · exact same

theorem Sound.retypes (sound : Sound who a) (serving : a.list = some sh) (rs : List Retype) :
    Sound who (a.retypes (who sh) rs) ∧ Serves sh a (a.retypes (who sh) rs) := by
  induction rs generalizing a with
  | nil => exact ⟨sound,serving,fun _ _ => rfl⟩
  | cons r rest ih =>
    obtain ⟨next,kept⟩ := sound.allocAndRetype serving r
    rw [Arena.retypes]
    split
    · obtain ⟨last,kept'⟩ := ih next kept.list
      exact ⟨last,kept.trans kept'⟩
    · exact ⟨next,kept⟩

/-- With no active block every object comes from the master pool. -/
theorem retypes_idle (idle : a.cur = none) (t : Tenant) (rs : List Retype) : a.retypes t rs = a := by
  induction rs with
  | nil => rfl
  | cons r rest ih =>
    have same : a.allocAndRetype t r = (a,r.fits) := by simp [Arena.allocAndRetype,idle]
    rw [Arena.retypes,same]
    dsimp only
    rw [ih,ite_self]

theorem Sound.pputProcBegin (sound : Sound who a) (i : Fin maxProcesses) : Sound who (a.pputProcBegin i) := by
  unfold Arena.pputProcBegin
  split
  · exact sound
  · rename_i last found
    refine { sound with active := ?_ }
    intro b current
    obtain rfl : last = b := by simpa using current
    exact ⟨.record i,rfl,List.mem_of_getLast? found⟩

theorem Sound.pputEnd (sound : Sound who a) : Sound who a.pputEnd :=
  { sound with active := fun _ current => nomatch current }

theorem Sound.hand (sound : Sound who a) (idle : a.cur = none) (apart : sh' ≠ sh) (empty : a.shelves sh' = [])
    (whom : who sh' = who sh) : Sound who ((a.setShelf sh' (a.shelves sh)).setShelf sh []) := by
  have balance : ∀ b, ((a.setShelf sh' (a.shelves sh)).setShelf sh []).tally b = a.tally b := by
    intro b
    have placed := sum_update a.shelves sh' (a.shelves sh) b
    have emptied := sum_update (Function.update a.shelves sh' (a.shelves sh)) sh [] b
    rw [Function.update_of_ne apart.symm,List.count_nil] at emptied
    rw [empty,List.count_nil] at placed
    simp only [Arena.tally,Arena.setShelf]
    omega
  have held : ∀ x b, b ∈ ((a.setShelf sh' (a.shelves sh)).setShelf sh []).shelves x →
      x = sh' ∧ b ∈ a.shelves sh ∨ b ∈ a.shelves x := by
    intro x b member
    by_cases source : x = sh
    · subst source
      rw [setShelf_shelves] at member
      cases member
    · rw [setShelf_other _ source] at member
      by_cases target : x = sh'
      · subst target
        rw [setShelf_shelves] at member
        exact .inl ⟨rfl,member⟩
      · rw [setShelf_other _ target] at member
        exact .inr member
  refine ⟨fun b low => (balance b).trans (sound.once b low),fun b high => (balance b).trans (sound.fresh b high),?_,
    sound.vacant,?_,?_⟩
  · intro x
    by_cases source : x = sh
    · subst source
      rw [setShelf_shelves]
      exact Nat.zero_le _
    · rw [setShelf_other _ source]
      by_cases target : x = sh'
      · subst target
        rw [setShelf_shelves]
        exact sound.room sh
      · rw [setShelf_other _ target]
        exact sound.room x
  · intro x b member t lodged
    rcases held x b member with ⟨rfl,there⟩ | there
    · rw [whom]
      exact sound.lets sh b there t lodged
    · exact sound.lets x b there t lodged
  · intro b current
    have stale : a.cur = some b := current
    rw [idle] at stale
    cases stale

/-- Releasing a whole array empties it and touches no other. -/
theorem releaseList_shelves (a : Arena) (blocks : List Nat) : (a.pputReleaseList blocks).shelves = a.shelves := by
  induction blocks generalizing a with
  | nil => rfl
  | cons b rest ih => exact ih (a.ppUtRelease b)

theorem releaseList_idle (a : Arena) (blocks : List Nat) :
    (a.pputReleaseList blocks).cur = a.cur ∧ (a.pputReleaseList blocks).list = a.list := by
  induction blocks generalizing a with
  | nil => exact ⟨rfl,rfl⟩
  | cons b rest ih => exact ih (a.ppUtRelease b)

end Arena

end Qsoe.Taskman
