import Mathlib.Data.BitVec
import Mathlib.Data.List.Pairwise
import Qsoe.Rsrc.Database

/-! What the pool and list helpers of `rsrcdb.c` do to the lists. Each helper moves one entry
between the pool, a class list and nowhere, whatever the order of the lists (`Threaded`), and class lists
that are sorted stay so (`Sound`). -/
namespace Qsoe.Rsrc

open Linked

variable {k : Consts} {db db' : Database} {lists lists' : Option Place → List Index} {e i j : Index} {c : Nat}

def Entry.Apart (x y : Entry) : Prop := x.stop < y.start ∨ y.stop < x.start

/-- The list `xs` holds proper ranges of class `c`, each before the next. -/
structure Sorted (k : Consts) (entries : Index → Entry) (c : Nat) (xs : List Index) : Prop where
  cls : ∀ i ∈ xs, (entries i).cls = c ∧ c < k.typeCount
  proper : ∀ i ∈ xs, (entries i).start ≤ (entries i).stop
  order : xs.Pairwise fun i j => (entries i).stop < (entries j).start

namespace Sorted

variable {entries entries' : Index → Entry} {xs ys pre post : List Index}

theorem nil : Sorted k entries c [] := ⟨by simp,by simp,.nil⟩

theorem congr (sorted : Sorted k entries c xs) (same : ∀ i ∈ xs, entries' i = entries i) :
    Sorted k entries' c xs where
  cls i member := same i member ▸ sorted.cls i member
  proper i member := same i member ▸ sorted.proper i member
  order := by
    apply sorted.order.imp_of_mem
    intro i j here there before
    rwa [same i here,same j there]

theorem sublist (sorted : Sorted k entries c xs) (sub : ys.Sublist xs) : Sorted k entries c ys where
  cls i member := sorted.cls i (sub.subset member)
  proper i member := sorted.proper i (sub.subset member)
  order := sorted.order.sublist sub

theorem apart (sorted : Sorted k entries c xs) (here : i ∈ xs) (there : j ∈ xs) (different : i ≠ j) :
    (entries i).Apart (entries j) := by
  have pairs : xs.Pairwise fun i j => (entries i).Apart (entries j) := sorted.order.imp fun before => .inl before
  have : Std.Symm fun i j => (entries i).Apart (entries j) := ⟨fun _ _ => Or.symm⟩
  exact pairs.forall here there different

/-- An insertion in front of the first range that does not start earlier. -/
theorem insert (sorted : Sorted k entries c (pre ++ post)) (cls : (entries i).cls = c) (known : c < k.typeCount)
    (proper : (entries i).start ≤ (entries i).stop)
    (free : ∀ j ∈ pre ++ post, (entries i).Apart (entries j))
    (before : ∀ j ∈ pre, (entries j).start < (entries i).start)
    (after : ∀ j ∈ post.head?, ¬ (entries j).start < (entries i).start) :
    Sorted k entries c (pre ++ i :: post) := by
  obtain ⟨first,second,across⟩ := List.pairwise_append.mp sorted.order
  have low : ∀ j ∈ pre, (entries j).stop < (entries i).start := by
    intro j member
    have starts := before j member
    have inside := List.mem_append_left post member
    rcases free j inside with wrong | right
    · bv_omega
    · exact right
  have high : ∀ j ∈ post, (entries i).stop < (entries j).start := by
    cases post with
    | nil => simp
    | cons h rest =>
      have starts := after h rfl
      have least : (entries i).stop < (entries h).start := by
        have inside : h ∈ pre ++ h :: rest := by simp
        have range := sorted.proper h inside
        rcases free h inside with right | wrong
        · exact right
        · bv_omega
      intro j member
      rcases List.mem_cons.mp member with rfl | later
      · exact least
      · have range := sorted.proper h (by simp)
        have next := (List.pairwise_cons.mp second).1 j later
        bv_omega
  refine ⟨?_,?_,?_⟩
  · intro j member
    rcases List.mem_append.mp member with inside | inside
    · exact sorted.cls j (List.mem_append_left _ inside)
    · rcases List.mem_cons.mp inside with rfl | later
      · exact ⟨cls,known⟩
      · exact sorted.cls j (List.mem_append_right _ later)
  · intro j member
    rcases List.mem_append.mp member with inside | inside
    · exact sorted.proper j (List.mem_append_left _ inside)
    · rcases List.mem_cons.mp inside with rfl | later
      · exact proper
      · exact sorted.proper j (List.mem_append_right _ later)
  · refine List.pairwise_append.mpr ⟨first,List.pairwise_cons.mpr ⟨high,second⟩,?_⟩
    intro a inPre b inPost
    rcases List.mem_cons.mp inPost with rfl | later
    · exact low a inPre
    · exact across a inPre b later

theorem shrink (sorted : Sorted k entries c xs) (proper : (entries e).start ≤ stop)
    (less : stop ≤ (entries e).stop) :
    Sorted k (Function.update entries e { entries e with stop := stop }) c xs := by
  have start : ∀ j, (Function.update entries e { entries e with stop := stop } j).start = (entries j).start := by
    intro j
    by_cases same : j = e
    · subst same
      simp
    · simp [same]
  have stops : ∀ j, (Function.update entries e { entries e with stop := stop } j).stop ≤ (entries j).stop := by
    intro j
    by_cases same : j = e
    · subst same
      simpa using less
    · simp [same]
  refine ⟨?_,?_,?_⟩
  · intro j member
    by_cases same : j = e
    · subst same
      simpa using sorted.cls j member
    · simpa [same] using sorted.cls j member
  · intro j member
    by_cases same : j = e
    · subst same
      simpa using proper
    · simpa [same] using sorted.proper j member
  · apply sorted.order.imp
    intro a b before
    rw [start b]
    have less := stops a
    bv_omega

theorem absorb (sorted : Sorted k entries c (pre ++ e :: i :: post)) (once : (pre ++ e :: i :: post).Nodup) :
    Sorted k (Function.update entries e { entries e with stop := (entries i).stop }) c (pre ++ e :: post) := by
  obtain ⟨first,second,across⟩ := List.pairwise_append.mp sorted.order
  obtain ⟨third,rest⟩ := List.pairwise_cons.mp second
  obtain ⟨fourth,last⟩ := List.pairwise_cons.mp rest
  have notPre : ∀ j ∈ pre, j ≠ e := by
    rintro j member rfl
    exact List.disjoint_of_nodup_append once member List.mem_cons_self
  have notPost : ∀ j ∈ post, j ≠ e := by
    rintro j member rfl
    exact (List.nodup_cons.mp (List.nodup_append.mp once).2.1).1 (List.mem_cons_of_mem i member)
  have members : ∀ j ∈ pre ++ e :: post, j = e ∨ (j ≠ e ∧ j ∈ pre ++ e :: i :: post) := by
    intro j member
    by_cases same : j = e
    · exact .inl same
    · refine .inr ⟨same,?_⟩
      simp only [List.mem_append,List.mem_cons] at member ⊢
      grind
  refine ⟨?_,?_,?_⟩
  · intro j member
    rcases members j member with rfl | ⟨other,inside⟩
    · simpa using sorted.cls j (by simp)
    · simpa [other] using sorted.cls j inside
  · intro j member
    rcases members j member with rfl | ⟨other,inside⟩
    · have own := sorted.proper j (by simp)
      have next := sorted.proper i (by simp)
      have between := third i List.mem_cons_self
      simp only [Function.update_self]
      bv_omega
    · simpa [other] using sorted.proper j inside
  · refine List.pairwise_append.mpr ⟨?_,List.pairwise_cons.mpr ⟨?_,?_⟩,?_⟩
    · apply first.imp_of_mem
      intro a b inPre inPre' before
      simpa [notPre a inPre,notPre b inPre'] using before
    · intro b inPost
      simpa [notPost b inPost] using fourth b inPost
    · apply last.imp_of_mem
      intro a b inPost inPost' before
      simpa [notPost a inPost,notPost b inPost'] using before
    · intro a inPre b inside
      rcases List.mem_cons.mp inside with rfl | later
      · simpa [notPre a inPre] using across a inPre b List.mem_cons_self
      · have before := across a inPre b (List.mem_cons_of_mem _ (List.mem_cons_of_mem _ later))
        simpa [notPre a inPre,notPost b later] using before

end Sorted

/-- The lists hold entries of their class, with any ranges in any order. -/
structure Threaded (k : Consts) (db : Database) (lists : Option Place → List Index) : Prop where
  shape : Shape db.next db.root lists
  cls : ∀ c, ∀ i ∈ lists (some (.listed c)), (db.entries i).cls = c ∧ c < k.typeCount

namespace Threaded

open Database

variable {pre post rest : List Index}

theorem once (threaded : Threaded k db lists) (split : lists (some (.listed c)) = pre ++ post) :
    (pre ++ post).Nodup :=
  split ▸ (threaded.shape.chain (.listed c)).nodup

theorem away (threaded : Threaded k db lists) (loose : i ∈ lists none) (c : Nat) : i ∉ lists (some (.listed c)) :=
  fun member => absurd (threaded.shape.apart loose member) (by simp)

theorem unlisted (threaded : Threaded k db lists) (pooled : i ∈ lists (some .pool)) (c : Nat) :
    i ∉ lists (some (.listed c)) :=
  fun member => absurd (threaded.shape.apart pooled member) (by simp)

theorem other (threaded : Threaded k db lists) (loose : i ∈ lists none)
    (member : j ∈ lists (some (.listed c))) : j ≠ i := by
  rintro rfl
  exact threaded.away loose c member

theorem other_class (threaded : Threaded k db lists) (here : i ∈ lists (some (.listed c))) (different : d ≠ c)
    (there : j ∈ lists (some (.listed d))) : j ≠ i := by
  rintro rfl
  exact different (by simpa using threaded.shape.apart there here)

theorem filter_none (threaded : Threaded k db lists) (member : i ∈ lists (some (.listed c))) :
    (i :: lists none).filter (· ≠ i) = lists none := by
  rw [List.filter_cons_of_neg (by simp),List.filter_eq_self]
  intro j loose
  simpa using (threaded.other loose member).symm

/-- An entry that stays in its class, or is on no list, may be rewritten. -/
theorem setEntry (threaded : Threaded k db lists) (x : Entry)
    (same : (∀ c, i ∉ lists (some (.listed c))) ∨ x.cls = (db.entries i).cls) : Threaded k
      (db.setEntry i x) lists where
  shape := threaded.shape
  cls c j member := by
    have before := threaded.cls c j member
    rw [setEntry_entries]
    by_cases here : j = i
    · subst here
      rw [Function.update_self]
      rcases same with off | kept
      · exact absurd member (off c)
      · rwa [kept]
    · rwa [Function.update_of_ne here]

theorem walk (threaded : Threaded k db lists) (c : Nat) (stop : Index → Bool) :
    ∃ pre post, lists (some (.listed c)) = pre ++ post ∧ (∀ i ∈ pre, stop i = false) ∧
      (∀ i ∈ post.head?, stop i = true) ∧ db.walk c stop = some (pre.getLast?,post.head?) := by
  have chain := threaded.shape.chain (.listed c)
  have short : (lists (some (.listed c))).length ≤ poolSize := by simpa using chain.length_le
  obtain ⟨pre,post,split,passed,stopped,found⟩ := chain.seek stop none short
  exact ⟨pre,post,split,passed,stopped,by simpa [Database.walk] using found⟩

/-- A walk finds the first entry that stops it. -/
theorem walk_find (threaded : Threaded k db lists) (c : Nat) (stop : Index → Bool) :
    ∃ prev, db.walk c stop = some (prev,(lists (some (.listed c))).find? stop) := by
  obtain ⟨pre,post,split,passed,stopped,found⟩ := threaded.walk c stop
  have missed : pre.find? stop = none := List.find?_eq_none.mpr fun i inside => by simp [passed i inside]
  refine ⟨pre.getLast?,?_⟩
  rw [found,split,List.find?_append,missed,Option.none_or]
  cases post with
  | nil => rfl
  | cons h post => rw [List.find?_cons_of_pos (stopped h rfl),List.head?_cons]

theorem walk_to (threaded : Threaded k db lists) (split : lists (some (.listed c)) = pre ++ e :: post) :
    db.walk c (· == e) = some (pre.getLast?,some e) := by
  obtain ⟨pre',post',split',passed,stopped,found⟩ := threaded.walk c (· == e)
  have once := threaded.once split
  rw [split] at split'
  cases post' with
  | nil =>
    have absent := passed e (by rw [List.append_nil] at split'; simp [← split'])
    simp at absent
  | cons h post' =>
    obtain rfl : h = e := by simpa using stopped h rfl
    have notPre : h ∉ pre := fun inside => List.disjoint_of_nodup_append once inside List.mem_cons_self
    have notPost : h ∉ post := (List.nodup_cons.mp (List.nodup_append.mp once).2.1).1
    obtain ⟨rfl,-⟩ := (List.append_cons_inj_of_notMem notPre notPost).mp split'
    exact found

theorem poolAlloc_none (threaded : Threaded k db lists) (empty : lists (some .pool) = []) :
    db.poolAlloc = none := by
  have root := (threaded.shape.chain .pool).head_eq
  simp [Database.poolAlloc,root,empty]

theorem poolAlloc (threaded : Threaded k db lists) (pooled : lists (some .pool) = i :: rest) :
    ∃ db' lists', db.poolAlloc = some (db',i) ∧ Threaded k db' lists' ∧ lists' (some .pool) = rest ∧
      lists' none = i :: lists none ∧ (∀ c, lists' (some (.listed c)) = lists (some (.listed c))) ∧
      db'.entries = Function.update db.entries i .blank := by
  have root := (threaded.shape.chain .pool).head_eq
  rw [pooled] at root
  have front : lists (some .pool) = [] ++ i :: rest := pooled
  have taken := threaded.shape.unlink front
  have here : i ∈ moved lists (some .pool) none ([] ++ rest) (i :: lists none) none := by simp [moved]
  have kept := threaded.setEntry (i := i) .blank (.inl (threaded.unlisted (by simp [pooled])))
  exact ⟨((db.point .pool none (db.next i)).setNext i none).setEntry i .blank,
    moved lists (some .pool) none ([] ++ rest) (i :: lists none),by simp [Database.poolAlloc,root],
    ⟨taken.scratch here none,fun c j member => kept.cls c j (by simpa [moved] using member)⟩,
    by simp [moved],by simp [moved],by simp [moved],rfl⟩

theorem pooled_of_alloc (threaded : Threaded k db lists) (allocated : db.poolAlloc = some (db',i)) :
    ∃ rest, lists (some .pool) = i :: rest := by
  cases pooled : lists (some .pool) with
  | nil => cases (threaded.poolAlloc_none pooled).symm.trans allocated
  | cons h rest =>
    obtain ⟨db₁,lists₁,taken,-⟩ := threaded.poolAlloc pooled
    obtain ⟨-,rfl⟩ := Prod.mk.inj (Option.some.inj (taken.symm.trans allocated))
    exact ⟨rest,rfl⟩

/-- What is written on an entry of the pool is on no list. -/
theorem update_listed (threaded : Threaded k db lists) (pooled : lists (some .pool) = i :: rest) (x : Entry)
    (member : j ∈ lists (some (.listed c))) : Function.update db.entries i x j = db.entries j := by
  apply Function.update_of_ne
  rintro rfl
  exact threaded.unlisted (by simp [pooled]) c member

theorem poolFree (threaded : Threaded k db lists) (loose : i ∈ lists none) :
    ∃ lists', Threaded k (db.poolFree i) lists' ∧ lists' none = (lists none).filter (· ≠ i) ∧
      lists' (some .pool) = i :: lists (some .pool) ∧ ∀ c, lists' (some (.listed c)) =
        lists (some (.listed c)) := by
  have root := (threaded.shape.chain .pool).head_eq
  have front : lists (some .pool) = [] ++ lists (some .pool) := rfl
  have linked := threaded.shape.link loose front
  refine ⟨moved lists none (some .pool) ((lists none).filter (· ≠ i)) (i :: lists (some .pool)),
    ⟨?_,fun c j member => threaded.cls c j (by simpa [moved] using member)⟩,by simp [moved],by simp [moved],by simp [moved]⟩
  simpa [Database.poolFree,point,setNext,root] using linked

/-- An entry is put behind the ones that start before it. -/
theorem listInsert (threaded : Threaded k db lists) (loose : i ∈ lists none) (cls : (db.entries i).cls = c)
    (known : c < k.typeCount) :
    ∃ db' lists' pre post, db.listInsert k i = some db' ∧ Threaded k db' lists' ∧ db'.entries = db.entries ∧
      lists' none = (lists none).filter (· ≠ i) ∧ lists (some (.listed c)) = pre ++ post ∧
      lists' (some (.listed c)) = pre ++ i :: post ∧ (∀ j ∈ pre, (db.entries j).start < (db.entries i).start) ∧
      (∀ j ∈ post.head?, ¬(db.entries j).start < (db.entries i).start) ∧
      ∀ d ≠ c, lists' (some (.listed d)) = lists (some (.listed d)) := by
  obtain ⟨pre,post,split,passed,stopped,found⟩ :=
    threaded.walk c fun j => !decide ((db.entries j).start < (db.entries i).start)
  have linked := threaded.shape.link (p := .listed c) loose split
  have put : moved lists none (some (.listed c)) ((lists none).filter (· ≠ i)) (pre ++ i :: post)
      (some (.listed c)) = pre ++ i :: post := by simp [moved]
  have rest : ∀ d ≠ c, moved lists none (some (.listed c)) ((lists none).filter (· ≠ i)) (pre ++ i :: post)
      (some (.listed d)) = lists (some (.listed d)) := fun d different => by simp [moved,different]
  refine ⟨(db.setNext i post.head?).point (.listed c) pre.getLast? (some i),
    moved lists none (some (.listed c)) ((lists none).filter (· ≠ i))
      (pre ++ i :: post),pre,post,?_,⟨linked,fun d j member => ?_⟩,
    rfl,by simp [moved],split,put,fun j inside => by simpa using passed j inside,
    fun j inside => by simpa using stopped j inside,rest⟩
  · simp [Database.listInsert,cls,Nat.not_le.mpr known,found]
  · by_cases same : d = c
    · subst same
      rw [put] at member
      by_cases own : j = i
      · subst own
        exact ⟨cls,known⟩
      · refine threaded.cls d j ?_
        rw [split]
        simpa [own] using member
    · rw [rest d same] at member
      exact threaded.cls d j member

/-- An entry taken off its list and given to the pool. -/
theorem listRemove (threaded : Threaded k db lists) (split : lists (some (.listed c)) = pre ++ e :: post) :
    ∃ db' lists', (db.listRemove k e).map (fun db => db.poolFree e) = some db' ∧ Threaded k db' lists' ∧
      db'.entries = db.entries ∧ lists' none = lists none ∧ lists' (some (.listed c)) = pre ++ post ∧
      ∀ d ≠ c, lists' (some (.listed d)) = lists (some (.listed d)) := by
  have member : e ∈ lists (some (.listed c)) := by simp [split]
  obtain ⟨cls,known⟩ := threaded.cls c e member
  have found := threaded.walk_to split
  have taken := threaded.shape.unlink (p := .listed c) split
  have here : e ∈ moved lists (some (.listed c)) none (pre ++ post) (e :: lists none) none := by simp [moved]
  have put : moved lists (some (.listed c)) none (pre ++ post) (e :: lists none) (some (.listed c)) =
    pre ++ post := by
    simp [moved]
  have rest : ∀ d ≠ c, moved lists (some (.listed c)) none (pre ++ post) (e :: lists none) (some (.listed d)) =
      lists (some (.listed d)) := fun d different => by simp [moved,different]
  have removed : Threaded k ((db.point (.listed c) pre.getLast? (db.next e)).setNext e none)
      (moved lists (some (.listed c)) none (pre ++ post) (e :: lists none)) := by
    refine ⟨taken.scratch here none,fun d j inside => ?_⟩
    by_cases same : d = c
    · subst same
      rw [put] at inside
      refine threaded.cls d j ?_
      rw [split]
      simp only [List.mem_append,List.mem_cons] at inside ⊢
      grind
    · rw [rest d same] at inside
      exact threaded.cls d j inside
  obtain ⟨lists',done,loose,-,kept⟩ := removed.poolFree here
  refine ⟨_,lists',?_,done,rfl,?_,by rw [kept,put],fun d different => by rw [kept,rest d different]⟩
  · simp [Database.listRemove,cls,Nat.not_le.mpr known,found]
  · rw [loose]
    exact threaded.filter_none member

/-- Who is listed once `e` is off. -/
theorem mem_removed (threaded : Threaded k db lists) (split : lists (some (.listed c)) = pre ++ e :: post)
    (removed : lists' (some (.listed c)) = pre ++ post) (others : ∀ d ≠ c, lists' (some (.listed d)) =
      lists (some (.listed d)))
    (d : Nat) (j : Index) : j ∈ lists' (some (.listed d)) ↔ j ∈ lists (some (.listed d)) ∧ j ≠ e := by
  by_cases same : d = c
  · subst same
    have once := threaded.once split
    have notPre : e ∉ pre := fun inside => List.disjoint_of_nodup_append once inside List.mem_cons_self
    have notPost : e ∉ post := (List.nodup_cons.mp (List.nodup_append.mp once).2.1).1
    simp only [removed,split,List.mem_append,List.mem_cons]
    constructor
    · rintro (before | after)
      · exact ⟨.inl before,fun is => notPre (is ▸ before)⟩
      · exact ⟨.inr (.inr after),fun is => notPost (is ▸ after)⟩
    · grind
  · rw [others d same]
    exact (and_iff_left_of_imp (threaded.other_class (by simp [split]) same)).symm

/-- The entry `e` takes over its successor `i`. -/
theorem absorb (threaded : Threaded k db lists) (split : lists (some (.listed c)) = pre ++ e :: i :: post) :
    ∃ lists', Threaded k (db.absorb e i) lists' ∧ lists' none = lists none ∧ lists' (some (.listed c)) =
      pre ++ e :: post ∧
      (∀ d ≠ c, lists' (some (.listed d)) = lists (some (.listed d))) ∧
      (db.absorb e i).entries = Function.update db.entries e { db.entries e with stop := (db.entries i).stop } := by
  have grown := threaded.setEntry (i := e) { db.entries e with stop := (db.entries i).stop } (.inr rfl)
  have split' : lists (some (.listed c)) = (pre ++ [e]) ++ i :: post := by simp [split]
  have taken := grown.shape.unlink split'
  have inside : i ∈ lists (some (.listed c)) := by simp [split]
  have here : i ∈ moved lists (some (.listed c)) none (pre ++ [e] ++ post) (i :: lists none) none := by simp [moved]
  have members : ∀ d j, j ∈ moved lists (some (.listed c)) none (pre ++ [e] ++ post) (i :: lists none)
    (some (.listed d)) →
      j ∈ lists (some (.listed d)) := by
    intro d j member
    by_cases same : d = c
    · subst same
      rw [split']
      simp only [moved,reduceCtorEq,ne_eq,not_false_eq_true,Function.update_of_ne,Function.update_self,
        List.mem_append,List.mem_cons] at member ⊢
      grind
    · simpa [moved,same] using member
  have cut : Threaded k ((db.setStop e (db.entries i).stop).setNext e (db.next i))
      (moved lists (some (.listed c)) none (pre ++ [e] ++ post) (i :: lists none)) := by
    refine ⟨?_,fun d j member => grown.cls d j (members d j member)⟩
    have last : (pre ++ [e]).getLast? = some e := by simp
    rw [last] at taken
    simpa [aim,aimRoot,setStop,setNext,Database.setEntry] using taken
  obtain ⟨lists',done,loose,-,kept⟩ := cut.poolFree here
  refine ⟨lists',done,?_,?_,fun d different => ?_,rfl⟩
  · rw [loose]
    exact threaded.filter_none inside
  · rw [kept]
    simp [moved]
  · rw [kept]
    simp [moved,different]

end Threaded

/-- The lists of the database, with the entries on none of them under `none`. -/
structure Sound (k : Consts) (db : Database) (lists : Option Place → List Index) : Prop where
  shape : Shape db.next db.root lists
  sorted : ∀ c, Sorted k db.entries c (lists (some (.listed c)))

namespace Sound

open Database

theorem threaded (sound : Sound k db lists) : Threaded k db lists := ⟨sound.shape,fun c => (sound.sorted c).cls⟩

theorem setEntry (sound : Sound k db lists) (away : ∀ c, i ∉ lists (some (.listed c))) (x : Entry) :
    Sound k (db.setEntry i x) lists where
  shape := sound.shape
  sorted c := (sound.sorted c).congr fun j member => by
    have other : j ≠ i := by
      rintro rfl
      exact away c member
    exact Function.update_of_ne other _ _

theorem poolFree (sound : Sound k db lists) (loose : i ∈ lists none) :
    ∃ lists', Sound k (db.poolFree i) lists' ∧ (∀ j, j ∈ lists' none ↔ j ∈ lists none ∧ j ≠ i) ∧
      ∀ c, lists' (some (.listed c)) = lists (some (.listed c)) := by
  obtain ⟨lists',threaded,loose',-,listed⟩ := sound.threaded.poolFree loose
  refine ⟨lists',⟨threaded.shape,fun c => ?_⟩,by simp [loose'],listed⟩
  rw [listed]
  exact sound.sorted c

theorem listInsert (sound : Sound k db lists) (loose : i ∈ lists none) (cls : (db.entries i).cls = c)
    (known : c < k.typeCount) (proper : (db.entries i).start ≤ (db.entries i).stop)
    (free : ∀ j ∈ lists (some (.listed c)), (db.entries i).Apart (db.entries j)) :
    ∃ db' lists', db.listInsert k i = some db' ∧ Sound k db' lists' ∧ db'.entries = db.entries ∧
      (∀ j, j ∈ lists' none ↔ j ∈ lists none ∧ j ≠ i) ∧
      ∀ d j, j ∈ lists' (some (.listed d)) ↔ j ∈ lists (some (.listed d)) ∨ (d = c ∧ j = i) := by
  obtain ⟨db',lists',pre,post,inserted,threaded,entries,loose',split,put,before,after,rest⟩ :=
    sound.threaded.listInsert loose cls known
  refine ⟨db',lists',inserted,⟨threaded.shape,fun d => ?_⟩,entries,by simp [loose'],fun d j => ?_⟩
  · rw [entries]
    by_cases same : d = c
    · subst same
      have sorted := sound.sorted d
      rw [split] at sorted free
      rw [put]
      exact sorted.insert cls known proper free before after
    · rw [rest d same]
      exact sound.sorted d
  · by_cases same : d = c
    · subst same
      simp only [put,split,List.mem_append,List.mem_cons]
      grind
    · simp [rest d same,same]

/-- An entry taken off its list and given to the pool. -/
theorem listRemove (sound : Sound k db lists) (member : e ∈ lists (some (.listed c))) :
    ∃ db' lists', (db.listRemove k e).map (fun db => db.poolFree e) = some db' ∧ Sound k db' lists' ∧
      db'.entries = db.entries ∧ (∀ j, j ∈ lists' none ↔ j ∈ lists none) ∧
      ∀ d j, j ∈ lists' (some (.listed d)) ↔ j ∈ lists (some (.listed d)) ∧ j ≠ e := by
  obtain ⟨pre,post,split⟩ := List.append_of_mem member
  obtain ⟨db',lists',done,threaded,entries,loose,removed,others⟩ := sound.threaded.listRemove split
  refine ⟨db',lists',done,⟨threaded.shape,fun d => ?_⟩,entries,fun j => by rw [loose],
    sound.threaded.mem_removed split removed others⟩
  rw [entries]
  by_cases same : d = c
  · subst same
    have sorted := sound.sorted d
    rw [split] at sorted
    rw [removed]
    exact sorted.sublist (by simp)
  · rw [others d same]
    exact sound.sorted d

/-- The entry `e` takes over its successor `i`. -/
theorem absorb (sound : Sound k db lists) (split : lists (some (.listed c)) = pre ++ e :: i :: post) :
    ∃ lists', Sound k (db.absorb e i) lists' ∧ (∀ j, j ∈ lists' none ↔ j ∈ lists none) ∧
      lists' (some (.listed c)) = pre ++ e :: post ∧
      (∀ d ≠ c, lists' (some (.listed d)) = lists (some (.listed d))) ∧
      (db.absorb e i).entries = Function.update db.entries e { db.entries e with stop := (db.entries i).stop } := by
  obtain ⟨lists',threaded,loose,kept,others,entries⟩ := sound.threaded.absorb split
  refine ⟨lists',⟨threaded.shape,fun d => ?_⟩,fun j => by rw [loose],kept,others,entries⟩
  rw [entries]
  by_cases same : d = c
  · subst same
    have sorted := sound.sorted d
    rw [split] at sorted
    rw [kept]
    exact sorted.absorb (sound.threaded.once split)
  · rw [others d same]
    exact (sound.sorted d).congr fun j member =>
      Function.update_of_ne (sound.threaded.other_class (by simp [split]) same member) _ _

end Sound

end Qsoe.Rsrc
