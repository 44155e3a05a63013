import Qsoe.Rsrc.Requests

/-! Who owns what, whatever the requests ask for. Ranges that are empty, overlap or run past the top
leave no order on the lists, but still every entry on one list: enough for what a process owns to be out
of reach of another one, unless it is named in a destroy, which asks for no owner. -/
namespace Qsoe.Rsrc

open Linked Database

/-- What neither process `a` nor nobody owns is on the lists as before. -/
structure Spares (a : BitVec 32) (db : Database) (lists : Option Place → List Index) (db' : Database)
    (lists' : Option Place → List Index) : Prop where
  keeps : ∀ c j, j ∈ lists (some (.listed c)) → (db.entries j).owner ≠ 0 → (db.entries j).owner ≠ a →
    j ∈ lists' (some (.listed c)) ∧ db'.entries j = db.entries j
  gains : ∀ c j, j ∈ lists' (some (.listed c)) → (db'.entries j).owner ≠ 0 → (db'.entries j).owner ≠ a →
    j ∈ lists (some (.listed c)) ∧ db'.entries j = db.entries j

variable {k : Consts} {db db' db₁ db₂ : Database} {lists lists' lists₁ lists₂ : Option Place → List Index}
    {a : BitVec 32} {e i j : Index}
  {c : Nat} {pre post : List Index}

namespace Spares

theorem refl (a : BitVec 32) (db : Database) (lists : Option Place → List Index) : Spares a db lists db lists :=
  ⟨fun _ _ member _ _ => ⟨member,rfl⟩,fun _ _ member _ _ => ⟨member,rfl⟩⟩

theorem trans (first : Spares a db lists db₁ lists₁) (second : Spares a db₁ lists₁ db₂ lists₂) :
    Spares a db lists db₂ lists₂ where
  keeps c j member used other := by
    obtain ⟨there,same⟩ := first.keeps c j member used other
    obtain ⟨last,same'⟩ := second.keeps c j there (same ▸ used) (same ▸ other)
    exact ⟨last,same'.trans same⟩
  gains c j member used other := by
    obtain ⟨there,same⟩ := second.gains c j member used other
    obtain ⟨first,same'⟩ := first.gains c j there (same ▸ used) (same ▸ other)
    exact ⟨first,same.trans same'⟩

theorem weaken (spares : Spares 0 db lists db' lists') : Spares a db lists db' lists' :=
  ⟨fun c j member used _ => spares.keeps c j member used used,fun c j member used _ =>
    spares.gains c j member used used⟩

/-- Only entries of `a` or nobody move or change. -/
theorem of_others (moved : Index → Prop)
    (before : ∀ j, moved j → ∀ c, j ∈ lists (some (.listed c)) → (db.entries j).owner = 0 ∨
      (db.entries j).owner = a)
    (after : ∀ j, moved j → ∀ c, j ∈ lists' (some (.listed c)) → (db'.entries j).owner = 0 ∨
      (db'.entries j).owner = a)
    (members : ∀ j, ¬moved j → ∀ c, j ∈ lists' (some (.listed c)) ↔ j ∈ lists (some (.listed c)))
    (entries : ∀ j, ¬moved j → ∀ c, j ∈ lists (some (.listed c)) → db'.entries j = db.entries j) :
      Spares a db lists db' lists' where
  keeps c j member used other := by
    have still : ¬moved j := fun touched => (before j touched c member).elim used other
    exact ⟨(members j still c).mpr member,entries j still c member⟩
  gains c j member used other := by
    have still : ¬moved j := fun touched => (after j touched c member).elim used other
    have there := (members j still c).mp member
    exact ⟨there,entries j still c there⟩

end Spares

namespace Threaded

theorem absorb_spares (threaded : Threaded k db lists) (split : lists (some (.listed c)) = pre ++ e :: i :: post)
    (free : (db.entries e).owner = 0) (free' : (db.entries i).owner = 0) :
    ∃ lists', Threaded k (db.absorb e i) lists' ∧ lists' none = lists none ∧ lists' (some (.listed c)) =
      pre ++ e :: post ∧
      Spares 0 db lists (db.absorb e i) lists' ∧ ∀ j, ((db.absorb e i).entries j).owner = (db.entries j).owner := by
  obtain ⟨lists',done,loose,there,others,entries⟩ := threaded.absorb split
  have owners : ∀ j, ((db.absorb e i).entries j).owner = (db.entries j).owner := by
    intro j
    rw [entries]
    by_cases same : j = e
    · subst same
      rw [Function.update_self]
    · rw [Function.update_of_ne same]
  have frees : ∀ j, j = e ∨ j = i → (db.entries j).owner = 0 := by
    rintro j (rfl | rfl)
    · exact free
    · exact free'
  refine ⟨lists',done,loose,there,?_,owners⟩
  refine Spares.of_others (fun j => j = e ∨ j = i) (fun j touched _ _ => .inl (frees j touched))
    (fun j touched _ _ => .inl ((owners j).trans (frees j touched))) (fun j still d => ?_) fun j still d _ => ?_
  · obtain ⟨notE,notI⟩ := not_or.mp still
    by_cases same : d = c
    · subst same
      rw [there,split]
      simp [notE,notI]
    · rw [others d same]
  · rw [entries]
    exact Function.update_of_ne (not_or.mp still).1 _ _

theorem mergeRight (threaded : Threaded k db lists) (split : lists (some (.listed c)) = pre ++ e :: post)
    (free : (db.entries e).owner = 0) :
    ∃ lists' post', Threaded k (db.mergeRight e) lists' ∧ lists' none = lists none ∧ lists' (some (.listed c)) =
      pre ++ e :: post' ∧
      Spares 0 db lists (db.mergeRight e) lists' ∧ ∀ j, ((db.mergeRight e).entries j).owner =
        (db.entries j).owner := by
  have chain := threaded.shape.chain (.listed c)
  rw [split] at chain
  obtain ⟨mid,-,tail⟩ := chain.drop
  have next := tail.head_eq
  unfold Database.mergeRight
  cases post with
  | nil =>
    rw [next]
    exact ⟨lists,[],threaded,rfl,split,.refl 0 db lists,fun _ => rfl⟩
  | cons r post =>
    rw [next]
    dsimp only [List.head?_cons]
    split
    · rename_i fits
      obtain ⟨lists',merged⟩ := threaded.absorb_spares split free fits.1
      exact ⟨lists',post,merged⟩
    · exact ⟨lists,r :: post,threaded,rfl,split,.refl 0 db lists,fun _ => rfl⟩

theorem mergeLeft (threaded : Threaded k db lists) (split : lists (some (.listed c)) = pre ++ e :: post)
    (free : (db.entries e).owner = 0) :
    ∃ lists', Threaded k (db.mergeLeft pre.getLast? e) lists' ∧ lists' none = lists none ∧
      Spares 0 db lists (db.mergeLeft pre.getLast? e) lists' ∧
        ∀ j, ((db.mergeLeft pre.getLast? e).entries j).owner = (db.entries j).owner := by
  unfold Database.mergeLeft
  rcases List.eq_nil_or_concat pre with rfl | ⟨before,p,rfl⟩
  · exact ⟨lists,threaded,rfl,.refl 0 db lists,fun _ => rfl⟩
  · rw [List.concat_eq_append,List.getLast?_append_cons,List.getLast?_singleton]
    dsimp only
    split
    · rename_i fits
      have split' : lists (some (.listed c)) = before ++ p :: e :: post := by simp [split]
      obtain ⟨lists',merged,loose,-,spares,owners⟩ := threaded.absorb_spares split' fits.1 free
      exact ⟨lists',merged,loose,spares,owners⟩
    · exact ⟨lists,threaded,rfl,.refl 0 db lists,fun _ => rfl⟩

theorem mergeNeighbours (threaded : Threaded k db lists) (member : e ∈ lists (some (.listed c)))
    (free : (db.entries e).owner = 0) :
    ∃ db' lists', db.mergeNeighbours e = some db' ∧ Threaded k db' lists' ∧ lists' none = lists none ∧
      Spares 0 db lists db' lists' := by
  obtain ⟨pre,post,split⟩ := List.append_of_mem member
  have found := threaded.walk_to split
  obtain ⟨cls,-⟩ := threaded.cls c e member
  obtain ⟨lists₁,post₁,right,loose₁,split₁,spares₁,owners₁⟩ := threaded.mergeRight split free
  obtain ⟨lists₂,left,loose₂,spares₂,-⟩ := right.mergeLeft split₁ ((owners₁ e).trans free)
  refine ⟨(db.mergeRight e).mergeLeft pre.getLast? e,lists₂,?_,left,loose₂.trans loose₁,spares₁.trans spares₂⟩
  simp [Database.mergeNeighbours,cls,found]

/-- An entry of `a` is made free and merged. -/
theorem disown (threaded : Threaded k db lists) (member : e ∈ lists (some (.listed c)))
    (own : (db.entries e).owner = a) (flags : BitVec 16) :
    ∃ db' lists', (db.setEntry e { db.entries e with owner := 0, flags := flags }).mergeNeighbours e = some db' ∧
      Threaded k db' lists' ∧ lists' none = lists none ∧ Spares a db lists db' lists' ∧
        Spares 0 (db.setEntry e { db.entries e with owner := 0, flags := flags }) lists db' lists' := by
  have given := threaded.setEntry (i := e) { db.entries e with owner := 0, flags := flags } (.inr rfl)
  obtain ⟨db',lists',merged,done,loose,spares⟩ := given.mergeNeighbours member
    (by rw [setEntry_entries,Function.update_self])
  have first : Spares a db lists (db.setEntry e { db.entries e with owner := 0, flags := flags }) lists := by
    refine Spares.of_others (· = e) ?_ ?_ (fun _ _ _ => Iff.rfl) fun j still _ _ => Function.update_of_ne still _ _
    · rintro j rfl _ _
      exact .inr own
    · rintro j rfl _ _
      rw [setEntry_entries,Function.update_self]
      exact .inl rfl
  exact ⟨db',lists',merged,done,loose,first.trans spares.weaken,spares⟩

/-- What was granted in a batch is given back, and nothing else. -/
theorem rollback (threaded : Threaded k db lists) (once : granted.Nodup) (real : a ≠ 0)
    (used : ∀ g ∈ granted, (db.entries g).owner = a ∧ ∃ c, g ∈ lists (some (.listed c))) :
    ∃ db' lists', db.rollback granted = some db' ∧ Threaded k db' lists' ∧ lists' none = lists none ∧
      Spares a db lists db' lists' := by
  induction granted generalizing db lists with
  | nil => exact ⟨db,lists,rfl,threaded,rfl,.refl a db lists⟩
  | cons g gs ih =>
    obtain ⟨absent,rest⟩ := List.nodup_cons.mp once
    obtain ⟨own,c,member⟩ := used g List.mem_cons_self
    obtain ⟨db₁,lists₁,merged,done,loose,first,kept⟩ := threaded.disown member own (db.entries g).flags
    have later : ∀ j ∈ gs, (db₁.entries j).owner = a ∧ ∃ c, j ∈ lists₁ (some (.listed c)) := by
      intro j after
      have other : j ≠ g := fun same => absent (same ▸ after)
      obtain ⟨owned,d,listed⟩ := used j (List.mem_cons_of_mem g after)
      have still : (db.setEntry g { db.entries g with owner := 0, flags := (db.entries g).flags }).entries j =
        db.entries j :=
        Function.update_of_ne other _ _
      have nonzero : (db.entries j).owner ≠ 0 := by rwa [owned]
      obtain ⟨there,same⟩ := kept.keeps d j listed (by rwa [still]) (by rwa [still])
      rw [same,still]
      exact ⟨owned,d,there⟩
    obtain ⟨db₂,lists₂,rolled,last,loose₂,second⟩ := ih done rest later
    refine ⟨db₂,lists₂,?_,last,loose₂.trans loose,first.trans second⟩
    rw [Database.rollback,show (db.setOwner g 0).mergeNeighbours g = some db₁ from merged,Option.bind_some]
    exact rolled

theorem spares_loose (same : ∀ c, lists' (some (.listed c)) = lists (some (.listed c)))
    (away : ∀ c, i ∉ lists (some (.listed c)))
    (entries : ∀ j, j ≠ i → db'.entries j = db.entries j) : Spares 0 db lists db' lists' := by
  refine Spares.of_others (· = i) ?_ ?_ (fun j _ c => by rw [same]) fun j still c _ => entries j still
  · rintro j rfl c member
    exact absurd member (away c)
  · rintro j rfl c member
    rw [same] at member
    exact absurd member (away c)

theorem poolAlloc_spares (threaded : Threaded k db lists) (allocated : db.poolAlloc = some (db',i)) :
    ∃ lists', Threaded k db' lists' ∧ lists' none = i :: lists none ∧ Spares 0 db lists db' lists' ∧
      i ∈ lists (some .pool) ∧
      (∀ c, lists' (some (.listed c)) = lists (some (.listed c))) ∧ ∀ j, j ≠ i → db'.entries j = db.entries j := by
  obtain ⟨rest,pooled⟩ := threaded.pooled_of_alloc allocated
  obtain ⟨db₁,lists',taken,done,-,loose,same,entries⟩ := threaded.poolAlloc pooled
  obtain ⟨rfl,-⟩ := Prod.mk.inj (Option.some.inj (taken.symm.trans allocated))
  have here : i ∈ lists (some .pool) := by simp [pooled]
  have kept : ∀ j, j ≠ i → db₁.entries j = db.entries j :=
    fun j other => by rw [entries,Function.update_of_ne other]
  exact ⟨lists',done,loose,spares_loose same (threaded.unlisted here) kept,here,same,kept⟩

theorem find?_insert {p : Index → Bool} (miss : p i = false) :
    (pre ++ i :: post).find? p = (pre ++ post).find? p := by
  rw [List.find?_append,List.find?_append,List.find?_cons_of_neg (by simp [miss])]

/-- The test by which `tm_rsrc_attach` finds what it has carved. -/
def isGrant (db : Database) (a : BitVec 32) (start stop : BitVec 64) (i : Index) : Bool :=
  (db.entries i).owner == a && (db.entries i).start == start && (db.entries i).stop == stop

/-- The entry `i`, new on the list `c`, is the first that the test finds, and only free entries made
place for it. -/
structure Carves (k : Consts) (a : BitVec 32) (start stop : BitVec 64) (c : Nat) (i : Index) (db : Database)
    (lists : Option Place → List Index) (db' : Database) (lists' : Option Place → List Index) : Prop where
  threaded : Threaded k db' lists'
  owner : (db'.entries i).owner = a
  listed : i ∈ lists' (some (.listed c))
  fresh : ∀ d, i ∉ lists (some (.listed d))
  first : (lists' (some (.listed c))).find? (isGrant db' a start stop) = some i
  keeps : Keeps db lists db' lists'
  spares : Spares a db lists db' lists'

theorem Carves.before (carves : Carves k a start stop c i db₁ lists₁ db' lists')
    (spares : Spares 0 db lists db₁ lists₁)
    (fresh : ∀ d, i ∉ lists (some (.listed d))) : Carves k a start stop c i db lists db' lists' where
  threaded := carves.threaded
  owner := carves.owner
  listed := carves.listed
  fresh := fresh
  first := carves.first
  keeps := Keeps.trans (fun c j member used => spares.keeps c j member used used) carves.keeps
  spares := spares.weaken.trans carves.spares

theorem makeRoom (threaded : Threaded k db lists) (member : e ∈ lists (some (.listed c))) (start : BitVec 64) :
    ∃ db' lists', (if (db.entries e).start < start then some (db.setStop e (start - 1))
        else (db.listRemove k e).map fun db => db.poolFree e) = some db' ∧
      Threaded k db' lists' ∧ lists' none = lists none ∧ (∀ j, j ≠ e → db'.entries j = db.entries j) ∧
        (db'.entries e).owner = (db.entries e).owner ∧
          ∀ d j, j ≠ e → (j ∈ lists' (some (.listed d)) ↔ j ∈ lists (some (.listed d))) := by
  split
  · refine ⟨_,lists,rfl,threaded.setEntry _ (.inr rfl),rfl,fun j other => Function.update_of_ne other _ _,?_,
      fun _ _ _ => Iff.rfl⟩
    rw [setStop_entries,Function.update_self]
  · obtain ⟨pre,post,split⟩ := List.append_of_mem member
    obtain ⟨db',lists',removed,done,entries,loose,off,others⟩ := threaded.listRemove split
    refine ⟨db',lists',removed,done,loose,fun j _ => by rw [entries],by rw [entries],fun d j other => ?_⟩
    rw [threaded.mem_removed split off others]
    exact and_iff_left other

theorem mem_insert (put : lists' (some (.listed c)) = pre ++ i :: post)
    (split : lists (some (.listed c)) = pre ++ post)
    (rest : ∀ d ≠ c, lists' (some (.listed d)) = lists (some (.listed d))) (other : j ≠ i) (d : Nat) :
    j ∈ lists' (some (.listed d)) ↔ j ∈ lists (some (.listed d)) := by
  by_cases same : d = c
  · subst same
    rw [put,split]
    simp [other]
  · rw [rest d same]

theorem insert_spares (put : lists' (some (.listed c)) = pre ++ i :: post)
    (split : lists (some (.listed c)) = pre ++ post)
    (rest : ∀ d ≠ c, lists' (some (.listed d)) = lists (some (.listed d))) (entries : db'.entries = db.entries)
    (away : ∀ d, i ∉ lists (some (.listed d))) (owner : (db.entries i).owner = 0 ∨ (db.entries i).owner = a) :
    Spares a db lists db' lists' := by
  refine Spares.of_others (· = i) ?_ ?_ (fun j still d => mem_insert put split rest still d)
    fun j _ d _ => by rw [entries]
  · rintro j rfl d inside
    exact absurd inside (away d)
  · rintro j rfl d _
    rwa [entries]

/-- The carved entry, already written, goes to its place. -/
theorem placeCarved (threaded : Threaded k db lists) (member : e ∈ lists (some (.listed c)))
    (free : (db.entries e).owner = 0)
    (loose : i ∈ lists none) (cls : (db.entries i).cls = c) (owner : (db.entries i).owner = a) :
    ∃ db' lists', ((if (db.entries e).start < (db.entries i).start then some
      (db.setStop e ((db.entries i).start - 1))
        else (db.listRemove k e).map fun db => db.poolFree e).bind fun db => db.listInsert k i) = some db' ∧
      Carves k a (db.entries i).start (db.entries i).stop c i db lists db' lists' ∧
        lists' none = (lists none).filter (· ≠ i) ∧
        ∀ j, j ≠ e → db'.entries j = db.entries j := by
  have known := (threaded.cls c e member).2
  have notE : i ≠ e := threaded.shape.other_node loose member (by simp)
  obtain ⟨db₁,lists₁,made,room,loose₁,kept,owner₁,members⟩ := threaded.makeRoom member (db.entries i).start
  have same := kept i notE
  obtain ⟨db₂,lists₂,pre,post,inserted,done,entries,loose₂,split,put,ahead,-,rest⟩ :=
    room.listInsert (i := i) (c := c) (by rwa [loose₁]) (by rwa [same]) known
  refine ⟨db₂,lists₂,by rw [made]; exact inserted,?_,by rw [loose₂,loose₁],fun j other => by rw [entries,kept j other]⟩
  have fresh : ∀ d, i ∉ lists (some (.listed d)) := threaded.away loose
  have shown : ∀ j, j ≠ e → j ≠ i → ∀ d, j ∈ lists₂ (some (.listed d)) ↔ j ∈ lists (some (.listed d)) :=
    fun j notE notI d => (mem_insert put split rest notI d).trans (members d j notE)
  have grant : isGrant db₂ a (db.entries i).start (db.entries i).stop i = true := by
    simp [isGrant,entries,same,owner]
  have missed : ∀ j ∈ pre, isGrant db₂ a (db.entries i).start (db.entries i).stop j = false := by
    intro j inside
    have before := ahead j inside
    rw [same] at before
    have differs : (db₁.entries j).start ≠ (db.entries i).start := by
      rintro is
      rw [is] at before
      exact absurd before (BitVec.lt_irrefl _)
    simp [isGrant,entries,differs]
  refine ⟨done,by rw [entries,same,owner],by rw [put]; simp,fresh,?_,?_,?_⟩
  · rw [put,List.find?_append,List.find?_eq_none.mpr fun j inside => by simp [missed j inside],Option.none_or]
    exact List.find?_cons_of_pos grant
  · intro d j inside used
    have notE : j ≠ e := by
      rintro rfl
      exact used free
    have notI : j ≠ i := by
      rintro rfl
      exact fresh d inside
    exact ⟨(shown j notE notI d).mpr inside,by rw [entries,kept j notE]⟩
  · refine Spares.of_others (fun j => j = e ∨ j = i) ?_ ?_ (fun j still d => ?_) fun j still d _ => ?_
    · rintro j (rfl | rfl) d inside
      · exact .inl free
      · exact absurd inside (fresh d)
    · rintro j (rfl | rfl) d inside
      · exact .inl (by rw [entries,owner₁,free])
      · exact .inr (by rw [entries,same,owner])
    · exact shown j (not_or.mp still).1 (not_or.mp still).2 d
    · rw [entries,kept j (not_or.mp still).1]

theorem Carves.insertFree (carves : Carves k a start stop c i db lists db' lists') (real : a ≠ 0)
    (loose : r ∈ lists' none) (cls : (db'.entries r).cls = c) (free : (db'.entries r).owner = 0) :
    ∃ db₂ lists₂, db'.listInsert k r = some db₂ ∧ Carves k a start stop c i db lists db₂ lists₂ ∧
      lists₂ none = (lists' none).filter (· ≠ r) := by
  have known := (carves.threaded.cls c i carves.listed).2
  obtain ⟨db₂,lists₂,pre,post,inserted,done,entries,loose₂,split,put,-,-,rest⟩ :=
    carves.threaded.listInsert loose cls known
  have notR : i ≠ r := carves.threaded.shape.other_node carves.listed loose (by simp)
  have listed := (mem_insert put split rest notR c).mpr carves.listed
  have second : Spares 0 db' lists' db₂ lists₂ := insert_spares put split rest entries
    (carves.threaded.away loose) (.inl free)
  refine ⟨db₂,lists₂,inserted,⟨done,by rw [entries,carves.owner],listed,carves.fresh,?_,?_,?_⟩,loose₂⟩
  · have miss : isGrant db' a start stop r = false := by
      have differs : ((0 : BitVec 32) == a) = false := beq_eq_false_iff_ne.mpr real.symm
      rw [isGrant,free,differs,Bool.false_and,Bool.false_and]
    have tests : isGrant db₂ a start stop = isGrant db' a start stop := by
      funext j
      rw [isGrant,entries,isGrant]
    rw [put,tests,find?_insert miss,← split]
    exact carves.first
  · exact carves.keeps.trans fun d j inside used => second.keeps d j inside used used
  · exact carves.spares.trans second.weaken

theorem setEntry_loose (threaded : Threaded k db lists) (loose : i ∈ lists none) (x : Entry) :
    Threaded k (db.setEntry i x) lists ∧ Spares 0 db lists (db.setEntry i x) lists :=
  ⟨threaded.setEntry x (.inl (threaded.away loose)),
    spares_loose (fun _ => rfl) (threaded.away loose) fun _ other => Function.update_of_ne other _ _⟩

theorem carveEnd (threaded : Threaded k db lists) (member : e ∈ lists (some (.listed c)))
    (free : (db.entries e).owner = 0) (loose : lists none = [i]) (start stop : BitVec 64) (flags : BitVec 32) :
    ∃ db' lists', db.carveInto k e start stop a flags i none = some db' ∧
      Carves k a start stop c i db lists db' lists' ∧
      lists' none = [] := by
  have looseI : i ∈ lists none := by simp [loose]
  have notI : e ≠ i := threaded.shape.other_node member looseI (by simp)
  have cls := (threaded.cls c e member).1
  generalize new : (⟨start,stop,a,(db.entries e).cls,((flags &&& k.flagMask) >>> 8).setWidth 16⟩ : Entry) = x
  obtain ⟨written,spares⟩ := threaded.setEntry_loose looseI x
  have entryI : (db.setEntry i x).entries i = x := Function.update_self ..
  have entryE : (db.setEntry i x).entries e = db.entries e := Function.update_of_ne notI _ _
  obtain ⟨db',lists',placed,carves,loose',-⟩ := written.placeCarved (a := a) member (by rwa [entryE]) looseI
    (by rw [entryI,← new]; exact cls) (by rw [entryI,← new])
  rw [entryI,entryE] at placed
  rw [entryI] at carves
  refine ⟨db',lists',?_,?_,by simp [loose',loose]⟩
  · rw [Database.carveInto]
    obtain ⟨db₁,made,inserted⟩ := Option.bind_eq_some_iff.mp placed
    subst new
    simp only [made,inserted,Option.bind_some]
  · subst new
    exact carves.before spares (threaded.away looseI)

/-- A carve that leaves a residue behind it, in the entry `r`. -/
theorem carveMiddle (threaded : Threaded k db lists) (member : e ∈ lists (some (.listed c)))
    (free : (db.entries e).owner = 0)
    (real : a ≠ 0) (loose : lists none = [r,i]) (distinct : r ≠ i) (start stop : BitVec 64) (flags : BitVec 32) :
    ∃ db' lists', db.carveInto k e start stop a flags i (some r) = some db' ∧
      Carves k a start stop c i db lists db' lists' ∧
      lists' none = [] := by
  have looseI : i ∈ lists none := by simp [loose]
  have looseR : r ∈ lists none := by simp [loose]
  have notI : e ≠ i := threaded.shape.other_node member looseI (by simp)
  have notR : e ≠ r := threaded.shape.other_node member looseR (by simp)
  have cls := (threaded.cls c e member).1
  generalize new : (⟨start,stop,a,(db.entries e).cls,((flags &&& k.flagMask) >>> 8).setWidth 16⟩ : Entry) = x
  generalize left : (⟨stop + 1,(db.entries e).stop,0,(db.entries e).cls,0⟩ : Entry) = y
  obtain ⟨one,spares₁⟩ := threaded.setEntry_loose looseI x
  obtain ⟨written,spares₂⟩ := one.setEntry_loose looseR y
  have entryI : ((db.setEntry i x).setEntry r y).entries i = x := by simp [distinct.symm]
  have entryE : ((db.setEntry i x).setEntry r y).entries e = db.entries e := by simp [notI,notR]
  have entryR : ((db.setEntry i x).setEntry r y).entries r = y := by simp
  obtain ⟨db₁,lists₁,placed,carves,loose₁,same₁⟩ := written.placeCarved (a := a) member (by rwa [entryE]) looseI
    (by rw [entryI,← new]; exact cls) (by rw [entryI,← new])
  rw [entryI] at carves
  have right₁ : db₁.entries r = y := (same₁ r notR.symm).trans entryR
  have started := carves.before (spares₁.trans spares₂) (threaded.away looseI)
  obtain ⟨db₂,lists₂,inserted,done,loose₂⟩ := started.insertFree (r := r) real (by simp [loose₁,loose,distinct])
    (by rw [right₁,← left]; exact cls) (by rw [right₁,← left])
  refine ⟨db₂,lists₂,?_,?_,by simp [loose₂,loose₁,loose,distinct]⟩
  · rw [entryI,entryE] at placed
    rw [Database.carveInto]
    obtain ⟨db₃,made,between⟩ := Option.bind_eq_some_iff.mp placed
    subst new left
    simp only [made,between,inserted,Option.bind_some]
  · subst new
    exact done

theorem carve (threaded : Threaded k db lists) (settled : lists none = []) (member : e ∈ lists (some (.listed c)))
    (free : (db.entries e).owner = 0) (real : a ≠ 0) (start stop : BitVec 64) (flags : BitVec 32) :
    ∃ db' lists', Threaded k db' lists' ∧ lists' none = [] ∧
      ((db.carve k e start stop a flags = some (db',.error .enomem) ∧ Spares 0 db lists db' lists') ∨
        ∃ i, db.carve k e start stop a flags = some (db',.ok ()) ∧ Carves k a start stop c i db lists db' lists') := by
  unfold Database.carve
  cases first : db.poolAlloc with
  | none => exact ⟨db,lists,threaded,settled,.inl ⟨rfl,.refl 0 db lists⟩⟩
  | some out =>
    obtain ⟨db₁,i⟩ := out
    obtain ⟨lists₁,threaded₁,loose₁,spares₁,pooled₁,same₁,kept₁⟩ := threaded.poolAlloc_spares first
    have away₁ := threaded.unlisted pooled₁
    have member₁ : e ∈ lists₁ (some (.listed c)) := by rwa [same₁]
    have notI : e ≠ i := by
      rintro rfl
      exact away₁ c member
    have free₁ : (db₁.entries e).owner = 0 := by rwa [kept₁ e notI]
    rw [settled] at loose₁
    dsimp only
    split
    · cases second : db₁.poolAlloc with
      | none =>
        obtain ⟨lists₂,threaded₂,loose₂,-,same₂⟩ := threaded₁.poolFree (i := i) (by simp [loose₁])
        refine ⟨db₁.poolFree i,lists₂,threaded₂,by simp [loose₂,loose₁],.inl ⟨rfl,spares₁.trans ?_⟩⟩
        exact spares_loose same₂ (fun d => by rw [same₁]; exact away₁ d) fun _ _ => rfl
      | some out =>
        obtain ⟨db₂,r⟩ := out
        obtain ⟨lists₂,threaded₂,loose₂,spares₂,pooled₂,same₂,kept₂⟩ := threaded₁.poolAlloc_spares second
        have member₂ : e ∈ lists₂ (some (.listed c)) := by rwa [same₂]
        have notR : e ≠ r := by
          rintro rfl
          exact threaded₁.unlisted pooled₂ c member₁
        have distinct : r ≠ i := threaded₁.shape.other_node pooled₂ (q := none) (by simp [loose₁]) (by simp)
        obtain ⟨db₃,lists₃,carved,carves,settled₃⟩ := threaded₂.carveMiddle member₂ (by rwa [kept₂ e notR]) real
          (by rw [loose₂,loose₁]) distinct start stop flags
        dsimp only
        rw [carved]
        exact ⟨db₃,lists₃,carves.threaded,settled₃,.inr ⟨i,rfl,carves.before (spares₁.trans spares₂) away₁⟩⟩
    · obtain ⟨db₂,lists₂,carved,carves,settled₂⟩ := threaded₁.carveEnd member₁ free₁ loose₁ start stop flags
      rw [carved]
      exact ⟨db₂,lists₂,carves.threaded,settled₂,.inr ⟨i,rfl,carves.before spares₁ away₁⟩⟩

/-- A call ends with everything on a list, and process `a` and nobody may have lost or won by it, but no
other process. -/
def Isolates (k : Consts) (a : BitVec 32) (db : Database) (lists : Option Place → List Index)
    (out : Option Database) : Prop :=
  ∃ db' lists', out = some db' ∧ Threaded k db' lists' ∧ lists' none = [] ∧ Spares a db lists db' lists'

/-- A loop over a payload isolates as its rounds do. -/
theorem rounds {α : Type} (one : Database → α → Outcome Unit)
    (round : ∀ db lists x, Threaded k db lists → lists none = [] → Isolates k a db lists ((one db x).map Prod.fst))
    (threaded : Threaded k db lists) (settled : lists none = []) (xs : List α) :
    Isolates k a db lists ((Database.rounds one db xs).map Prod.fst) := by
  induction xs generalizing db lists with
  | nil => exact ⟨db,lists,rfl,threaded,settled,.refl a db lists⟩
  | cons x xs ih =>
    obtain ⟨db₁,lists₁,taken,threaded₁,settled₁,spares₁⟩ := round db lists x threaded settled
    obtain ⟨⟨db₁',answer⟩,done,rfl⟩ := Option.map_eq_some_iff.mp taken
    rw [Database.rounds,done,Option.bind_some]
    cases answer with
    | error f => exact ⟨db₁',lists₁,rfl,threaded₁,settled₁,spares₁⟩
    | ok _ =>
      obtain ⟨db₂,lists₂,rest,threaded₂,settled₂,spares₂⟩ := ih threaded₁ settled₁
      exact ⟨db₂,lists₂,rest,threaded₂,settled₂,spares₁.trans spares₂⟩

theorem createOne (threaded : Threaded k db lists) (settled : lists none = []) (p : Alloc) :
    Isolates k a db lists ((db.createOne k a p).map Prod.fst) := by
  unfold Database.createOne
  cases named : classOf k p.flags with
  | none => exact ⟨db,lists,rfl,threaded,settled,.refl a db lists⟩
  | some c =>
    dsimp only
    cases allocated : db.poolAlloc with
    | none => exact ⟨db,lists,rfl,threaded,settled,.refl a db lists⟩
    | some out =>
      obtain ⟨db₁,i⟩ := out
      obtain ⟨lists₁,threaded₁,loose₁,spares₁,-,-,-⟩ := threaded.poolAlloc_spares allocated
      have loose : i ∈ lists₁ none := by simp [loose₁]
      dsimp only
      generalize owned : (if p.flags &&& k.flagUsed ≠ 0 then a else 0) = owner
      generalize new : (⟨p.start,p.stop,owner,c,0⟩ : Entry) = x
      have mine : owner = 0 ∨ owner = a := by
        rw [← owned]
        split
        · exact .inr rfl
        · exact .inl rfl
      obtain ⟨written,spares₂⟩ := threaded₁.setEntry_loose loose x
      have entry : (db₁.setEntry i x).entries i = x := Function.update_self ..
      obtain ⟨db₂,lists₂,pre,post,inserted,threaded₂,entries,loose₂,split,put,-,-,rest⟩ :=
        written.listInsert (c := c) loose (by rw [entry,← new]) (classOf_known named)
      have settled₂ : lists₂ none = [] := by simp [loose₂,loose₁,settled]
      have spares₃ : Spares a _ lists₁ db₂ lists₂ := insert_spares put split rest entries (written.away loose)
        (by rw [entry,← new]; exact mine)
      have spares := (spares₁.trans spares₂).weaken.trans spares₃
      rw [inserted,Option.bind_some]
      split
      · rename_i free
        obtain ⟨db₃,lists₃,merged,threaded₃,loose₃,spares₄⟩ := threaded₂.mergeNeighbours (e := i) (c := c)
          (by simp [put])
          (by rw [entries,entry,← new]; exact free)
        rw [merged]
        exact ⟨db₃,lists₃,rfl,threaded₃,loose₃.trans settled₂,spares.trans spares₄.weaken⟩
      · exact ⟨db₂,lists₂,rfl,threaded₂,settled₂,spares⟩

theorem detachOne (threaded : Threaded k db lists) (settled : lists none = []) (r : Request) :
    Isolates k a db lists ((db.detachOne k a r).map Prod.fst) := by
  unfold Database.detachOne
  cases named : classOf k r.flags with
  | none => exact ⟨db,lists,rfl,threaded,settled,.refl a db lists⟩
  | some c =>
    obtain ⟨prev,found⟩ := threaded.walk_find c (isGrant db a r.start r.stop)
    dsimp only
    rw [show (fun i => (db.entries i).owner == a && (db.entries i).start == r.start &&
      (db.entries i).stop == r.stop) =
      isGrant db a r.start r.stop from rfl,found,Option.bind_some]
    dsimp only
    cases first : (lists (some (.listed c))).find? (isGrant db a r.start r.stop) with
    | none => exact ⟨db,lists,rfl,threaded,settled,.refl a db lists⟩
    | some e =>
      have test := List.find?_some first
      simp only [isGrant,Bool.and_eq_true,beq_iff_eq] at test
      obtain ⟨db',lists',given,done,loose,spares,-⟩ := threaded.disown (List.mem_of_find?_eq_some first) test.1.1 0
      dsimp only
      rw [Database.giveUp,given]
      exact ⟨db',lists',rfl,done,loose.trans settled,spares⟩

/-- A round of an attach fails, or adds one entry of the caller. -/
theorem attachOne (threaded : Threaded k db lists) (settled : lists none = []) (real : a ≠ 0) (r : Request) :
    ∃ db' lists', Threaded k db' lists' ∧ lists' none = [] ∧ Keeps db lists db' lists' ∧
      Spares a db lists db' lists' ∧
      (db.attachOne k a r = some (db',.error .enospc) ∨
        ∃ i start stop, db.attachOne k a r = some (db',.ok (some i,start,stop)) ∧ (db'.entries i).owner = a ∧
          (∃ c, i ∈ lists' (some (.listed c))) ∧ ∀ d, i ∉ lists (some (.listed d))) := by
  unfold Database.attachOne
  cases named : classOf k r.flags with
  | none => exact ⟨db,lists,threaded,settled,.refl db lists,.refl a db lists,.inl rfl⟩
  | some c =>
    dsimp only
    obtain ⟨prev,found⟩ := threaded.walk_find c fun i => (grant k (db.entries i) r).isSome
    rw [Database.findFit,found,Option.map_some,Option.bind_some]
    dsimp only
    cases first : (lists (some (.listed c))).find? fun i => (grant k (db.entries i) r).isSome with
    | none => exact ⟨db,lists,threaded,settled,.refl db lists,.refl a db lists,.inl rfl⟩
    | some e =>
      have fits := List.find?_some first
      obtain ⟨⟨start,stop⟩,granted⟩ := Option.isSome_iff_exists.mp fits
      have free : (db.entries e).owner = 0 := by
        by_contra used
        rw [grant] at granted
        dsimp only at granted
        rw [if_pos (.inl used)] at granted
        cases granted
      obtain ⟨db',lists',done,settled',⟨failed,spares⟩ | ⟨i,carved,carves⟩⟩ :=
        threaded.carve settled (List.mem_of_find?_eq_some first) free real start stop r.flags
      · refine ⟨db',lists',done,settled',fun d j inside used => spares.keeps d j inside used used,
          spares.weaken,.inl ?_⟩
        rw [Option.bind_some,granted,Option.map_some]
        dsimp only
        rw [failed]
        rfl
      · refine ⟨db',lists',done,settled',carves.keeps,carves.spares,
          .inr ⟨i,start,stop,?_,carves.owner,⟨c,carves.listed⟩,carves.fresh⟩⟩
        obtain ⟨prev,walked⟩ := carves.threaded.walk_find c (isGrant db' a start stop)
        rw [Option.bind_some,granted,Option.map_some]
        dsimp only
        rw [carved,Option.bind_some]
        dsimp only
        rw [show (fun j => (db'.entries j).owner == a && (db'.entries j).start == start &&
          (db'.entries j).stop == stop) =
          isGrant db' a start stop from rfl,walked,carves.first]
        rfl

theorem attachAll (threaded : Threaded k db lists) (settled : lists none = []) (real : a ≠ 0)
    (rs : List Request) (once : granted.Nodup)
    (used : ∀ g ∈ granted, (db.entries g).owner = a ∧ ∃ c, g ∈ lists (some (.listed c))) :
    Isolates k a db lists ((db.attachAll k a granted rs).map Prod.fst) := by
  induction rs generalizing db lists granted with
  | nil => exact ⟨db,lists,rfl,threaded,settled,.refl a db lists⟩
  | cons r rs ih =>
    obtain ⟨db₁,lists₁,threaded₁,settled₁,keeps,spares₁,round⟩ := threaded.attachOne settled real r
    have still : ∀ g ∈ granted, (db₁.entries g).owner = a ∧ ∃ c, g ∈ lists₁ (some (.listed c)) := by
      intro g member
      obtain ⟨owner,c,inside⟩ := used g member
      obtain ⟨there,same⟩ := keeps c g inside (by rwa [owner])
      exact ⟨by rw [same,owner],c,there⟩
    rcases round with failed | ⟨i,start,stop,done,owner,listed,fresh⟩
    · obtain ⟨db₂,lists₂,rolled,threaded₂,loose₂,spares₂⟩ := threaded₁.rollback once real still
      refine ⟨db₂,lists₂,?_,threaded₂,loose₂.trans settled₁,spares₁.trans spares₂⟩
      simp [Database.attachAll,failed,rolled]
    · have once' : (granted ++ [i]).Nodup := by
        refine List.nodup_append.mpr ⟨once,List.nodup_singleton i,?_⟩
        intro g member j single
        obtain rfl := List.mem_singleton.mp single
        rintro rfl
        obtain ⟨-,c,inside⟩ := used g member
        exact fresh c inside
      have used' : ∀ g ∈ granted ++ [i], (db₁.entries g).owner = a ∧ ∃ c, g ∈ lists₁ (some (.listed c)) := by
        intro g member
        rcases List.mem_append.mp member with before | now
        · exact still g before
        · obtain rfl := List.mem_singleton.mp now
          exact ⟨owner,listed⟩
      obtain ⟨db₂,lists₂,taken,threaded₂,settled₂,spares₂⟩ := ih threaded₁ settled₁ once' used'
      obtain ⟨last,attached,rfl⟩ := Option.map_eq_some_iff.mp taken
      refine ⟨last.1,lists₂,?_,threaded₂,settled₂,spares₁.trans spares₂⟩
      simp [Database.attachAll,done,attached]

theorem releaseClass (threaded : Threaded k db lists) (settled : lists none = [])
    (released : db.releaseClass a c fuel = some db') :
    ∃ lists', Threaded k db' lists' ∧ lists' none = [] ∧ Spares a db lists db' lists' := by
  induction fuel generalizing db lists with
  | zero => cases released
  | succ fuel ih =>
    obtain ⟨prev,found⟩ := threaded.walk_find c fun i => (db.entries i).owner == a
    rw [Database.releaseClass,found,Option.bind_some] at released
    dsimp only at released
    cases first : (lists (some (.listed c))).find? fun i => (db.entries i).owner == a with
    | none =>
      rw [first] at released
      obtain rfl := Option.some.inj released
      exact ⟨lists,threaded,settled,.refl a db lists⟩
    | some e =>
      rw [first] at released
      dsimp only at released
      have test := List.find?_some first
      obtain ⟨db₁,lists₁,given,threaded₁,loose₁,spares₁,-⟩ :=
        threaded.disown (List.mem_of_find?_eq_some first) (beq_iff_eq.mp test) 0
      rw [Database.giveUp,given,Option.bind_some] at released
      obtain ⟨lists₂,threaded₂,settled₂,spares₂⟩ := ih threaded₁ (loose₁.trans settled) released
      exact ⟨lists₂,threaded₂,settled₂,spares₁.trans spares₂⟩

theorem releaseClasses (threaded : Threaded k db lists) (settled : lists none = []) (classes : List Nat)
    (released : classes.foldlM (fun db cls => db.releaseClass a cls fuel) db = some db') :
    ∃ lists', Threaded k db' lists' ∧ lists' none = [] ∧ Spares a db lists db' lists' := by
  induction classes generalizing db lists with
  | nil =>
    obtain rfl := Option.some.inj released
    exact ⟨lists,threaded,settled,.refl a db lists⟩
  | cons c classes ih =>
    rw [List.foldlM_cons] at released
    obtain ⟨db₁,first,later⟩ := Option.bind_eq_some_iff.mp released
    obtain ⟨lists₁,threaded₁,settled₁,spares₁⟩ := threaded.releaseClass settled first
    obtain ⟨lists₂,threaded₂,settled₂,spares₂⟩ := ih threaded₁ settled₁ later
    exact ⟨lists₂,threaded₂,settled₂,spares₁.trans spares₂⟩

end Threaded

/-- The pool takes back an entry of the class and range of `p`. -/
def Alloc.Names (k : Consts) (db : Database) (p : Alloc) (c : Nat) (i : Index) : Prop :=
  classOf k p.flags = some c ∧ (db.entries i).start = p.start ∧ (db.entries i).stop = p.stop

/-- The part of a payload before its first class that does not exist. -/
def reached (k : Consts) (ps : List Alloc) : List Alloc := ps.takeWhile fun p => (classOf k p.flags).isSome

/-- No two entries of a class start at the same address. -/
def Distinct (db : Database) (lists : Option Place → List Index) : Prop :=
  ∀ c, ∀ i ∈ lists (some (.listed c)), ∀ j ∈ lists (some (.listed c)), (db.entries i).start =
    (db.entries j).start → i = j

theorem Tidy.distinct (tidy : Tidy k db lists) : Distinct db lists := by
  intro c i inside j inside' starts
  by_contra differ
  have one := (tidy.sorted c).proper i inside
  have two := (tidy.sorted c).proper j inside'
  rcases (tidy.sorted c).apart inside inside' differ with before | after
  · bv_omega
  · bv_omega

theorem Threaded.destroyOne (threaded : Threaded k db lists) (settled : lists none = [])
    (distinct : Distinct db lists) (named : classOf k p.flags = some c) :
    ∃ db' lists', db.destroyOne k p = some (db',.ok ()) ∧ Threaded k db' lists' ∧ lists' none = [] ∧
      db'.entries = db.entries ∧
      ∀ d j, j ∈ lists' (some (.listed d)) ↔ j ∈ lists (some (.listed d)) ∧ ¬p.Names k db d j := by
  obtain ⟨prev,found⟩ := threaded.walk_find c fun i => (db.entries i).start == p.start &&
    (db.entries i).stop == p.stop
  unfold Database.destroyOne
  rw [named]
  dsimp only
  rw [found,Option.bind_some]
  dsimp only
  cases first : (lists (some (.listed c))).find? fun i => (db.entries i).start == p.start &&
    (db.entries i).stop == p.stop with
  | none =>
    refine ⟨db,lists,rfl,threaded,settled,rfl,fun d j => (and_iff_left_of_imp fun inside names => ?_).symm⟩
    obtain rfl := Option.some.inj (names.1.symm.trans named)
    have miss := List.find?_eq_none.mp first j inside
    simp [names.2.1,names.2.2] at miss
  | some e =>
    have member := List.mem_of_find?_eq_some first
    have test := List.find?_some first
    simp only [Bool.and_eq_true,beq_iff_eq] at test
    obtain ⟨pre,post,split⟩ := List.append_of_mem member
    obtain ⟨db',lists',removed,done,entries,loose,offList,others⟩ := threaded.listRemove split
    obtain ⟨db₁,off,rfl⟩ := Option.map_eq_some_iff.mp removed
    dsimp only
    rw [off]
    refine ⟨_,lists',rfl,done,loose.trans settled,entries,fun d j => ?_⟩
    rw [threaded.mem_removed split offList others]
    refine and_congr_right fun inside => not_congr ⟨?_,fun names => ?_⟩
    · rintro rfl
      have same : d = c := by simpa using threaded.shape.apart inside member
      exact ⟨by rw [same]; exact named,test⟩
    · obtain rfl := Option.some.inj (names.1.symm.trans named)
      exact distinct d j inside e member (names.2.1.trans test.1.symm)

/-- A destroy takes away what its payload names, and nothing else. -/
theorem Threaded.destroy (threaded : Threaded k db lists) (settled : lists none = [])
    (distinct : Distinct db lists) (ps : List Alloc) :
    ∃ db' lists', (db.destroy k ps).map Prod.fst = some db' ∧ Threaded k db' lists' ∧ db'.entries = db.entries ∧
      ∀ d j, j ∈ lists' (some (.listed d)) ↔ j ∈ lists (some (.listed d)) ∧
        ∀ p ∈ reached k ps, ¬p.Names k db d j := by
  unfold Database.destroy
  induction ps generalizing db lists with
  | nil =>
    exact ⟨db,lists,rfl,threaded,rfl,fun d j => (and_iff_left fun p member => absurd member List.not_mem_nil).symm⟩
  | cons p ps ih =>
    cases named : classOf k p.flags with
    | none =>
      refine ⟨db,lists,?_,threaded,rfl,fun d j => (and_iff_left ?_).symm⟩
      · rw [Database.rounds,Database.destroyOne,named]
        rfl
      · rw [reached,List.takeWhile_cons_of_neg (by simp [named])]
        exact fun p member => absurd member List.not_mem_nil
    | some c =>
      obtain ⟨db₁,lists₁,done,threaded₁,settled₁,entries₁,members₁⟩ := threaded.destroyOne settled distinct named
      have distinct₁ : Distinct db₁ lists₁ := by
        intro d i inside j inside'
        rw [entries₁]
        exact distinct d i ((members₁ d i).mp inside).1 j ((members₁ d j).mp inside').1
      obtain ⟨db₂,lists₂,rest,threaded₂,entries₂,members₂⟩ := ih threaded₁ settled₁ distinct₁
      refine ⟨db₂,lists₂,?_,threaded₂,entries₂.trans entries₁,fun d j => ?_⟩
      · rw [Database.rounds,done,Option.bind_some]
        exact rest
      · have names : ∀ q : Alloc, q.Names k db₁ d j ↔ q.Names k db d j :=
          fun q => by rw [Alloc.Names,Alloc.Names,entries₁]
        have front : reached k (p :: ps) = p :: reached k ps := List.takeWhile_cons_of_pos (by simp [named])
        simp only [members₂,members₁,names,front,List.forall_mem_cons,and_assoc]

/-- The pairs of class and address that process `pid` owns. -/
def Owned (db : Database) (lists : Option Place → List Index) (pid : BitVec 32) : Set (Nat × BitVec 64) :=
  { at' | ∃ i ∈ lists (some (.listed at'.1)), (db.entries i).owner = pid ∧
    (db.entries i).start ≤ at'.2 ∧ at'.2 ≤ (db.entries i).stop }

theorem Spares.owned (spares : Spares a db lists db' lists') (real : b ≠ 0) (apart : b ≠ a) :
    Owned db' lists' b = Owned db lists b := by
  ext ⟨c,n⟩
  constructor
  · rintro ⟨i,inside,owner,range⟩
    obtain ⟨there,same⟩ := spares.gains c i inside (by rwa [owner]) (by rwa [owner])
    exact ⟨i,there,by rw [← same]; exact ⟨owner,range⟩⟩
  · rintro ⟨i,inside,owner,range⟩
    obtain ⟨there,same⟩ := spares.keeps c i inside (by rwa [owner]) (by rwa [owner])
    exact ⟨i,there,by rw [same]; exact ⟨owner,range⟩⟩

/-- Whether a payload names an entry of process `b`. -/
def NamesOf (k : Consts) (db : Database) (lists : Option Place → List Index) (b : BitVec 32)
    (ps : List Alloc) : Prop :=
  ∃ p ∈ reached k ps, ∃ c, ∃ i ∈ lists (some (.listed c)), (db.entries i).owner = b ∧ p.Names k db c i

theorem Tidy.destroy_owned_iff (tidy : Tidy k db lists) (ps : List Alloc) (b : BitVec 32) :
    ∃ db' lists', step k db (.destroy ps) = some db' ∧ Shape db'.next db'.root lists' ∧
      (Owned db' lists' b = Owned db lists b ↔ ¬NamesOf k db lists b ps) := by
  obtain ⟨db',lists',done,threaded,entries,members⟩ := tidy.threaded.destroy tidy.settled_nil tidy.distinct ps
  refine ⟨db',lists',done,threaded.shape,?_,fun spared => ?_⟩
  · rintro same ⟨p,member,c,i,inside,owner,names⟩
    have proper := (tidy.sorted c).proper i inside
    have owned : (c,(db.entries i).start) ∈ Owned db lists b := ⟨i,inside,owner,BitVec.le_refl _,proper⟩
    rw [← same] at owned
    obtain ⟨j,left,-,low,high⟩ := owned
    rw [entries] at low high
    obtain ⟨there,still⟩ := (members c j).mp left
    -- The address is in no other entry of the class, and this one is gone.
    have is : j = i := by
      by_contra other
      rcases (tidy.sorted c).apart there inside other with before | after
      · bv_omega
      · bv_omega
    subst is
    exact still p member names
  · ext ⟨c,n⟩
    constructor
    · rintro ⟨i,inside,rest⟩
      rw [entries] at rest
      exact ⟨i,((members c i).mp inside).1,rest⟩
    · rintro ⟨i,inside,owner,range⟩
      refine ⟨i,(members c i).mpr ⟨inside,fun p member names => spared ⟨p,member,c,i,inside,owner,names⟩⟩,?_⟩
      rw [entries]
      exact ⟨owner,range⟩

/-- Calls that `tm_dispatch` makes for process `a`; a destroy asks for no caller. -/
def Op.By (a : BitVec 32) : Op → Prop
  | .create caller _ | .attach caller _ | .detach caller _ | .releasePid caller => caller = a
  | .destroy _ => True

/-- The one call that reaches what another process owns. -/
def Op.Takes (k : Consts) (db : Database) (lists : Option Place → List Index) (b : BitVec 32) : Op → Prop
  | .destroy ps => NamesOf k db lists b ps
  | _ => False

theorem step_isolates (tidy : Tidy k db lists) (op : Op) (by' : op.By a) (real : a ≠ 0)
    (other : ∀ ps, op ≠ .destroy ps) :
    Threaded.Isolates k a db lists (step k db op) := by
  cases op with
  | create caller ps =>
    obtain rfl : caller = a := by'
    exact Threaded.rounds _ (fun db lists p threaded settled => threaded.createOne settled p)
      tidy.threaded tidy.settled_nil ps
  | destroy ps => exact absurd rfl (other ps)
  | attach caller rs =>
    obtain rfl : caller = a := by'
    by_cases long : 16 < rs.length
    · exact ⟨db,lists,by simp [step,Database.attach,long],tidy.threaded,tidy.settled_nil,.refl caller db lists⟩
    · obtain ⟨db',lists',taken,rest⟩ := tidy.threaded.attachAll tidy.settled_nil real rs List.nodup_nil
        fun g member => absurd member List.not_mem_nil
      exact ⟨db',lists',by simp only [step,Database.attach,if_neg long,taken],rest⟩
  | detach caller rs =>
    obtain rfl : caller = a := by'
    exact Threaded.rounds _ (fun db lists r threaded settled => threaded.detachOne settled r)
      tidy.threaded tidy.settled_nil rs
  | releasePid pid =>
    obtain rfl : pid = a := by'
    obtain ⟨db',released,-⟩ := Good.releasePid ⟨lists,tidy⟩ pid
    have done := released
    rw [Database.releasePid] at done
    split at done
    · obtain rfl := Option.some.inj done
      exact ⟨db,lists,released,tidy.threaded,tidy.settled_nil,.refl pid db lists⟩
    · obtain ⟨lists',rest⟩ := tidy.threaded.releaseClasses tidy.settled_nil _ done
      exact ⟨db',lists',released,rest⟩

/-- No call for one process changes what another one owns, but for a destroy that names one of its ranges. -/
theorem ownership_isolated_iff (tidy : Tidy k db lists) (op : Op) (by' : op.By a) (real : a ≠ 0) (real' : b ≠ 0)
    (apart : b ≠ a) :
    ∃ db' lists', step k db op = some db' ∧ Shape db'.next db'.root lists' ∧
      (Owned db' lists' b = Owned db lists b ↔ ¬op.Takes k db lists b) := by
  by_cases destroys : ∃ ps, op = .destroy ps
  · obtain ⟨ps,rfl⟩ := destroys
    exact tidy.destroy_owned_iff ps b
  · have other : ∀ ps, op ≠ .destroy ps := fun ps is => destroys ⟨ps,is⟩
    obtain ⟨db',lists',done,threaded,-,spares⟩ := step_isolates tidy op by' real other
    refine ⟨db',lists',done,threaded.shape,iff_of_true (spares.owned real' apart) ?_⟩
    cases op with
    | destroy ps => exact absurd rfl (other ps)
    | create caller ps => exact id
    | attach caller rs => exact id
    | detach caller rs => exact id
    | releasePid pid => exact id

theorem page_owned : ∃ db lists, Tidy fewConsts db lists ∧ ∃ i ∈ lists (some (.listed 0)),
    (db.entries i).owner = 3 ∧ (db.entries i).start = 0x1000 ∧ (db.entries i).stop = 0x1fff := by
  obtain ⟨db,run,there⟩ := Lts.Run.exists_of_replay (step fewConsts) (aligned fewConsts) Database.init
    [.create 3 [⟨0x1000,0x1fff,0x400⟩]]
    (fun db => ((db.walk 0 (Threaded.isGrant db 3 0x1000 0x1fff)).any fun at' => at'.2.isSome) = true)
      (by decide +kernel)
  obtain ⟨lists,tidy⟩ := run_good run
  obtain ⟨prev,found⟩ := tidy.threaded.walk_find 0 (Threaded.isGrant db 3 0x1000 0x1fff)
  rw [found] at there
  obtain ⟨i,first⟩ := Option.isSome_iff_exists.mp there
  dsimp only at first
  have test := List.find?_some first
  simp only [Threaded.isGrant,Bool.and_eq_true,beq_iff_eq] at test
  exact ⟨db,lists,tidy,i,List.mem_of_find?_eq_some first,test.1.1,test.1.2,test.2⟩

/-- Process 2 gives up a page that it does not own. -/
theorem ownership_isolated_detach : ∃ db lists db' lists', Tidy fewConsts db lists ∧
    step fewConsts db (.detach 2 [⟨0x1000,0,0x1000,0x1fff,0⟩]) = some db' ∧ Shape db'.next db'.root lists' ∧
      (0,0x1000) ∈ Owned db lists 3 ∧ Owned db' lists' 3 = Owned db lists 3 := by
  obtain ⟨db,lists,tidy,i,inside,owner,start,stop⟩ := page_owned
  obtain ⟨db',lists',done,shape,same⟩ := ownership_isolated_iff tidy (.detach 2 [⟨0x1000,0,0x1000,0x1fff,0⟩])
    (a := 2) (b := 3) rfl
    (by decide) (by decide) (by decide)
  exact ⟨db,lists,db',lists',tidy,done,shape,⟨i,inside,owner,by rw [start,stop]; decide⟩,same.mpr id⟩

/-- Process 2 destroys the page of process 3. -/
theorem destroy_takes_page : ¬ ∀ db lists a b op, Tidy fewConsts db lists → op.By a → a ≠ 0 → b ≠ 0 → b ≠ a →
    ∃ db' lists', step fewConsts db op = some db' ∧ Shape db'.next db'.root lists' ∧ Owned db' lists' b =
      Owned db lists b := by
  intro isolated
  obtain ⟨db,lists,tidy,i,inside,owner,start,stop⟩ := page_owned
  obtain ⟨db',lists',done,shape,same⟩ := isolated db lists 2 3 (.destroy [⟨0x1000,0x1fff,0⟩]) tidy trivial
    (by decide) (by decide) (by decide)
  obtain ⟨db₁,lists₁,done₁,shape₁,only⟩ := tidy.destroy_owned_iff [⟨0x1000,0x1fff,0⟩] 3
  obtain rfl := Option.some.inj (done.symm.trans done₁)
  have lists_same : Owned db' lists₁ 3 = Owned db' lists' 3 := by
    ext ⟨c,n⟩
    show (∃ i ∈ lists₁ (some (.listed c)),_) ↔ ∃ i ∈ lists' (some (.listed c)),_
    rw [(shape₁.chain (.listed c)).unique (shape.chain (.listed c))]
  exact only.mp (lists_same.trans same) ⟨⟨0x1000,0x1fff,0⟩,List.mem_cons_self,0,i,inside,owner,rfl,start,stop⟩

end Qsoe.Rsrc
