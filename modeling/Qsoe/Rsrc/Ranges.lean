import Mathlib.Data.Finset.Card
import Mathlib.Data.Fintype.Card
import Qsoe.Lib.Run
import Qsoe.Rsrc.Lists

/-! The requests of `rsrcdb.c` against the lists they edit. A carve inside a free range and a
merge of free neighbours leave every used entry where it is, so the entries granted in a batch
can be given back one by one. The carve is inside the range unless aligning its start wraps. -/
namespace Qsoe.Rsrc

open Linked Database

variable {k : Consts} {db db' : Database} {lists lists' : Option Place → List Index} {e i j : Index} {c : Nat}

def Keeps (db : Database) (lists : Option Place → List Index) (db' : Database)
    (lists' : Option Place → List Index) : Prop :=
  ∀ c j, j ∈ lists (some (.listed c)) → (db.entries j).owner ≠ 0 →
    j ∈ lists' (some (.listed c)) ∧ db'.entries j = db.entries j

theorem Keeps.refl (db : Database) (lists : Option Place → List Index) : Keeps db lists db lists :=
  fun _ _ member _ => ⟨member,rfl⟩

theorem Keeps.trans {db₁ db₂ db₃ : Database} {lists₁ lists₂ lists₃ : Option Place → List Index}
    (first : Keeps db₁ lists₁ db₂ lists₂) (second : Keeps db₂ lists₂ db₃ lists₃) :
    Keeps db₁ lists₁ db₃ lists₃ := by
  intro c j member used
  obtain ⟨there,same⟩ := first c j member used
  obtain ⟨last,same'⟩ := second c j there (same ▸ used)
  exact ⟨last,same'.trans same⟩

/-- No entry is on no list. -/
structure Tidy (k : Consts) (db : Database) (lists : Option Place → List Index) :
    Prop extends Sound k db lists where
  settled : ∀ j, j ∉ lists none

theorem Tidy.settled_nil (tidy : Tidy k db lists) : lists none = [] :=
    List.eq_nil_iff_forall_not_mem.mpr tidy.settled

theorem Tidy.absorb (tidy : Tidy k db lists) (split : lists (some (.listed c)) = pre ++ e :: i :: post)
    (free : (db.entries e).owner = 0) (free' : (db.entries i).owner = 0) :
    ∃ lists', Tidy k (db.absorb e i) lists' ∧ Keeps db lists (db.absorb e i) lists' ∧
      lists' (some (.listed c)) = pre ++ e :: post ∧
      ∀ j, ((db.absorb e i).entries j).owner = (db.entries j).owner := by
  obtain ⟨lists',sound,loose,kept,others,entries⟩ := tidy.toSound.absorb split
  refine ⟨lists',⟨sound,fun j => by rw [loose]; exact tidy.settled j⟩,?_,kept,?_⟩
  · intro d j member used
    have notE : j ≠ e := fun same => used (same ▸ free)
    have notI : j ≠ i := fun same => used (same ▸ free')
    rw [entries]
    refine ⟨?_,Function.update_of_ne notE _ _⟩
    by_cases same : d = c
    · subst same
      rw [split] at member
      rw [kept]
      simp only [List.mem_append,List.mem_cons] at member ⊢
      grind
    · rw [others d same]
      exact member
  · intro j
    rw [entries]
    by_cases same : j = e
    · subst same
      simp
    · simp [same]

theorem Tidy.mergeRight (tidy : Tidy k db lists) (split : lists (some (.listed c)) = pre ++ e :: post)
    (free : (db.entries e).owner = 0) :
    ∃ lists' post', Tidy k (db.mergeRight e) lists' ∧ Keeps db lists (db.mergeRight e) lists' ∧
      lists' (some (.listed c)) = pre ++ e :: post' ∧
      ∀ j, ((db.mergeRight e).entries j).owner = (db.entries j).owner := by
  have chain := tidy.shape.chain (.listed c)
  rw [split] at chain
  obtain ⟨mid,-,tail⟩ := chain.drop
  have next := tail.head_eq
  unfold Database.mergeRight
  cases post with
  | nil =>
    rw [next]
    exact ⟨lists,[],tidy,Keeps.refl db lists,split,fun _ => rfl⟩
  | cons r post =>
    rw [next]
    dsimp only [List.head?_cons]
    split
    · rename_i fits
      obtain ⟨lists',merged,keeps,kept,owners⟩ := tidy.absorb split free fits.1
      exact ⟨lists',post,merged,keeps,kept,owners⟩
    · exact ⟨lists,r :: post,tidy,Keeps.refl db lists,split,fun _ => rfl⟩

theorem Tidy.mergeLeft (tidy : Tidy k db lists) (split : lists (some (.listed c)) = pre ++ e :: post)
    (free : (db.entries e).owner = 0) :
    ∃ lists', Tidy k (db.mergeLeft pre.getLast? e) lists' ∧ Keeps db lists (db.mergeLeft pre.getLast? e) lists' ∧
      ∀ j, ((db.mergeLeft pre.getLast? e).entries j).owner = (db.entries j).owner := by
  unfold Database.mergeLeft
  rcases List.eq_nil_or_concat pre with rfl | ⟨before,p,rfl⟩
  · exact ⟨lists,tidy,Keeps.refl db lists,fun _ => rfl⟩
  · rw [List.concat_eq_append,List.getLast?_append_cons,List.getLast?_singleton]
    dsimp only
    split
    · rename_i fits
      have split' : lists (some (.listed c)) = before ++ p :: e :: post := by simp [split]
      obtain ⟨lists',merged,keeps,-,owners⟩ := tidy.absorb split' fits.1 free
      exact ⟨lists',merged,keeps,owners⟩
    · exact ⟨lists,tidy,Keeps.refl db lists,fun _ => rfl⟩

theorem Tidy.mergeNeighbours (tidy : Tidy k db lists) (member : e ∈ lists (some (.listed c)))
    (free : (db.entries e).owner = 0) :
    ∃ db' lists', db.mergeNeighbours e = some db' ∧ Tidy k db' lists' ∧ Keeps db lists db' lists' ∧
      ∀ j, (db'.entries j).owner = (db.entries j).owner := by
  obtain ⟨pre,post,split⟩ := List.append_of_mem member
  have found := tidy.threaded.walk_to split
  obtain ⟨cls,-⟩ := (tidy.sorted c).cls e member
  obtain ⟨lists₁,post₁,right,keeps,split₁,owners⟩ := tidy.mergeRight split free
  obtain ⟨lists₂,left,keeps',owners'⟩ := right.mergeLeft split₁ ((owners e).trans free)
  refine ⟨(db.mergeRight e).mergeLeft pre.getLast? e,lists₂,?_,left,keeps.trans keeps',
    fun j => (owners' j).trans (owners j)⟩
  simp [Database.mergeNeighbours,cls,found]

theorem Tidy.disown (tidy : Tidy k db lists) (owner : BitVec 32) (flags : BitVec 16) :
    Tidy k (db.setEntry e { db.entries e with owner := owner, flags := flags }) lists := by
  refine ⟨⟨tidy.shape,fun c => ?_⟩,tidy.settled⟩
  have same : ∀ j, (Function.update db.entries e { db.entries e with owner := owner, flags := flags } j).start =
        (db.entries j).start ∧
      (Function.update db.entries e { db.entries e with owner := owner, flags := flags } j).stop =
        (db.entries j).stop ∧
      (Function.update db.entries e { db.entries e with owner := owner, flags := flags } j).cls =
        (db.entries j).cls := by
    intro j
    by_cases here : j = e
    · subst here
      simp
    · simp [here]
  have sorted := tidy.sorted c
  refine ⟨fun j member => ?_,fun j member => ?_,?_⟩
  · rw [setEntry_entries,(same j).2.2]
    exact sorted.cls j member
  · rw [setEntry_entries,(same j).1,(same j).2.1]
    exact sorted.proper j member
  · apply sorted.order.imp
    intro a b before
    rwa [setEntry_entries,(same a).2.1,(same b).1]

theorem Tidy.giveUp (tidy : Tidy k db lists) (member : e ∈ lists (some (.listed c))) :
    ∃ db' lists', db.giveUp e = some db' ∧ Tidy k db' lists' ∧ (db'.entries e).owner = 0 ∧
      ∀ j ≠ e, (db'.entries j).owner = (db.entries j).owner := by
  have free := tidy.disown (e := e) 0 0
  obtain ⟨db',lists',merged,done,-,owners⟩ := free.mergeNeighbours member (by simp)
  refine ⟨db',lists',merged,done,?_,?_⟩
  · rw [owners]
    simp
  · intro j other
    rw [owners]
    simp [other]

/-- Entries granted are given back one after the other. -/
theorem Tidy.rollback (tidy : Tidy k db lists) (once : granted.Nodup)
    (used : ∀ g ∈ granted, (db.entries g).owner ≠ 0 ∧ ∃ c, g ∈ lists (some (.listed c))) :
    ∃ db' lists', db.rollback granted = some db' ∧ Tidy k db' lists' := by
  induction granted generalizing db lists with
  | nil => exact ⟨db,lists,rfl,tidy⟩
  | cons g gs ih =>
    obtain ⟨absent,rest⟩ := List.nodup_cons.mp once
    obtain ⟨-,c,member⟩ := used g List.mem_cons_self
    have free := tidy.disown (e := g) 0 (db.entries g).flags
    obtain ⟨db₁,lists₁,merged,done,keeps,-⟩ := free.mergeNeighbours member (by simp)
    have later : ∀ j ∈ gs, (db₁.entries j).owner ≠ 0 ∧ ∃ c, j ∈ lists₁ (some (.listed c)) := by
      intro j after
      have other : j ≠ g := fun same => absent (same ▸ after)
      obtain ⟨owned,d,listed⟩ := used j (List.mem_cons_of_mem g after)
      have still :
          ((db.setEntry g { db.entries g with owner := 0, flags := (db.entries g).flags }).entries j).owner ≠ 0 := by
        simpa [other] using owned
      obtain ⟨there,same⟩ := keeps d j listed still
      rw [same]
      exact ⟨still,d,there⟩
    obtain ⟨db₂,lists₂,rolled,last⟩ := ih done rest later
    have first : (db.setOwner g 0).mergeNeighbours g = some db₁ := merged
    refine ⟨db₂,lists₂,?_,last⟩
    rw [Database.rollback,first,Option.bind_some]
    exact rolled

theorem Entry.Apart.inside {x y z : Entry} (apart : x.Apart y) (low : x.start ≤ z.start) (high : z.stop ≤ x.stop) :
    z.Apart y := by
  rcases apart with before | after
  · exact .inl (by bv_omega)
  · exact .inr (by bv_omega)

/-- The left residual stays under the old entry, or the entry is dropped. -/
theorem Sound.makeRoom (sound : Sound k db lists) (member : e ∈ lists (some (.listed c)))
    (high : start ≤ (db.entries e).stop) :
    ∃ db' lists', (if (db.entries e).start < start then some (db.setStop e (start - 1))
        else (db.listRemove k e).map fun db => db.poolFree e) = some db' ∧ Sound k db' lists' ∧
      (∀ j, j ∈ lists' none ↔ j ∈ lists none) ∧ (∀ j ≠ e, db'.entries j = db.entries j) ∧
      (∀ d j, j ∈ lists' (some (.listed d)) → j ∈ lists (some (.listed d)) ∧
        (j = e → (db'.entries e).stop < start)) ∧
      ∀ d j, j ∈ lists (some (.listed d)) → j ≠ e → j ∈ lists' (some (.listed d)) := by
  split
  · rename_i residual
    refine ⟨_,lists,rfl,⟨sound.shape,fun d => ?_⟩,fun j => Iff.rfl,?_,?_,fun d j inside _ => inside⟩
    · exact (sound.sorted d).shrink (by bv_omega) (by bv_omega)
    · intro j other
      simp [other]
    · intro d j inside
      refine ⟨inside,fun _ => ?_⟩
      simp only [setStop_entries,Function.update_self]
      bv_omega
  · obtain ⟨db',lists',removed,done,entries,loose,listed⟩ := sound.listRemove member
    refine ⟨db',lists',removed,done,loose,fun j _ => by rw [entries],?_,?_⟩
    · intro d j inside
      obtain ⟨old,other⟩ := (listed d j).mp inside
      exact ⟨old,fun same => absurd same other⟩
    · intro d j inside other
      exact (listed d j).mpr ⟨inside,other⟩

theorem Sound.placeCarved (sound : Sound k db lists) (member : e ∈ lists (some (.listed c)))
    (loose : i ∈ lists none) (cls : (db.entries i).cls = c) (low : (db.entries e).start ≤ (db.entries i).start)
    (range : (db.entries i).start ≤ (db.entries i).stop) (high : (db.entries i).stop ≤ (db.entries e).stop) :
    ∃ db' lists', ((if (db.entries e).start < (db.entries i).start then
          some (db.setStop e ((db.entries i).start - 1))
        else (db.listRemove k e).map fun db => db.poolFree e).bind fun db => db.listInsert k i) = some db' ∧
      Sound k db' lists' ∧ (∀ j, j ∈ lists' none ↔ j ∈ lists none ∧ j ≠ i) ∧
      (∀ j ≠ e, db'.entries j = db.entries j) ∧
      (∀ d j, j ∈ lists (some (.listed d)) → j ≠ e → j ∈ lists' (some (.listed d))) ∧
      i ∈ lists' (some (.listed c)) ∧
      ∀ j ∈ lists' (some (.listed c)), j = i ∨ (j ≠ e ∧ j ∈ lists (some (.listed c))) ∨
        (j = e ∧ (db'.entries e).stop < (db.entries i).start) := by
  have notI : i ≠ e := (sound.threaded.other loose member).symm
  have known := ((sound.sorted c).cls e member).2
  have ends : (db.entries i).start ≤ (db.entries e).stop := by bv_omega
  obtain ⟨db₁,lists₁,made,sound₁,loose₁,entries₁,old₁,kept₁⟩ := sound.makeRoom member ends
  have carved₁ := entries₁ i notI
  have free : ∀ j ∈ lists₁ (some (.listed c)), (db₁.entries i).Apart (db₁.entries j) := by
    intro j inside
    obtain ⟨old,residual⟩ := old₁ c j inside
    rw [carved₁]
    by_cases same : j = e
    · subst same
      exact .inr (residual rfl)
    · rw [entries₁ j same]
      exact ((sound.sorted c).apart member old (Ne.symm same)).inside low high
  obtain ⟨db₂,lists₂,inserted,sound₂,entries₂,loose₂,listed₂⟩ := sound₁.listInsert (i := i) (c := c)
    ((loose₁ i).mpr loose) (by rw [carved₁]; exact cls) known (by rw [carved₁]; exact range) free
  refine ⟨db₂,lists₂,?_,sound₂,?_,?_,?_,(listed₂ c i).mpr (.inr ⟨rfl,rfl⟩),?_⟩
  · rw [made]
    exact inserted
  · intro j
    rw [loose₂,loose₁]
  · intro j other
    rw [entries₂,entries₁ j other]
  · intro d j inside other
    exact (listed₂ d j).mpr (.inl (kept₁ d j inside other))
  · intro j inside
    rcases (listed₂ c j).mp inside with before | ⟨-,same⟩
    · obtain ⟨old,residual⟩ := old₁ c j before
      by_cases same : j = e
      · exact .inr (.inr ⟨same,by rw [entries₂]; exact residual same⟩)
      · exact .inr (.inl ⟨same,old⟩)
    · exact .inl same

/-- What a carve leaves: the used entries as they were and the new entry among them. -/
structure Carved (k : Consts) (db : Database) (lists : Option Place → List Index) (c : Nat)
    (start stop : BitVec 64) (db' : Database) (lists' : Option Place → List Index) (i : Index) : Prop
    extends Tidy k db' lists' where
  keeps : Keeps db lists db' lists'
  listed : i ∈ lists' (some (.listed c))
  fresh : ∀ d, i ∉ lists (some (.listed d))
  bounds : (db'.entries i).start = start ∧ (db'.entries i).stop = stop

theorem Sound.carveEnd (sound : Sound k db lists) (member : e ∈ lists (some (.listed c)))
    (free : (db.entries e).owner = 0) (low : (db.entries e).start ≤ start) (range : start ≤ stop)
    (high : stop ≤ (db.entries e).stop) (loose : ∀ j, j ∈ lists none ↔ j = i) (owner flags : BitVec 32) :
    ∃ db' lists', db.carveInto k e start stop owner flags i none = some db' ∧
      Carved k db lists c start stop db' lists' i := by
  have looseI : i ∈ lists none := (loose i).mpr rfl
  have notI : e ≠ i := sound.threaded.other looseI member
  have cls := ((sound.sorted c).cls e member).1
  have written := sound.setEntry (sound.threaded.away looseI)
    ⟨start,stop,owner,(db.entries e).cls,((flags &&& k.flagMask) >>> 8).setWidth 16⟩
  obtain ⟨db',lists',placed,sound',loose',entries',kept',listed',-⟩ := written.placeCarved (i := i) member looseI
    (by simp [cls]) (by simpa [notI] using low) (by simpa using range) (by simpa [notI] using high)
  refine ⟨db',lists',?_,⟨⟨sound',?_⟩,?_,listed',sound.threaded.away looseI,?_⟩⟩
  · simp only [setEntry_entries,Function.update_self,Function.update_of_ne notI] at placed
    rw [Database.carveInto]
    obtain ⟨db₁,made,inserted⟩ := Option.bind_eq_some_iff.mp placed
    simp only [made,inserted,Option.bind_some]
  · intro j
    rw [loose',loose]
    simp
  · intro d j inside used
    have other : j ≠ e := fun same => used (same ▸ free)
    have notCarved : j ≠ i := sound.threaded.other looseI inside
    refine ⟨kept' d j inside other,?_⟩
    rw [entries' j other]
    simp [notCarved]
  · rw [entries' i notI.symm]
    simp

/-- A carve that leaves a right residual, in the entry `r`. -/
theorem Sound.carveMiddle (sound : Sound k db lists) (member : e ∈ lists (some (.listed c)))
    (free : (db.entries e).owner = 0) (low : (db.entries e).start ≤ start) (range : start ≤ stop)
    (high : stop < (db.entries e).stop) (loose : ∀ j, j ∈ lists none ↔ j = r ∨ j = i) (distinct : r ≠ i)
    (owner flags : BitVec 32) :
    ∃ db' lists', db.carveInto k e start stop owner flags i (some r) = some db' ∧
      Carved k db lists c start stop db' lists' i := by
  have looseI : i ∈ lists none := (loose i).mpr (.inr rfl)
  have looseR : r ∈ lists none := (loose r).mpr (.inl rfl)
  have notI : e ≠ i := sound.threaded.other looseI member
  have notR : e ≠ r := sound.threaded.other looseR member
  obtain ⟨cls,known⟩ := (sound.sorted c).cls e member
  have written := (sound.setEntry (sound.threaded.away looseI)
    ⟨start,stop,owner,(db.entries e).cls,((flags &&& k.flagMask) >>> 8).setWidth 16⟩).setEntry (sound.threaded.away looseR)
    ⟨stop + 1,(db.entries e).stop,0,(db.entries e).cls,0⟩
  obtain ⟨db₁,lists₁,placed,sound₁,loose₁,entries₁,kept₁,listed₁,origin₁⟩ := written.placeCarved (i := i)
    member looseI
    (by simp [cls,distinct.symm]) (by simpa [notI,notR,distinct.symm] using low)
    (by simpa [distinct.symm] using range) (by simpa [notI,notR,distinct.symm] using BitVec.le_of_lt high)
  have right₁ : db₁.entries r = ⟨stop + 1,(db.entries e).stop,0,c,0⟩ := by
    rw [entries₁ r notR.symm]
    simp [cls]
  have apart : ∀ j ∈ lists₁ (some (.listed c)), (db₁.entries r).Apart (db₁.entries j) := by
    intro j inside
    rw [right₁]
    rcases origin₁ j inside with rfl | ⟨other,old⟩ | ⟨rfl,residual⟩
    · rw [entries₁ j notI.symm]
      simp only [setEntry_entries,Function.update_of_ne distinct.symm,Function.update_self]
      right
      bv_omega
    · have notCarved : j ≠ i := by
        rintro rfl
        exact sound.threaded.away looseI c old
      have notRight : j ≠ r := by
        rintro rfl
        exact sound.threaded.away looseR c old
      rw [entries₁ j other]
      simp only [setEntry_entries,Function.update_of_ne notRight,Function.update_of_ne notCarved]
      refine ((sound.sorted c).apart member old other.symm).inside ?_ ?_
      · bv_omega
      · exact BitVec.le_refl _
    · right
      simp only [setEntry_entries,Function.update_of_ne distinct.symm,Function.update_self] at residual
      bv_omega
  obtain ⟨db₂,lists₂,inserted,sound₂,entries₂,loose₂,listed₂⟩ := sound₁.listInsert (i := r) (c := c)
    ((loose₁ r).mpr ⟨looseR,distinct⟩) (by rw [right₁]) known (by rw [right₁]; bv_omega) apart
  refine ⟨db₂,lists₂,?_,⟨⟨sound₂,?_⟩,?_,(listed₂ c i).mpr (.inl listed₁),sound.threaded.away looseI,?_⟩⟩
  · simp only [setEntry_entries,Function.update_self,Function.update_of_ne notI,Function.update_of_ne notR,
      Function.update_of_ne distinct.symm] at placed
    rw [Database.carveInto]
    obtain ⟨db₃,made,between⟩ := Option.bind_eq_some_iff.mp placed
    simp only [made,between,inserted,Option.bind_some]
  · intro j
    rw [loose₂,loose₁,loose]
    grind
  · intro d j inside used
    have other : j ≠ e := fun same => used (same ▸ free)
    have notCarved : j ≠ i := sound.threaded.other looseI inside
    have notRight : j ≠ r := sound.threaded.other looseR inside
    refine ⟨(listed₂ d j).mpr (.inl (kept₁ d j inside other)),?_⟩
    rw [entries₂,entries₁ j other]
    simp [notCarved,notRight]
  · rw [entries₂,entries₁ i notI.symm]
    simp [distinct.symm]

/-- Drawing an entry from the pool touches no list of a class. -/
theorem Sound.alloc_keeps (sound : Sound k db lists) (allocated : db.poolAlloc = some (db',i)) :
    ∃ lists', Sound k db' lists' ∧ Keeps db lists db' lists' ∧ (∀ j, j ∈ lists' none ↔ j = i ∨ j ∈ lists none) ∧
      i ∉ lists none ∧ (∀ c, lists' (some (.listed c)) = lists (some (.listed c))) ∧
      ∀ c, ∀ j ∈ lists (some (.listed c)), db'.entries j = db.entries j := by
  obtain ⟨rest,pooled⟩ := sound.threaded.pooled_of_alloc allocated
  obtain ⟨db₁,lists',taken,threaded,-,loose,listed,entries⟩ := sound.threaded.poolAlloc pooled
  obtain ⟨rfl,-⟩ := Prod.mk.inj (Option.some.inj (taken.symm.trans allocated))
  have unchanged : ∀ c, ∀ j ∈ lists (some (.listed c)), db₁.entries j = db.entries j := fun c j member => by
    rw [entries]
    exact sound.threaded.update_listed pooled .blank member
  refine ⟨lists',⟨threaded.shape,fun c => ?_⟩,fun c j member _ => ?_,by simp [loose],fun member =>
    ?_,listed,unchanged⟩
  · rw [listed]
    exact (sound.sorted c).congr (unchanged c)
  · exact ⟨by rwa [listed],unchanged c j member⟩
  · exact absurd (sound.shape.apart (p := some .pool) (by simp [pooled]) member) (by simp)

theorem Carved.before {db₁ : Database} {lists₁ : Option Place → List Index}
    (carved : Carved k db₁ lists₁ c start stop db' lists' i) (keeps : Keeps db lists db₁ lists₁)
    (listed : ∀ c, lists₁ (some (.listed c)) = lists (some (.listed c))) :
    Carved k db lists c start stop db' lists' i :=
  { carved with keeps := keeps.trans carved.keeps, fresh := fun d => listed d ▸ carved.fresh d }

/-- A carve inside a free range succeeds or finds the pool empty. -/
theorem Tidy.carve (tidy : Tidy k db lists) (member : e ∈ lists (some (.listed c)))
    (free : (db.entries e).owner = 0) (low : (db.entries e).start ≤ start) (range : start ≤ stop)
    (high : stop ≤ (db.entries e).stop) (owner flags : BitVec 32) :
    ∃ db' lists', (db.carve k e start stop owner flags = some (db',.error .enomem) ∧ Tidy k db' lists' ∧
        Keeps db lists db' lists') ∨
      (db.carve k e start stop owner flags = some (db',.ok ()) ∧
        ∃ i, Carved k db lists c start stop db' lists' i) := by
  unfold Database.carve
  cases first : db.poolAlloc with
  | none => exact ⟨db,lists,.inl ⟨rfl,tidy,Keeps.refl db lists⟩⟩
  | some hit =>
    obtain ⟨db₁,i⟩ := hit
    obtain ⟨lists₁,sound₁,keeps₁,loose₁,-,listed₁,same₁⟩ := tidy.toSound.alloc_keeps first
    have loose : ∀ j, j ∈ lists₁ none ↔ j = i := fun j => by simp [loose₁,tidy.settled]
    have member₁ : e ∈ lists₁ (some (.listed c)) := by rwa [listed₁]
    have range₁ := same₁ c e member
    dsimp only
    rw [range₁]
    split
    · rename_i more
      cases second : db₁.poolAlloc with
      | none =>
        obtain ⟨lists₂,sound₂,loose₂,listed₂⟩ := sound₁.poolFree ((loose i).mpr rfl)
        refine ⟨db₁.poolFree i,lists₂,.inl ⟨rfl,⟨sound₂,?_⟩,?_⟩⟩
        · intro j
          rw [loose₂,loose]
          simp
        · intro d j inside used
          obtain ⟨there,same⟩ := keeps₁ d j inside used
          exact ⟨by rwa [listed₂],same⟩
      | some hit =>
        obtain ⟨db₂,r⟩ := hit
        obtain ⟨lists₂,sound₂,keeps₂,loose₂,fresh₂,listed₂,same₂⟩ := sound₁.alloc_keeps second
        have range₂ : db₂.entries e = db.entries e := (same₂ c e member₁).trans range₁
        have distinct : r ≠ i := by
          rintro rfl
          exact fresh₂ ((loose r).mpr rfl)
        obtain ⟨db₃,lists₃,carved,leaves⟩ := sound₂.carveMiddle (i := i) (r := r) (listed₂ c ▸ member₁)
          (range₂ ▸ free) (range₂ ▸ low) range (range₂ ▸ more) (fun j => by rw [loose₂,loose]) distinct owner flags
        refine ⟨db₃,lists₃,.inr ⟨?_,i,leaves.before (keeps₁.trans keeps₂) fun d => ?_⟩⟩
        · simp only [carved,Option.map_some]
        · rw [listed₂,listed₁]
    · obtain ⟨db₃,lists₃,carved,leaves⟩ := sound₁.carveEnd (i := i) member₁ (range₁ ▸ free) (range₁ ▸ low) range
        (range₁ ▸ high) loose owner flags
      refine ⟨db₃,lists₃,.inr ⟨?_,i,leaves.before keeps₁ listed₁⟩⟩
      simp only [carved,Option.map_some]

end Qsoe.Rsrc
