import Qsoe.Lib.Segments
import Qsoe.Rsrc.Requests

/-! What the helpers of `rsrcdb.c` do to the ranges of a class, in whatever order the class list
is. The order matters only for where a range is put and which neighbours meet. -/
namespace Qsoe.Rsrc

open Linked Database

variable {k : Consts} {db db' : Database} {lists lists' : Option Place → List Index} {e i j : Index} {c : Nat}

def Entry.segment (x : Entry) : Segment (BitVec 32) := ⟨x.start.toNat,x.stop.toNat,x.owner⟩

/-- The ranges of class `c`, in the order of its list. -/
def segments (db : Database) (lists : Option Place → List Index) (c : Nat) : List (Segment (BitVec 32)) :=
  (lists (some (.listed c))).map fun i => (db.entries i).segment

theorem segments_congr (same : lists' (some (.listed c)) = lists (some (.listed c)))
    (kept : ∀ j ∈ lists (some (.listed c)), db'.entries j = db.entries j) :
    segments db' lists' c = segments db lists c := by
  rw [segments,same]
  exact List.map_congr_left fun j inside => by rw [kept j inside]

theorem map_update (once : (pre ++ e :: post).Nodup) (entries : Index → Entry) (x : Entry) :
    ((pre ++ e :: post).map fun i => (Function.update entries e x i).segment) =
      (pre.map fun i => (entries i).segment) ++ x.segment :: post.map fun i => (entries i).segment := by
  have notPre : ∀ i ∈ pre, i ≠ e := by
    rintro i inside rfl
    exact List.disjoint_of_nodup_append once inside List.mem_cons_self
  have notPost : ∀ i ∈ post, i ≠ e := by
    rintro i inside rfl
    exact (List.nodup_cons.mp (List.nodup_append.mp once).2.1).1 inside
  rw [List.map_append,List.map_cons,Function.update_self]
  congr 1
  · exact List.map_congr_left fun i inside => by rw [Function.update_of_ne (notPre i inside)]
  · congr 1
    exact List.map_congr_left fun i inside => by rw [Function.update_of_ne (notPost i inside)]

/-- How many entries a carve up to `stop` takes from the pool. -/
def pieces (x : Entry) (stop : BitVec 64) : Nat := if stop < x.stop then 2 else 1

/-- Neighbours of which the second starts at the word after the end of the first do so as numbers. -/
def Level (entries : Index → Entry) (xs : List Index) : Prop :=
  xs.Pairwise fun i j => (entries j).start = (entries i).stop + 1 → (entries i).stop.toNat + 1 =
    (entries j).start.toNat

theorem next_iff {x y : Entry} (level : y.start = x.stop + 1 → x.stop.toNat + 1 = y.start.toNat) :
    y.start = x.stop + 1 ↔ x.stop.toNat + 1 = y.start.toNat := by
  refine ⟨level,fun same => ?_⟩
  bv_omega

/-- In ascending order no range ends at the top of the address space but the last. -/
theorem Sorted.level {entries : Index → Entry} {xs : List Index} (sorted : Sorted k entries c xs) :
    Level entries xs := by
  apply sorted.order.imp
  intro i j before meets
  bv_omega

theorem Level.of_low {entries : Index → Entry} {xs : List Index}
    (low : ∀ i ∈ xs, (entries i).stop.toNat + 1 < 2 ^ 64) : Level entries xs := by
  apply List.pairwise_of_forall_mem_list
  intro i here j _ meets
  have room := low i here
  rw [meets]
  bv_omega

structure Held (k : Consts) (db : Database) (lists : Option Place → List Index) : Prop where
  shape : Shape db.next db.root lists
  cls : ∀ c, ∀ i ∈ lists (some (.listed c)), (db.entries i).cls = c ∧ c < k.typeCount
  proper : ∀ c, ∀ i ∈ lists (some (.listed c)), (db.entries i).start ≤ (db.entries i).stop

theorem Sound.held (sound : Sound k db lists) : Held k db lists :=
  ⟨sound.shape,fun c => (sound.sorted c).cls,fun c => (sound.sorted c).proper⟩

theorem Sound.ordered (sound : Sound k db lists) (c : Nat) : Segment.Ordered (segments db lists c) where
  proper s member := by
    obtain ⟨i,inside,rfl⟩ := List.mem_map.mp member
    exact (sound.sorted c).proper i inside
  order := List.pairwise_map.mpr ((sound.sorted c).order.imp fun before => before)

/-- The pointers leave no choice about the lists. -/
theorem Shape.lists_eq {next : Index → Option Index} {root : Place → Option Index} (shape : Shape next root lists)
    (other : Shape next root lists') (p : Place) : lists (some p) = lists' (some p) :=
  (shape.chain p).unique (other.chain p)

namespace Held

theorem threaded (held : Held k db lists) : Threaded k db lists := ⟨held.shape,held.cls⟩

theorem of_threaded (threaded : Threaded k db lists)
    (proper : ∀ c, ∀ i ∈ lists (some (.listed c)), (db.entries i).start ≤ (db.entries i).stop) : Held k db lists :=
  ⟨threaded.shape,threaded.cls,proper⟩

theorem setEntry (held : Held k db lists) (loose : i ∈ lists none) (x : Entry) : Held k (db.setEntry i x) lists :=
  .of_threaded (held.threaded.setEntry x (.inl (held.threaded.away loose))) fun c j member => by
    simpa [held.threaded.other loose member] using held.proper c j member

theorem setEntry_segments (held : Held k db lists) (loose : i ∈ lists none) (x : Entry) (c : Nat) :
    segments (db.setEntry i x) lists c = segments db lists c :=
  segments_congr rfl fun j member => by simp [held.threaded.other loose member]

theorem poolAlloc (held : Held k db lists) (pooled : lists (some .pool) = i :: rest) :
    ∃ db' lists', db.poolAlloc = some (db',i) ∧ Held k db' lists' ∧ lists' (some .pool) = rest ∧
      lists' none = i :: lists none ∧ (∀ c, lists' (some (.listed c)) = lists (some (.listed c))) ∧
      ∀ c, ∀ j ∈ lists (some (.listed c)), db'.entries j = db.entries j := by
  obtain ⟨db',lists',allocated,threaded,left,loose,same,entries⟩ := held.threaded.poolAlloc pooled
  have kept : ∀ c, ∀ j ∈ lists (some (.listed c)), db'.entries j = db.entries j := fun c j member => by
    rw [entries]
    exact held.threaded.update_listed pooled .blank member
  refine ⟨db',lists',allocated,.of_threaded threaded fun c j member => ?_,left,loose,same,kept⟩
  rw [same] at member
  rw [kept c j member]
  exact held.proper c j member

theorem poolFree (held : Held k db lists) (loose : i ∈ lists none) :
    ∃ lists', Held k (db.poolFree i) lists' ∧ lists' none = (lists none).filter (· ≠ i) ∧
      lists' (some .pool) = i :: lists (some .pool) ∧
      ∀ c, lists' (some (.listed c)) = lists (some (.listed c)) := by
  obtain ⟨lists',threaded,loose',pooled,same⟩ := held.threaded.poolFree loose
  refine ⟨lists',.of_threaded threaded fun c j member => ?_,loose',pooled,same⟩
  rw [same] at member
  exact held.proper c j member

theorem listInsert (held : Held k db lists) (loose : i ∈ lists none) (cls : (db.entries i).cls = c)
    (known : c < k.typeCount) (proper : (db.entries i).start ≤ (db.entries i).stop) :
    ∃ db' lists', db.listInsert k i = some db' ∧ Held k db' lists' ∧ db'.entries = db.entries ∧
      lists' none = (lists none).filter (· ≠ i) ∧
      (lists' (some (.listed c))).Perm (i :: lists (some (.listed c))) ∧
      ∀ d ≠ c, lists' (some (.listed d)) = lists (some (.listed d)) := by
  obtain ⟨db',lists',pre,post,inserted,threaded,entries,loose',split,put,-,-,rest⟩ :=
    held.threaded.listInsert loose cls known
  have perm : (lists' (some (.listed c))).Perm (i :: lists (some (.listed c))) := by
    rw [put,split]
    exact List.perm_middle
  refine ⟨db',lists',inserted,.of_threaded threaded fun d j member => ?_,entries,loose',perm,rest⟩
  rw [entries]
  by_cases same : d = c
  · subst same
    rcases List.mem_cons.mp (perm.subset member) with rfl | old
    · exact proper
    · exact held.proper d j old
  · rw [rest d same] at member
    exact held.proper d j member

/-- An entry taken off its list and given to the pool. -/
theorem listRemove (held : Held k db lists) (split : lists (some (.listed c)) = pre ++ e :: post) :
    ∃ db' lists', (db.listRemove k e).map (fun db => db.poolFree e) = some db' ∧ Held k db' lists' ∧
      db'.entries = db.entries ∧ lists' none = lists none ∧
      lists' (some (.listed c)) = pre ++ post ∧ ∀ d ≠ c, lists' (some (.listed d)) = lists (some (.listed d)) := by
  obtain ⟨db',lists',done,threaded,entries,loose,removed,others⟩ := held.threaded.listRemove split
  refine ⟨db',lists',done,.of_threaded threaded fun d j member => ?_,entries,loose,removed,others⟩
  rw [entries]
  exact held.proper d j ((held.threaded.mem_removed split removed others d j).mp member).1

/-- The entry between `pre` and `post` is rewritten, keeping its class. -/
theorem rewrite (held : Held k db lists) (split : lists (some (.listed c)) = pre ++ e :: post) (x : Entry)
    (cls : x.cls = (db.entries e).cls) (proper : x.start ≤ x.stop) :
    Held k (db.setEntry e x) lists ∧
      segments (db.setEntry e x) lists c = (pre.map fun i => (db.entries i).segment) ++ x.segment ::
        post.map (fun i => (db.entries i).segment) ∧
      ∀ d ≠ c, segments (db.setEntry e x) lists d = segments db lists d := by
  have once := (held.shape.chain (.listed c)).nodup
  rw [split] at once
  have here : e ∈ lists (some (.listed c)) := by simp [split]
  refine ⟨⟨held.shape,?_,?_⟩,?_,?_⟩
  · intro d i member
    by_cases same : i = e
    · subst same
      simpa [cls] using held.cls d i member
    · simpa [same] using held.cls d i member
  · intro d i member
    by_cases same : i = e
    · subst same
      simpa using proper
    · simpa [same] using held.proper d i member
  · rw [segments,split]
    exact map_update once db.entries x
  · intro d different
    apply List.map_congr_left
    intro i member
    have other : i ≠ e := by
      rintro rfl
      exact different (by simpa using held.shape.apart member here)
    simp [other]

/-- The left residue stays under the old entry, or the entry is dropped. -/
theorem makeRoom (held : Held k db lists) (split : lists (some (.listed c)) = pre ++ e :: post)
    (start : BitVec 64) :
    ∃ db' lists', (if (db.entries e).start < start then some (db.setStop e (start - 1))
        else (db.listRemove k e).map fun db => db.poolFree e) = some db' ∧ Held k db' lists' ∧
      lists' none = lists none ∧ (∀ j ≠ e, db'.entries j = db.entries j) ∧
      (segments db' lists' c).Perm ((if (db.entries e).segment.start < start.toNat then
          [⟨(db.entries e).segment.start,start.toNat - 1,(db.entries e).segment.label⟩] else []) ++
        (pre ++ post).map fun i => (db.entries i).segment) ∧
      ∀ d ≠ c, segments db' lists' d = segments db lists d := by
  have member : e ∈ lists (some (.listed c)) := by simp [split]
  split
  · rename_i residual
    have below : (db.entries e).segment.start < start.toNat := residual
    have less : (start - 1).toNat = start.toNat - 1 := by bv_omega
    obtain ⟨kept,same,others⟩ := held.rewrite split { db.entries e with stop := start - 1 } rfl
      (by dsimp only; bv_omega)
    refine ⟨_,lists,rfl,kept,rfl,fun j other => by simp [other],?_,others⟩
    rw [if_pos below]
    have cut : ({ db.entries e with stop := start - 1 } : Entry).segment =
        ⟨(db.entries e).segment.start,start.toNat - 1,(db.entries e).segment.label⟩ := by
      simp only [Entry.segment,less]
    rw [show db.setStop e (start - 1) = db.setEntry e { db.entries e with stop := start - 1 } from rfl,same,cut,
      List.map_append]
    exact List.perm_middle
  · rename_i whole
    have above : ¬ (db.entries e).segment.start < start.toNat := whole
    obtain ⟨db',lists',removed,done,entries,loose,there,others⟩ := held.listRemove split
    refine ⟨db',lists',removed,done,loose,fun j _ => by rw [entries],?_,?_⟩
    · rw [if_neg above,segments,there,entries]
      exact List.Perm.refl _
    · intro d different
      rw [segments,others d different,entries]
      rfl

theorem placeCarved (held : Held k db lists) (split : lists (some (.listed c)) = pre ++ e :: post)
    (loose : i ∈ lists none) (cls : (db.entries i).cls = c) (range : (db.entries i).start ≤ (db.entries i).stop) :
    ∃ db' lists', ((if (db.entries e).start < (db.entries i).start then
          some (db.setStop e ((db.entries i).start - 1))
        else (db.listRemove k e).map fun db => db.poolFree e).bind fun db => db.listInsert k i) = some db' ∧
      Held k db' lists' ∧ lists' none = (lists none).filter (· ≠ i) ∧ (∀ j ≠ e, db'.entries j = db.entries j) ∧
      (segments db' lists' c).Perm ((db.entries i).segment ::
        ((if (db.entries e).segment.start < (db.entries i).segment.start then
            [⟨(db.entries e).segment.start,(db.entries i).segment.start - 1,(db.entries e).segment.label⟩] else []) ++
          (pre ++ post).map fun i => (db.entries i).segment)) ∧
      ∀ d ≠ c, segments db' lists' d = segments db lists d := by
  have member : e ∈ lists (some (.listed c)) := by simp [split]
  have known := (held.cls c e member).2
  have notE : i ≠ e := (held.threaded.other loose member).symm
  obtain ⟨db₁,lists₁,made,held₁,loose₁,same₁,cut,others⟩ := held.makeRoom split (db.entries i).start
  have carved := same₁ i notE
  obtain ⟨db₂,lists₂,inserted,held₂,entries₂,loose₂,put,others₂⟩ := held₁.listInsert (i := i) (c := c)
    (by rwa [loose₁]) (by rwa [carved]) known (by rwa [carved])
  refine ⟨db₂,lists₂,?_,held₂,by rw [loose₂,loose₁],fun j other => by rw [entries₂,same₁ j other],?_,?_⟩
  · rw [made]
    exact inserted
  · have shown : (segments db₂ lists₂ c).Perm ((db.entries i).segment :: segments db₁ lists₁ c) := by
      rw [segments,segments,entries₂,← carved]
      exact put.map _
    exact shown.trans (cut.cons _)
  · intro d different
    rw [segments,others₂ d different,entries₂]
    exact others d different

theorem carveEnd (held : Held k db lists) (split : lists (some (.listed c)) = pre ++ e :: post)
    (range : start ≤ stop) (high : stop = (db.entries e).stop) (loose : lists none = [i])
    (owner flags : BitVec 32) :
    ∃ db' lists', db.carveInto k e start stop owner flags i none = some db' ∧ Held k db' lists' ∧ lists' none = [] ∧
      (segments db' lists' c).Perm (⟨start.toNat,stop.toNat,owner⟩ ::
        (Segment.residues (db.entries e).segment start.toNat stop.toNat ++
          (pre ++ post).map fun i => (db.entries i).segment)) ∧
      ∀ d ≠ c, segments db' lists' d = segments db lists d := by
  have member : e ∈ lists (some (.listed c)) := by simp [split]
  have looseI : i ∈ lists none := by simp [loose]
  have notI : e ≠ i := held.threaded.other looseI member
  have cls := (held.cls c e member).1
  have written := held.setEntry looseI ⟨start,stop,owner,(db.entries e).cls,
    ((flags &&& k.flagMask) >>> 8).setWidth 16⟩
  have kept := held.setEntry_segments looseI
    ⟨start,stop,owner,(db.entries e).cls,((flags &&& k.flagMask) >>> 8).setWidth 16⟩
  have rest : ((pre ++ post).map fun j => ((db.setEntry i
      ⟨start,stop,owner,(db.entries e).cls,((flags &&& k.flagMask) >>> 8).setWidth 16⟩).entries j).segment) =
      (pre ++ post).map fun j => (db.entries j).segment := by
    apply List.map_congr_left
    intro j inside
    have listed : j ∈ lists (some (.listed c)) := by
      rw [split]
      simp only [List.mem_append,List.mem_cons] at inside ⊢
      grind
    simp [held.threaded.other looseI listed]
  obtain ⟨db',lists',placed,held',loose',-,shown,others⟩ := written.placeCarved (i := i) split looseI
    (by simp [cls]) (by simpa using range)
  refine ⟨db',lists',?_,held',by simp [loose',loose],?_,fun d different => (others d different).trans (kept d)⟩
  · simp only [setEntry_entries,Function.update_self,Function.update_of_ne notI] at placed
    rw [Database.carveInto]
    obtain ⟨db₁,made,inserted⟩ := Option.bind_eq_some_iff.mp placed
    simp only [made,inserted,Option.bind_some]
  · rw [rest] at shown
    simp only [setEntry_entries,Function.update_self,Function.update_of_ne notI] at shown
    have whole : ¬ stop.toNat < (db.entries e).segment.stop := by simp [Entry.segment,high]
    rw [Segment.residues,if_neg whole,List.append_nil]
    exact shown

/-- A carve that leaves a right residue, in the entry `r`. -/
theorem carveMiddle (held : Held k db lists) (split : lists (some (.listed c)) = pre ++ e :: post)
    (free : (db.entries e).owner = 0) (range : start ≤ stop) (high : stop < (db.entries e).stop)
    (loose : lists none = [r,i]) (distinct : r ≠ i) (owner flags : BitVec 32) :
    ∃ db' lists', db.carveInto k e start stop owner flags i (some r) = some db' ∧ Held k db' lists' ∧
      lists' none = [] ∧
      (segments db' lists' c).Perm (⟨start.toNat,stop.toNat,owner⟩ ::
        (Segment.residues (db.entries e).segment start.toNat stop.toNat ++
          (pre ++ post).map fun i => (db.entries i).segment)) ∧
      ∀ d ≠ c, segments db' lists' d = segments db lists d := by
  have member : e ∈ lists (some (.listed c)) := by simp [split]
  have looseI : i ∈ lists none := by simp [loose]
  have looseR : r ∈ lists none := by simp [loose]
  have notI : e ≠ i := held.threaded.other looseI member
  have notR : e ≠ r := held.threaded.other looseR member
  obtain ⟨cls,known⟩ := held.cls c e member
  generalize new : (⟨start,stop,owner,(db.entries e).cls,((flags &&& k.flagMask) >>> 8).setWidth 16⟩ : Entry) = x
  generalize left : (⟨stop + 1,(db.entries e).stop,0,(db.entries e).cls,0⟩ : Entry) = y
  have written := (held.setEntry looseI x).setEntry looseR y
  have kept : ∀ d, segments ((db.setEntry i x).setEntry r y) lists d = segments db lists d := fun d =>
    ((held.setEntry looseI x).setEntry_segments looseR y d).trans (held.setEntry_segments looseI x d)
  have rest : ((pre ++ post).map fun j => (((db.setEntry i x).setEntry r y).entries j).segment) =
      (pre ++ post).map fun j => (db.entries j).segment := by
    apply List.map_congr_left
    intro j inside
    have listed : j ∈ lists (some (.listed c)) := by
      rw [split]
      simp only [List.mem_append,List.mem_cons] at inside ⊢
      grind
    simp [held.threaded.other looseI listed,held.threaded.other looseR listed]
  have entryI : ((db.setEntry i x).setEntry r y).entries i = x := by simp [distinct.symm]
  have entryE : ((db.setEntry i x).setEntry r y).entries e = db.entries e := by simp [notI,notR]
  have entryR : ((db.setEntry i x).setEntry r y).entries r = y := by simp
  obtain ⟨db₁,lists₁,placed,held₁,loose₁,same₁,shown,others⟩ := written.placeCarved (i := i) split looseI
    (by rw [entryI,← new]; exact cls) (by rw [entryI,← new]; exact range)
  have right₁ : db₁.entries r = y := (same₁ r notR.symm).trans entryR
  have order : (stop + 1).toNat = stop.toNat + 1 := by bv_omega
  obtain ⟨db₂,lists₂,inserted,held₂,entries₂,loose₂,put,others₂⟩ := held₁.listInsert (i := r) (c := c)
    (by simp [loose₁,loose,distinct]) (by rw [right₁,← left]; exact cls) known
    (by rw [right₁,← left]; dsimp only; bv_omega)
  refine ⟨db₂,lists₂,?_,held₂,by simp [loose₂,loose₁,loose,distinct],?_,?_⟩
  · rw [entryI,entryE] at placed
    rw [Database.carveInto]
    obtain ⟨db₃,made,between⟩ := Option.bind_eq_some_iff.mp placed
    subst new left
    simp only [made,between,inserted,Option.bind_some]
  · have last : (segments db₂ lists₂ c).Perm (y.segment :: segments db₁ lists₁ c) := by
      rw [segments,segments,entries₂,← right₁]
      exact put.map _
    rw [rest,entryI,entryE] at shown
    have more : stop.toNat < (db.entries e).segment.stop := high
    have residue : y.segment = ⟨stop.toNat + 1,(db.entries e).segment.stop,(db.entries e).segment.label⟩ := by
      rw [← left]
      simp only [Entry.segment,order,free]
    have first : x.segment = ⟨start.toNat,stop.toNat,owner⟩ := by rw [← new]; rfl
    rw [residue] at last
    rw [first] at shown
    rw [Segment.residues,if_pos more,List.append_assoc]
    refine last.trans ((shown.cons _).trans ?_)
    refine (List.Perm.swap ..).trans (List.Perm.cons _ ?_)
    exact List.perm_middle.symm
  · intro d different
    rw [segments,others₂ d different,entries₂]
    exact (others d different).trans (kept d)

/-- A carve takes its range out of the free entry, wherever the range starts, if the pool has the
entries for it. -/
theorem carve (held : Held k db lists) (settled : lists none = [])
    (split : lists (some (.listed c)) = pre ++ e :: post) (free : (db.entries e).owner = 0) (range : start ≤ stop)
    (high : stop ≤ (db.entries e).stop) (owner flags : BitVec 32) :
    ∃ db' lists', Held k db' lists' ∧ lists' none = [] ∧
      (((lists (some .pool)).length < pieces (db.entries e) stop ∧
        db.carve k e start stop owner flags = some (db',.error .enomem) ∧
        ∀ d, segments db' lists' d = segments db lists d) ∨
      (pieces (db.entries e) stop ≤ (lists (some .pool)).length ∧
        db.carve k e start stop owner flags = some (db',.ok ()) ∧
        (segments db' lists' c).Perm (⟨start.toNat,stop.toNat,owner⟩ ::
          (Segment.residues (db.entries e).segment start.toNat stop.toNat ++
            (pre ++ post).map fun i => (db.entries i).segment)) ∧
        ∀ d ≠ c, segments db' lists' d = segments db lists d)) := by
  have member : e ∈ lists (some (.listed c)) := by simp [split]
  have inside : ∀ j ∈ pre ++ post, j ∈ lists (some (.listed c)) := by
    intro j here
    rw [split]
    simp only [List.mem_append,List.mem_cons] at here ⊢
    grind
  unfold Database.carve pieces
  cases pooled : lists (some .pool) with
  | nil =>
    refine ⟨db,lists,held,settled,.inl ⟨?_,?_,fun _ => rfl⟩⟩
    · split <;> simp
    · rw [held.threaded.poolAlloc_none pooled]
  | cons i rest =>
    obtain ⟨db₁,lists₁,first,held₁,pool₁,loose₁,same₁,kept₁⟩ := held.poolAlloc pooled
    have split₁ : lists₁ (some (.listed c)) = pre ++ e :: post := (same₁ c).trans split
    rw [first]
    dsimp only
    rw [kept₁ c e member]
    split
    · rename_i more
      cases rest with
      | nil =>
        obtain ⟨lists₂,held₂,loose₂,-,same₂⟩ := held₁.poolFree (i := i) (by simp [loose₁])
        refine ⟨db₁.poolFree i,lists₂,held₂,by simp [loose₂,loose₁,settled],.inl ⟨by simp,?_,fun d => ?_⟩⟩
        · rw [held₁.threaded.poolAlloc_none pool₁]
        · exact segments_congr ((same₂ d).trans (same₁ d)) (kept₁ d)
      | cons r rest =>
        obtain ⟨db₂,lists₂,second,held₂,pool₂,loose₂,same₂,kept₂⟩ := held₁.poolAlloc pool₁
        have distinct : r ≠ i := by
          have once := (held.shape.chain .pool).nodup
          rw [pooled] at once
          rintro rfl
          simp at once
        have kept : ∀ j ∈ lists (some (.listed c)), db₂.entries j = db.entries j := fun j here =>
          (kept₂ c j (by rwa [same₁])).trans (kept₁ c j here)
        obtain ⟨db₃,lists₃,carved,held₃,settled₃,shown,others⟩ := held₂.carveMiddle ((same₂ c).trans split₁)
          (by rw [kept e member]; exact free) range (by rw [kept e member]; exact more)
          (by rw [loose₂,loose₁,settled]) distinct owner flags
        rw [second]
        refine ⟨db₃,lists₃,held₃,settled₃,.inr ⟨by simp,?_,?_,fun d different => ?_⟩⟩
        · simp only [carved,Option.map_some]
        · rw [kept e member] at shown
          rwa [List.map_congr_left fun j here => congrArg Entry.segment (kept j (inside j here))] at shown
        · exact (others d different).trans (segments_congr ((same₂ d).trans (same₁ d)) fun j here =>
            (kept₂ d j (by rwa [same₁])).trans (kept₁ d j here))
    · rename_i whole
      have ends : stop = (db₁.entries e).stop := by
        rw [kept₁ c e member]
        bv_omega
      obtain ⟨db₂,lists₂,carved,held₂,settled₂,shown,others⟩ := held₁.carveEnd split₁ range ends
        (by rw [loose₁,settled]) owner flags
      refine ⟨db₂,lists₂,held₂,settled₂,.inr ⟨by simp,by rw [carved]; rfl,?_,fun d different => ?_⟩⟩
      · rw [kept₁ c e member] at shown
        rwa [List.map_congr_left fun j here => congrArg Entry.segment (kept₁ c j (inside j here))] at shown
      · exact (others d different).trans (segments_congr (same₁ d) (kept₁ d))

/-- The entry `e` takes over its successor `i`. -/
theorem absorb (held : Held k db lists) (split : lists (some (.listed c)) = pre ++ e :: i :: post)
    (follows : (db.entries e).start ≤ (db.entries i).stop) :
    ∃ lists', Held k (db.absorb e i) lists' ∧ lists' none = lists none ∧
      lists' (some (.listed c)) = pre ++ e :: post ∧
      (db.absorb e i).entries = Function.update db.entries e { db.entries e with stop := (db.entries i).stop } ∧
      segments (db.absorb e i) lists' c = (pre.map fun j => (db.entries j).segment) ++
        ⟨(db.entries e).segment.start,(db.entries i).segment.stop,(db.entries e).segment.label⟩ ::
          post.map (fun j => (db.entries j).segment) ∧
      ∀ d ≠ c, segments (db.absorb e i) lists' d = segments db lists d := by
  obtain ⟨held₁,-,others⟩ := held.rewrite split { db.entries e with stop := (db.entries i).stop } rfl follows
  obtain ⟨lists',threaded,loose,kept,same,entries⟩ := held.threaded.absorb split
  have once := threaded.once kept
  have members : ∀ d j, j ∈ lists' (some (.listed d)) → j ∈ lists (some (.listed d)) := by
    intro d j member
    by_cases here : d = c
    · subst here
      rw [kept] at member
      rw [split]
      simp only [List.mem_append,List.mem_cons] at member ⊢
      grind
    · rwa [same d here] at member
  refine ⟨lists',.of_threaded threaded fun d j member => held₁.proper d j (members d j member),loose,
    kept,entries,?_,
    fun d different => ?_⟩
  · rw [segments,kept]
    exact map_update once db.entries { db.entries e with stop := (db.entries i).stop }
  · exact (segments_congr (same d different) fun _ _ => rfl).trans (others d different)

theorem mergeRight (held : Held k db lists) (split : lists (some (.listed c)) = pre ++ e :: post)
    (level : Level db.entries (pre ++ e :: post)) :
    ∃ lists' post', Held k (db.mergeRight e) lists' ∧ lists' none = lists none ∧
      lists' (some (.listed c)) = pre ++ e :: post' ∧
      (∀ d ≠ c, segments (db.mergeRight e) lists' d = segments db lists d) ∧
      (∀ j ≠ e, (db.mergeRight e).entries j = db.entries j) ∧
      ((db.mergeRight e).entries e).start = (db.entries e).start ∧
      (((db.mergeRight e).entries e).segment,post'.map fun j => (db.entries j).segment) =
        Segment.joinRight 0 (db.entries e).segment (post.map fun j => (db.entries j).segment) := by
  have chain := held.shape.chain (.listed c)
  rw [split] at chain
  obtain ⟨mid,-,tail⟩ := chain.drop
  have next := tail.head_eq
  unfold Database.mergeRight
  cases post with
  | nil =>
    rw [next]
    exact ⟨lists,[],held,rfl,split,fun _ _ => rfl,fun _ _ => rfl,rfl,rfl⟩
  | cons r post =>
    rw [next]
    dsimp only [List.head?_cons]
    have meets := next_iff ((List.pairwise_cons.mp (List.pairwise_append.mp level).2.1).1 r List.mem_cons_self)
    have same : ((db.entries r).segment.label = 0 ∧ (db.entries e).segment.stop + 1 =
      (db.entries r).segment.start) ↔
        ((db.entries r).owner = 0 ∧ (db.entries r).start = (db.entries e).stop + 1) :=
          and_congr_right fun _ => meets.symm
    rw [List.map_cons,Segment.joinRight]
    split
    · rename_i fits
      have range := held.proper c e (by simp [split])
      have range' := held.proper c r (by simp [split])
      obtain ⟨lists',merged,loose,kept,entries,-,others⟩ := held.absorb split (by bv_omega)
      refine ⟨lists',post,merged,loose,kept,others,fun j other => by rw [entries]; simp [other],?_,?_⟩
      · rw [entries]
        simp
      · rw [if_pos (same.mpr fits),entries]
        simp [Entry.segment]
    · rename_i unfit
      rw [if_neg fun fits => unfit (same.mp fits)]
      exact ⟨lists,r :: post,held,rfl,split,fun _ _ => rfl,fun _ _ => rfl,rfl,rfl⟩

theorem mergeLeft (held : Held k db lists) (split : lists (some (.listed c)) = pre ++ e :: post)
    (level : ∀ p ∈ pre, (db.entries e).start = (db.entries p).stop + 1 →
      (db.entries p).stop.toNat + 1 = (db.entries e).start.toNat) :
    ∃ lists', Held k (db.mergeLeft pre.getLast? e) lists' ∧ lists' none = lists none ∧
      segments (db.mergeLeft pre.getLast? e) lists' c =
        Segment.joinLeft 0 (pre.map fun j => (db.entries j).segment) (db.entries e).segment ++
          post.map (fun j => (db.entries j).segment) ∧
      ∀ d ≠ c, segments (db.mergeLeft pre.getLast? e) lists' d = segments db lists d := by
  unfold Database.mergeLeft
  rcases List.eq_nil_or_concat pre with rfl | ⟨before,p,rfl⟩
  · refine ⟨lists,held,rfl,?_,fun _ _ => rfl⟩
    rw [segments,split]
    rfl
  · rw [List.concat_eq_append] at split level ⊢
    rw [List.getLast?_append_cons,List.getLast?_singleton,List.map_append,List.map_singleton,
      Segment.joinLeft_concat]
    dsimp only
    have meets := next_iff (level p (by simp))
    have same : ((db.entries p).segment.label = 0 ∧ (db.entries p).segment.stop + 1 =
      (db.entries e).segment.start) ↔
        ((db.entries p).owner = 0 ∧ (db.entries p).stop + 1 = (db.entries e).start) :=
      and_congr_right fun _ => meets.symm.trans eq_comm
    have split' : lists (some (.listed c)) = before ++ p :: e :: post := by simp [split]
    split
    · rename_i fits
      have range := held.proper c e (by simp [split])
      have range' := held.proper c p (by simp [split])
      have numbers : (db.entries p).stop.toNat + 1 = (db.entries e).start.toNat := meets.mp fits.2.symm
      obtain ⟨lists',merged,loose,-,-,shown,others⟩ := held.absorb split' (by bv_omega)
      refine ⟨lists',merged,loose,?_,others⟩
      rw [if_pos (same.mpr fits),shown]
      simp
    · rename_i unfit
      rw [if_neg fun fits => unfit (same.mp fits)]
      refine ⟨lists,held,rfl,?_,fun _ _ => rfl⟩
      rw [segments,split]
      simp

theorem mergeNeighbours (held : Held k db lists) (split : lists (some (.listed c)) = pre ++ e :: post)
    (level : Level db.entries (pre ++ e :: post)) :
    ∃ db' lists', db.mergeNeighbours e = some db' ∧ Held k db' lists' ∧ lists' none = lists none ∧
      segments db' lists' c = Segment.join 0 (pre.map fun j => (db.entries j).segment) (db.entries e).segment
        (post.map fun j => (db.entries j).segment) ∧
      ∀ d ≠ c, segments db' lists' d = segments db lists d := by
  have cls := (held.cls c e (by simp [split])).1
  have found := held.threaded.walk_to split
  have once := (held.shape.chain (.listed c)).nodup
  rw [split] at once
  have notPre : ∀ p ∈ pre, p ≠ e := by
    rintro p inside rfl
    exact List.disjoint_of_nodup_append once inside List.mem_cons_self
  obtain ⟨lists₁,post₁,held₁,loose₁,split₁,others₁,same₁,start₁,right⟩ := held.mergeRight split level
  have once₁ := (held₁.shape.chain (.listed c)).nodup
  rw [split₁] at once₁
  have notPost : ∀ p ∈ post₁, p ≠ e := by
    rintro p inside rfl
    exact (List.nodup_cons.mp (List.nodup_append.mp once₁).2.1).1 inside
  obtain ⟨lists₂,held₂,loose₂,left,others₂⟩ := held₁.mergeLeft split₁ fun p inside meets => by
    rw [same₁ p (notPre p inside),start₁] at meets ⊢
    exact (List.pairwise_append.mp level).2.2 p inside e List.mem_cons_self meets
  refine ⟨(db.mergeRight e).mergeLeft pre.getLast? e,lists₂,by simp [Database.mergeNeighbours,cls,found],held₂,
    loose₂.trans loose₁,?_,fun d different => (others₂ d different).trans (others₁ d different)⟩
  rw [left,Segment.join,← right]
  dsimp only
  congr 1
  · rw [List.map_congr_left fun p inside => congrArg Entry.segment (same₁ p (notPre p inside))]
  · exact List.map_congr_left fun p inside => congrArg Entry.segment (same₁ p (notPost p inside))

/-- An entry is made free and joined to its neighbours. -/
theorem disown (held : Held k db lists) (split : lists (some (.listed c)) = pre ++ e :: post)
    (level : Level db.entries (pre ++ e :: post)) (flags : BitVec 16) :
    ∃ db' lists', (db.setEntry e { db.entries e with owner := 0, flags := flags }).mergeNeighbours e = some db' ∧
      Held k db' lists' ∧ lists' none = lists none ∧
      segments db' lists' c = Segment.join 0 (pre.map fun j => (db.entries j).segment)
        ⟨(db.entries e).segment.start,(db.entries e).segment.stop,0⟩ (post.map fun j => (db.entries j).segment) ∧
      ∀ d ≠ c, segments db' lists' d = segments db lists d := by
  have proper := held.proper c e (by simp [split])
  obtain ⟨held₁,shown,others⟩ := held.rewrite split { db.entries e with owner := 0, flags := flags } rfl proper
  have once := (held.shape.chain (.listed c)).nodup
  rw [split] at once
  have ends : ∀ j, ((db.setEntry e { db.entries e with owner := 0, flags := flags }).entries j).start =
    (db.entries j).start ∧
      ((db.setEntry e { db.entries e with owner := 0, flags := flags }).entries j).stop = (db.entries j).stop := by
    intro j
    by_cases same : j = e
    · subst same
      simp
    · simp [same]
  have level₁ : Level (db.setEntry e { db.entries e with owner := 0, flags := flags }).entries
    (pre ++ e :: post) := by
    apply level.imp
    intro i j meets
    rwa [(ends i).2,(ends j).1]
  obtain ⟨db',lists',merged,held',loose,joined,rest⟩ := held₁.mergeNeighbours split level₁
  refine ⟨db',lists',merged,held',loose,?_,fun d different => (rest d different).trans (others d different)⟩
  rw [joined]
  have kept : ∀ j ∈ pre ++ post, (db.setEntry e { db.entries e with owner := 0, flags := flags }).entries j =
    db.entries j := by
    intro j inside
    have other : j ≠ e := by
      rintro rfl
      rcases List.mem_append.mp inside with before | after
      · exact List.disjoint_of_nodup_append once before List.mem_cons_self
      · exact (List.nodup_cons.mp (List.nodup_append.mp once).2.1).1 after
    simp [other]
  rw [List.map_congr_left fun j inside => congrArg Entry.segment (kept j (List.mem_append_left _ inside)),
    List.map_congr_left fun j inside => congrArg Entry.segment (kept j (List.mem_append_right _ inside))]
  simp [Entry.segment]

end Held

end Qsoe.Rsrc
