import Mathlib.Algebra.BigOperators.Group.Finset.Basic
import Qsoe.Rsrc.Grants

/-! Batches of attaches, and what takes them back: the rollback of a failed batch and the detach of
a granted one. Both free the shares of the batch one after the other, in whatever order, and the
ranges are those from before as soon as none is left. -/
namespace Qsoe.Rsrc

open Linked Database
open Segment (At Ordered Coalesced Cuts join freed_join)

variable {k : Consts} {db db' : Database} {lists lists' : Option Place → List Index} {e i j : Index} {c : Nat}

structure Share where
  cls : Nat
  low : Nat
  high : Nat
  deriving DecidableEq

def Share.Covers (g : Share) (c n : Nat) : Prop := g.cls = c ∧ g.low ≤ n ∧ n ≤ g.high

def Share.segment (g : Share) (caller : BitVec 32) : Segment (BitVec 32) := ⟨g.low,g.high,caller⟩

/-- The ranges `now` are those `before` with `shares` cut out of free ones for the caller. -/
structure Shared (caller : BitVec 32) (before now : Nat → List (Segment (BitVec 32)))
    (shares : List Share) : Prop where
  free : ∀ c n, At (now c) n 0 ↔ At (before c) n 0 ∧ ¬ ∃ g ∈ shares, g.Covers c n
  inside : ∀ g ∈ shares, g.low ≤ g.high ∧ ∀ n, g.low ≤ n → n ≤ g.high → At (before g.cls) n 0
  used : ∀ c t, t.label ≠ 0 → (t ∈ now c ↔ t ∈ before c ∨ ∃ g ∈ shares, g.cls = c ∧ t = g.segment caller)
  once : shares.Nodup

namespace Shared

variable {caller : BitVec 32} {before now now' : Nat → List (Segment (BitVec 32))} {shares : List Share} {g : Share}

theorem refl (caller : BitVec 32) (before : Nat → List (Segment (BitVec 32))) : Shared caller before before [] :=
  ⟨by simp,by simp,by simp,.nil⟩

theorem perm {shares' : List Share} (shared : Shared caller before now shares) (same : shares.Perm shares') :
    Shared caller before now shares' where
  free c n := by simpa [same.mem_iff] using shared.free c n
  inside g member := shared.inside g (same.mem_iff.mpr member)
  used c t label := by simpa [same.mem_iff] using shared.used c t label
  once := same.nodup_iff.mp shared.once

/-- With no share left every address has the label it had. -/
theorem labels (shared : Shared caller before now []) (c n : Nat) (b : BitVec 32) :
    At (now c) n b ↔ At (before c) n b := by
  by_cases label : b = 0
  · subst label
    simpa using shared.free c n
  · have used : ∀ t : Segment (BitVec 32), t.label = b → (t ∈ now c ↔ t ∈ before c) := fun t same => by
      simpa using shared.used c t (same ▸ label)
    constructor
    · rintro ⟨t,there,same,range⟩
      exact ⟨t,(used t same).mp there,same,range⟩
    · rintro ⟨t,there,same,range⟩
      exact ⟨t,(used t same).mpr there,same,range⟩

/-- With no share left the ranges are the same, if no two free ones meet. -/
theorem restored (shared : Shared caller before now []) (ordered : ∀ c, Ordered (before c))
    (ordered' : ∀ c, Ordered (now c)) (coalesced : ∀ c, Coalesced 0 (before c))
    (coalesced' : ∀ c, Coalesced 0 (now c)) (c : Nat) : now c = before c :=
  (coalesced' c).unique (coalesced c) (ordered' c) (ordered c) (fun n => shared.labels c n 0)
    fun t label => by simpa using shared.used c t label

/-- Every address that is labelled now was labelled before. -/
theorem origin (shared : Shared caller before now shares) (here : At (now c) n b) : ∃ b', At (before c) n b' := by
  by_cases label : b = 0
  · subst label
    exact ⟨0,((shared.free c n).mp here).1⟩
  · obtain ⟨t,there,rfl,range⟩ := here
    rcases (shared.used c t label).mp there with old | ⟨g,share,rfl,rfl⟩
    · exact ⟨_,t,old,rfl,range⟩
    · exact ⟨0,(shared.inside g share).2 n range.1 range.2⟩

theorem cut (shared : Shared caller before now shares) (ordered : Ordered (now c)) (real : caller ≠ 0)
    (cuts : Cuts 0 caller low high (now c) (now' c)) (others : ∀ d ≠ c, now' d = now d) :
    Shared caller before now' (shares ++ [⟨c,low,high⟩]) := by
  obtain ⟨range,freed⟩ := cuts.inside
  refine ⟨fun d n => ?_,?_,fun d t label => ?_,?_⟩
  · have either : (∃ g ∈ shares ++ [⟨c,low,high⟩], g.Covers d n) ↔
        (∃ g ∈ shares, g.Covers d n) ∨ (d = c ∧ low ≤ n ∧ n ≤ high) := by
      simp [Share.Covers,or_and_right,exists_or,eq_comm]
    rw [either]
    by_cases same : d = c
    · subst same
      rw [cuts.freed ordered real,shared.free]
      simp only [true_and,not_or,and_assoc]
    · rw [others d same,shared.free]
      simp only [same,false_and,or_false]
  · intro g member
    rcases List.mem_append.mp member with old | new
    · exact shared.inside g old
    · obtain rfl := List.mem_singleton.mp new
      exact ⟨range,fun n first last => ((shared.free c n).mp (freed n first last)).1⟩
  · have either : (∃ g ∈ shares ++ [⟨c,low,high⟩], g.cls = d ∧ t = g.segment caller) ↔
        (∃ g ∈ shares, g.cls = d ∧ t = g.segment caller) ∨ (d = c ∧ t = ⟨low,high,caller⟩) := by
      simp [Share.segment,or_and_right,exists_or,eq_comm]
    rw [either]
    by_cases same : d = c
    · subst same
      rw [cuts.used t label,shared.used d t label]
      simp only [true_and,or_assoc]
    · rw [others d same,shared.used d t label]
      simp only [same,false_and,or_false]
  · refine List.nodup_append.mpr ⟨shared.once,by simp,?_⟩
    intro a old b new
    obtain rfl := List.mem_singleton.mp new
    rintro rfl
    exact ((shared.free c low).mp (freed low le_rfl range)).2 ⟨_,old,rfl,le_rfl,range⟩

/-- The share `g` is made free again. -/
theorem giveBack (shared : Shared caller before now shares) (member : g ∈ shares) (real : caller ≠ 0)
    (ordered : Ordered (before g.cls)) (ordered' : Ordered (now g.cls))
    (split : now g.cls = pre ++ g.segment caller :: post)
    (joined : now' g.cls = join 0 pre ⟨g.low,g.high,0⟩ post) (others : ∀ d ≠ g.cls, now' d = now d) :
    Shared caller before now' (shares.erase g) := by
  rw [split] at ordered'
  obtain ⟨-,freed,used,-⟩ := freed_join ordered' real
  obtain ⟨range,inside⟩ := shared.inside g member
  have listed : g.segment caller ∈ now g.cls := by simp [split]
  have whole := ordered'
  rw [← split] at whole
  -- the shares of one class are ranges of one ordered list
  have apart : ∀ h ∈ shares, ∀ n, h.Covers g.cls n → g.low ≤ n → n ≤ g.high → h = g := by
    rintro h other n ⟨cls,low,high⟩ first last
    have there : h.segment caller ∈ now g.cls := (shared.used g.cls _ real).mpr (.inr ⟨h,other,cls,rfl⟩)
    have same := whole.same there listed (n := n) ⟨low,high⟩ ⟨first,last⟩
    cases h
    cases g
    simp_all [Share.segment]
  have kept : ∀ h, h ∈ shares.erase g ↔ h ∈ shares ∧ h ≠ g := fun h => by
    rw [shared.once.mem_erase_iff,and_comm]
  have start : (g.segment caller).start = g.low := rfl
  have stop : (g.segment caller).stop = g.high := rfl
  refine ⟨fun d n => ?_,fun h rest => shared.inside h ((kept h).mp rest).1,fun d t label => ?_,shared.once.erase g⟩
  · by_cases same : d = g.cls
    · subst same
      rw [joined]
      rw [start,stop] at freed
      rw [freed,← split,shared.free]
      constructor
      · rintro (⟨old,nothing⟩ | ⟨first,last⟩)
        · exact ⟨old,fun ⟨h,rest,covers⟩ => nothing ⟨h,((kept h).mp rest).1,covers⟩⟩
        · refine ⟨inside n first last,?_⟩
          rintro ⟨h,rest,covers⟩
          exact ((kept h).mp rest).2 (apart h ((kept h).mp rest).1 n covers first last)
      · rintro ⟨old,nothing⟩
        by_cases covered : g.low ≤ n ∧ n ≤ g.high
        · exact .inr covered
        · refine .inl ⟨old,?_⟩
          rintro ⟨h,other,covers⟩
          refine nothing ⟨h,(kept h).mpr ⟨other,?_⟩,covers⟩
          rintro rfl
          exact covered ⟨covers.2.1,covers.2.2⟩
    · rw [others d same,shared.free]
      refine and_congr_right fun _ => not_congr ⟨?_,?_⟩
      · rintro ⟨h,other,covers⟩
        refine ⟨h,(kept h).mpr ⟨other,?_⟩,covers⟩
        rintro rfl
        exact same covers.1.symm
      · rintro ⟨h,rest,covers⟩
        exact ⟨h,((kept h).mp rest).1,covers⟩
  · by_cases same : d = g.cls
    · subst same
      rw [joined]
      rw [start,stop] at used
      rw [used t label,← split,shared.used _ t label]
      constructor
      · rintro ⟨old | ⟨h,other,cls,rfl⟩,different⟩
        · exact .inl old
        · refine .inr ⟨h,(kept h).mpr ⟨other,?_⟩,cls,rfl⟩
          rintro rfl
          exact different rfl
      · rintro (old | ⟨h,rest,cls,rfl⟩)
        · refine ⟨.inl old,?_⟩
          rintro rfl
          -- the addresses of the share were free before
          obtain ⟨s,there,free,first,last⟩ := inside g.low le_rfl range
          have same := ordered.same old there (n := g.low) ⟨le_rfl,range⟩ ⟨first,last⟩
          exact real ((congrArg Segment.label same).trans free)
        · obtain ⟨other,different⟩ := (kept h).mp rest
          refine ⟨.inr ⟨h,other,cls,rfl⟩,?_⟩
          intro equal
          apply different
          cases h
          cases g
          simp_all [Share.segment]
    · rw [others d same,shared.used d t label]
      refine or_congr Iff.rfl ⟨?_,?_⟩
      · rintro ⟨h,other,cls,rfl⟩
        refine ⟨h,(kept h).mpr ⟨other,?_⟩,cls,rfl⟩
        rintro rfl
        exact same cls.symm
      · rintro ⟨h,rest,cls,rfl⟩
        exact ⟨h,((kept h).mp rest).1,cls,rfl⟩

end Shared

variable {caller : BitVec 32} {r : Request}

/-- Where the request is granted from, aligning does not fall below the start of the range. -/
def fitInside (k : Consts) (db : Database) (r : Request) : Prop :=
  ∀ c ∈ classOf k r.flags, ∀ e start stop, db.findFit k c r = some (some (e,start,stop)) →
    (db.entries e).start ≤ start

/-- The entry `i` is cut out of a free range for the caller. -/
structure Granted (k : Consts) (db : Database) (lists : Option Place → List Index) (caller : BitVec 32) (c : Nat)
    (start stop : BitVec 64) (db' : Database) (lists' : Option Place → List Index) (i : Index) : Prop
    extends Tidy k db' lists' where
  keeps : Keeps db lists db' lists'
  listed : i ∈ lists' (some (.listed c))
  fresh : ∀ d, i ∉ lists (some (.listed d))
  segment : (db'.entries i).segment = ⟨start.toNat,stop.toNat,caller⟩
  cuts : Cuts 0 caller start.toNat stop.toNat (segments db lists c) (segments db' lists' c)
  others : ∀ d ≠ c, segments db' lists' d = segments db lists d

theorem segments_eq (shape : Shape db.next db.root lists) (other : Shape db.next db.root lists') (c : Nat) :
    segments db lists c = segments db lists' c := by
  rw [segments,segments,Shape.lists_eq shape other]

theorem Tidy.attachOne_granted (tidy : Tidy k db lists) (caller : BitVec 32) (fits : fitInside k db r) :
    (∃ db' lists', db.attachOne k caller r = some (db',.error .enospc) ∧ Tidy k db' lists' ∧
      Keeps db lists db' lists' ∧
        ∀ d, segments db' lists' d = segments db lists d) ∨
      ∃ db' lists' c i start stop, classOf k r.flags = some c ∧
        db.attachOne k caller r = some (db',.ok (some i,start,stop)) ∧
        Granted k db lists caller c start stop db' lists' i := by
  cases named : classOf k r.flags with
  | none =>
    exact .inl ⟨db,lists,by simp [Database.attachOne,named],tidy,Keeps.refl db lists,fun _ => rfl⟩
  | some c =>
    have held := tidy.toSound.held
    rcases held.findFit c r with ⟨missed,-⟩ | ⟨pre,e,post,start,stop,split,-,granted,found⟩
    · exact .inl ⟨db,lists,by simp [Database.attachOne,named,missed],tidy,Keeps.refl db lists,fun _ => rfl⟩
    · have member : e ∈ lists (some (.listed c)) := by simp [split]
      obtain ⟨free,-,-,-,range,down⟩ := grant_some granted
      have low := fits c named e start stop found
      have high := BitVec.le_trans down (clip_inside (k := k) (db.entries e) r).2
      obtain ⟨db₁,lists₁,held₁,-,cut⟩ := held.carve tidy.settled_nil split free range high caller r.flags
      obtain ⟨db₂,lists₂,⟨failed,tidy₂,keeps⟩ | ⟨done,i,carved⟩⟩ :=
        tidy.carve member free low range high caller r.flags
      · rcases cut with ⟨-,failed',same⟩ | ⟨-,done,-⟩
        · obtain rfl : db₁ = db₂ := by simpa using failed'.symm.trans failed
          refine .inl ⟨db₁,lists₂,by simp [Database.attachOne,named,found,failed],tidy₂,keeps,fun d => ?_⟩
          rw [segments_eq tidy₂.shape held₁.shape,same]
        · simp [failed] at done
      · rcases cut with ⟨-,failed,-⟩ | ⟨-,done',shown,others⟩
        · simp [failed] at done
        · obtain rfl : db₁ = db₂ := by simpa using done'.symm.trans done
          have same : ∀ d, segments db₁ lists₂ d = segments db₁ lists₁ d := segments_eq carved.shape held₁.shape
          obtain ⟨pre',post',split',passed,stopped,walked⟩ := carved.threaded.walk c fun j =>
            (db₁.entries j).owner == caller && (db₁.entries j).start == start && (db₁.entries j).stop == stop
          have there : (⟨start.toNat,stop.toNat,caller⟩ : Segment (BitVec 32)) ∈ segments db₁ lists₂ c := by
            rw [same,shown.mem_iff]
            exact List.mem_cons_self
          obtain ⟨j,inside,equal⟩ := List.mem_map.mp there
          have hit : ((db₁.entries j).owner == caller && (db₁.entries j).start == start &&
              (db₁.entries j).stop == stop) = true := by
            simp only [Entry.segment,Segment.mk.injEq] at equal
            simp [equal.2.2,BitVec.eq_of_toNat_eq equal.1,BitVec.eq_of_toNat_eq equal.2.1]
          cases post' with
          | nil =>
            rw [split',List.append_nil] at inside
            rw [passed j inside] at hit
            cases hit
          | cons h post' =>
            have found' := stopped h rfl
            simp only [Bool.and_eq_true,beq_iff_eq] at found'
            have listed : h ∈ lists₂ (some (.listed c)) := by simp [split']
            -- ranges of one class are disjoint, so the entry found again is the one carved
            obtain rfl : h = i := by
              by_contra other
              have apart := (carved.sorted c).apart listed carved.listed other
              have ends := carved.bounds
              rcases apart with before | after
              · bv_omega
              · bv_omega
            refine .inr ⟨db₁,lists₂,c,h,start,stop,rfl,by simp [Database.attachOne,named,found,done,walked],
              ⟨carved.toTidy,carved.keeps,listed,carved.fresh,?_,?_,fun d different => by rw [same,others d different]⟩⟩
            · simp [Entry.segment,found'.1.1,found'.1.2,found'.2]
            · refine ⟨(db.entries e).segment,(pre ++ post).map fun i => (db.entries i).segment,free,low,
                range,high,?_,?_⟩
              · rw [segments,split]
                exact List.perm_middle.map _
              · rw [same]
                exact shown

/-- The entry `e` is free and joined to its neighbours. -/
structure Released (k : Consts) (db : Database) (lists : Option Place → List Index) (c : Nat) (e : Index)
    (db' : Database) (lists' : Option Place → List Index) : Prop extends Tidy k db' lists' where
  keeps : ∀ d, ∀ j ∈ lists (some (.listed d)), j ≠ e → (db.entries j).owner ≠ 0 →
    j ∈ lists' (some (.listed d)) ∧ db'.entries j = db.entries j
  joined : ∃ pre post, segments db lists c = pre ++ (db.entries e).segment :: post ∧
    segments db' lists' c = join 0 pre ⟨(db.entries e).segment.start,(db.entries e).segment.stop,0⟩ post
  others : ∀ d ≠ c, segments db' lists' d = segments db lists d

theorem Tidy.release (tidy : Tidy k db lists) (member : e ∈ lists (some (.listed c))) (flags : BitVec 16) :
    ∃ db' lists', (db.setEntry e { db.entries e with owner := 0, flags := flags }).mergeNeighbours e = some db' ∧
      Released k db lists c e db' lists' := by
  have held := tidy.toSound.held
  obtain ⟨pre,post,split⟩ := List.append_of_mem member
  have level := (tidy.sorted c).level
  rw [split] at level
  obtain ⟨db₁,lists₁,merged,held₁,settled₁,joined,others⟩ := held.disown split level flags
  obtain ⟨db₂,lists₂,merged',tidy₂,keeps,-⟩ := (tidy.disown (e := e) 0 flags).mergeNeighbours member (by simp)
  obtain rfl : db₁ = db₂ := Option.some.inj (merged.symm.trans merged')
  have same : ∀ d, segments db₁ lists₂ d = segments db₁ lists₁ d := segments_eq tidy₂.shape held₁.shape
  refine ⟨db₁,lists₂,merged,⟨tidy₂,?_,⟨_,_,?_,(same c).trans joined⟩,
    fun d different => by rw [same,others d different]⟩⟩
  · intro d j inside other used'
    have kept : (db.setEntry e { db.entries e with owner := 0, flags := flags }).entries j = db.entries j := by
      simp [other]
    have result := keeps d j inside (by rwa [kept])
    rwa [kept] at result
  · rw [segments,split]
    simp

variable {before : Nat → List (Segment (BitVec 32))}

def Entry.share (x : Entry) : Share := ⟨x.cls,x.start.toNat,x.stop.toNat⟩

structure Batch (db : Database) (lists : Option Place → List Index) (caller : BitVec 32)
    (granted : List Index) : Prop where
  once : granted.Nodup
  used : ∀ g ∈ granted, (db.entries g).owner = caller ∧ ∃ c, g ∈ lists (some (.listed c))

theorem Shared.release (shared : Shared caller before (segments db lists) shares) (real : caller ≠ 0)
    (ordered : ∀ c, Ordered (before c)) (tidy : Tidy k db lists) (released : Released k db lists c e db' lists')
    (member : e ∈ lists (some (.listed c))) (mine : (db.entries e).owner = caller)
    (share : (db.entries e).share ∈ shares) :
    Shared caller before (segments db' lists') (shares.erase (db.entries e).share) := by
  obtain ⟨pre,post,split,joined⟩ := released.joined
  have cls : (db.entries e).share.cls = c := ((tidy.sorted c).cls e member).1
  have shown : (db.entries e).segment = (db.entries e).share.segment caller := by
    rw [← mine]
    rfl
  have split' : segments db lists (db.entries e).share.cls =
      pre ++ (db.entries e).share.segment caller :: post := by
    rw [cls,split,shown]
  refine shared.giveBack share real (ordered _) (tidy.toSound.ordered _) split' ?_ ?_
  · rw [cls]
    exact joined
  · rw [cls]
    exact released.others

theorem Tidy.rollback_shared (tidy : Tidy k db lists) (batch : Batch db lists caller granted) (real : caller ≠ 0)
    (ordered : ∀ c, Ordered (before c))
    (shared : Shared caller before (segments db lists) (granted.map fun g => (db.entries g).share)) :
    ∃ db' lists', db.rollback granted = some db' ∧ Tidy k db' lists' ∧
      Shared caller before (segments db' lists') [] := by
  induction granted generalizing db lists with
  | nil => exact ⟨db,lists,rfl,tidy,shared⟩
  | cons g gs ih =>
    obtain ⟨absent,rest⟩ := List.nodup_cons.mp batch.once
    obtain ⟨mine,c,member⟩ := batch.used g List.mem_cons_self
    obtain ⟨db₁,lists₁,merged,released⟩ := tidy.release member (db.entries g).flags
    have kept : ∀ j ∈ gs, db₁.entries j = db.entries j ∧ ∃ d, j ∈ lists₁ (some (.listed d)) := by
      intro j later
      obtain ⟨owner,d,listed⟩ := batch.used j (List.mem_cons_of_mem g later)
      obtain ⟨there,same⟩ := released.keeps d j listed (fun same => absent (same ▸ later)) (by rwa [owner])
      exact ⟨same,d,there⟩
    have shared₁ := shared.release real ordered tidy released member mine (by simp)
    rw [List.map_cons,List.erase_cons_head,
      ← List.map_congr_left fun j later => congrArg Entry.share (kept j later).1] at shared₁
    obtain ⟨db₂,lists₂,rolled,done,last⟩ := ih released.toTidy ⟨rest,fun j later => by
      obtain ⟨same,listed⟩ := kept j later
      rw [same]
      exact ⟨(batch.used j (List.mem_cons_of_mem g later)).1,listed⟩⟩ shared₁
    have first : (db.setOwner g 0).mergeNeighbours g = some db₁ := merged
    refine ⟨db₂,lists₂,?_,done,last⟩
    rw [Database.rollback,first,Option.bind_some]
    exact rolled

def Request.share (k : Consts) (r : Request) : Share := ⟨(classOf k r.flags).getD 0,r.start.toNat,r.stop.toNat⟩

theorem Tidy.attachAll_shared (tidy : Tidy k db lists) (batch : Batch db lists caller granted) (real : caller ≠ 0)
    (ordered : ∀ c, Ordered (before c))
    (shared : Shared caller before (segments db lists) (granted.map fun g => (db.entries g).share))
    (fits : Rounds (fun db => db.attachOne k caller) (fitInside k) db rs) :
    ∃ db' lists' answer, db.attachAll k caller granted rs = some (db',answer) ∧ Tidy k db' lists' ∧
      (∀ f, answer = .error f → Shared caller before (segments db' lists') []) ∧
      ∀ echoes, answer = .ok echoes →
        Shared caller before (segments db' lists')
          ((granted.map fun g => (db.entries g).share) ++ echoes.map (Request.share k)) ∧
        (∀ echo ∈ echoes, (classOf k echo.flags).isSome = true) ∧
        ((∀ c, Coalesced 0 (segments db lists c)) → ∀ c, Coalesced 0 (segments db' lists' c)) := by
  induction rs generalizing db lists granted with
  | nil =>
    refine ⟨db,lists,.ok [],rfl,tidy,nofun,?_⟩
    rintro echoes same
    obtain rfl := Except.ok.inj same
    exact ⟨by simpa using shared,by simp,id⟩
  | cons r rs ih =>
    rcases tidy.attachOne_granted caller fits.1 with ⟨db₁,lists₁,failed,tidy₁,keeps,same⟩ |
      ⟨db₁,lists₁,c,i,start,stop,named,done,new⟩
    · have kept : ∀ g ∈ granted, db₁.entries g = db.entries g ∧ ∃ d, g ∈ lists₁ (some (.listed d)) := by
        intro g member
        obtain ⟨owner,d,listed⟩ := batch.used g member
        obtain ⟨there,same⟩ := keeps d g listed (by rwa [owner])
        exact ⟨same,d,there⟩
      have batch₁ : Batch db₁ lists₁ caller granted := ⟨batch.once,fun g member => by
        rw [(kept g member).1]
        exact ⟨(batch.used g member).1,(kept g member).2⟩⟩
      have shared₁ : Shared caller before (segments db₁ lists₁) (granted.map fun g => (db₁.entries g).share) := by
        rw [List.map_congr_left fun g member => congrArg Entry.share (kept g member).1,funext same]
        exact shared
      obtain ⟨db₂,lists₂,rolled,tidy₂,last⟩ := tidy₁.rollback_shared batch₁ real ordered shared₁
      exact ⟨db₂,lists₂,.error .enospc,by simp [Database.attachAll,failed,rolled],tidy₂,fun _ _ => last,nofun⟩
    · have kept : ∀ g ∈ granted, db₁.entries g = db.entries g ∧ ∃ d, g ∈ lists₁ (some (.listed d)) := by
        intro g member
        obtain ⟨owner,d,listed⟩ := batch.used g member
        obtain ⟨there,same⟩ := new.keeps d g listed (by rwa [owner])
        exact ⟨same,d,there⟩
      have cls : (db₁.entries i).cls = c := ((new.sorted c).cls i new.listed).1
      obtain ⟨low,high,mine⟩ : (db₁.entries i).start.toNat = start.toNat ∧ (db₁.entries i).stop.toNat = stop.toNat ∧
          (db₁.entries i).owner = caller := by
        simpa [Entry.segment] using new.segment
      have batch₁ : Batch db₁ lists₁ caller (granted ++ [i]) := by
        refine ⟨List.nodup_append.mpr ⟨batch.once,by simp,?_⟩,?_⟩
        · intro a member b single
          obtain rfl := List.mem_singleton.mp single
          rintro rfl
          obtain ⟨-,d,listed⟩ := batch.used a member
          exact new.fresh d listed
        · intro g member
          rcases List.mem_append.mp member with old | single
          · rw [(kept g old).1]
            exact ⟨(batch.used g old).1,(kept g old).2⟩
          · obtain rfl := List.mem_singleton.mp single
            exact ⟨mine,c,new.listed⟩
      have shares : (granted ++ [i]).map (fun g => (db₁.entries g).share) =
          (granted.map fun g => (db.entries g).share) ++ [⟨c,start.toNat,stop.toNat⟩] := by
        rw [List.map_append,List.map_congr_left fun g member => congrArg Entry.share (kept g member).1]
        simp [Entry.share,cls,low,high]
      have shared₁ := shared.cut (tidy.toSound.ordered c) real new.cuts new.others
      rw [← shares] at shared₁
      obtain ⟨db₂,lists₂,answer,rest,tidy₂,failed,succeeded⟩ := ih new.toTidy batch₁ shared₁ (fits.2 _ done rfl)
      refine ⟨db₂,lists₂,answer.map ({ r with start := start, stop := stop, length := stop - start + 1 } :: ·),
        ?_,tidy₂,?_,?_⟩
      · simp [Database.attachAll,done,rest]
      · intro f same
        cases answer with
        | error f' => exact failed f' rfl
        | ok later => cases same
      · intro echoes same
        cases answer with
        | error f' => cases same
        | ok later =>
          obtain rfl := Except.ok.inj same
          obtain ⟨shared₂,classes,coalesced⟩ := succeeded later rfl
          refine ⟨?_,?_,fun joined => coalesced fun d => ?_⟩
          · rw [shares] at shared₂
            simpa [Request.share,named] using shared₂
          · intro echo member
            rcases List.mem_cons.mp member with rfl | member
            · simp [named]
            · exact classes echo member
          · by_cases equal : d = c
            · subst equal
              exact new.cuts.coalesced (tidy.toSound.ordered d) real (joined d)
            · rw [new.others d equal]
              exact joined d

theorem Held.findFit_some (held : Held k db lists) (found : db.findFit k c r = some (some (e,start,stop))) :
    e ∈ lists (some (.listed c)) ∧ grant k (db.entries e) r = some (start,stop) := by
  rcases held.findFit c r with ⟨missed,-⟩ | ⟨pre,e',post,start',stop',split,-,granted,found'⟩
  · simp [missed] at found
  · rw [found',Option.some.injEq,Option.some.injEq,Prod.mk.injEq,Prod.mk.injEq] at found
    obtain ⟨rfl,rfl,rfl⟩ := found
    exact ⟨by simp [split],granted⟩

theorem Held.fitInside_low (held : Held k db lists) (low : ∀ c, ∀ s ∈ segments db lists c, s.stop < 2 ^ 63)
    (small : r.align.toNat < 2 ^ 63) : fitInside k db r := by
  intro c named e start stop found
  obtain ⟨member,granted⟩ := held.findFit_some found
  obtain ⟨-,order,first,-,-,-⟩ := grant_some granted
  obtain ⟨below,above⟩ := clip_inside (k := k) (db.entries e) r
  have end' : (db.entries e).stop.toNat < 2 ^ 63 := low c _ (List.mem_map.mpr ⟨e,member,rfl⟩)
  have align : (alignment k r).toNat ≤ 2 ^ 63 := by
    simp only [alignment]
    by_cases asked : r.flags &&& k.flagAlign ≠ 0
    · rw [if_pos asked]
      split
      · decide
      · omega
    · rw [if_neg asked]
      decide
  have up := le_alignUp (clip k (db.entries e) r).1 (alignment k r) (by bv_omega)
  rw [first]
  exact BitVec.le_trans below up

theorem Tidy.rounds_inside (tidy : Tidy k db lists) (low : ∀ c, ∀ s ∈ segments db lists c, s.stop < 2 ^ 63)
    (aligns : ∀ r ∈ rs, r.align.toNat < 2 ^ 63) (real : caller ≠ 0) :
    Rounds (fun db => db.attachOne k caller) (fitInside k) db rs := by
  induction rs generalizing db lists with
  | nil => trivial
  | cons r rs ih =>
    have fits := tidy.toSound.held.fitInside_low low (aligns r List.mem_cons_self)
    refine ⟨fits,fun done result granted => ?_⟩
    rcases tidy.attachOne_granted caller fits with ⟨db₁,lists₁,failed,-⟩ | ⟨db₁,lists₁,c,i,start,stop,-,ok,new⟩
    · obtain rfl : (db₁,.error .enospc) = done := Option.some.inj (failed.symm.trans result)
      cases granted
    · obtain rfl : (db₁,.ok (some i,start,stop)) = done := Option.some.inj (ok.symm.trans result)
      have shared := (Shared.refl caller (segments db lists)).cut (tidy.toSound.ordered c) real new.cuts new.others
      refine ih new.toTidy (fun d s inside => ?_) fun r later => aligns r (List.mem_cons_of_mem _ later)
      have proper := (new.toSound.ordered d).proper s inside
      obtain ⟨b,t,there,-,-,last⟩ := shared.origin ⟨s,inside,rfl,proper,le_rfl⟩
      exact Nat.lt_of_le_of_lt last (low d t there)

theorem Tidy.attach_shared (tidy : Tidy k db lists) (few : rs.length ≤ 16) (real : caller ≠ 0)
    (fits : Rounds (fun db => db.attachOne k caller) (fitInside k) db rs) :
    ∃ db' lists' answer, db.attach k caller rs = some (db',answer) ∧ Tidy k db' lists' ∧
      (∀ f, answer = .error f → Shared caller (segments db lists) (segments db' lists') []) ∧
      ∀ echoes, answer = .ok echoes →
        Shared caller (segments db lists) (segments db' lists') (echoes.map (Request.share k)) ∧
        (∀ echo ∈ echoes, (classOf k echo.flags).isSome = true) ∧
        ((∀ c, Coalesced 0 (segments db lists c)) → ∀ c, Coalesced 0 (segments db' lists' c)) := by
  rw [Database.attach,if_neg (Nat.not_lt.mpr few)]
  exact tidy.attachAll_shared ⟨.nil,by simp⟩ real tidy.toSound.ordered (Shared.refl caller _) fits

/-- A failed batch leaves every address of every class with its owner, and the database tidy. -/
theorem attach_atomic (tidy : Tidy k db lists) (low : ∀ c, ∀ s ∈ segments db lists c, s.stop < 2 ^ 63)
    (few : rs.length ≤ 16) (aligns : ∀ r ∈ rs, r.align.toNat < 2 ^ 63) (real : caller ≠ 0) :
    ∃ db' lists' answer, db.attach k caller rs = some (db',answer) ∧ Tidy k db' lists' ∧
      ∀ f, answer = .error f →
        ∀ c n owner, At (segments db' lists' c) n owner ↔ At (segments db lists c) n owner := by
  obtain ⟨db',lists',answer,done,tidy',failed,-⟩ := tidy.attach_shared few real (tidy.rounds_inside low aligns real)
  exact ⟨db',lists',answer,done,tidy',fun f same => (failed f same).labels⟩

theorem low_of_entries (all : ∀ i : Index, (db.entries i).stop.toNat < 2 ^ 63) (lists : Option Place → List Index) :
    ∀ c, ∀ s ∈ segments db lists c, s.stop < 2 ^ 63 := by
  intro c s inside
  obtain ⟨i,-,rfl⟩ := List.mem_map.mp inside
  exact all i

/-- A page that fits and a megabyte that does not. -/
def tooMuch : List Request := [⟨0x1000,0x1000,0,0,0x200⟩,⟨0x100000,0,0,0,0⟩]

theorem attach_atomic_refused : ∃ db lists,
    ((db.attach fewConsts 3 tooMuch).any fun done => !done.2.isOk) = true ∧ Tidy fewConsts db lists ∧
      ∃ db' lists' answer, db.attach fewConsts 3 tooMuch = some (db',answer) ∧ Tidy fewConsts db' lists' ∧
        ∀ f, answer = .error f →
          ∀ c n owner, At (segments db' lists' c) n owner ↔ At (segments db lists c) n owner := by
  obtain ⟨db,run,low,refused⟩ := Lts.Run.exists_of_replay (step fewConsts) (aligned fewConsts) Database.init
    [.create 2 [⟨0x1800,0x8fff,0⟩]]
    (fun db => (∀ i : Index, (db.entries i).stop.toNat < 2 ^ 63) ∧
      ((db.attach fewConsts 3 tooMuch).any fun done => !done.2.isOk) = true) (by decide +kernel)
  obtain ⟨lists,tidy⟩ := run_good run
  exact ⟨db,lists,refused,tidy,attach_atomic tidy (low_of_entries low lists) (by decide) (by decide) (by decide)⟩

theorem Tidy.detachOne_shared {shares : List Share} (tidy : Tidy k db lists) (real : caller ≠ 0)
    (ordered : ∀ c, Ordered (before c)) (shared : Shared caller before (segments db lists) shares)
    (named : (classOf k r.flags).isSome = true) (share : r.share k ∈ shares) :
    ∃ db' lists', db.detachOne k caller r = some (db',.ok ()) ∧ Tidy k db' lists' ∧
      Shared caller before (segments db' lists') (shares.erase (r.share k)) ∧
      ((∀ c, Coalesced 0 (segments db lists c)) → ∀ c, Coalesced 0 (segments db' lists' c)) := by
  obtain ⟨c,known⟩ := Option.isSome_iff_exists.mp named
  have cls : (r.share k).cls = c := by simp [Request.share,known]
  have there : (r.share k).segment caller ∈ segments db lists c :=
    (shared.used c _ real).mpr (.inr ⟨r.share k,share,cls,rfl⟩)
  obtain ⟨pre,post,split,passed,stopped,walked⟩ := tidy.threaded.walk c fun i =>
    (db.entries i).owner == caller && (db.entries i).start == r.start && (db.entries i).stop == r.stop
  obtain ⟨j,inside,equal⟩ := List.mem_map.mp there
  have hit : ((db.entries j).owner == caller && (db.entries j).start == r.start && (db.entries j).stop ==
    r.stop) = true := by
    simp only [Entry.segment,Share.segment,Request.share,Segment.mk.injEq] at equal
    simp [equal.2.2,BitVec.eq_of_toNat_eq equal.1,BitVec.eq_of_toNat_eq equal.2.1]
  cases post with
  | nil =>
    rw [split,List.append_nil] at inside
    rw [passed j inside] at hit
    cases hit
  | cons e post =>
    have found := stopped e rfl
    simp only [Bool.and_eq_true,beq_iff_eq] at found
    obtain ⟨⟨mine,start⟩,stop⟩ := found
    have member : e ∈ lists (some (.listed c)) := by simp [split]
    have same : (db.entries e).share = r.share k := by
      simp [Entry.share,Request.share,known,((tidy.sorted c).cls e member).1,start,stop]
    obtain ⟨db₁,lists₁,merged,released⟩ := tidy.release member 0
    have shared₁ := shared.release real ordered tidy released member mine (by rwa [same])
    rw [same] at shared₁
    refine ⟨db₁,lists₁,?_,released.toTidy,shared₁,fun coalesced d => ?_⟩
    · have given : db.giveUp e = some db₁ := merged
      simp [Database.detachOne,known,walked,given]
    · by_cases equal' : d = c
      · subst equal'
        obtain ⟨pre',post',before',joined⟩ := released.joined
        have whole := tidy.toSound.ordered d
        rw [before'] at whole
        rw [joined]
        refine (freed_join whole ?_).2.2.2 ?_
        · rw [show (db.entries e).segment.label = caller from mine]
          exact real
        · rw [← before']
          exact coalesced d
      · rw [released.others d equal']
        exact coalesced d

theorem Tidy.detach_shared (tidy : Tidy k db lists) (real : caller ≠ 0) (ordered : ∀ c, Ordered (before c))
    (shared : Shared caller before (segments db lists) (es.map (Request.share k)))
    (named : ∀ r ∈ es, (classOf k r.flags).isSome = true) :
    ∃ db' lists', db.detach k caller es = some (db',.ok ()) ∧ Tidy k db' lists' ∧
      Shared caller before (segments db' lists') [] ∧
      ((∀ c, Coalesced 0 (segments db lists c)) → ∀ c, Coalesced 0 (segments db' lists' c)) := by
  induction es generalizing db lists with
  | nil => exact ⟨db,lists,rfl,tidy,shared,id⟩
  | cons r es ih =>
    obtain ⟨db₁,lists₁,one,tidy₁,shared₁,coalesced₁⟩ := tidy.detachOne_shared real ordered shared
      (named r List.mem_cons_self) (by simp)
    rw [List.map_cons,List.erase_cons_head] at shared₁
    obtain ⟨db₂,lists₂,rest,tidy₂,shared₂,coalesced₂⟩ := ih tidy₁ shared₁ fun r later =>
      named r (List.mem_cons_of_mem _ later)
    exact ⟨db₂,lists₂,by simpa [Database.detach,rounds,one] using rest,tidy₂,shared₂,fun coalesced =>
      coalesced₂ (coalesced₁ coalesced)⟩

theorem Tidy.pool_length (tidy : Tidy k db lists) :
    (lists (some .pool)).length + ∑ c ∈ Finset.range k.typeCount, (lists (some (.listed c))).length = poolSize := by
  have apart : (lists (some .pool)).toFinset.card +
      ((Finset.range k.typeCount).biUnion fun c => (lists (some (.listed c))).toFinset).card = poolSize := by
    rw [← Finset.card_union_of_disjoint]
    · have all : (lists (some .pool)).toFinset ∪
          ((Finset.range k.typeCount).biUnion fun c => (lists (some (.listed c))).toFinset) = Finset.univ := by
        apply Finset.eq_univ_of_forall
        intro i
        obtain ⟨p,only⟩ := tidy.shape.account i
        have here := (only p).mpr rfl
        cases p with
        | none => exact absurd here (tidy.settled i)
        | some p =>
          cases p with
          | pool => simp [here]
          | listed c =>
            have known := ((tidy.sorted c).cls i here).2
            simp only [Finset.mem_union,List.mem_toFinset,Finset.mem_biUnion,Finset.mem_range]
            exact .inr ⟨c,known,here⟩
      rw [all,Finset.card_univ,Fintype.card_fin]
    · rw [Finset.disjoint_left]
      intro i pooled listed
      simp only [List.mem_toFinset,Finset.mem_biUnion] at pooled listed
      obtain ⟨c,-,there⟩ := listed
      exact absurd (tidy.shape.apart pooled there) (by simp)
  rw [Finset.card_biUnion] at apart
  · rw [List.toFinset_card_of_nodup (tidy.shape.chain .pool).nodup] at apart
    rw [← apart]
    congr 1
    exact Finset.sum_congr rfl fun c _ => (List.toFinset_card_of_nodup (tidy.shape.chain (.listed c)).nodup).symm
  · intro c _ d _ different
    rw [Function.onFun,Finset.disjoint_left]
    intro i here there
    simp only [List.mem_toFinset] at here there
    exact different (by simpa using tidy.shape.apart here there)

def area (k : Consts) (db : Database) (lists : Option Place → List Index) : Nat :=
  ∑ c ∈ Finset.range k.typeCount, Segment.total (segments db lists c)

theorem area_class (known : c < k.typeCount) (others : ∀ d ≠ c, segments db' lists' d = segments db lists d) :
    area k db' lists' + Segment.total (segments db lists c) = area k db lists + Segment.total
      (segments db' lists' c) := by
  have member := Finset.mem_range.mpr known
  rw [area,area,← Finset.add_sum_erase _ _ member,← Finset.add_sum_erase (Finset.range k.typeCount)
    (fun c => Segment.total (segments db lists c)) member]
  have same : ∑ d ∈ (Finset.range k.typeCount).erase c, Segment.total (segments db' lists' d) =
      ∑ d ∈ (Finset.range k.typeCount).erase c, Segment.total (segments db lists d) :=
    Finset.sum_congr rfl fun d inside => by rw [others d (Finset.ne_of_mem_erase inside)]
  rw [same]
  omega

/-- Lists in any order, of ranges below the middle of the address space. -/
structure Lower (k : Consts) (db : Database) (lists : Option Place → List Index) :
    Prop extends Held k db lists where
  settled : lists none = []
  low : ∀ c, ∀ s ∈ segments db lists c, s.stop < 2 ^ 63

theorem Lower.attachOne (lower : Lower k db lists) (done : db.attachOne k caller r = some (db',.ok found)) :
    ∃ lists', Lower k db' lists' ∧ area k db lists ≤ area k db' lists' ∧
      (¬ fitInside k db r → area k db lists < area k db' lists') := by
  have held := lower.toHeld
  unfold Database.attachOne at done
  cases named : classOf k r.flags with
  | none => simp [named] at done
  | some c =>
    rcases held.findFit c r with ⟨missed,-⟩ | ⟨pre,e,post,start,stop,split,-,granted,hit⟩
    · simp [named,missed] at done
    · obtain ⟨free,-,-,-,range,down⟩ := grant_some granted
      have high := BitVec.le_trans down (clip_inside (k := k) (db.entries e) r).2
      have member : e ∈ lists (some (.listed c)) := by simp [split]
      have known := (held.cls c e member).2
      obtain ⟨db₁,lists₁,held₁,settled₁,⟨-,failed,-⟩ | ⟨-,carved,shown,others⟩⟩ :=
        held.carve lower.settled split free range high caller r.flags
      · simp [named,hit,failed] at done
      · obtain ⟨pre',post',-,-,-,walked⟩ := held₁.threaded.walk c fun j => (db₁.entries j).owner == caller &&
          (db₁.entries j).start == start && (db₁.entries j).stop == stop
        obtain ⟨rfl,-⟩ : db₁ = db' ∧ _ := by simpa [named,hit,carved,walked] using done
        have whole : (segments db lists c).Perm ((db.entries e).segment :: (pre ++ post).map fun i =>
          (db.entries i).segment) := by
          rw [segments,split]
          exact List.perm_middle.map _
        have balance := area_class known others
        rw [Segment.total_perm whole,Segment.total_perm shown,Segment.total_cons,Segment.total_cons,
          Segment.total_append] at balance
        have low : start.toNat ≤ stop.toNat := range
        obtain ⟨kept,grown⟩ := Segment.total_residues (db.entries e).segment low high
        dsimp only at balance
        have first : (db.entries e).segment.start = (db.entries e).start.toNat := rfl
        have size : (db.entries e).segment.start ≤ (db.entries e).segment.stop := held.proper c e member
        refine ⟨lists₁,⟨held₁,settled₁,?_⟩,?_,fun outside => ?_⟩
        · intro d s inside
          by_cases same : d = c
          · subst same
            have top := lower.low d _ (whole.mem_iff.mpr List.mem_cons_self)
            have below : stop.toNat ≤ (db.entries e).segment.stop := high
            have order : start.toNat ≤ stop.toNat := range
            rcases List.mem_cons.mp (shown.mem_iff.mp inside) with rfl | rest
            · dsimp only
              omega
            · rcases List.mem_append.mp rest with residue | old
              · rcases Segment.mem_residues.mp residue with ⟨-,rfl⟩ | ⟨-,rfl⟩
                · dsimp only
                  omega
                · exact top
              · exact lower.low d s (whole.mem_iff.mpr (List.mem_cons_of_mem _ old))
          · rw [others d same] at inside
            exact lower.low d s inside
        · by_cases inside : (db.entries e).segment.start ≤ start.toNat
          · have equal := kept inside
            omega
          · have more := grown (by omega)
            omega
        · have below : start.toNat < (db.entries e).segment.start := by
            by_contra inside
            apply outside
            intro d same e' start' stop' found'
            obtain rfl : c = d := by simpa [named] using same
            rw [hit,Option.some.injEq,Option.some.injEq,Prod.mk.injEq,Prod.mk.injEq] at found'
            obtain ⟨rfl,rfl,rfl⟩ := found'
            exact Nat.le_of_not_lt inside
          have more := grown below
          omega

theorem Lower.attachAll (lower : Lower k db lists)
    (done : db.attachAll k caller granted rs = some (db',.ok echoes)) :
    ∃ lists', Lower k db' lists' ∧ area k db lists ≤ area k db' lists' ∧
      (¬ Rounds (fun db => db.attachOne k caller) (fitInside k) db rs → area k db lists < area k db' lists') := by
  induction rs generalizing db lists granted echoes with
  | nil =>
    obtain ⟨rfl,-⟩ : db = db' ∧ _ := by simpa [Database.attachAll] using done
    exact ⟨lists,lower,le_rfl,fun wrong => absurd trivial wrong⟩
  | cons r rs ih =>
    rw [Database.attachAll] at done
    obtain ⟨⟨db₁,answer⟩,one,rest⟩ := Option.bind_eq_some_iff.mp done
    cases answer with
    | error f =>
      obtain ⟨db₂,-,same⟩ := Option.map_eq_some_iff.mp rest
      simp at same
    | ok found =>
      obtain ⟨⟨db₂,later⟩,after,same⟩ := Option.map_eq_some_iff.mp rest
      cases later with
      | error f => simp [Except.map] at same
      | ok later =>
        obtain ⟨rfl,-⟩ : db₂ = db' ∧ _ := by simpa using same
        obtain ⟨lists₁,lower₁,grows₁,strict₁⟩ := lower.attachOne one
        obtain ⟨lists₂,lower₂,grows₂,strict₂⟩ := ih lower₁ after
        refine ⟨lists₂,lower₂,grows₁.trans grows₂,fun outside => ?_⟩
        by_cases inside : fitInside k db r
        · have later : ¬ Rounds (fun db => db.attachOne k caller) (fitInside k) db₁ rs := by
            intro fits
            refine outside ⟨inside,fun result taken _ => ?_⟩
            obtain rfl : (db₁,.ok found) = result := Option.some.inj (one.symm.trans taken)
            exact fits
          exact Nat.lt_of_le_of_lt grows₁ (strict₂ later)
        · exact Nat.lt_of_lt_of_le (strict₁ inside) grows₂

theorem Lower.giveUp (lower : Lower k db lists) (member : e ∈ lists (some (.listed c)))
    (given : db.giveUp e = some db') :
    ∃ lists', Lower k db' lists' ∧ area k db' lists' = area k db lists := by
  have held := lower.toHeld
  obtain ⟨pre,post,split⟩ := List.append_of_mem member
  have level : Level db.entries (pre ++ e :: post) := by
    apply Level.of_low
    intro i inside
    have below := lower.low c _ (List.mem_map.mpr ⟨i,by rw [split]; exact inside,rfl⟩)
    have stop : (db.entries i).segment.stop = (db.entries i).stop.toNat := rfl
    omega
  obtain ⟨db₁,lists₁,merged,held₁,settled₁,joined,others⟩ := held.disown split level 0
  obtain rfl : db₁ = db' := Option.some.inj (merged.symm.trans given)
  have before : segments db lists c = (pre.map fun i => (db.entries i).segment) ++ (db.entries e).segment ::
      post.map fun i => (db.entries i).segment := by
    simp [segments,split]
  have proper : ∀ s ∈ (pre.map fun i => (db.entries i).segment) ++
      ⟨(db.entries e).segment.start,(db.entries e).segment.stop,0⟩ :: (post.map fun i => (db.entries i).segment),
      s.start ≤ s.stop := by
    intro s inside
    have listed : ∀ i ∈ lists (some (.listed c)), (db.entries i).segment.start ≤ (db.entries i).segment.stop :=
      held.proper c
    simp only [List.mem_append,List.mem_cons,List.mem_map] at inside
    rcases inside with ⟨i,there,rfl⟩ | rfl | ⟨i,there,rfl⟩
    · exact listed i (by simp [split,there])
    · exact listed e member
    · exact listed i (by simp [split,there])
  have released : (Segment.mk (db.entries e).segment.start (db.entries e).segment.stop (0 : BitVec 32)).label =
    0 := rfl
  have joins := Segment.join_joins proper released
  refine ⟨lists₁,⟨held₁,settled₁.trans lower.settled,fun d s inside => ?_⟩,?_⟩
  · by_cases same : d = c
    · subst same
      have range := held₁.proper d
      rw [joined] at inside
      obtain ⟨t,there,-,-,last⟩ := (joins.labels s.stop s.label).mp ⟨s,inside,rfl,joins.proper s inside,le_rfl⟩
      have top : t.stop < 2 ^ 63 := by
        rcases List.mem_append.mp there with old | new
        · exact lower.low d t (by rw [before]; exact List.mem_append_left _ old)
        · rcases List.mem_cons.mp new with rfl | old
          · exact lower.low d (db.entries e).segment (List.mem_map.mpr ⟨e,member,rfl⟩)
          · exact lower.low d t (by rw [before]; exact List.mem_append_right _ (List.mem_cons_of_mem _ old))
      omega
    · rw [others d same] at inside
      exact lower.low d s inside
  · have known := (held.cls c e member).2
    have balance := area_class known others
    have length := joins.length
    rw [Segment.total_append,Segment.total_cons] at length
    rw [joined,length,before,Segment.total_append,Segment.total_cons] at balance
    dsimp only at balance
    omega

theorem Lower.detach (lower : Lower k db lists) (done : db.detach k caller es = some (db',.ok ())) :
    ∃ lists', Lower k db' lists' ∧ area k db' lists' = area k db lists := by
  induction es generalizing db lists with
  | nil =>
    obtain rfl : db = db' := by simpa [Database.detach,rounds] using done
    exact ⟨lists,lower,rfl⟩
  | cons r es ih =>
    rw [Database.detach,rounds] at done
    obtain ⟨⟨db₁,answer⟩,one,rest⟩ := Option.bind_eq_some_iff.mp done
    have kept : ∃ lists₁, Lower k db₁ lists₁ ∧ area k db₁ lists₁ = area k db lists := by
      unfold Database.detachOne at one
      cases named : classOf k r.flags with
      | none =>
        obtain ⟨rfl,-⟩ : db = db₁ ∧ _ := by simpa [named] using one
        exact ⟨lists,lower,rfl⟩
      | some c =>
        obtain ⟨pre,post,split,-,-,walked⟩ := lower.toHeld.threaded.walk c fun i =>
          (db.entries i).owner == caller &&
          (db.entries i).start == r.start && (db.entries i).stop == r.stop
        cases post with
        | nil =>
          obtain ⟨rfl,-⟩ : db = db₁ ∧ _ := by simpa [named,walked] using one
          exact ⟨lists,lower,rfl⟩
        | cons e post =>
          obtain ⟨given,-⟩ : db.giveUp e = some db₁ ∧ _ := by simpa [named,walked] using one
          exact lower.giveUp (c := c) (by simp [split]) given
    obtain ⟨lists₁,lower₁,same₁⟩ := kept
    cases answer with
    | error f => cases rest
    | ok u =>
      obtain ⟨lists₂,lower₂,same₂⟩ := ih lower₁ rest
      exact ⟨lists₂,lower₂,same₂.trans same₁⟩

/-- Detaching what a batch was granted restores the class lists, in every order, exactly if none of
its grants was aligned to below the range it is cut from. -/
theorem detach_undoes (tidy : Tidy k db lists) (coalesced : ∀ c, Coalesced 0 (segments db lists c))
    (low : ∀ c, ∀ s ∈ segments db lists c, s.stop < 2 ^ 63) (real : caller ≠ 0)
    (attached : db.attach k caller rs = some (db',.ok echoes)) :
    (∀ es, es.Perm echoes → ∃ db'' lists'', db'.detach k caller es = some (db'',.ok ()) ∧ Tidy k db'' lists'' ∧
        (∀ c, segments db'' lists'' c = segments db lists c) ∧
        (lists'' (some .pool)).length = (lists (some .pool)).length) ↔
      Rounds (fun db => db.attachOne k caller) (fitInside k) db rs := by
  have few : rs.length ≤ 16 := by
    by_contra many
    simp [Database.attach,Nat.lt_of_not_le many] at attached
  constructor
  · intro law
    by_contra outside
    have lower : Lower k db lists := ⟨tidy.toSound.held,tidy.settled_nil,low⟩
    rw [Database.attach,if_neg (Nat.not_lt.mpr few)] at attached
    obtain ⟨lists₁,lower₁,-,grown⟩ := lower.attachAll attached
    obtain ⟨db₂,lists₂,detached,tidy₂,same,-⟩ := law echoes (List.Perm.refl _)
    obtain ⟨lists₃,lower₃,kept⟩ := lower₁.detach detached
    have equal : area k db₂ lists₃ = area k db lists :=
      Finset.sum_congr rfl fun c _ => by rw [segments_eq lower₃.shape tidy₂.shape,same]
    have more := grown outside
    omega
  · intro fits es perm
    obtain ⟨db₁,lists₁,answer,done,tidy₁,-,succeeded⟩ := tidy.attach_shared few real fits
    obtain ⟨rfl,rfl⟩ : db₁ = db' ∧ answer = .ok echoes := by simpa using done.symm.trans attached
    obtain ⟨shared,named,coalesced₁⟩ := succeeded echoes rfl
    obtain ⟨db₂,lists₂,detached,tidy₂,nothing,coalesced₂⟩ := tidy₁.detach_shared real tidy.toSound.ordered
      (shared.perm (perm.symm.map _)) fun r member => named r (perm.mem_iff.mp member)
    have same := nothing.restored tidy.toSound.ordered tidy₂.toSound.ordered coalesced
      (coalesced₂ (coalesced₁ coalesced))
    refine ⟨db₂,lists₂,detached,tidy₂,same,?_⟩
    have lengths : ∀ c, (lists₂ (some (.listed c))).length = (lists (some (.listed c))).length := by
      intro c
      simpa [segments] using congrArg List.length (same c)
    have before := tidy.pool_length
    have after := tidy₂.pool_length
    rw [Finset.sum_congr rfl fun c _ => lengths c] at after
    omega

theorem Tidy.coalesced_of_short (tidy : Tidy k db lists)
    (short : ∀ c < k.typeCount, (db.root (.listed c)).bind db.next = none) (c : Nat) :
    Coalesced 0 (segments db lists c) := by
  intro s here t there _ _
  obtain ⟨i,inside,rfl⟩ := List.mem_map.mp here
  obtain ⟨j,inside',rfl⟩ := List.mem_map.mp there
  have known := ((tidy.sorted c).cls i inside).2
  have proper := (tidy.sorted c).proper i inside
  have chain := tidy.shape.chain (.listed c)
  have only : i = j := by
    cases listed : lists (some (.listed c)) with
    | nil => simp [listed] at inside
    | cons a rest =>
      rw [listed] at chain
      have last := short c known
      rw [chain.1,Option.bind_some] at last
      have ends := chain.2.head_eq
      rw [last] at ends
      obtain rfl : rest = [] := by simpa using ends.symm
      rw [listed] at inside inside'
      rw [List.mem_singleton.mp inside,List.mem_singleton.mp inside']
  rw [only]
  have proper : (db.entries j).start.toNat ≤ (db.entries j).stop.toNat := only ▸ proper
  simp only [Entry.segment]
  omega

/-- Two pages of a class with one range. -/
def twoPages : List Request := [⟨0x1000,0x1000,0,0,0x200⟩,⟨0x1000,0x1000,0,0,0x200⟩]

theorem detach_undoes_pages : ∃ db lists db' echoes, Tidy fewConsts db lists ∧
    db.attach fewConsts 3 twoPages = some (db',.ok echoes) ∧
    ((∀ es, es.Perm echoes → ∃ db'' lists'', db'.detach fewConsts 3 es = some (db'',.ok ()) ∧
      Tidy fewConsts db'' lists'' ∧
        (∀ c, segments db'' lists'' c = segments db lists c) ∧
        (lists'' (some .pool)).length = (lists (some .pool)).length) ↔
      Rounds (fun db => db.attachOne fewConsts 3) (fitInside fewConsts) db twoPages) := by
  obtain ⟨db,run,low,short,granted⟩ := Lts.Run.exists_of_replay (step fewConsts) (aligned fewConsts) Database.init
    [.create 2 [⟨0x1800,0x8fff,0⟩]]
    (fun db => (∀ i : Index, (db.entries i).stop.toNat < 2 ^ 63) ∧
      (∀ c < fewConsts.typeCount, (db.root (.listed c)).bind db.next = none) ∧
      ((db.attach fewConsts 3 twoPages).any fun done => done.2.isOk) = true) (by decide +kernel)
  obtain ⟨lists,tidy⟩ := run_good run
  obtain ⟨⟨db',answer⟩,attached,ok⟩ := (Option.any_eq_true _ _).mp granted
  cases answer with
  | error f => cases ok
  | ok echoes =>
    exact ⟨db,lists,db',echoes,tidy,attached,detach_undoes tidy (tidy.coalesced_of_short short)
      (low_of_entries low lists) (by decide) attached⟩

/-- An alignment of `2 ^ 64 - 1`, which is no power of two. -/
def hugeAlign : List Request := [⟨0x10,0xffffffffffffffff,0,0,0x200⟩]

/-- The range 0x1000 to 0x8fff comes back as 0 to 0x8fff. -/
theorem detach_enlarges : ¬ ∀ db lists db' echoes, Tidy fewConsts db lists →
    (∀ c, Coalesced 0 (segments db lists c)) → (∀ c, ∀ s ∈ segments db lists c, s.stop < 2 ^ 63) →
    db.attach fewConsts 7 hugeAlign = some (db',.ok echoes) →
    ∃ db'' lists'', db'.detach fewConsts 7 echoes = some (db'',.ok ()) ∧ Tidy fewConsts db'' lists'' ∧
      ∀ c, segments db'' lists'' c = segments db lists c := by
  intro undoes
  obtain ⟨db,run,low,short,enlarged,start⟩ := Lts.Run.exists_of_replay (step fewConsts) (aligned fewConsts)
    Database.init
    [.create 5 [⟨0x1000,0x8fff,0⟩]]
    (fun db => (∀ i : Index, (db.entries i).stop.toNat < 2 ^ 63) ∧
      (∀ c < fewConsts.typeCount, (db.root (.listed c)).bind db.next = none) ∧
      ((db.attach fewConsts 7 hugeAlign).bind fun done => done.2.toOption.bind fun echoes =>
        (done.1.detach fewConsts 7 echoes).bind fun gone =>
          (gone.1.root (.listed 0)).map fun i => (gone.1.entries i).start) = some 0 ∧
      ((db.root (.listed 0)).map fun i => (db.entries i).start) = some 0x1000) (by decide +kernel)
  obtain ⟨lists,tidy⟩ := run_good run
  obtain ⟨⟨db',answer⟩,attached,rest⟩ := Option.bind_eq_some_iff.mp enlarged
  cases answer with
  | error f => simp [Except.toOption] at rest
  | ok echoes =>
    obtain ⟨db'',lists'',detached,tidy'',same⟩ := undoes db lists db' echoes tidy (tidy.coalesced_of_short short)
      (low_of_entries low lists) attached
    have root := (tidy.shape.chain (.listed 0)).head_eq
    have root'' := (tidy''.shape.chain (.listed 0)).head_eq
    have first : (segments db'' lists'' 0).head?.map Segment.start = some 0 := by
      rw [segments,List.head?_map,← root'']
      simp only [Except.toOption,Option.bind_some,detached] at rest
      obtain ⟨i,here,zero⟩ := Option.map_eq_some_iff.mp rest
      simp [here,Entry.segment,zero]
    rw [same,segments,List.head?_map,← root] at first
    obtain ⟨i,here,page⟩ := Option.map_eq_some_iff.mp start
    simp [here,Entry.segment,page] at first

end Qsoe.Rsrc
