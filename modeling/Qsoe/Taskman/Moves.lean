import Qsoe.Taskman.Frame

/-! Everything a request other than a teardown does to the channel and connection tables, as
a path of single moves labelled with the sources whose badges enter the table. The
invariants are proved move by move. -/
namespace Qsoe.Taskman

variable {cfg : Config}

def Channel.Primary (c : Channel) : Prop := c.owner = pidTaskman ∧ c.chid = 1

/-- The same connection, perhaps under another slot or with other flags. -/
structure Row.Like (r r' : Row cfg) : Prop where
  channelIdx : r'.channelIdx = r.channelIdx
  badge : r'.badge = r.badge
  clientPid : r'.clientPid = r.clientPid
  source : r'.source = r.source
  target : r'.target = r.target

theorem Row.Like.refl (r : Row cfg) : Row.Like r r := ⟨rfl,rfl,rfl,rfl,rfl⟩

theorem Row.Like.trans {p q r : Row cfg} (first : Row.Like p q) (second : Row.Like q r) : Row.Like p r :=
  ⟨second.channelIdx.trans first.channelIdx,second.badge.trans first.badge,
    second.clientPid.trans first.clientPid,second.source.trans first.source,
    second.target.trans first.target⟩

namespace Tables

/-- A row's source has been drawn; a SYSMGR row is its own process's on the primary channel. -/
def Counted (v : Tables cfg) (r : Row cfg) : Prop :=
  match r.source with
  | .sysmgr p => r.clientPid = p ∧ ∃ c, v.channels r.channelIdx = some c ∧ c.Primary
  | .fault _ => False
  | .scoid n => n < v.scoids
  | .pipe n _ => n < v.pipes

structure Wf (v : Tables cfg) : Prop where
  number : ∀ j r, v.rows j = some r → r.badge = r.source.badge
  counted : ∀ j r, v.rows j = some r → v.Counted r
  same : ∀ j k r r', v.rows j = some r → v.rows k = some r' → r.source = r'.source →
    r.clientPid = r'.clientPid ∧ r.channelIdx = r'.channelIdx
  keys : ∀ i k c c', v.channels i = some c → v.channels k = some c' →
    c'.matches cfg c.owner c.chid = true → i = k

/-- A row as it is registered: on a channel in use, under a number no other row came by. -/
structure Enters (v : Tables cfg) (r : Row cfg) (c : Channel) : Prop where
  live : v.channels r.channelIdx = some c
  born : r.target = c.born
  number : r.badge = r.source.badge
  counted : v.Counted r
  unused : (∃ p, r.source = .sysmgr p) ∨ ∀ k r', v.rows k = some r' → r'.source ≠ r.source

/-- One change of the tables. -/
inductive Move : Tables cfg → List Source → Tables cfg → Prop where
  | scoid : Move v [] { v with scoids := v.scoids + 1 }
  | pipe : Move v [] { v with pipes := v.pipes + 1 }
  | register : v.Enters r c → Move v [r.source] { v with rows := Slab.put v.rows j r }
  | alter : v.rows k = some r → Row.Like r r' → Move v [] { v with rows := Slab.put v.rows j r' }
  | unregister : Move v [] { v with rows := Slab.erase v.rows j }
  | create {v : Tables cfg} {i : Fin cfg.channels} {c : Channel} : v.channels i = none →
      (∀ k c', v.channels k = some c' → c'.matches cfg c.owner c.chid = false) → c.born = v.objects →
      Move v [] { v with channels := Slab.put v.channels i c, objects := v.objects + 1 }
  | mute {v : Tables cfg} {i : Fin cfg.channels} {c : Channel} : v.channels i = some c →
      Move v [] { v with channels := Slab.put v.channels i { c with ntfn := none } }
  | destroy {v : Tables cfg} {i : Fin cfg.channels} :
      Move v [] { v with
        channels := Slab.erase v.channels i, rows := Slab.drop v.rows fun r => r.channelIdx == i }

inductive Path : Tables cfg → List Source → Tables cfg → Prop where
  | nil : Path v [] v
  | cons : Move u l v → Path v m w → Path u (l ++ m) w

/-- A path on which only sources of `allowed`, in that order, enter the table. -/
def Draws (v : Tables cfg) (allowed : List Source) (w : Tables cfg) : Prop :=
  ∃ l, l.Sublist allowed ∧ Path v l w

variable {u v w : Tables cfg}

theorem Path.append (first : Path u l v) (second : Path v m w) : Path u (l ++ m) w := by
  induction first with
  | nil => exact second
  | cons move _ ih =>
    rw [List.append_assoc]
    exact .cons move (ih second)

theorem Draws.refl (v : Tables cfg) (allowed : List Source) : Draws v allowed v :=
  ⟨[],List.nil_sublist _,.nil⟩

theorem Draws.append (first : Draws u a v) (second : Draws v b w) : Draws u (a ++ b) w := by
  obtain ⟨l,sub,path⟩ := first
  obtain ⟨m,sub',path'⟩ := second
  exact ⟨l ++ m,sub.append sub',path.append path'⟩

theorem Draws.mono (draws : Draws v a w) (sub : a.Sublist b) : Draws v b w := by
  obtain ⟨l,within,path⟩ := draws
  exact ⟨l,within.trans sub,path⟩

theorem Move.draws (move : Move v l w) : Draws v l w := by
  refine ⟨l,.refl l,?_⟩
  rw [← List.append_nil l]
  exact .cons move .nil

theorem Wf.of_like (wf : Wf v)
    (like : ∀ j r, w.rows j = some r → ∃ k r', v.rows k = some r' ∧ Row.Like r' r ∧
      ∀ c, v.channels r'.channelIdx = some c → c.Primary →
        ∃ c', w.channels r'.channelIdx = some c' ∧ c'.Primary)
    (scoids : v.scoids ≤ w.scoids) (pipes : v.pipes ≤ w.pipes)
    (keys : ∀ i k c c', w.channels i = some c → w.channels k = some c' →
      c'.matches cfg c.owner c.chid = true → i = k) : Wf w where
  number j r used := by
    obtain ⟨k,r',used',same,-⟩ := like j r used
    rw [same.badge,same.source]
    exact wf.number k r' used'
  counted j r used := by
    obtain ⟨k,r',used',same,kept⟩ := like j r used
    have counted := wf.counted k r' used'
    unfold Counted at counted ⊢
    rw [same.source,same.clientPid,same.channelIdx]
    split at counted
    · obtain ⟨client,c,live,primary⟩ := counted
      exact ⟨client,kept c live primary⟩
    · exact counted
    · omega
    · omega
  same j k r r' used used' source := by
    obtain ⟨j',q,oldUsed,like₁,-⟩ := like j r used
    obtain ⟨k',q',oldUsed',like₂,-⟩ := like k r' used'
    rw [like₁.source,like₂.source] at source
    rw [like₁.clientPid,like₂.clientPid,like₁.channelIdx,like₂.channelIdx]
    exact wf.same j' k' q q' oldUsed oldUsed' source
  keys := keys

theorem Wf.keys_sub (wf : Wf v) (sub : ∀ i c, w.channels i = some c →
      ∃ c', v.channels i = some c' ∧ c'.owner = c.owner ∧ c'.chid = c.chid) :
    ∀ i k c c', w.channels i = some c → w.channels k = some c' →
      c'.matches cfg c.owner c.chid = true → i = k := by
  intro i k c c' used used' hit
  obtain ⟨d,old,owner,chid⟩ := sub i c used
  obtain ⟨d',old',owner',chid'⟩ := sub k c' used'
  apply wf.keys i k d d' old old'
  simpa [Channel.matches,owner,chid,owner',chid'] using hit

theorem matches_symm {c c' : Channel} (hit : c.matches cfg c'.owner c'.chid = true) :
    c'.matches cfg c.owner c.chid = true := by
  simp only [Channel.matches,Bool.and_eq_true,beq_iff_eq,Bool.or_eq_true] at hit ⊢
  obtain ⟨chid,way⟩ := hit
  refine ⟨chid.symm,?_⟩
  rw [chid]
  exact way.imp_right Eq.symm

theorem Wf.register (wf : Wf v) (enters : v.Enters r c) :
    Wf { v with rows := Slab.put v.rows j r } where
  number k q used := by
    rcases Slab.put_cases used with ⟨-,rfl⟩ | old
    · exact enters.number
    · exact wf.number k q old
  counted k q used := by
    rcases Slab.put_cases used with ⟨-,rfl⟩ | old
    · exact enters.counted
    · exact wf.counted k q old
  same k l q q' used used' source := by
    -- the new row against an old one of the same source: only SYSMGR rows repeat a source
    have fresh : ∀ k q, v.rows k = some q → q.source = r.source →
        q.clientPid = r.clientPid ∧ q.channelIdx = r.channelIdx := by
      intro k q old equal
      rcases enters.unused with ⟨p,sysmgr⟩ | unused
      · have one := wf.counted k q old
        have two := enters.counted
        simp only [Counted,equal,sysmgr] at one two
        obtain ⟨client,d,live,primary⟩ := one
        obtain ⟨client',d',live',primary'⟩ := two
        refine ⟨client.trans client'.symm,wf.keys _ _ d d' live live' ?_⟩
        simp [Channel.matches,primary.1,primary.2,primary'.1,primary'.2]
      · exact absurd equal (unused k q old)
    rcases Slab.put_cases used with ⟨-,rfl⟩ | old
    · rcases Slab.put_cases used' with ⟨-,rfl⟩ | old'
      · exact ⟨rfl,rfl⟩
      · obtain ⟨client,channel⟩ := fresh l q' old' source.symm
        exact ⟨client.symm,channel.symm⟩
    · rcases Slab.put_cases used' with ⟨-,rfl⟩ | old'
      · exact fresh k q old source
      · exact wf.same k l q q' old old' source
  keys := wf.keys

theorem Move.wf (move : Move v l w) (wf : Wf v) : Wf w := by
  have kept : ∀ (r : Row cfg) c, v.channels r.channelIdx = some c → c.Primary →
      ∃ c', v.channels r.channelIdx = some c' ∧ c'.Primary := fun _ c live primary => ⟨c,live,primary⟩
  cases move with
  | scoid =>
    exact wf.of_like (fun j r used => ⟨j,r,used,.refl r,kept r⟩) (Nat.le_succ _) le_rfl wf.keys
  | pipe =>
    exact wf.of_like (fun j r used => ⟨j,r,used,.refl r,kept r⟩) le_rfl (Nat.le_succ _) wf.keys
  | register enters => exact wf.register enters
  | alter used like =>
    refine wf.of_like ?_ le_rfl le_rfl wf.keys
    intro k q put
    rcases Slab.put_cases put with ⟨-,rfl⟩ | old
    · exact ⟨_,_,used,like,kept _⟩
    · exact ⟨k,q,old,.refl q,kept q⟩
  | unregister =>
    refine wf.of_like ?_ le_rfl le_rfl wf.keys
    intro k q left
    exact ⟨k,q,(Slab.erase_some left).2,.refl q,kept q⟩
  | @create _ i c free fresh _ =>
    refine wf.of_like ?_ le_rfl le_rfl ?_
    rotate_left
    · intro a b d d' used used' hit
      rcases Slab.put_cases used with ⟨rfl,rfl⟩ | old
      · rcases Slab.put_cases used' with ⟨rfl,rfl⟩ | old'
        · rfl
        · exact absurd hit (by simp [fresh b d' old'])
      · rcases Slab.put_cases used' with ⟨rfl,rfl⟩ | old'
        · exact absurd (matches_symm hit) (by simp [fresh a d old])
        · exact wf.keys a b d d' old old' hit
    · intro k q used
      refine ⟨k,q,used,.refl q,?_⟩
      intro d live primary
      have other : q.channelIdx ≠ i := by
        rintro rfl
        simp [live] at free
      exact ⟨d,by simpa [other] using live,primary⟩
  | @mute _ i c used =>
    refine wf.of_like ?_ le_rfl le_rfl (wf.keys_sub ?_)
    rotate_left
    · intro a d put
      rcases Slab.put_cases put with ⟨rfl,rfl⟩ | old
      · exact ⟨c,used,rfl,rfl⟩
      · exact ⟨d,old,rfl,rfl⟩
    · intro k q row
      refine ⟨k,q,row,.refl q,?_⟩
      intro d live primary
      rcases eq_or_ne q.channelIdx i with rfl | other
      · obtain rfl : c = d := by simpa [used] using live
        exact ⟨{ c with ntfn := none },by simp,primary⟩
      · exact ⟨d,by simpa [other] using live,primary⟩
  | @destroy _ i =>
    refine wf.of_like ?_ le_rfl le_rfl (wf.keys_sub ?_)
    rotate_left
    · intro a d left
      exact ⟨d,(Slab.erase_some left).2,rfl,rfl⟩
    · intro k q row
      obtain ⟨row,apart⟩ := Slab.drop_some.mp row
      refine ⟨k,q,row,.refl q,?_⟩
      intro d live primary
      have other : q.channelIdx ≠ i := by simpa using apart
      exact ⟨d,by simpa [other] using live,primary⟩

theorem Path.wf (path : Path v l w) (wf : Wf v) : Wf w := by
  induction path with
  | nil => exact wf
  | cons move _ ih => exact ih (move.wf wf)

theorem Draws.wf (draws : Draws v l w) (wf : Wf v) : Wf w := by
  obtain ⟨m,-,path⟩ := draws
  exact path.wf wf

end Tables

end Qsoe.Taskman
