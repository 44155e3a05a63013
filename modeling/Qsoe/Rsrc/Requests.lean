import Qsoe.Rsrc.Ranges

/-! The database over whole runs of requests. Every request keeps the pool and the class lists
in order, except an attach whose align-up runs past the top of the 64-bit space: the range it
grants then starts below the free entry it was cut from. -/
namespace Qsoe.Rsrc

open Linked Database

variable {k : Consts} {db db' : Database} {lists lists' : Option Place → List Index} {e i j : Index} {c : Nat}

def Good (k : Consts) (db : Database) : Prop := ∃ lists, Tidy k db lists

/-- Every round of a batch meets `fits` in the state it starts from. -/
def Rounds (one : Database → α → Outcome β) (fits : Database → α → Prop) : Database → List α → Prop
  | _, [] => True
  | db, x :: xs => fits db x ∧ ∀ done ∈ one db x, done.2.isOk = true → Rounds one fits done.1 xs

def decideRounds (one : Database → α → Outcome β) (fits : Database → α → Prop) [∀ db x, Decidable (fits db x)] :
    (db : Database) → (xs : List α) → Decidable (Rounds one fits db xs)
  | _, [] => .isTrue trivial
  | db, x :: xs =>
    have : ∀ db, Decidable (Rounds one fits db xs) := fun db => decideRounds one fits db xs
    inferInstanceAs (Decidable (fits db x ∧ ∀ done ∈ one db x, done.2.isOk = true → Rounds one fits done.1 xs))

instance (one : Database → α → Outcome β) (fits : Database → α → Prop) [∀ db x, Decidable (fits db x)]
    (db : Database) (xs : List α) : Decidable (Rounds one fits db xs) := decideRounds one fits db xs

theorem Good.rounds (one : Database → α → Outcome Unit) (fits : Database → α → Prop)
    (round : ∀ db x, Good k db → fits db x → ∃ done, one db x = some done ∧ Good k done.1)
    (good : Good k db) (all : Rounds one fits db xs) :
    ∃ done, Database.rounds one db xs = some done ∧ Good k done.1 := by
  induction xs generalizing db with
  | nil => exact ⟨(db,.ok ()),rfl,good⟩
  | cons x xs ih =>
    obtain ⟨⟨db₁,result⟩,ended,good₁⟩ := round db x good all.1
    cases result with
    | error f => exact ⟨(db₁,.error f),by simp [Database.rounds,ended],good₁⟩
    | ok done =>
      obtain ⟨last,rest,good₂⟩ := ih good₁ (all.2 _ ended rfl)
      exact ⟨last,by simp [Database.rounds,ended,rest],good₂⟩

theorem le_andNot_add (x mask : BitVec 64) : x.toNat ≤ (x &&& ~~~mask).toNat + mask.toNat := by
  have apart : (x &&& ~~~mask) &&& (x &&& mask) = 0#64 := by
    ext n bound
    simp
    grind
  have whole : x = (x &&& ~~~mask) + (x &&& mask) := by
    rw [BitVec.add_eq_or_of_and_eq_zero _ _ apart]
    ext n bound
    simp
    grind
  have sum := congrArg BitVec.toNat whole
  have part : (x &&& mask).toNat ≤ mask.toNat := by
    rw [BitVec.toNat_and]
    exact Nat.and_le_right
  rw [BitVec.toNat_add] at sum
  omega

def Aligns (k : Consts) (x : Entry) (r : Request) : Prop :=
  (clip k x r).1.toNat + (alignment k r).toNat ≤ 2 ^ 64

instance (x : Entry) (r : Request) : Decidable (Aligns k x r) := inferInstanceAs (Decidable (_ ≤ _))

theorem le_alignUp (lo align : BitVec 64) (room : lo.toNat + align.toNat ≤ 2 ^ 64) : lo ≤ alignUp lo align := by
  unfold alignUp
  split
  · rename_i more
    have sum : (lo + align - 1).toNat = lo.toNat + align.toNat - 1 := by
      simp only [BitVec.toNat_sub,BitVec.toNat_add]
      bv_omega
    have masked := le_andNot_add (lo + align - 1) (align - 1)
    have less : (align - 1).toNat = align.toNat - 1 := by bv_omega
    rw [sum,less] at masked
    bv_omega
  · exact BitVec.le_refl lo

theorem clip_inside (x : Entry) (r : Request) : x.start ≤ (clip k x r).1 ∧ (clip k x r).2 ≤ x.stop := by
  unfold clip
  split
  · dsimp only
    constructor
    · split <;> bv_omega
    · split <;> bv_omega
  · exact ⟨BitVec.le_refl _,BitVec.le_refl _⟩

theorem grant_inside (granted : grant k x r = some (start,stop)) (aligns : Aligns k x r) :
    x.owner = 0 ∧ x.start ≤ start ∧ start ≤ stop ∧ stop ≤ x.stop := by
  obtain ⟨below,above⟩ := clip_inside (k := k) x r
  have up := le_alignUp _ _ aligns
  unfold grant at granted
  dsimp only at granted
  generalize (if r.length ≠ 0 then r.length - 1 else 0) = extra at granted
  split at granted
  · cases granted
  · rename_i fits
    obtain ⟨rfl,rfl⟩ : _ = start ∧ _ = stop := by simpa using granted
    simp only [not_or,ne_eq,Decidable.not_not] at fits
    obtain ⟨free,-,order,end'⟩ := fits
    refine ⟨free,?_,?_,?_⟩
    · bv_omega
    · bv_omega
    · bv_omega

theorem Sound.findFit (sound : Sound k db lists) (c : Nat) (r : Request) :
    db.findFit k c r = some none ∨ ∃ e start stop, db.findFit k c r = some (some (e,start,stop)) ∧
      e ∈ lists (some (.listed c)) ∧ grant k (db.entries e) r = some (start,stop) := by
  obtain ⟨pre,post,split,-,stopped,found⟩ := sound.threaded.walk c fun i => (grant k (db.entries i) r).isSome
  cases post with
  | nil => exact .inl (by simp [Database.findFit,found])
  | cons e post =>
    right
    obtain ⟨⟨start,stop⟩,granted⟩ := Option.isSome_iff_exists.mp (stopped e rfl)
    refine ⟨e,start,stop,?_,by simp [split],granted⟩
    simp [Database.findFit,found,granted]

def fitAligns (k : Consts) (db : Database) (r : Request) : Prop :=
  ((classOf k r.flags).bind fun cls => (db.findFit k cls r).join).all
    (fun fit => Aligns k (db.entries fit.1) r) = true

instance (r : Request) : Decidable (fitAligns k db r) := inferInstanceAs (Decidable (_ = true))

/-- One round fails with the used entries in place, or adds one entry to them. -/
theorem Tidy.attachOne (tidy : Tidy k db lists) (caller : BitVec 32) (aligns : fitAligns k db r) :
    ∃ db' lists', Tidy k db' lists' ∧ Keeps db lists db' lists' ∧
      (db.attachOne k caller r = some (db',.error .enospc) ∨
        ∃ i start stop, db.attachOne k caller r = some (db',.ok (i,start,stop)) ∧
          ∀ g ∈ i, (db'.entries g).owner = caller ∧ (∃ c, g ∈ lists' (some (.listed c))) ∧
            ∀ d, g ∉ lists (some (.listed d))) := by
  unfold Database.attachOne
  cases cls : classOf k r.flags with
  | none => exact ⟨db,lists,tidy,Keeps.refl db lists,.inl rfl⟩
  | some c =>
    rcases tidy.toSound.findFit c r with missed | ⟨e,start,stop,found,member,granted⟩
    · exact ⟨db,lists,tidy,Keeps.refl db lists,.inl (by simp [missed])⟩
    · have inside : Aligns k (db.entries e) r := by simpa [fitAligns,cls,found] using aligns
      obtain ⟨free,low,range,high⟩ := grant_inside granted inside
      obtain ⟨db₁,lists₁,⟨failed,tidy₁,keeps⟩ | ⟨done,i,carved⟩⟩ :=
        tidy.carve member free low range high caller r.flags
      · exact ⟨db₁,lists₁,tidy₁,keeps,.inl (by simp [found,failed])⟩
      · obtain ⟨pre,post,split,-,stopped,walked⟩ := carved.threaded.walk c fun j =>
          (db₁.entries j).owner == caller &&
          (db₁.entries j).start == start && (db₁.entries j).stop == stop
        refine ⟨db₁,lists₁,carved.toTidy,carved.keeps,.inr ⟨post.head?,start,stop,?_,?_⟩⟩
        · simp [found,done,walked]
        · intro g there
          have hit := stopped g there
          simp only [Bool.and_eq_true,beq_iff_eq] at hit
          have inside : g ∈ lists₁ (some (.listed c)) := by
            rw [split]
            exact List.mem_append_right _ (List.mem_of_mem_head? there)
          -- Ranges of one class are disjoint, so the entry found again is the one carved.
          have same : g = i := by
            by_contra other
            have apart := (carved.sorted c).apart inside carved.listed other
            have starts := carved.bounds
            rcases apart with before | after
            · bv_omega
            · bv_omega
          subst same
          exact ⟨hit.1.1,⟨c,inside⟩,carved.fresh⟩

theorem Tidy.attachAll (tidy : Tidy k db lists)
    (aligns : Rounds (fun db => db.attachOne k caller) (fitAligns k) db rs) (once : granted.Nodup)
    (used : ∀ g ∈ granted, (db.entries g).owner = caller ∧ ∃ c, g ∈ lists (some (.listed c)))
    (owned : caller ≠ 0 ∨ rs = [] ∨ (granted = [] ∧ rs.length = 1)) :
    ∃ done, db.attachAll k caller granted rs = some done ∧ Good k done.1 := by
  induction rs generalizing db lists granted with
  | nil => exact ⟨(db,.ok []),rfl,lists,tidy⟩
  | cons r rs ih =>
    obtain ⟨db₁,lists₁,tidy₁,keeps,failed | ⟨i,start,stop,done,new⟩⟩ := tidy.attachOne caller aligns.1
    · have taken : ∀ g ∈ granted, (db₁.entries g).owner ≠ 0 ∧ ∃ c, g ∈ lists₁ (some (.listed c)) := by
        intro g member
        obtain ⟨owner,c,inside⟩ := used g member
        have nonzero : (db.entries g).owner ≠ 0 := by
          rcases owned with right | wrong | ⟨vacant,-⟩
          · rw [owner]
            exact right
          · cases wrong
          · simp [vacant] at member
        obtain ⟨there,same⟩ := keeps c g inside nonzero
        exact ⟨by rwa [same],c,there⟩
      obtain ⟨db₂,lists₂,rolled,last⟩ := tidy₁.rollback once taken
      refine ⟨(db₂,.error .enospc),?_,lists₂,last⟩
      simp [Database.attachAll,failed,rolled]
    · have rest := aligns.2 _ done rfl
      -- With the pid 0 there is no second round, so nothing granted is ever given back.
      have owned' : caller ≠ 0 ∨ rs = [] ∨ (granted ++ i.toList = [] ∧ rs.length = 1) := by
        rcases owned with right | wrong | ⟨-,one⟩
        · exact .inl right
        · cases wrong
        · exact .inr (.inl (List.length_eq_zero_iff.mp (by simpa using one)))
      by_cases ended : rs = []
      · subst ended
        refine ⟨(db₁,.ok [{ r with start := start, stop := stop, length := stop - start + 1 }]),?_,lists₁,tidy₁⟩
        simp [Database.attachAll,done,Except.map]
      · have real : caller ≠ 0 := by
          rcases owned with right | wrong | ⟨-,one⟩
          · exact right
          · cases wrong
          · exact absurd (List.length_eq_zero_iff.mp (by simpa using one)) ended
        have once' : (granted ++ i.toList).Nodup := by
          cases i with
          | none => simpa using once
          | some g =>
            obtain ⟨-,-,fresh⟩ := new g rfl
            refine List.nodup_append.mpr ⟨once,by simp,?_⟩
            intro a member b single
            obtain rfl : b = g := by simpa using single
            rintro rfl
            obtain ⟨-,c,inside⟩ := used a member
            exact fresh c inside
        have used' : ∀ g ∈ granted ++ i.toList, (db₁.entries g).owner = caller ∧
            ∃ c, g ∈ lists₁ (some (.listed c)) := by
          intro g member
          rcases List.mem_append.mp member with before | now
          · obtain ⟨owner,c,inside⟩ := used g before
            obtain ⟨there,same⟩ := keeps c g inside (by rw [owner]; exact real)
            exact ⟨by rw [same,owner],c,there⟩
          · obtain ⟨owner,inside,-⟩ := new g (by simpa using now)
            exact ⟨owner,inside⟩
        obtain ⟨last,attached,good⟩ := ih tidy₁ rest once' used' owned'
        refine ⟨(last.1,last.2.map ({ r with start := start, stop := stop, length := stop - start + 1 } :: ·)),
          ?_,good⟩
        simp [Database.attachAll,done,attached]

def overlaps (p : Alloc) (x : Entry) : Bool := decide (p.start ≤ x.stop) && decide (x.start ≤ p.stop)

def allocFits (k : Consts) (db : Database) (p : Alloc) : Prop :=
  p.start ≤ p.stop ∧
    ((classOf k p.flags).bind fun cls => (db.walk cls fun i => overlaps p (db.entries i)).bind Prod.snd) = none

instance (p : Alloc) : Decidable (allocFits k db p) := inferInstanceAs (Decidable (_ ∧ _ = none))

theorem classOf_known (named : classOf k flags = some c) : c < k.typeCount := by
  unfold classOf at named
  dsimp only at named
  split at named
  · cases named
  · rename_i known
    obtain rfl := Option.some.inj named
    omega

theorem Good.createOne (good : Good k db) (caller : BitVec 32) (fits : allocFits k db p) :
    ∃ done, db.createOne k caller p = some done ∧ Good k done.1 := by
  obtain ⟨lists,tidy⟩ := good
  unfold Database.createOne
  cases named : classOf k p.flags with
  | none => exact ⟨_,rfl,lists,tidy⟩
  | some c =>
    cases allocated : db.poolAlloc with
    | none => exact ⟨_,rfl,lists,tidy⟩
    | some hit =>
      obtain ⟨db₁,e⟩ := hit
      obtain ⟨lists₁,sound₁,-,loose₁,-,listed₁,same₁⟩ := tidy.toSound.alloc_keeps allocated
      have loose : e ∈ lists₁ none := (loose₁ e).mpr (.inl rfl)
      dsimp only
      generalize (if p.flags &&& k.flagUsed ≠ 0 then caller else 0) = owner
      have written := sound₁.setEntry (sound₁.threaded.away loose) ⟨p.start,p.stop,owner,c,0⟩
      have free : ∀ j ∈ lists₁ (some (.listed c)), ((db₁.setEntry e ⟨p.start,p.stop,owner,c,0⟩).entries e).Apart
          ((db₁.setEntry e ⟨p.start,p.stop,owner,c,0⟩).entries j) := by
        intro j member
        have other : j ≠ e := by
          rintro rfl
          exact sound₁.threaded.away loose c member
        obtain ⟨pre,post,split,passed,-,walked⟩ := tidy.threaded.walk c fun i => overlaps p (db.entries i)
        obtain rfl : post = [] := by simpa [named,walked] using fits.2
        rw [listed₁] at member
        have clear := passed j (by simpa [split] using member)
        simp only [overlaps,Bool.and_eq_false_iff,decide_eq_false_iff_not] at clear
        simp only [setEntry_entries,Function.update_self,Function.update_of_ne other,same₁ c j member]
        rcases clear with after | before
        · exact .inr (by bv_omega)
        · exact .inl (by bv_omega)
      obtain ⟨db₂,lists₂,inserted,sound₂,entries₂,loose₂,listed₂⟩ := written.listInsert loose (by simp)
        (classOf_known named) (by simpa using fits.1) free
      have tidy₂ : Tidy k db₂ lists₂ := ⟨sound₂,fun j => by simp [loose₂,loose₁,tidy.settled]⟩
      simp only [inserted,Option.bind_some]
      split
      · rename_i unowned
        obtain ⟨db₃,lists₃,merged,tidy₃,-⟩ := tidy₂.mergeNeighbours ((listed₂ c e).mpr (.inr ⟨rfl,rfl⟩))
          (by simp [entries₂,unowned])
        exact ⟨_,by rw [merged]; rfl,lists₃,tidy₃⟩
      · exact ⟨_,rfl,lists₂,tidy₂⟩

theorem Good.destroyOne (good : Good k db) (p : Alloc) : ∃ done, db.destroyOne k p = some done ∧ Good k done.1 := by
  obtain ⟨lists,tidy⟩ := good
  unfold Database.destroyOne
  cases classOf k p.flags with
  | none => exact ⟨_,rfl,lists,tidy⟩
  | some c =>
    obtain ⟨pre,post,split,-,-,walked⟩ := tidy.threaded.walk c fun i =>
      (db.entries i).start == p.start && (db.entries i).stop == p.stop
    simp only [walked,Option.bind_some]
    cases post with
    | nil => exact ⟨_,rfl,lists,tidy⟩
    | cons e post =>
      obtain ⟨db₁,lists₁,removed,sound₁,-,loose₁,-⟩ := tidy.toSound.listRemove (e := e) (c := c) (by simp [split])
      refine ⟨(db₁,.ok ()),?_,lists₁,sound₁,fun j => by simp [loose₁,tidy.settled]⟩
      obtain ⟨db₂,taken,rfl⟩ := Option.map_eq_some_iff.mp removed
      simp [taken]

theorem Good.detachOne (good : Good k db) (caller : BitVec 32) (r : Request) :
    ∃ done, db.detachOne k caller r = some done ∧ Good k done.1 := by
  obtain ⟨lists,tidy⟩ := good
  unfold Database.detachOne
  cases classOf k r.flags with
  | none => exact ⟨_,rfl,lists,tidy⟩
  | some c =>
    obtain ⟨pre,post,split,-,-,walked⟩ := tidy.threaded.walk c fun i => (db.entries i).owner == caller &&
      (db.entries i).start == r.start && (db.entries i).stop == r.stop
    simp only [walked,Option.bind_some]
    cases post with
    | nil => exact ⟨_,rfl,lists,tidy⟩
    | cons e post =>
      obtain ⟨db₁,lists₁,given,tidy₁,-⟩ := tidy.giveUp (e := e) (c := c) (by simp [split])
      exact ⟨(db₁,.ok ()),by simp [given],lists₁,tidy₁⟩

def uses (db : Database) (pid : BitVec 32) : Nat := (Finset.univ.filter fun i => (db.entries i).owner = pid).card

theorem uses_le (db : Database) (pid : BitVec 32) : uses db pid ≤ poolSize := by
  have all := Finset.card_le_univ (Finset.univ.filter fun i => (db.entries i).owner = pid)
  simpa [uses] using all

/-- The restarts of `tm_rsrc_release_pid` end: each gives up an entry of the process. -/
theorem Good.releaseClass (good : Good k db) (real : pid ≠ 0) (enough : uses db pid < fuel) :
    ∃ db', db.releaseClass pid c fuel = some db' ∧ Good k db' := by
  induction fuel generalizing db with
  | zero => cases enough
  | succ fuel ih =>
    obtain ⟨lists,tidy⟩ := good
    obtain ⟨pre,post,split,-,stopped,walked⟩ := tidy.threaded.walk c fun i => (db.entries i).owner == pid
    rw [Database.releaseClass,walked,Option.bind_some]
    cases post with
    | nil => exact ⟨db,rfl,lists,tidy⟩
    | cons e post =>
      have mine : (db.entries e).owner = pid := by simpa using stopped e rfl
      obtain ⟨db₁,lists₁,given,tidy₁,freed,others⟩ := tidy.giveUp (e := e) (c := c) (by simp [split])
      have less : uses db₁ pid < uses db pid := by
        apply Finset.card_lt_card
        refine Finset.ssubset_iff_of_subset ?_ |>.mpr ⟨e,by simpa using mine,?_⟩
        · intro j member
          have owner : (db₁.entries j).owner = pid := by simpa using member
          by_cases same : j = e
          · subst same
            exact absurd (freed.symm.trans owner).symm real
          · simpa [others j same] using owner
        · simpa [freed] using real.symm
      obtain ⟨db₂,released,good₂⟩ := ih ⟨lists₁,tidy₁⟩ (by omega)
      exact ⟨db₂,by simp [given,released],good₂⟩

theorem Good.releasePid (good : Good k db) (pid : BitVec 32) :
    ∃ db', db.releasePid k pid = some db' ∧ Good k db' := by
  unfold Database.releasePid
  split
  · exact ⟨db,rfl,good⟩
  · rename_i positive
    have real : pid ≠ 0 := by
      rintro rfl
      simp at positive
    generalize List.range k.typeCount = classes
    induction classes generalizing db with
    | nil => exact ⟨db,rfl,good⟩
    | cons c classes ih =>
      have bounded := uses_le db pid
      have enough : uses db pid < poolSize + 1 := by omega
      obtain ⟨db₁,released,good₁⟩ := good.releaseClass (c := c) real enough
      obtain ⟨db₂,rest,good₂⟩ := ih good₁
      exact ⟨db₂,by simp [released,rest],good₂⟩

/-- After `n` rounds the last `n` entries are on the free list and the others are loose. -/
theorem poolInit_sound (k : Consts) (within : n ≤ poolSize) :
    ∃ lists, Sound k (poolInit n) lists ∧ (∀ j : Index, j ∈ lists none ↔ j.val < poolSize - n) ∧
      ∀ c, lists (some (.listed c)) = [] := by
  induction n with
  | zero =>
    refine ⟨fun p => if p = none then List.finRange poolSize else [],⟨⟨fun p => rfl,?_⟩,fun c => ?_⟩,
      by simp,by simp⟩
    · intro i
      refine ⟨none,fun q => ?_⟩
      by_cases loose : q = none <;> simp [loose]
    · exact Sorted.nil
  | succ n ih =>
    obtain ⟨lists,sound,loose,listed⟩ := ih (Nat.le_of_succ_le within)
    have low : poolSize - (n + 1) < poolSize - n := by omega
    obtain ⟨lists',freed,loose',listed'⟩ := sound.poolFree
      ((loose ⟨poolSize - (n + 1),Nat.sub_lt (Nat.zero_lt_succ 255) (Nat.zero_lt_succ n)⟩).mpr low)
    refine ⟨lists',freed,?_,?_⟩
    · intro j
      rw [loose',loose,Ne,Fin.ext_iff]
      dsimp only
      omega
    · intro c
      rw [listed',listed]

theorem init_good (k : Consts) : Good k Database.init := by
  obtain ⟨lists,sound,loose,-⟩ := poolInit_sound k (Nat.le_refl poolSize)
  exact ⟨lists,sound,fun j => by simp [loose]⟩

/-- The ranges created are new ones. -/
def creates (k : Consts) (db : Database) : Op → Prop
  | .create caller ps => Rounds (fun db => db.createOne k caller) (allocFits k) db ps
  | _ => True

/-- Besides, what an attach is granted from aligns without running past the top, and the pid 0,
which stands for FREE, asks for one range at a time. -/
def aligned (k : Consts) (db : Database) (op : Op) : Prop :=
  creates k db op ∧
    match op with
    | .attach caller rs => rs.length ≤ 16 → (caller ≠ 0 ∨ rs.length ≤ 1) ∧
        Rounds (fun db => db.attachOne k caller) (fitAligns k) db rs
    | _ => True

instance : DecidableRel (creates k) := fun db op =>
  match op with
  | .create caller ps => inferInstanceAs (Decidable (Rounds (fun db => db.createOne k caller) (allocFits k) db ps))
  | .destroy _ | .attach _ _ | .detach _ _ | .releasePid _ => .isTrue trivial

instance : DecidableRel (aligned k) := fun db op =>
  match op with
  | .attach caller rs => inferInstanceAs (Decidable (_ ∧ (rs.length ≤ 16 → (caller ≠ 0 ∨ rs.length ≤ 1) ∧
        Rounds (fun db => db.attachOne k caller) (fitAligns k) db rs)))
  | .create caller ps => inferInstanceAs (Decidable (creates k db (.create caller ps) ∧ True))
  | .destroy _ | .detach _ _ | .releasePid _ => .isTrue ⟨trivial,trivial⟩

theorem Rounds.any (one : Database → α → Outcome β) (db : Database) (xs : List α) :
    Rounds one (fun _ _ => True) db xs := by
  induction xs generalizing db with
  | nil => exact trivial
  | cons x xs ih => exact ⟨trivial,fun done _ _ => ih done.1⟩

theorem Good.attach (good : Good k db) (real : caller ≠ 0 ∨ rs.length ≤ 1)
    (aligns : Rounds (fun db => db.attachOne k caller) (fitAligns k) db rs) :
    ∃ done, db.attachAll k caller [] rs = some done ∧ Good k done.1 := by
  obtain ⟨lists,tidy⟩ := good
  have owned : caller ≠ 0 ∨ rs = [] ∨ (([] : List Index) = [] ∧ rs.length = 1) := by
    rcases real with caller | short
    · exact .inl caller
    · rcases Nat.le_one_iff_eq_zero_or_eq_one.mp short with zero | one
      · exact .inr (.inl (List.length_eq_zero_iff.mp zero))
      · exact .inr (.inr ⟨rfl,one⟩)
  exact tidy.attachAll aligns List.nodup_nil (by simp) owned

theorem step_good (good : Good k db) (allowed : aligned k db op) : ∃ db', step k db op = some db' ∧ Good k db' := by
  cases op with
  | create caller ps =>
    obtain ⟨done,created,good'⟩ := good.rounds _ (allocFits k)
      (fun db p good fits => good.createOne caller fits) allowed.1
    exact ⟨done.1,by simp [step,Database.create,created],good'⟩
  | destroy ps =>
    obtain ⟨done,destroyed,good'⟩ := good.rounds (fun db => db.destroyOne k) (fun _ _ => True)
      (fun db p good _ => good.destroyOne p) (Rounds.any _ db ps)
    exact ⟨done.1,by simp [step,Database.destroy,destroyed],good'⟩
  | attach caller rs =>
    by_cases long : 16 < rs.length
    · exact ⟨db,by simp [step,Database.attach,long],good⟩
    · obtain ⟨real,aligns⟩ := allowed.2 (Nat.le_of_not_lt long)
      obtain ⟨done,attached,good'⟩ := good.attach real aligns
      exact ⟨done.1,by simp [step,Database.attach,long,attached],good'⟩
  | detach caller rs =>
    obtain ⟨done,detached,good'⟩ := good.rounds (fun db => db.detachOne k caller) (fun _ _ => True)
      (fun db r good _ => good.detachOne caller r) (Rounds.any _ db rs)
    exact ⟨done.1,by simp [step,Database.detach,detached],good'⟩
  | releasePid pid => exact good.releasePid pid

/-- The free list and the class lists end, share out the whole pool, and hold disjoint ranges in
ascending order. -/
def WellFormed (k : Consts) (db : Database) : Prop :=
  ∃ free : List Index, ∃ lists : Nat → List Index,
    Chain db.next (db.root .pool) free ∧ (∀ c, Chain db.next (db.root (.listed c)) (lists c)) ∧
    free.Nodup ∧ (∀ c, (lists c).Nodup) ∧
    (∀ i, i ∈ free ∧ (∀ c, i ∉ lists c) ∨ i ∉ free ∧ ∃ c < k.typeCount, ∀ d, i ∈ lists d ↔ d = c) ∧
    ∀ c, (∀ i ∈ lists c, (db.entries i).start ≤ (db.entries i).stop) ∧
      (lists c).Pairwise (fun i j => (db.entries i).start < (db.entries j).start) ∧
      (lists c).Pairwise fun i j => (db.entries i).stop < (db.entries j).start

theorem Good.wellFormed (good : Good k db) : WellFormed k db := by
  obtain ⟨lists,tidy⟩ := good
  refine ⟨lists (some .pool),fun c => lists (some (.listed c)),tidy.shape.chain .pool,fun c => tidy.shape.chain _,
    (tidy.shape.chain .pool).nodup,fun c => (tidy.shape.chain _).nodup,?_,
    fun c => ⟨(tidy.sorted c).proper,?_,(tidy.sorted c).order⟩⟩
  · intro i
    obtain ⟨p,only⟩ := tidy.shape.account i
    cases p with
    | none => exact absurd ((only none).mpr rfl) (tidy.settled i)
    | some p =>
      cases p with
      | pool => exact .inl ⟨(only _).mpr rfl,fun c inside => absurd ((only _).mp inside) (by simp)⟩
      | listed c =>
        have inside := (only (some (.listed c))).mpr rfl
        refine .inr ⟨fun pooled => absurd ((only _).mp pooled) (by simp),c,((tidy.sorted c).cls i inside).2,
          fun d => ?_⟩
        rw [only]
        simp
  · apply (tidy.sorted c).order.imp_of_mem
    intro i j here _ before
    have range := (tidy.sorted c).proper i here
    bv_omega

theorem run_good (run : Lts.Run (step k) (aligned k) Database.init ops db) : Good k db :=
  run.invariant (Good k) (fun db op db' good allowed taken => by
    obtain ⟨db₁,done,good'⟩ := step_good good allowed
    obtain rfl : db₁ = db' := Option.some.inj (done.symm.trans taken)
    exact good') (init_good k)

/-- After any requests that align, the database is well formed and every further one returns. -/
theorem database_well_formed (run : Lts.Run (step k) (aligned k) Database.init ops db) :
    WellFormed k db ∧ ∀ op, aligned k db op → ∃ db', step k db op = some db' := by
  have good := run_good run
  refine ⟨good.wellFormed,fun op allowed => ?_⟩
  obtain ⟨db₁,done,-⟩ := step_good good allowed
  exact ⟨db₁,done⟩

def fewConsts : Consts := ⟨4,0xff,0x100,0x200,0x400,0xff00⟩

/-- A range of which a middle part is attached and given back is whole again. -/
theorem database_well_formed_rejoined : ∃ db, Lts.Run (step fewConsts) (aligned fewConsts) Database.init
    [.create 2 [⟨0x1000,0x8fff,0⟩],.attach 3 [⟨0x1000,0x1000,0,0,0x200⟩,⟨0x800,0,0x4000,0x4fff,0x100⟩],
      .detach 3 [⟨0,0,0x1000,0x1fff,0⟩],.releasePid 3] db ∧
    ((db.root (.listed 0)).map fun i => (db.next i,(db.entries i).stop)) = some (none,0x8fff) ∧
    WellFormed fewConsts db := by
  obtain ⟨db,run,whole⟩ := Lts.Run.exists_of_replay (step fewConsts) (aligned fewConsts) Database.init
    [.create 2 [⟨0x1000,0x8fff,0⟩],.attach 3 [⟨0x1000,0x1000,0,0,0x200⟩,⟨0x800,0,0x4000,0x4fff,0x100⟩],
      .detach 3 [⟨0,0,0x1000,0x1fff,0⟩],.releasePid 3]
    (fun db => ((db.root (.listed 0)).map fun i => (db.next i,(db.entries i).stop)) = some (none,0x8fff))
    (by decide +kernel)
  exact ⟨db,run,whole,(database_well_formed run).1⟩

/-- An attach aligned to 4096 in a free range below the top is granted the addresses from 0 on,
which another process holds. -/
theorem attach_wraps : ¬ ∀ ops db, Lts.Run (step fewConsts) (creates fewConsts) Database.init ops db →
    WellFormed fewConsts db := by
  intro wellFormed
  obtain ⟨db,run,overlap⟩ := Lts.Run.exists_of_replay (step fewConsts) (creates fewConsts) Database.init
    [.create 5 [⟨0,0xff,0x400⟩,⟨0xfffffffffffff800,0xffffffffffffffff,0⟩],.attach 7 [⟨0x10,0x1000,0,0,0x200⟩]]
    (fun db => ((db.root (.listed 0)).bind fun i =>
      (db.next i).map fun j => ((db.entries i).stop,(db.entries j).start)) = some (0xf,0)) (by decide +kernel)
  obtain ⟨i,first,pair⟩ := Option.bind_eq_some_iff.mp overlap
  obtain ⟨j,second,ends⟩ := Option.map_eq_some_iff.mp pair
  obtain ⟨stop,start⟩ : (db.entries i).stop = 0xf ∧ (db.entries j).start = 0 := by simpa using ends
  obtain ⟨-,lists,-,chain,-,-,-,ranges⟩ := wellFormed _ db run
  have chain := chain 0
  have order := (ranges 0).2.2
  cases listed : lists 0 with
  | nil =>
    rw [listed] at chain
    exact absurd (chain.symm.trans first) (by simp)
  | cons a rest =>
    rw [listed] at chain order
    obtain rfl : a = i := Option.some.inj (chain.1.symm.trans first)
    cases rest with
    | nil => exact absurd (chain.2.symm.trans second) (by simp)
    | cons b rest =>
      obtain rfl : b = j := Option.some.inj (chain.2.1.symm.trans second)
      have before := (List.pairwise_cons.mp order).1 b List.mem_cons_self
      rw [stop,start] at before
      exact absurd before (by decide)

end Qsoe.Rsrc
