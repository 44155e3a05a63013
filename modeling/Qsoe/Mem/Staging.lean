import Qsoe.Mem.Unmapping

/-! A page that is mapped for the time of one call. When the request fails the page may be mapped all
the same, behind a tracker that is full; when it succeeds, unmapping takes away just that page. -/
namespace Qsoe.Mem

variable {cfg : Config} {slots filled : Slots} {p q r : Proc} {s t : State} {caller : Pid} {len : Addr}
    {frame : Nat}

def State.Maps (s : State) (pid : Pid) (page : Page) : Prop := ∃ p, s.procs pid = some p ∧ page ∈ p.pages

def State.Tracks (s : State) (pid : Pid) (e : Addr × Nat) : Prop := ∃ p, s.procs pid = some p ∧ e ∈ p.mmap

structure State.Alike (s t : State) (pid : Pid) : Prop where
  maps : ∀ page, t.Maps pid page ↔ s.Maps pid page
  tracks : ∀ e, t.Tracks pid e ↔ s.Tracks pid e

theorem State.Alike.refl (s : State) (pid : Pid) : s.Alike s pid := ⟨fun _ => Iff.rfl,fun _ => Iff.rfl⟩

def Proc.getsPage (cfg : Config) (slots : Slots) (p : Proc) (k : PageKernel) : Bool :=
  match takeFrame slots p k with
  | none => false
  | some (_,q,frame) => (pageMap cfg q (roundUp p.mmapTop megaPage) megaPage frame rightsAll k.mapped).isSome

def State.GetsPage (cfg : Config) (s : State) (pid : Pid) (k : PageKernel) : Prop :=
  ∃ p, s.procs pid = some p ∧ p.getsPage cfg s.slots k = true

def State.TrackerFull (cfg : Config) (s : State) (pid : Pid) : Prop :=
  ∃ p, s.procs pid = some p ∧ cfg.maxMmap ≤ p.mmap.length

theorem alike_iff (before : s.procs caller = some p) (after : t.procs caller = some q) :
    s.Alike t caller ↔ (∀ page, page ∈ q.pages ↔ page ∈ p.pages) ∧ ∀ e, e ∈ q.mmap ↔ e ∈ p.mmap := by
  constructor
  · rintro ⟨maps,tracks⟩
    refine ⟨fun page => ?_,fun e => ?_⟩
    · simpa [State.Maps,before,after] using maps page
    · simpa [State.Tracks,before,after] using tracks e
  · rintro ⟨maps,tracks⟩
    refine ⟨fun page => ?_,fun e => ?_⟩
    · simpa [State.Maps,before,after] using maps page
    · simpa [State.Tracks,before,after] using tracks e

theorem clear_new {va : Addr} {rights : Rights} (clear : Mapping.Clear p.pages va.toNat megaPage.toNat) :
    pageOf cfg va megaPage frame rights ∉ p.pages := by
  intro member
  have meets := clear _ member
  have size := megaPage_positive
  simp only [pageOf,Mapping.stop] at meets
  omega

theorem placePage_cases (cfg : Config) (slots : Slots) (p : Proc) (k : PageKernel) :
    (p.getsPage cfg slots k = false ∧ ∃ filled q,
      placePage cfg slots p (roundUp p.mmapTop megaPage) k = ((filled,q),false) ∧ q.pages = p.pages ∧ q.mmap = p.mmap) ∨
    (p.getsPage cfg slots k = true ∧ ∃ filled q frame,
      placePage cfg slots p (roundUp p.mmapTop megaPage) k = ((filled,q),decide (p.mmap.length < cfg.maxMmap)) ∧
      q.pages = megaPageAt cfg (roundUp p.mmapTop megaPage,frame) :: p.pages ∧
      megaPageAt cfg (roundUp p.mmapTop megaPage,frame) ∉ p.pages ∧ q.devframes = p.devframes ∧
      (p.mmap.length < cfg.maxMmap → q.mmap = p.mmap ++ [(roundUp p.mmapTop megaPage,frame)])) := by
  unfold placePage Proc.getsPage
  cases taking : takeFrame slots p k with
  | none => exact .inl ⟨rfl,_,_,rfl,rfl,rfl⟩
  | some taken =>
    obtain ⟨filled,taken,frame⟩ := taken
    obtain ⟨mmap,pages,-,devframes⟩ := takeFrame_mmap taking
    dsimp only
    cases mapping : pageMap cfg taken (roundUp p.mmapTop megaPage) megaPage frame rightsAll k.mapped with
    | none => exact .inl ⟨rfl,_,_,rfl,pages,mmap⟩
    | some there =>
      obtain ⟨rfl,clear,-⟩ := pageMap_some mapping
      have new : megaPageAt cfg (roundUp p.mmapTop megaPage,frame) ∉ taken.pages := clear_new clear
      rw [pages] at new
      right
      dsimp only
      rw [mmap,pages]
      by_cases full : cfg.maxMmap ≤ p.mmap.length
      · rw [if_pos full,decide_eq_false (Nat.not_lt.mpr full)]
        exact ⟨rfl,_,_,frame,rfl,rfl,new,devframes,fun room => absurd room (Nat.not_lt.mpr full)⟩
      · rw [if_neg full,decide_eq_true (Nat.lt_of_not_le full)]
        exact ⟨rfl,_,_,frame,rfl,rfl,new,devframes,fun _ => rfl⟩

theorem placePages_one (k : Nat → PageKernel) (turn : placePage cfg slots p (roundUp p.mmapTop megaPage) (k 0) =
    ((filled,q),done)) :
    placePages cfg (roundUp p.mmapTop megaPage) k (0 + 1) 0 slots p = ((filled,q),done) := by
  have here : roundUp p.mmapTop megaPage + BitVec.ofNat 64 0 * megaPage = roundUp p.mmapTop megaPage := by
    simp
  rw [placePages,here,turn]
  cases done <;> rfl

structure Staged (cfg : Config) (p q : Proc) (va : Addr) (frame : Nat) : Prop where
  pages : q.pages = megaPageAt cfg (va,frame) :: p.pages
  mmap : q.mmap = p.mmap ++ [(va,frame)]
  new : megaPageAt cfg (va,frame) ∉ p.pages

theorem Staged.tracked {va : Addr} (staged : Staged cfg p q va frame) : (va,frame) ∈ q.mmap := by
  rw [staged.mmap]
  exact List.mem_append_right _ (List.mem_singleton.mpr rfl)

theorem Staged.spared {va : Addr} (staged : Staged cfg p q va frame) (sound : q.Sound cfg slots)
    (fits : len ≤ megaPage) :
    ¬q.Strikes va len := by
  rintro ⟨f,there,low,high⟩
  obtain ⟨page,member,start,cap⟩ := sound.devices f there
  have mine : megaPageAt cfg (va,frame) ∈ q.pages := (sound.tracked _ staged.tracked).1
  have room := (sound.spaced.inside _ mine).2
  have size := (sound.spaced.inside page member).1
  have top := cfg.userTop_le
  have bytes := megaPage_toNat
  have short : len.toNat ≤ megaPage.toNat := fits
  have stop : (megaPageAt cfg (va,frame)).stop = va.toNat + megaPage.toNat := rfl
  rw [stop,bytes] at room
  have inside := (struck_iff ⟨low,high⟩ f.va).mp ⟨low,high⟩
  unfold Within at inside
  have same : page = megaPageAt cfg (va,frame) := by
    apply sound.spaced.apart.unique member mine f.va.toNat
    · exact ⟨Nat.le_of_eq start,by unfold Mapping.stop; omega⟩
    · refine ⟨inside.1,?_⟩
      rw [stop]
      omega
  rw [same] at cap
  have twice := (List.nodup_append.mp sound.distinct).2.2 frame (List.mem_map.mpr ⟨_,staged.tracked,rfl⟩) f.cap
    (List.mem_append_left _ (List.mem_map.mpr ⟨f,there,rfl⟩))
  exact twice (Option.some.inj cap)

theorem Staged.dropped {va : Addr} (staged : Staged cfg p q va frame) (before : p.Sound cfg slots)
    (after : q.Sound cfg filled) (dropped : Dropped q r (· = va)) :
    (∀ page, page ∈ r.pages ↔ page ∈ p.pages) ∧ ∀ e, e ∈ r.mmap ↔ e ∈ p.mmap := by
  have mine : megaPageAt cfg (va,frame) ∈ q.pages := (after.tracked _ staged.tracked).1
  refine ⟨fun page => ?_,fun e => ?_⟩
  · rw [dropped.pages,staged.pages,List.mem_cons]
    constructor
    · rintro ⟨rfl | old,apart⟩
      · exact absurd rfl (apart _ staged.tracked rfl)
      · exact old
    · intro old
      refine ⟨.inr old,fun e member gone cap => ?_⟩
      obtain rfl := after.tracked_inj member staged.tracked gone
      have here : page ∈ q.pages := by
        rw [staged.pages]
        exact List.mem_cons_of_mem _ old
      exact staged.new (after.spaced.once page here _ mine frame cap rfl ▸ old)
  · rw [dropped.mmap,staged.mmap,List.mem_append,List.mem_singleton]
    constructor
    · rintro ⟨old | rfl,other⟩
      · exact old
      · exact absurd rfl other
    · intro old
      refine ⟨.inl old,fun same => ?_⟩
      have listed : e ∈ q.mmap := by
        rw [staged.mmap]
        exact List.mem_append_left _ old
      obtain rfl := after.tracked_inj listed staged.tracked same
      exact staged.new (before.tracked _ old).1

theorem roundUp_low (x : Addr) : roundUp x megaPage &&& (megaPage - 1) = 0 := by
  rw [roundUp,BitVec.and_assoc,BitVec.and_comm (~~~(megaPage - 1)),BitVec.and_not_self]
  exact BitVec.and_zero

/-- A request for at most one page fails without a trace, or leaves a page that nothing tracks, or is undone by
unmapping what it answers. -/
theorem mmap_cases (sound : s.Sound cfg) (caller : Pid) (k : Kernel) (nonempty : len ≠ 0) (fits : len ≤ megaPage) :
    (¬s.GetsPage cfg caller (k.page 0) ∧ ∃ t e, s.mmapServe cfg caller len 0 0 k = (t,.error e) ∧
      s.Alike t caller) ∨
    (s.GetsPage cfg caller (k.page 0) ∧ s.TrackerFull cfg caller ∧
      ∃ t e, s.mmapServe cfg caller len 0 0 k = (t,.error e) ∧ ¬s.Alike t caller) ∨
    (s.GetsPage cfg caller (k.page 0) ∧ ¬s.TrackerFull cfg caller ∧
      ∃ t base, s.mmapServe cfg caller len 0 0 k = (t,.ok base) ∧ ¬s.Alike t caller ∧
        s.Alike (t.munmapServe caller base len).1 caller) := by
  cases owner : s.procs caller with
  | none =>
    refine .inl ⟨?_,s,.esrch,by simp only [State.mmapServe,owner],.refl s caller⟩
    rintro ⟨p,there,-⟩
    rw [owner] at there
    cases there
  | some p =>
    have gets : s.GetsPage cfg caller (k.page 0) ↔ p.getsPage cfg s.slots (k.page 0) = true := by
      simp [State.GetsPage,owner]
    have full : s.TrackerFull cfg caller ↔ cfg.maxMmap ≤ p.mmap.length := by
      simp [State.TrackerFull,owner]
    have served : s.mmapServe cfg caller len 0 0 k = _ := mmapServe_anonymous 0 k owner nonempty BitVec.zero_and
    have kept := mmapServe_sound sound caller len 0 0 k
    rw [gets,full,served]
    rw [served] at kept
    dsimp only at kept ⊢
    rw [mmapAnonymous] at kept ⊢
    rcases placePage_cases cfg s.slots p (k.page 0) with ⟨refused,filled,q,turn,pages,mmap⟩ | ⟨gets,filled,q,
      frame,turn,pages,new,-,mmap⟩
    · have loop := placePages_one k.page turn
      rw [← pagesIn_one nonempty fits] at loop
      rw [mmapPages_stopped loop]
      refine .inl ⟨by rw [refused]; exact Bool.false_ne_true,_,_,rfl,?_⟩
      exact (alike_iff owner (setProc_procs ..)).mpr ⟨fun page => by rw [pages],fun e => by rw [mmap]⟩
    · right
      have loop := placePages_one k.page turn
      rw [← pagesIn_one nonempty fits] at loop
      have more : ∀ t q', t.procs caller = some q' → q'.pages = q.pages → ¬s.Alike t caller := by
        intro t q' there same alike
        have maps := (alike_iff owner there).mp alike
        refine new ((maps.1 _).mp ?_)
        rw [same,pages]
        exact List.mem_cons_self
      by_cases room : p.mmap.length < cfg.maxMmap
      · right
        rw [decide_eq_true room] at loop
        rw [mmapPages_placed loop] at kept ⊢
        dsimp only at kept ⊢
        have there := setProc_procs s caller filled (q.setTop (roundUp p.mmapTop megaPage + roundUp len megaPage))
        refine ⟨gets,Nat.not_le.mpr room,_,_,rfl,more _ _ there (q.setTop_pages _),?_⟩
        generalize s.setProc caller filled (q.setTop (roundUp p.mmapTop megaPage + roundUp len megaPage)) =
          t at kept there ⊢
        have before := sound.procs caller p owner
        have after := kept.procs caller _ there
        have staged : Staged cfg p (q.setTop (roundUp p.mmapTop megaPage + roundUp len megaPage))
          (roundUp p.mmapTop megaPage) frame :=
          ⟨by rw [q.setTop_pages,pages],by rw [q.setTop_mmap,mmap room],new⟩
        generalize q.setTop (roundUp p.mmapTop megaPage + roundUp len megaPage) = r at there after staged
        have nothing : (munmapDevframes t.slots r (roundUp p.mmapTop megaPage) len).2 = [] := by
          by_contra hit
          exact staged.spared after fits (strikes_iff.mp hit)
        have zero : roundUp p.mmapTop megaPage + BitVec.ofNat 64 0 * megaPage = roundUp p.mmapTop megaPage := by
          simp
        have tracked : allTracked r (roundUp p.mmapTop megaPage) (pagesIn (roundUp len megaPage)) 0 = true := by
          rw [pagesIn_one nonempty fits,allTracked_iff]
          intro j less
          obtain rfl : j = 0 := by omega
          exact ⟨frame,by rw [zero]; exact staged.tracked⟩
        rw [fst_of_eq (munmapServe_anonymous there nonempty nothing (roundUp_low _) tracked)]
        have dropped := (dropPages_spec after (roundUp p.mmapTop megaPage)
          (pagesIn (roundUp len megaPage)) 0).2.setTop
          (rewound r (roundUp p.mmapTop megaPage) (roundUp len megaPage))
        have only : (fun x : Addr => ∃ j < pagesIn (roundUp len megaPage), x =
          roundUp p.mmapTop megaPage + BitVec.ofNat 64 (0 + j) * megaPage) =
            (· = roundUp p.mmapTop megaPage) := by
          funext x
          rw [pagesIn_one nonempty fits]
          refine propext ⟨?_,?_⟩
          · rintro ⟨j,less,rfl⟩
            obtain rfl : j = 0 := by omega
            exact zero
          · rintro rfl
            exact ⟨0,Nat.zero_lt_one,zero.symm⟩
        rw [only] at dropped
        exact (alike_iff owner (setProc_procs ..)).mpr (staged.dropped before after dropped)
      · left
        rw [decide_eq_false room] at loop
        rw [mmapPages_stopped loop]
        exact ⟨gets,Nat.le_of_not_lt room,_,_,rfl,more _ _ (setProc_procs ..) rfl⟩

end Qsoe.Mem
