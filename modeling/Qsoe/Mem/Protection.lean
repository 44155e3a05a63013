import Qsoe.Mem.Unmapping

/-! What a change of protection that succeeds has changed. Only RELRO pages are mapped anew: an anonymous
page stays readable and writable, and a range whose end wraps has no page at all. -/
namespace Qsoe.Mem

variable {cfg : Config} {slots : Slots} {p q : Proc} {s : State} {caller : Pid} {addr len prot va : Addr}

def pageAddr (addr : Addr) (i : Nat) : Nat := addr.toNat + i * 2 ^ 12

def pagesOf (len : Addr) : Nat := (len.toNat + (2 ^ 12 - 1)) / 2 ^ 12

def Proc.Relro (p : Proc) (x : Nat) : Prop := ∃ e ∈ p.mprot, e.1.toNat = x

def Proc.Anonymous (p : Proc) (x : Nat) : Prop := ∃ e ∈ p.mmap, e.1.toNat ≤ x ∧ x < e.1.toNat + 2 ^ 21

/-- Writing is granted exactly if `prot` asks for it, reading at least then. -/
def Rights.Honour (r : Rights) (prot : Addr) : Prop :=
  r.write = (rightsOf prot).write ∧ ((rightsOf prot).read = true → r.read = true)

structure Protected (q : Proc) (addr len prot : Addr) : Prop where
  inside : addr.toNat + len.toNat ≤ 2 ^ 64
  pages : ∀ i < pagesOf len, (q.Relro (pageAddr addr i) ∨ q.Anonymous (pageAddr addr i)) ∧
    ∃ page ∈ q.pages, page.Contains (pageAddr addr i) ∧ page.target.rights.Honour prot

/-- What `caller` has is protected. -/
def State.Protects (t : State) (caller : Pid) (addr len prot : Addr) : Prop :=
  ∃ q, t.procs caller = some q ∧ Protected q addr len prot

/-- The range can be rounded up, the kernel grants RELRO pages what is asked, and anonymous ones are to be
writable. -/
structure Proc.Alterable (cfg : Config) (p : Proc) (addr len prot : Addr) : Prop where
  room : addr.toNat + len.toNat + (2 ^ 12 - 1) < 2 ^ 64
  relro : ∀ i < pagesOf len, p.Relro (pageAddr addr i) → (cfg.mask (rightsOf prot)).Honour prot
  anonymous : ∀ i < pagesOf len, p.Anonymous (pageAddr addr i) → (rightsOf prot).write = true

/-- The RELRO page at `va` has the rights of `prot`. -/
def Flipped (cfg : Config) (p : Proc) (prot va : Addr) (frame : Nat) : Prop :=
  ∃ page ∈ p.pages, page.start = va.toNat ∧ page.size = 2 ^ 12 ∧ page.target = ⟨some frame,cfg.mask (rightsOf prot)⟩

theorem setRights_flipped (flipped : Flipped cfg p prot va frame) (cap : Nat) :
    Flipped cfg { p with pages := p.pages.map (setRights cfg cap (rightsOf prot)) } prot va frame := by
  obtain ⟨page,member,start,size,target⟩ := flipped
  obtain ⟨start',size',-⟩ := setRights_place cfg cap (rightsOf prot) page
  refine ⟨_,List.mem_map_of_mem member,start'.trans start,size'.trans size,?_⟩
  unfold setRights
  split
  · rename_i same
    rw [target] at same
    rw [← same]
  · exact target

theorem setRights_relro (sound : p.Sound cfg slots) (member : (va,frame) ∈ p.mprot) :
    Flipped cfg { p with pages := p.pages.map (setRights cfg frame (rightsOf prot)) } prot va frame := by
  obtain ⟨page,there,start,size,behind⟩ := sound.relro _ member
  obtain ⟨start',size',-⟩ := setRights_place cfg frame (rightsOf prot) page
  refine ⟨_,List.mem_map_of_mem there,start'.trans start,size'.trans size,?_⟩
  unfold setRights
  rw [if_pos behind]

/-- A page of the range is a RELRO page with its new rights, or part of an anonymous one. -/
structure Turned (cfg : Config) (p q : Proc) (prot va : Addr) : Prop where
  mprot : q.mprot = p.mprot
  mmap : q.mmap = p.mmap
  page : (∃ frame, (va,frame) ∈ p.mprot ∧ Flipped cfg q prot va frame) ∨ p.Anonymous va.toNat
  stays : ∀ va' frame, Flipped cfg p prot va' frame → Flipped cfg q prot va' frame

/-- The Mega_Pages that are tracked lie in user space. -/
theorem Proc.Sound.low (sound : p.Sound cfg slots) {e : Addr × Nat} (listed : e ∈ p.mmap) :
    e.1.toNat + 2 ^ 21 ≤ 2 ^ 63 := by
  have low := (sound.spaced.inside _ (sound.tracked _ listed).1).2
  rw [← megaPage_toNat]
  exact low.trans cfg.userTop_le

theorem findMmapSpan_some (sound : p.Sound cfg slots) (found : (findMmapSpan p va).isSome) :
    p.Anonymous va.toNat := by
  unfold findMmapSpan at found
  rw [List.findIdx?_isSome,List.any_eq_true] at found
  obtain ⟨e,listed,hit⟩ := found
  have low := sound.low listed
  rw [Bool.and_eq_true,decide_eq_true_eq,decide_eq_true_eq,BitVec.le_def,BitVec.lt_def,BitVec.toNat_add,
    megaPage_toNat,Nat.mod_eq_of_lt (by omega)] at hit
  exact ⟨e,listed,hit⟩

theorem protectPage_turned (turn : protectPage cfg p va prot granted = (q,.ok ())) (sound : p.Sound cfg slots) :
    Turned cfg p q prot va := by
  unfold protectPage at turn
  split at turn
  · rename_i va' frame found
    have here : va' = va := by simpa using List.find?_some found
    subst here
    have listed := List.mem_of_find?_eq_some found
    split at turn
    · cases (Prod.mk.inj turn).2
    · rename_i there mapped
      obtain ⟨rfl,-⟩ := Prod.mk.inj turn
      obtain rfl := pageRemap_relro sound listed mapped
      exact ⟨rfl,rfl,.inl ⟨frame,listed,setRights_relro sound listed⟩,fun _ _ flipped =>
        setRights_flipped flipped frame⟩
  · split at turn
    · rename_i span
      split at turn
      · obtain ⟨rfl,-⟩ := Prod.mk.inj turn
        exact ⟨rfl,rfl,.inr (findMmapSpan_some sound span),fun _ _ flipped => flipped⟩
      · cases (Prod.mk.inj turn).2
    · cases (Prod.mk.inj turn).2

theorem protectPages_turned (loop : protectPages cfg addr prot k n i p = (q,.ok ())) (sound : p.Sound cfg slots) :
    q.mprot = p.mprot ∧ q.mmap = p.mmap ∧ (∀ va frame, Flipped cfg p prot va frame → Flipped cfg q prot va frame) ∧
      ∀ j < n, Turned cfg p q prot (addr + BitVec.ofNat 64 (i + j) * page4k) := by
  induction n generalizing i p with
  | zero =>
    obtain ⟨rfl,-⟩ := Prod.mk.inj loop
    exact ⟨rfl,rfl,fun _ _ flipped => flipped,fun j less => absurd less (Nat.not_lt_zero j)⟩
  | succ n ih =>
    rw [protectPages] at loop
    split at loop
    · cases (Prod.mk.inj loop).2
    · rename_i there turn
      have first := protectPage_turned turn sound
      obtain ⟨mprot,mmap,stays,rest⟩ := ih loop (protectPage_keeps turn sound).1
      refine ⟨mprot.trans first.mprot,mmap.trans first.mmap,fun va frame flipped =>
        stays va frame (first.stays va frame flipped),
        fun j less => ?_⟩
      cases j with
      | zero =>
        refine ⟨mprot.trans first.mprot,mmap.trans first.mmap,?_,fun va frame flipped =>
          stays va frame (first.stays va frame flipped)⟩
        rcases first.page with ⟨frame,listed,flipped⟩ | anonymous
        · exact .inl ⟨frame,listed,stays _ frame flipped⟩
        · exact .inr anonymous
      | succ j =>
        have later := rest j (Nat.lt_of_succ_lt_succ less)
        rw [show i + 1 + j = i + (j + 1) from by omega] at later
        refine ⟨mprot.trans first.mprot,mmap.trans first.mmap,?_,fun va frame flipped =>
          stays va frame (first.stays va frame flipped)⟩
        rcases later.page with ⟨frame,listed,flipped⟩ | ⟨e,listed,span⟩
        · exact .inl ⟨frame,first.mprot ▸ listed,flipped⟩
        · exact .inr ⟨e,first.mmap ▸ listed,span⟩

theorem page4k_aligned (aligned : addr &&& (page4k - 1) = 0) : 2 ^ 12 ∣ addr.toNat := by
  have mask : (page4k - 1).toNat = 2 ^ 12 - 1 := by
    rw [BitVec.toNat_sub_of_le (by rw [BitVec.le_def,page4k_toNat]; exact Nat.one_le_two_pow),page4k_toNat]
    rfl
  have low := congrArg BitVec.toNat aligned
  rw [BitVec.toNat_and,mask,Nat.and_two_pow_sub_one_eq_mod] at low
  exact Nat.dvd_of_mod_eq_zero low

theorem protectTurns_room (aligned : 2 ^ 12 ∣ addr.toNat) (room : addr.toNat + len.toNat + (2 ^ 12 - 1) < 2 ^ 64) :
    protectTurns addr len = pagesOf len := by
  have sum : (addr + len).toNat = addr.toNat + len.toNat := by
    rw [BitVec.toNat_add,Nat.mod_eq_of_lt (by omega)]
  unfold protectTurns pagesOf
  rw [roundUp_4k _ (by omega),sum]
  omega

theorem pageAddr_toNat (room : addr.toNat + len.toNat + (2 ^ 12 - 1) < 2 ^ 64) (less : i < pagesOf len) :
    (addr + BitVec.ofNat 64 i * page4k).toNat = pageAddr addr i := by
  unfold pagesOf at less
  unfold pageAddr
  rw [BitVec.toNat_add,BitVec.toNat_mul,BitVec.toNat_ofNat,page4k_toNat,Nat.mod_eq_of_lt (by omega : i < 2 ^ 64),
    Nat.mod_eq_of_lt (by omega : i * 2 ^ 12 < 2 ^ 64),Nat.mod_eq_of_lt (by omega)]

theorem wraps_unprotected (sound : q.Sound cfg slots) (wraps : ¬addr.toNat + len.toNat + (2 ^ 12 - 1) < 2 ^ 64)
    (nonempty : len ≠ 0) (aligned : 2 ^ 12 ∣ addr.toNat) : ¬Protected q addr len prot := by
  have positive : len.toNat ≠ 0 := fun nothing => nonempty (BitVec.eq_of_toNat_eq nothing)
  intro known
  have inside := known.inside
  obtain ⟨-,page,member,⟨-,stop⟩,-⟩ := known.pages (pagesOf len - 1) (by
    unfold pagesOf
    omega)
  have low := (sound.spaced.inside page member).2.trans cfg.userTop_le
  unfold pageAddr pagesOf at stop
  omega

theorem Turned.honour (turned : Turned cfg p q prot va) (sound : p.Sound cfg slots) (sound' : q.Sound cfg slots) :
    ((q.Relro va.toNat ∨ q.Anonymous va.toNat) ∧ ∃ page ∈ q.pages, page.Contains va.toNat ∧
      page.target.rights.Honour prot) ↔
      (p.Relro va.toNat → (cfg.mask (rightsOf prot)).Honour prot) ∧
        (p.Anonymous va.toNat → (rightsOf prot).write = true) := by
  have relro : ∀ x, q.Relro x ↔ p.Relro x := fun x => by
    unfold Proc.Relro
    rw [turned.mprot]
  have anonymous : ∀ x, q.Anonymous x ↔ p.Anonymous x := fun x => by
    unfold Proc.Anonymous
    rw [turned.mmap]
  -- an address has one page, so its rights are those of the page that is known to be there
  have only : ∀ known ∈ q.pages, known.Contains va.toNat →
      ((∃ page ∈ q.pages, page.Contains va.toNat ∧ page.target.rights.Honour prot) ↔
        known.target.rights.Honour prot) := by
    intro known member inside
    refine ⟨?_,fun honour => ⟨known,member,inside,honour⟩⟩
    rintro ⟨page,there,contains,honour⟩
    rw [sound'.spaced.apart.unique member there _ inside contains]
    exact honour
  have span : ∀ e ∈ p.mmap, e.1.toNat ≤ va.toNat ∧ va.toNat < e.1.toNat + 2 ^ 21 →
    (megaPageAt cfg e).Contains va.toNat := by
    intro e listed ⟨start,stop⟩
    refine ⟨start,?_⟩
    rw [← megaPage_toNat] at stop
    exact stop
  rw [relro,anonymous]
  rcases turned.page with ⟨frame,listed,page,member,start,size,target⟩ | ⟨e,listed,inside⟩
  · have here : page.Contains va.toNat := by
      unfold Mapping.Contains Mapping.stop
      omega
    have apart : ¬p.Anonymous va.toNat := by
      rintro ⟨e,tracked,inside⟩
      have same := sound'.spaced.apart.unique member (sound'.tracked e (turned.mmap ▸ tracked)).1 _ here
        (span e tracked inside)
      have sizes := congrArg Mapping.size same
      rw [size] at sizes
      exact absurd (sizes.trans megaPage_toNat) (by decide)
    rw [only page member here,target]
    exact ⟨fun known => ⟨fun _ => known.2,fun other => absurd other apart⟩,fun known =>
      ⟨.inl ⟨_,listed,rfl⟩,known.1 ⟨_,listed,rfl⟩⟩⟩
  · have tracked := (sound'.tracked e (turned.mmap ▸ listed)).1
    have apart : ¬p.Relro va.toNat := by
      rintro ⟨e',relro,start'⟩
      obtain ⟨page,member,start,size,-⟩ := sound.relro e' relro
      have here : page.Contains va.toNat := by
        unfold Mapping.Contains Mapping.stop
        omega
      have same := sound.spaced.apart.unique member (sound.tracked e listed).1 _ here (span e listed inside)
      have sizes := congrArg Mapping.size same
      rw [size] at sizes
      exact absurd (sizes.trans megaPage_toNat) (by decide)
    have rights : (megaPageAt cfg e).target.rights = rightsAll := cfg.mask_all true
    rw [only _ tracked (span e listed inside),rights]
    constructor
    · rintro ⟨-,write,-⟩
      exact ⟨fun other => absurd other apart,fun _ => write.symm⟩
    · rintro ⟨-,write⟩
      exact ⟨.inr ⟨e,listed,inside⟩,(write ⟨e,listed,inside⟩).symm,fun _ => rfl⟩

theorem protectPages_alterable {k : Nat → Bool} (sound : p.Sound cfg slots) (aligned : 2 ^ 12 ∣ addr.toNat)
    (nonempty : len ≠ 0) (loop : protectPages cfg addr prot k (protectTurns addr len) 0 p = (q,.ok ())) :
    Protected q addr len prot ↔ p.Alterable cfg addr len prot := by
  have sound' := (protectPages_keeps loop sound).1
  by_cases room : addr.toNat + len.toNat + (2 ^ 12 - 1) < 2 ^ 64
  · rw [protectTurns_room aligned room] at loop
    have turned := (protectPages_turned loop sound).2.2.2
    have each : ∀ i < pagesOf len, ((q.Relro (pageAddr addr i) ∨ q.Anonymous (pageAddr addr i)) ∧
        ∃ page ∈ q.pages, page.Contains (pageAddr addr i) ∧ page.target.rights.Honour prot) ↔
        (p.Relro (pageAddr addr i) → (cfg.mask (rightsOf prot)).Honour prot) ∧
          (p.Anonymous (pageAddr addr i) → (rightsOf prot).write = true) := by
      intro i less
      have one := turned i less
      rw [Nat.zero_add] at one
      rw [← pageAddr_toNat room less]
      exact one.honour sound sound'
    constructor
    · intro known
      exact ⟨room,fun i less => ((each i less).mp (known.pages i less)).1,fun i less =>
        ((each i less).mp (known.pages i less)).2⟩
    · intro able
      exact ⟨by omega,fun i less => (each i less).mpr ⟨able.relro i less,able.anonymous i less⟩⟩
  · exact ⟨fun known => absurd known (wraps_unprotected sound' room nonempty aligned),fun able => absurd able.room room⟩

/-- A change of protection that succeeds has changed it exactly if the range could be altered. -/
theorem mprotect_honest (sound : s.Sound cfg) (owner : s.procs caller = some p) (k : Nat → Bool)
    (done : (s.mprotectServe cfg caller addr len prot k).2 = .ok ()) :
    (s.mprotectServe cfg caller addr len prot k).1.Protects caller addr len prot ↔
      p.Alterable cfg addr len prot := by
  by_cases bad : len = 0 ∨ addr &&& (page4k - 1) ≠ 0
  · rw [snd_of_eq (mprotectServe_bad owner bad)] at done
    cases done
  · obtain ⟨nonempty,aligned⟩ := not_or.mp bad
    have served : s.mprotectServe cfg caller addr len prot k = _ := mprotectServe_pages prot k owner nonempty
      (not_not.mp aligned)
    rw [snd_of_eq served] at done
    rw [fst_of_eq served]
    cases loop : protectPages cfg addr prot k (protectTurns addr len) 0 p with
    | mk q answer =>
      rw [loop] at done
      obtain rfl : answer = .ok () := done
      have own := sound.procs caller p owner
      rw [← protectPages_alterable own (page4k_aligned (not_not.mp aligned)) nonempty loop]
      unfold State.Protects
      rw [setProc_procs]
      refine ⟨?_,fun known => ⟨q,rfl,known⟩⟩
      rintro ⟨q',there,known⟩
      obtain rfl := Option.some.inj there
      exact known

/-- One anonymous page, at the bottom of the region. -/
def onePage : State := step smallConfig oneProcess (.mmap 1 0x200000 0 0 oneSlot)

theorem onePage_sound : onePage.Sound smallConfig := step_sound oneProcess_start.toSound _

/-- Reading alone is asked for and granted, and the page stays writable. -/
theorem mprotect_stays_writable :
    onePage.Sound smallConfig ∧ (onePage.mprotectServe smallConfig 1 0x2000000 0x1000 protRead fun _ =>
      true).2 = .ok () ∧
      ¬(onePage.mprotectServe smallConfig 1 0x2000000 0x1000 protRead fun _ => true).1.Protects 1 0x2000000
        0x1000 protRead := by
  refine ⟨onePage_sound,by decide +kernel,?_⟩
  rintro ⟨q,there,known⟩
  have pages : ((onePage.mprotectServe smallConfig 1 0x2000000 0x1000 protRead fun _ => true).1.procs 1).map
      (fun q => q.pages.map (·.target.rights)) = some [rightsAll] := by
    decide +kernel
  rw [there] at pages
  have rights : q.pages.map (·.target.rights) = [rightsAll] := Option.some.inj pages
  obtain ⟨-,page,member,-,write,-⟩ := known.pages 0 (by decide)
  have all : page.target.rights ∈ [rightsAll] := rights ▸ List.mem_map_of_mem member
  rw [List.mem_singleton.mp all] at write
  exact absurd write (by decide)

theorem mprotect_honest_onePage : ∃ p, onePage.procs 1 = some p ∧
    ((onePage.mprotectServe smallConfig 1 0x2000000 0x1000 protWrite fun _ => true).1.Protects 1 0x2000000
      0x1000 protWrite ↔
      p.Alterable smallConfig 0x2000000 0x1000 protWrite) := by
  have there : (onePage.procs 1).isSome = true := by decide +kernel
  obtain ⟨p,owner⟩ := Option.isSome_iff_exists.mp there
  exact ⟨p,owner,mprotect_honest onePage_sound owner _ (by decide +kernel)⟩

end Qsoe.Mem
