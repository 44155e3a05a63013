import Qsoe.Mem.Delivery

/-! What a successful unmapping takes away and what it leaves. Device frames are looked for first, and
one that is found ends the request before any anonymous page has been looked at. -/
namespace Qsoe.Mem

variable {cfg : Config} {slots filled : Slots} {p q : Proc} {s : State} {caller : Pid} {va len : Addr}

/-- The address is one of the `bytes` from `va`. -/
def Within (va : Addr) (bytes x : Nat) : Prop := va.toNat ≤ x ∧ x < va.toNat + bytes

/-- `len` rounded up to whole Mega_Pages. -/
def wholePages (len : Addr) : Nat := (len.toNat + (2 ^ 21 - 1)) / 2 ^ 21 * 2 ^ 21

/-- Nothing in the range is tracked or mapped any more, and what is outside of the rounded range stays. -/
structure Unmapped (p q : Proc) (va len : Addr) : Prop where
  pages : ∀ e ∈ p.mmap, Within va len.toNat e.1.toNat → e ∉ q.mmap ∧ ∀ page ∈ q.pages, page.target.cap ≠ some e.2
  devices : ∀ f ∈ p.devframes, Within va len.toNat f.va.toNat → f ∉ q.devframes ∧
    ∀ page ∈ q.pages, page.target.cap ≠ some f.cap
  fewer : q.mmap ⊆ p.mmap ∧ q.devframes ⊆ p.devframes
  otherPages : ∀ e ∈ p.mmap, ¬Within va (wholePages len) e.1.toNat → e ∈ q.mmap
  otherDevices : ∀ f ∈ p.devframes, ¬Within va (wholePages len) f.va.toNat → f ∈ q.devframes
  otherMappings : ∀ page ∈ p.pages, ¬Within va (wholePages len) page.start → page ∈ q.pages

/-- The request of `caller` has taken `s` to `t`. -/
def State.Unmaps (s t : State) (caller : Pid) (va len : Addr) : Prop :=
  ∃ p q, s.procs caller = some p ∧ t.procs caller = some q ∧ Unmapped p q va len

def Proc.Strikes (p : Proc) (va len : Addr) : Prop := ∃ f ∈ p.devframes, va ≤ f.va ∧ f.va < va + len

/-- A request that takes device frames has no anonymous page in its range, and one whose length cannot be
rounded up has nothing in it. -/
def Proc.Uniform (p : Proc) (va len : Addr) : Prop :=
  (p.Strikes va len → ∀ e ∈ p.mmap, ¬Within va len.toNat e.1.toNat) ∧
  (¬p.Strikes va len → 2 ^ 64 ≤ len.toNat + (2 ^ 21 - 1) →
    (∀ e ∈ p.mmap, ¬Within va len.toNat e.1.toNat) ∧ ∀ f ∈ p.devframes, ¬Within va len.toNat f.va.toNat)

/-- A range that ends in the address space is what the loop compares with. -/
theorem struck_iff {x : Addr} (struck : va ≤ x ∧ x < va + len) (y : Addr) :
    va ≤ y ∧ y < va + len ↔ Within va len.toNat y.toNat := by
  obtain ⟨low,high⟩ := struck
  rw [BitVec.le_def] at low
  rw [BitVec.lt_def,BitVec.toNat_add] at high
  rw [BitVec.le_def,BitVec.lt_def,BitVec.toNat_add]
  have one := va.isLt
  have two := len.isLt
  have room : va.toNat + len.toNat < 2 ^ 64 := by
    by_contra wraps
    rw [Nat.mod_eq_sub_mod (by omega),Nat.mod_eq_of_lt (by omega)] at high
    omega
  rw [Nat.mod_eq_of_lt room]
  rfl

theorem within_whole {x : Nat} (inside : Within va len.toNat x) : Within va (wholePages len) x := by
  unfold Within wholePages at *
  omega

/-- What the device loop leaves and takes. -/
theorem munmapDevframes_spec (slots : Slots) (p : Proc) (va len : Addr) :
    (∀ f, f ∈ (munmapDevframes slots p va len).1.2.devframes ↔ f ∈ p.devframes ∧ ¬(va ≤ f.va ∧ f.va < va + len)) ∧
    (∀ f, f ∈ (munmapDevframes slots p va len).2 ↔ f ∈ p.devframes ∧ va ≤ f.va ∧ f.va < va + len) ∧
    (munmapDevframes slots p va len).1.2.mmap = p.mmap ∧
    ∀ page, page ∈ (munmapDevframes slots p va len).1.2.pages ↔ page ∈ p.pages ∧
      ∀ f ∈ p.devframes, va ≤ f.va ∧ f.va < va + len → page.target.cap ≠ some f.cap := by
  obtain ⟨left,gone⟩ := sweep_mem (fun f : DevFrame => va ≤ f.va && f.va < va + len) p.devframes
  have struck : ∀ f, f ∈ (munmapDevframes slots p va len).2 ↔ f ∈ p.devframes ∧ va ≤ f.va ∧ f.va < va + len := by
    intro f
    rw [munmapDevframes,gone.mem_iff,List.mem_filter]
    simp
  refine ⟨fun f => ?_,struck,rfl,fun page => ?_⟩
  · rw [munmapDevframes]
    dsimp only
    rw [left.mem_iff,List.mem_filter]
    simp only [Bool.not_eq_true',← Bool.not_eq_true,Bool.and_eq_true,decide_eq_true_eq]
  · have unmapped : page ∈ (unmap p ((munmapDevframes slots p va len).2.map DevFrame.cap)).pages ↔ _ := mem_unmap
    refine unmapped.trans (and_congr_right fun _ => ⟨fun apart f member inside => ?_,fun apart cap member => ?_⟩)
    · exact apart f.cap (List.mem_map_of_mem ((struck f).mpr ⟨member,inside⟩))
    · obtain ⟨f,there,rfl⟩ := List.mem_map.mp member
      obtain ⟨listed,inside⟩ := (struck f).mp there
      exact apart f listed inside

theorem strikes_iff : (munmapDevframes slots p va len).2 ≠ [] ↔ p.Strikes va len := by
  obtain ⟨-,struck,-,-⟩ := munmapDevframes_spec slots p va len
  unfold Proc.Strikes
  constructor
  · intro nonempty
    obtain ⟨f,there⟩ := List.exists_mem_of_ne_nil _ nonempty
    exact ⟨f,(struck f).mp there⟩
  · rintro ⟨f,there⟩
    exact List.ne_nil_of_mem ((struck f).mpr there)

theorem allTracked_iff {n i : Nat} :
    allTracked p va n i = true ↔ ∀ j < n, ∃ frame, (va + BitVec.ofNat 64 (i + j) * megaPage,frame) ∈ p.mmap := by
  have found : ∀ x, (findMmapIdx p x).isSome ↔ ∃ frame, (x,frame) ∈ p.mmap := by
    intro x
    constructor
    · intro tracked
      obtain ⟨j,here⟩ := Option.isSome_iff_exists.mp tracked
      obtain ⟨frame,listed⟩ := findMmapIdx_some here
      exact ⟨frame,List.mem_of_getElem? listed⟩
    · rintro ⟨frame,listed⟩
      by_contra missing
      exact findMmapIdx_none (Option.not_isSome_iff_eq_none.mp missing) _ listed rfl
  induction n generalizing i with
  | zero =>
    rw [allTracked]
    exact ⟨fun _ j less => absurd less (Nat.not_lt_zero j),fun _ => rfl⟩
  | succ n ih =>
    rw [allTracked,Bool.and_eq_true,found]
    refine (and_congr_right fun _ => ih).trans ?_
    constructor
    · rintro ⟨first,rest⟩ j less
      cases j with
      | zero => exact first
      | succ j =>
        rw [show i + (j + 1) = i + 1 + j from by omega]
        exact rest j (Nat.lt_of_succ_lt_succ less)
    · intro all
      refine ⟨all 0 (Nat.succ_pos n),fun j less => ?_⟩
      rw [show i + 1 + j = i + (j + 1) from by omega]
      exact all (j + 1) (Nat.succ_lt_succ less)

/-- Tracked pages lie in user space, so pages that are tracked one by one follow one another. -/
theorem tracked_room (sound : p.Sound cfg slots)
    (tracked : ∀ j < n, ∃ frame, (va + BitVec.ofNat 64 j * megaPage,frame) ∈ p.mmap) (less : j < n) :
    (va + BitVec.ofNat 64 j * megaPage).toNat = va.toNat + j * 2 ^ 21 ∧ va.toNat + (j + 1) * 2 ^ 21 ≤ 2 ^ 63 := by
  have fits : ∀ j < n, (va + BitVec.ofNat 64 j * megaPage).toNat + 2 ^ 21 ≤ cfg.userTop := by
    intro j less
    obtain ⟨frame,listed⟩ := tracked j less
    have low := (sound.spaced.inside _ (sound.tracked _ listed).1).2
    unfold Mapping.stop megaPageAt pageOf at low
    dsimp only at low
    rw [megaPage_toNat] at low
    exact low
  have place := page_toNat cfg.userTop_le fits less
  have room := fits j less
  have bound := cfg.userTop_le
  rw [place] at room
  exact ⟨place,by omega⟩

theorem strikes_unmapped (sound : p.Sound cfg slots) (strikes : p.Strikes va len) :
    Unmapped p (munmapDevframes slots p va len).1.2 va len ↔ ∀ e ∈ p.mmap, ¬Within va len.toNat e.1.toNat := by
  obtain ⟨first,-,struck⟩ := strikes
  have within := struck_iff struck
  obtain ⟨devices,-,mmap,pages⟩ := munmapDevframes_spec slots p va len
  generalize (munmapDevframes slots p va len).1.2 = q at *
  constructor
  · intro unmapped e member inside
    exact (unmapped.pages e member inside).1 (mmap ▸ member)
  · intro clear
    refine ⟨fun e member inside => absurd inside (clear e member),fun f member inside => ⟨?_,?_⟩,⟨?_,?_⟩,?_,?_,?_⟩
    · exact fun left => ((devices f).mp left).2 ((within f.va).mpr inside)
    · exact fun page left => ((pages page).mp left).2 f member ((within f.va).mpr inside)
    · exact fun e member => mmap ▸ member
    · exact fun f left => ((devices f).mp left).1
    · exact fun e member _ => mmap ▸ member
    · exact fun f member outside => (devices f).mpr
        ⟨member,fun hit => outside (within_whole ((within f.va).mp hit))⟩
    · intro page member outside
      refine (pages page).mpr ⟨member,fun f listed hit cap => outside ?_⟩
      obtain ⟨own,there,start,behind⟩ := sound.devices f listed
      rw [sound.spaced.once page member own there f.cap cap behind,start]
      exact within_whole ((within f.va).mp hit)

theorem dropPages_unmapped (sound : p.Sound cfg slots) (spared : ¬p.Strikes va len)
    (room : len.toNat + (2 ^ 21 - 1) < 2 ^ 64)
    (tracked : ∀ j < pagesIn (roundUp len megaPage), ∃ frame, (va + BitVec.ofNat 64 j * megaPage,frame) ∈
      p.mmap) (nonempty : len ≠ 0)
    (dropped : Dropped p q fun x => ∃ j < pagesIn (roundUp len megaPage), x =
      va + BitVec.ofNat 64 (0 + j) * megaPage) :
    Unmapped p q va len := by
  obtain ⟨more,-,-⟩ := pagesIn_roundUp nonempty room
  have pages : pagesIn (roundUp len megaPage) * 2 ^ 21 = wholePages len := by
    rw [pagesIn_eq,roundUp_mega len room,Nat.mul_div_cancel _ (Nat.two_pow_pos 21)]
    rfl
  generalize pagesIn (roundUp len megaPage) = n at *
  have place := fun j less => tracked_room sound tracked (n := n) (j := j) less
  have aligned : 2 ^ 21 ∣ va.toNat := by
    obtain ⟨frame,listed⟩ := tracked 0 more
    have first := (sound.tracked _ listed).2
    rw [(place 0 more).1] at first
    simpa using first
  have bound := (place (n - 1) (by omega)).2
  -- the addresses of the loop are the tracked ones in the rounded range
  have gone : ∀ e ∈ p.mmap, (∃ j < n, e.1 = va + BitVec.ofNat 64 (0 + j) * megaPage) ↔
    Within va (wholePages len) e.1.toNat := by
    intro e member
    constructor
    · rintro ⟨j,less,same⟩
      rw [Nat.zero_add] at same
      rw [same,(place j less).1]
      unfold Within
      omega
    · rintro ⟨low,high⟩
      obtain ⟨a,even⟩ := (sound.tracked e member).2
      obtain ⟨b,start⟩ := aligned
      have less : a - b < n := by omega
      refine ⟨a - b,less,BitVec.eq_of_toNat_eq ?_⟩
      rw [Nat.zero_add,(place (a - b) less).1]
      omega
  have whole : len.toNat ≤ wholePages len := by
    unfold wholePages
    omega
  have struck : ∀ f ∈ p.devframes, ¬Within va len.toNat f.va.toNat := by
    rintro f member ⟨low,high⟩
    refine spared ⟨f,member,low,?_⟩
    rw [BitVec.lt_def,BitVec.toNat_add,Nat.mod_eq_of_lt (by omega)]
    exact high
  refine ⟨fun e member inside => ⟨?_,?_⟩,fun f member inside => absurd inside (struck f member),⟨?_,?_⟩,?_,?_,?_⟩
  · exact fun left => ((dropped.mmap e).mp left).2 ((gone e member).mpr (within_whole inside))
  · exact fun page left => ((dropped.pages page).mp left).2 e member ((gone e member).mpr (within_whole inside))
  · exact fun e left => ((dropped.mmap e).mp left).1
  · exact fun f left => dropped.devframes ▸ left
  · exact fun e member outside => (dropped.mmap e).mpr ⟨member,fun hit => outside ((gone e member).mp hit)⟩
  · exact fun f member _ => dropped.devframes ▸ member
  · intro page member outside
    refine (dropped.pages page).mpr ⟨member,fun e listed hit behind => outside ?_⟩
    rw [sound.spaced.once page member _ (sound.tracked e listed).1 e.2 behind rfl]
    exact (gone e listed).mp hit

theorem Dropped.setTop (dropped : Dropped p q gone) (top : Addr) : Dropped p (q.setTop top) gone := by
  refine ⟨?_,?_,?_⟩
  · rw [q.setTop_mmap]
    exact dropped.mmap
  · rw [q.setTop_pages]
    exact dropped.pages
  · rw [q.setTop_devframes]
    exact dropped.devframes

theorem untouched_unmapped (dropped : Dropped p q gone) (nothing : ∀ e ∈ p.mmap, ¬gone e.1) :
    Unmapped p q va len ↔
      (∀ e ∈ p.mmap, ¬Within va len.toNat e.1.toNat) ∧ ∀ f ∈ p.devframes, ¬Within va len.toNat f.va.toNat := by
  have stays : ∀ e ∈ p.mmap, e ∈ q.mmap := fun e member => (dropped.mmap e).mpr ⟨member,nothing e member⟩
  constructor
  · intro unmapped
    refine ⟨fun e member inside => (unmapped.pages e member inside).1 (stays e member),fun f member inside => ?_⟩
    exact (unmapped.devices f member inside).1 (dropped.devframes ▸ member)
  · rintro ⟨pages,devices⟩
    refine ⟨fun e member inside => absurd inside (pages e member),fun f member inside =>
      absurd inside (devices f member),
      ⟨fun e left => ((dropped.mmap e).mp left).1,fun f left => dropped.devframes ▸ left⟩,fun e member _ =>
        stays e member,
      fun f member _ => dropped.devframes ▸ member,fun page member _ => ?_⟩
    exact (dropped.pages page).mpr ⟨member,fun e listed out => absurd out (nothing e listed)⟩

/-- The request takes `p` to `q` and nothing else changes hands. -/
theorem unmaps_setProc (owner : s.procs caller = some p) (slots : Slots) (q : Proc) :
    s.Unmaps (s.setProc caller slots q) caller va len ↔ Unmapped p q va len := by
  unfold State.Unmaps
  rw [setProc_procs,owner]
  refine ⟨?_,fun unmapped => ⟨p,q,rfl,rfl,unmapped⟩⟩
  rintro ⟨p',q',before,after,unmapped⟩
  obtain rfl := Option.some.inj before
  obtain rfl := Option.some.inj after
  exact unmapped

theorem munmap_refused (failed : (s.munmapServe caller va len).2 = .error e) :
    (s.munmapServe caller va len).1 = s := by
  cases owner : s.procs caller with
  | none => simp only [State.munmapServe,owner]
  | some p =>
    by_cases bad : len = 0 ∨ (munmapDevframes s.slots p va len).2 = [] ∧
        (va &&& (megaPage - 1) ≠ 0 ∨ allTracked p va (pagesIn (roundUp len megaPage)) 0 = false)
    · rw [munmapServe_bad owner bad]
    · obtain ⟨nonempty,rest⟩ := not_or.mp bad
      by_cases hit : (munmapDevframes s.slots p va len).2 = []
      · obtain ⟨aligned,tracked⟩ := not_or.mp fun why => rest ⟨hit,why⟩
        rw [snd_of_eq (munmapServe_anonymous owner nonempty hit (not_not.mp aligned)
          (Bool.not_eq_false _ ▸ tracked))] at failed
        cases failed
      · rw [snd_of_eq (munmapServe_device owner nonempty hit)] at failed
        cases failed

theorem munmap_unmaps (sound : s.Sound cfg) (owner : s.procs caller = some p)
    (done : (s.munmapServe caller va len).2 = .ok ()) :
    s.Unmaps (s.munmapServe caller va len).1 caller va len ↔ p.Uniform va len := by
  have own := sound.procs caller p owner
  by_cases bad : len = 0 ∨ (munmapDevframes s.slots p va len).2 = [] ∧
      (va &&& (megaPage - 1) ≠ 0 ∨ allTracked p va (pagesIn (roundUp len megaPage)) 0 = false)
  · rw [snd_of_eq (munmapServe_bad owner bad)] at done
    cases done
  · obtain ⟨nonempty,rest⟩ := not_or.mp bad
    by_cases hit : (munmapDevframes s.slots p va len).2 = []
    · obtain ⟨aligned,tracked⟩ := not_or.mp fun why => rest ⟨hit,why⟩
      have spared : ¬p.Strikes va len := fun strikes => strikes_iff.mpr strikes hit
      have all := Bool.not_eq_false _ ▸ tracked
      rw [fst_of_eq (munmapServe_anonymous owner nonempty hit (not_not.mp aligned) all),unmaps_setProc owner]
      have dropped := (dropPages_spec own va (pagesIn (roundUp len megaPage)) 0).2.setTop
        (rewound p va (roundUp len megaPage))
      have each := allTracked_iff.mp all
      simp only [Nat.zero_add] at each
      unfold Proc.Uniform
      by_cases room : len.toNat + (2 ^ 21 - 1) < 2 ^ 64
      · have unmapped := dropPages_unmapped own spared room each nonempty dropped
        refine ⟨fun _ => ⟨fun strikes => absurd strikes spared,fun _ wraps =>
          absurd room (Nat.not_lt.mpr wraps)⟩,fun _ => unmapped⟩
      · rw [pagesIn_wraps room] at dropped
        rw [pagesIn_wraps room,untouched_unmapped dropped fun e _ ⟨j,less,_⟩ => Nat.not_lt_zero j less]
        refine ⟨fun clear => ⟨fun strikes => absurd strikes spared,fun _ _ => clear⟩,fun uniform => ?_⟩
        exact uniform.2 spared (Nat.not_lt.mp room)
    · have strikes := strikes_iff.mp hit
      rw [fst_of_eq (munmapServe_device owner nonempty hit),unmaps_setProc owner,strikes_unmapped own strikes]
      exact ⟨fun clear => ⟨fun _ => clear,fun spared => absurd strikes spared⟩,fun uniform => uniform.1 strikes⟩

/-- A request that fails changes nothing, and one that succeeds has unmapped its range exactly if the range is
uniform. -/
theorem munmap_contract (sound : s.Sound cfg) (caller : Pid) (va len : Addr) :
    (∀ e, (s.munmapServe caller va len).2 = .error e → (s.munmapServe caller va len).1 = s) ∧
    ((s.munmapServe caller va len).2 = .ok () → ∀ p, s.procs caller = some p →
      (s.Unmaps (s.munmapServe caller va len).1 caller va len ↔ p.Uniform va len)) :=
  ⟨fun _ failed => munmap_refused failed,fun done _ owner => munmap_unmaps sound owner done⟩

/-- A page of device registers. -/
def deviceConfig : Config := { smallConfig with untypeds := [⟨true,0x10000000,12⟩] }

def devicePage : State := { oneProcess with untyped := fun _ => ⟨2 ^ 12,0,0⟩ }

def generous : Kernel := ⟨fun i => ⟨true,7 + i,true⟩,fun i => ⟨20 + i,true⟩,fun i => ⟨true,40 + i,true,true⟩,none⟩

/-- An anonymous page with a device page behind it. -/
def mixedPages : State :=
  step deviceConfig (step deviceConfig devicePage (.mmap 1 0x200000 0 0 generous))
    (.mmap 1 0x1000 2 0x10000000 generous)

theorem devicePage_start : Start deviceConfig devicePage := by
  refine Start.bare (fun pid p there => ?_) rfl rfl fun i u listed => ?_
  · obtain rfl : idleProc = p := by
      unfold devicePage oneProcess at there
      dsimp only at there
      split at there
      · exact Option.some.inj there
      · cases there
    exact ⟨rfl,rfl,rfl,rfl,rfl⟩
  · have member : u ∈ [(⟨true,0x10000000,12⟩ : BootUntyped)] := List.mem_of_getElem? listed
    obtain rfl := List.mem_singleton.mp member
    rfl

theorem mixedPages_sound : mixedPages.Sound deviceConfig := step_sound (step_sound devicePage_start.toSound _) _

/-- Unmapping both takes the device page and leaves the anonymous one. -/
theorem munmap_leaves_page :
    mixedPages.Sound deviceConfig ∧ (mixedPages.munmapServe 1 0x2000000 0x400000).2 = .ok () ∧
      ¬mixedPages.Unmaps (mixedPages.munmapServe 1 0x2000000 0x400000).1 1 0x2000000 0x400000 := by
  have done : (mixedPages.munmapServe 1 0x2000000 0x400000).2 = .ok () := by decide +kernel
  refine ⟨mixedPages_sound,done,?_⟩
  rintro ⟨p,q,before,after,unmapped⟩
  have listed : (mixedPages.procs 1).map (·.mmap) = some [(0x2000000,7)] := by decide +kernel
  have left : ((mixedPages.munmapServe 1 0x2000000 0x400000).1.procs 1).map (·.mmap) = some [(0x2000000,7)] := by
    decide +kernel
  rw [before] at listed
  rw [after] at left
  have one : p.mmap = [(0x2000000,7)] := Option.some.inj listed
  have two : q.mmap = [(0x2000000,7)] := Option.some.inj left
  have gone := unmapped.pages (0x2000000,7) (one ▸ List.mem_cons_self) ⟨by decide,by decide⟩
  exact gone.1 (two ▸ List.mem_cons_self)

theorem munmap_contract_mixed :
    (∀ e, (mixedPages.munmapServe 1 0x2000000 0x1000).2 = .error e →
      (mixedPages.munmapServe 1 0x2000000 0x1000).1 = mixedPages) ∧
    ((mixedPages.munmapServe 1 0x2000000 0x1000).2 = .ok () → ∀ p, mixedPages.procs 1 = some p →
      (mixedPages.Unmaps (mixedPages.munmapServe 1 0x2000000 0x1000).1 1 0x2000000 0x1000 ↔ p.Uniform 0x2000000 0x1000)) :=
  munmap_contract mixedPages_sound 1 0x2000000 0x1000

end Qsoe.Mem
