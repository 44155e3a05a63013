import Qsoe.Mem.Watermark
import Qsoe.Mem.Delivery

/-! The registry of device regions. As long as the marks agree with the kernel's watermarks every region
has the frames of its own physical addresses, and a request for device memory maps what it names. -/
namespace Qsoe.Mem

variable {cfg : Config} {s t : State} {slots filled : Slots} {p q : Proc} {e : Event} {c : Carve} {d : Devmap}
  {k : Nat → RetypeKernel} {u v : Untyped} {ut paddr i bits : Nat} {sizes : List Nat} {caller : Pid}
    {phys len va : Addr}

/-- The frames of a region are those of its addresses, one behind the other. -/
structure Devmap.Backed (slots : Slots) (d : Devmap) : Prop where
  granule : d.granule = megaPage ∨ d.granule = page4k
  few : d.frames.length ≤ 64
  count : d.nframes = BitVec.ofNat 32 d.frames.length
  len : d.len.toNat = d.frames.length * d.granule.toNat
  inside : d.phys.toNat + d.len.toNat ≤ 2 ^ 64
  frames : ∀ j cap, d.frames[j]? = some cap → slots cap = some (.device (d.phys.toNat + j * d.granule.toNat))

def State.Backed (s : State) : Prop := ∀ i d, s.devmaps i = some d → d.Backed s.slots

/-- The process reads physical address `pa` at `x`. -/
def State.Translates (s : State) (caller : Pid) (x pa : Nat) : Prop :=
  ∃ p page cap at', s.procs caller = some p ∧ page ∈ p.pages ∧ page.Contains x ∧ page.target.cap = some cap ∧
    s.slots cap = some (.device at') ∧ at' + (x - page.start) = pa

theorem base_at (made : u.retype (2 ^ bits) = some v) (fresh : Fresh u) (aligned : 2 ^ bits ∣ u.watermark) :
    u.base (2 ^ bits) = u.watermark := by
  have next := retype_at made fresh aligned
  unfold Untyped.retype at made
  split at made
  · obtain rfl := Option.some.inj made
    exact Nat.add_right_cancel next
  · cases made

theorem retypes_slot {before after : List Nat}
    (loop : s.retypes ut paddr k i (before ++ bits :: after) = (t,true)) :
    ∃ u v, carveAll (s.untyped ut) before = some u ∧ u.retype (2 ^ bits) = some v ∧
      t.slots (k (i + before.length)).slot = some (.device (paddr + u.base (2 ^ bits))) := by
  induction before generalizing s i with
  | nil =>
    rw [List.nil_append,State.retypes] at loop
    split at loop
    · cases (Prod.mk.inj loop).2
    · rename_i made here
      obtain ⟨v,carved,slot,-⟩ := retype_some here
      have filled := (newSlot_some slot).1
      have there : made.slots (k i).slot = some (.device (paddr + (s.untyped ut).base (2 ^ bits))) := by
        rw [filled,Function.update_self]
      refine ⟨_,v,rfl,carved,?_⟩
      rw [List.length_nil,Nat.add_zero,(retypes_fills loop).1.slots _ (by rw [there]; simp),there]
  | cons b before ih =>
    rw [List.cons_append,State.retypes] at loop
    split at loop
    · cases (Prod.mk.inj loop).2
    · rename_i made here
      obtain ⟨w,carved,-,same⟩ := retype_some here
      obtain ⟨u,v,first,next,slot⟩ := ih loop
      have own : made.untyped ut = w := by
        rw [same]
        exact Function.update_self ..
      refine ⟨u,v,?_,next,?_⟩
      · rw [carveAll_cons,carved,Option.bind_some,← own]
        exact first
      · rw [List.length_cons,show i + (before.length + 1) = i + 1 + before.length from by omega]
        exact slot

theorem add_le_of_dvd {a b m : Nat} (one : m ∣ a) (two : m ∣ b) (less : a < b) : a + m ≤ b := by
  obtain ⟨x,rfl⟩ := one
  obtain ⟨y,rfl⟩ := two
  have := Nat.lt_of_mul_lt_mul_left less
  exact Nat.mul_le_mul_left m this

theorem devmapCarve_backed (boot : cfg.Aligned) (metered : s.Metered cfg) (agreed : s.Agreed cfg)
    (even : phys &&& (page4k - 1) = 0)
    (plan : s.carvePlan cfg phys len = some c) (few : c.rlen / c.granule ≤ devmapMaxFrames.setWidth 64)
    (carved : s.devmapCarve cfg phys len k = (t,some d)) :
    d.Backed t.slots ∧ d.phys = phys ∧ d.len = c.rlen := by
  obtain ⟨c',marked,done,plan',marking,ahead,retyped,shape,rfl⟩ := devmapCarve_some carved
  obtain rfl := Option.some.inj (plan.symm.trans plan')
  obtain ⟨w,planned⟩ := carvePlan_planned boot plan even
  have marks := (hwmSlot_hwmOf marking).1
  have same : marked.untyped = s.untyped := by rw [hwmSlot_some marking]
  have meter : Metered w (marked.untyped c.ut) := same ▸ metered c.ut w planned.listed
  have own : (marked.hwmOf c.ut).toNat = (marked.untyped c.ut).watermark := by
    rw [marks,same]
    exact agreed c.ut w planned.listed planned.device
  have run : c.run marked k = (done,true) := retyped
  have ends := planned.watermark meter.size meter.fresh own ahead (by rw [run])
  have final := Carve.run_metered (k := k) (c := c) meter
  have inside := final.inside
  have exact' := planned.count_iff.mp few
  rw [final.size,ends,exact'] at inside
  obtain ⟨u,found,base,-,offset,-,-⟩ := carvePlan_some plan
  obtain ⟨listed,-,above,-⟩ := findDeviceUt_some found
  obtain rfl := Option.some.inj (planned.listed.symm.trans listed)
  obtain ⟨narrow,sized⟩ := boot w (List.mem_of_getElem? listed)
  have apart : c.paddr.toNat + c.offset.toNat = phys.toNat := by
    rw [offset,base,BitVec.toNat_sub_of_le above]
    have le : w.paddr.toNat ≤ phys.toNat := above
    omega
  have top := add_le_of_dvd sized (Nat.pow_dvd_pow 2 (Nat.le_of_lt narrow)) w.paddr.isLt
  have frames : d.frames.length = c.count := by
    rw [shape]
    dsimp only
    rw [List.length_map,List.length_range]
  have granule : d.granule = c.granule := by rw [shape]
  have power : d.granule.toNat = 2 ^ c.frameBits := granule ▸ planned.granule
  refine ⟨⟨?_,?_,?_,?_,?_,?_⟩,by rw [shape],by rw [shape]⟩
  · rw [granule,(carvePlan_some plan).choose_spec.2.2.2.2.2.1]
    exact granuleOf_cases ..
  · rw [frames]
    exact planned.count_le
  · refine BitVec.eq_of_toNat_eq ?_
    have quotient : (c.rlen / c.granule).toNat = c.count := by
      rw [BitVec.toNat_udiv,planned.granule,← exact',Nat.mul_div_cancel _ (Nat.two_pow_pos _)]
    have shape' : d.nframes = c.nframes := by rw [shape]
    rw [shape',planned.count,BitVec.toNat_setWidth,BitVec.toNat_ofNat,quotient,frames]
  · rw [frames,power,exact',shape]
  · rw [shape]
    dsimp only
    rw [base] at apart
    omega
  · intro j cap there
    have less : j < c.count := by
      rw [← frames]
      exact (List.getElem?_eq_some_iff.mp there).1
    have slot : cap = (k ((c.skips (marked.hwmOf c.ut)).length + j)).slot := by
      rw [shape] at there
      dsimp only at there
      rw [List.getElem?_map,List.getElem?_range less] at there
      exact (Option.some.inj there).symm
    have split : c.objects (marked.hwmOf c.ut) =
        (c.skips (marked.hwmOf c.ut) ++ List.replicate j c.frameBits) ++ c.frameBits :: List.replicate
          (c.count - j - 1) c.frameBits := by
      rw [Carve.objects,List.append_assoc,← List.replicate_succ,List.replicate_append_replicate]
      congr 2
      omega
    rw [split] at retyped
    obtain ⟨x,y,before,made,filled⟩ := retypes_slot retyped
    rw [carveAll_append] at before
    obtain ⟨z,skipped,framed⟩ := Option.bind_eq_some_iff.mp before
    obtain ⟨-,fresh,size,-⟩ := carveAll_grows skipped meter.fresh
    obtain ⟨-,fresh',size',-⟩ := carveAll_grows framed fresh
    have there := skips_watermark (BitVec.not_lt.mp ahead) c.utBits own.symm meter.fresh skipped
    have inside : c.frameBits ≤ w.sizeBits := by
      unfold Untyped.retype at made
      split at made
      · rename_i fits
        rw [size',size,meter.size] at fits
        exact (Nat.pow_le_pow_iff_right (by decide : 1 < 2)).mp (by omega)
      · cases made
    have aligned := planned.aligned inside
    have mark := frames_watermark (there ▸ aligned) fresh framed
    rw [there] at mark
    have start := base_at made fresh' (mark ▸ Nat.dvd_add aligned (Nat.dvd_mul_left _ _))
    rw [Nat.zero_add,List.length_append,List.length_replicate,start,mark] at filled
    rw [slot]
    refine Eq.trans filled ?_
    have own' : d.phys = phys := by rw [shape]
    rw [own',power,← apart]
    congr 2
    omega

theorem Devmap.Backed.kept (backed : d.Backed slots) (same : ∀ cap, slots cap ≠ none → filled cap = slots cap) :
    d.Backed filled := by
  refine ⟨backed.granule,backed.few,backed.count,backed.len,backed.inside,fun j cap there => ?_⟩
  have used := backed.frames j cap there
  rw [same cap (by rw [used]; simp),used]

theorem State.Backed.fills (backed : s.Backed) (fills : Fills s t) : t.Backed := by
  intro i d there
  rw [fills.devmaps] at there
  exact (backed i d there).kept fills.slots

/-- A process that works on its own caps leaves the regions. -/
theorem State.Backed.setProc (backed : s.Backed) (sound : s.Sound cfg) (owner : s.procs caller = some p)
    (keeps : Keeps cfg s.slots p filled q) : (s.setProc caller filled q).Backed := by
  intro i d there
  have old := backed i d there
  refine ⟨old.granule,old.few,old.count,old.len,old.inside,fun j cap member => ?_⟩
  have known : s.Registered cap := ⟨i,d,there,List.mem_of_getElem? member⟩
  have kept := (keeps (sound.procs caller p owner)).2.kept cap (sound.kept cap known)
    (sound.shared caller p owner cap known)
  exact kept.trans (old.frames j cap member)

theorem carvePlan_covers (boot : cfg.Aligned) (plan : s.carvePlan cfg phys len = some c)
    (even : phys &&& (page4k - 1) = 0) (room : phys.toNat + len.toNat < 2 ^ 64) : len.toNat ≤ c.rlen.toNat := by
  obtain ⟨w,planned⟩ := carvePlan_planned boot plan even
  obtain ⟨u,found,base,-,offset,fits,granule,rlen,-⟩ := carvePlan_some plan
  obtain ⟨listed,-,above,-⟩ := findDeviceUt_some found
  have narrow := (boot u (List.mem_of_getElem? listed)).1
  have low : c.offset.toNat ≤ phys.toNat := by
    rw [offset,BitVec.toNat_sub_of_le above]
    omega
  have size : (1#64 <<< u.sizeBits).toNat ≤ 2 ^ 63 := by
    have one : (1#64).toNat = 1 := rfl
    have most : 2 ^ u.sizeBits ≤ 2 ^ 63 := Nat.pow_le_pow_right (by decide) (by omega)
    rw [BitVec.toNat_shiftLeft,one,Nat.one_shiftLeft,Nat.mod_eq_of_lt (by omega)]
    exact most
  have inside := BitVec.le_def.mp (BitVec.not_lt.mp fits)
  rw [BitVec.toNat_add,Nat.mod_eq_of_lt (by omega)] at inside
  have power := planned.granule
  have small : 2 ^ c.frameBits ≤ 2 ^ 21 := by
    unfold Carve.frameBits
    split <;> exact Nat.pow_le_pow_right (by decide) (by decide)
  have whole := Nat.lt_div_mul_add (Nat.two_pow_pos c.frameBits) (a := len.toNat + (2 ^ c.frameBits - 1))
  have positive := Nat.two_pow_pos c.frameBits
  rw [rlen,roundUp,Align.toNat_roundUp len c.granule power (by omega)]
  omega

/-- The carve of a request either stops at its first retype, or its frames are counted, or there is none. -/
def CarvesWell (cfg : Config) (s : State) (phys len : Addr) (k : Nat → RetypeKernel) : Prop :=
  ∀ c, s.devmapFind phys len = none → s.carvePlan cfg phys len = some c → s.hwmSlot c.ut ≠ none →
    ¬c.offset < s.hwmOf c.ut →
    c.AllOrNone s k

theorem region_backed (boot : cfg.Aligned) (metered : s.Metered cfg) (agreed : s.Agreed cfg) (backed : s.Backed)
    (even : phys &&& (page4k - 1) = 0) (well : CarvesWell cfg s phys len k)
    (found : s.region cfg phys len k = (t,answer)) :
    t.Backed ∧ ∀ d, answer = some d → d.Backed t.slots ∧ d.phys ≤ phys ∧
      (phys.toNat + len.toNat < 2 ^ 64 → 0 < len.toNat → phys.toNat + len.toNat ≤ d.phys.toNat + d.len.toNat) := by
  unfold State.region at found
  split at found
  · rename_i i d here
    obtain ⟨rfl,rfl⟩ := Prod.mk.inj found
    obtain ⟨there,test⟩ := Slab.find_some here
    simp only [Bool.and_eq_true,decide_eq_true_eq] at test
    refine ⟨backed,fun d' same => ?_⟩
    obtain rfl := Option.some.inj same
    have whole := backed i d there
    refine ⟨whole,test.1,fun room nonempty => ?_⟩
    have ends := BitVec.le_def.mp test.2
    have inside := whole.inside
    rw [BitVec.toNat_add,BitVec.toNat_add,Nat.mod_eq_of_lt room] at ends
    exact Nat.le_trans ends (Nat.mod_le _ _)
  · rename_i missing
    cases answer with
    | none => exact ⟨backed.fills (devmapCarve_none found),fun d same => by cases same⟩
    | some d =>
      obtain ⟨c,marked,done,plan,marking,ahead,retyped,shape,rfl⟩ := devmapCarve_some found
      have marks := (hwmSlot_hwmOf marking).1
      have run : (c.run s k).2 = true := by
        have same := retypes_hwm s marked.hwm c.ut c.paddr.toNat k 0 (c.objects (s.hwmOf c.ut))
        rw [← hwmSlot_some marking,← marks c.ut,retyped] at same
        rw [Carve.run,← marks c.ut]
        exact (Prod.mk.inj same).2.symm
      have few : c.rlen / c.granule ≤ devmapMaxFrames.setWidth 64 := by
        rcases well c missing plan (by rw [marking]; simp) (by rw [← marks]; exact ahead) with refused | ⟨-,few⟩
        · rw [Carve.run_refused refused] at run
          cases run
        · exact few
      obtain ⟨fresh,start,length⟩ := devmapCarve_backed boot metered agreed even plan few found
      refine ⟨fun i e there => ?_,fun d' same => ?_⟩
      · rcases Slab.put_cases there with ⟨-,rfl⟩ | old
        · exact fresh
        · exact (backed.fills ((hwmSlot_fills marking).trans (retypes_fills retyped).1)) i e old
      · obtain rfl := Option.some.inj same
        refine ⟨fresh,by rw [start]; exact BitVec.le_refl _,fun room _ => ?_⟩
        rw [start,length]
        have covers := carvePlan_covers boot plan even room
        omega

/-- A page of the region's granule is mapped at `va`, behind a cap of physical address `pa`. -/
def Proc.Shows (p : Proc) (slots : Slots) (size va pa : Nat) : Prop :=
  ∃ page ∈ p.pages, page.start = va ∧ page.size = size ∧ ∃ cap, page.target.cap = some cap ∧
    slots cap = some (.device pa)

theorem placeFrame_shows {f : BitVec 32} {k : DevKernel}
    (turn : placeFrame cfg slots p d f va k = ((filled,q),true))
    (backed : d.Backed slots) : q.Shows filled d.granule.toNat va.toNat (d.phys.toNat + f.toNat * d.granule.toNat) ∧
      va.toNat + d.granule.toNat ≤ cfg.userTop ∧ p.pages ⊆ q.pages ∧ ∀ cap, slots cap ≠ none →
        filled cap = slots cap := by
  obtain ⟨frame,there,copied,made,mapping,rfl⟩ := placeFrame_some turn
  obtain ⟨cap,listed,held⟩ := Option.bind_eq_some_iff.mp copied
  obtain ⟨shape,-⟩ := newSlot_some made
  obtain ⟨same,-,low⟩ := pageMap_some mapping
  refine ⟨⟨pageOf cfg va d.granule k.slot rightsAll,?_,rfl,rfl,k.slot,rfl,?_⟩,low,?_,fun cap used =>
    newSlot_other made used⟩
  · rw [same]
    exact List.mem_cons_self
  · rw [shape,Function.update_self,← backed.frames _ cap listed,held]
  · rw [same]
    exact List.subset_cons_self ..

theorem Proc.Shows.kept {size x pa : Nat} (shows : p.Shows slots size x pa) (pages : p.pages ⊆ q.pages)
    (same : ∀ cap, slots cap ≠ none → filled cap = slots cap) : q.Shows filled size x pa := by
  obtain ⟨page,member,start,length,cap,behind,there⟩ := shows
  refine ⟨page,pages member,start,length,cap,behind,?_⟩
  rw [same cap (by rw [there]; simp),there]

theorem Proc.Shows.setTop {size x pa : Nat} (shows : p.Shows slots size x pa) (top : Addr) :
    (p.setTop top).Shows slots size x pa := by
  unfold Proc.Shows at shows ⊢
  rw [Proc.setTop_pages]
  exact shows

/-- The loop shows the frames from `first` on, one behind the other. -/
theorem placeFrames_shows {first : BitVec 32} {base : Addr} {k : Nat → DevKernel}
    (loop : placeFrames cfg d first base k n i slots p = ((filled,q),true)) (backed : d.Backed slots) :
    (p.pages ⊆ q.pages ∧ ∀ cap, slots cap ≠ none → filled cap = slots cap) ∧ ∀ j < n,
      q.Shows filled d.granule.toNat (base + BitVec.ofNat 64 (i + j) * d.granule).toNat
          (d.phys.toNat + (first + BitVec.ofNat 32 (i + j)).toNat * d.granule.toNat) ∧
        (base + BitVec.ofNat 64 (i + j) * d.granule).toNat + d.granule.toNat ≤ cfg.userTop := by
  induction n generalizing i slots p with
  | zero =>
    obtain ⟨rfl,rfl⟩ := Prod.mk.inj (Prod.mk.inj loop).1
    exact ⟨⟨fun _ member => member,fun _ _ => rfl⟩,fun j less => absurd less (Nat.not_lt_zero j)⟩
  | succ n ih =>
    rw [placeFrames] at loop
    split at loop
    · rename_i stopping
      cases (Prod.mk.inj loop).2
    · rename_i mid placed placing
      obtain ⟨shows,low,pages,same⟩ := placeFrame_shows placing backed
      obtain ⟨⟨pages',same'⟩,rest⟩ := ih loop (backed.kept same)
      have kept : ∀ cap, slots cap ≠ none → filled cap = slots cap := fun cap used =>
        (same' cap (by rw [same cap used]; exact used)).trans (same cap used)
      refine ⟨⟨fun _ member => pages' (pages member),kept⟩,fun j less => ?_⟩
      cases j with
      | zero => exact ⟨shows.kept pages' same',low⟩
      | succ j =>
        have next := rest j (Nat.lt_of_succ_lt_succ less)
        rw [show i + 1 + j = i + (j + 1) from by omega] at next
        exact next

/-- Blocks of one granule that fit below a bound follow one another. -/
theorem block_toNat {base granule : Addr} {top : Nat} (low : top ≤ 2 ^ 63)
    (fits : ∀ j < n, (base + BitVec.ofNat 64 j * granule).toNat + granule.toNat ≤ top) (less : j < n) :
    (base + BitVec.ofNat 64 j * granule).toNat = base.toNat + j * granule.toNat := by
  induction j with
  | zero => simp
  | succ j ih =>
    have before := ih (Nat.lt_of_succ_lt less)
    have room := fits j (Nat.lt_of_succ_lt less)
    rw [before] at room
    have next : base + BitVec.ofNat 64 (j + 1) * granule = base + BitVec.ofNat 64 j * granule + granule := by
      rw [BitVec.ofNat_add,BitVec.add_mul,BitVec.add_assoc,BitVec.one_mul]
    rw [next,BitVec.toNat_add,before,Nat.mod_eq_of_lt (by omega),Nat.succ_mul]
    omega

/-- The frames of a request in a region, as numbers. -/
structure Devmap.Covers (d : Devmap) (phys len : Addr) : Prop where
  below : d.phys ≤ phys
  room : phys.toNat + len.toNat < 2 ^ 64
  nonempty : 0 < len.toNat
  within : phys.toNat + len.toNat ≤ d.phys.toNat + d.len.toNat

theorem granule_le (granule : g = megaPage ∨ g = page4k) : g.toNat ≤ 2 ^ 21 := by
  rcases granule with rfl | rfl
  · rw [megaPage_toNat]
  · rw [page4k_toNat]
    decide

theorem Devmap.Covers.first (covers : d.Covers phys len) (backed : d.Backed slots) :
    (d.first phys).toNat = (phys.toNat - d.phys.toNat) / d.granule.toNat ∧ (d.first phys).toNat < 64 := by
  have positive := granule_positive backed.granule
  have few := backed.few
  have length := backed.len
  have within := covers.within
  have nonempty := covers.nonempty
  have below : d.phys.toNat ≤ phys.toNat := covers.below
  have less : (phys.toNat - d.phys.toNat) / d.granule.toNat < 64 := by
    rw [Nat.div_lt_iff_lt_mul positive]
    have most := Nat.mul_le_mul_right d.granule.toNat few
    omega
  have value : (d.first phys).toNat = (phys.toNat - d.phys.toNat) / d.granule.toNat := by
    rw [Devmap.first,BitVec.toNat_setWidth,BitVec.toNat_udiv,BitVec.toNat_sub_of_le covers.below,
      Nat.mod_eq_of_lt (by omega)]
  exact ⟨value,value ▸ less⟩

theorem Devmap.Covers.last (covers : d.Covers phys len) (backed : d.Backed slots) :
    (d.last phys len).toNat = (phys.toNat - d.phys.toNat + len.toNat + d.granule.toNat - 1) / d.granule.toNat ∧
      (d.last phys len).toNat ≤ 64 := by
  have positive := granule_positive backed.granule
  have small := granule_le backed.granule
  have few := backed.few
  have length := backed.len
  have within := covers.within
  have room := covers.room
  have below : d.phys.toNat ≤ phys.toNat := covers.below
  have ends : (phys + len).toNat = phys.toNat + len.toNat := by
    rw [BitVec.toNat_add,Nat.mod_eq_of_lt room]
  have most := Nat.mul_le_mul_right d.granule.toNat few
  have shape : phys + len - d.phys + d.granule - 1 = phys + len - d.phys + (d.granule - 1) := by grind
  have one : (1 : Addr).toNat = 1 := rfl
  have value : (phys + len - d.phys + d.granule - 1).toNat = phys.toNat - d.phys.toNat + len.toNat +
    d.granule.toNat - 1 := by
    rw [shape,BitVec.toNat_add,BitVec.toNat_sub_of_le (by rw [BitVec.le_def,ends]; omega),ends,
      BitVec.toNat_sub_of_le (by rw [BitVec.le_def,one]; omega),one,Nat.mod_eq_of_lt (by omega)]
    omega
  have count : (phys.toNat - d.phys.toNat + len.toNat + d.granule.toNat - 1) / d.granule.toNat ≤
    d.frames.length := by
    rw [← Nat.lt_succ_iff,Nat.div_lt_iff_lt_mul positive,Nat.succ_mul]
    omega
  have narrow : ((phys + len - d.phys + d.granule - 1) / d.granule).setWidth 32 =
      BitVec.ofNat 32 ((phys.toNat - d.phys.toNat + len.toNat + d.granule.toNat - 1) / d.granule.toNat) := by
    refine BitVec.eq_of_toNat_eq ?_
    rw [BitVec.toNat_setWidth,BitVec.toNat_udiv,value,BitVec.toNat_ofNat]
  have small' (m : Nat) (fits : m ≤ 64) : (BitVec.ofNat 32 m).toInt = m := by
    rw [BitVec.toInt_eq_toNat_of_lt (by rw [BitVec.toNat_ofNat]; omega),BitVec.toNat_ofNat,Nat.mod_eq_of_lt (by omega)]
  have unclipped : d.nframes.slt (((phys + len - d.phys + d.granule - 1) / d.granule).setWidth 32) = false := by
    rw [narrow,backed.count,BitVec.slt_eq_decide,decide_eq_false_iff_not,small' _ few,small' _ (by omega)]
    omega
  rw [Devmap.last,unclipped,if_neg Bool.false_ne_true,narrow,BitVec.toNat_ofNat,Nat.mod_eq_of_lt (by omega)]
  exact ⟨rfl,by omega⟩

theorem devmapMapInto_shows {k : Nat → DevKernel} (covers : d.Covers phys len) (backed : d.Backed slots)
    (done : devmapMapInto cfg slots p d phys len k = ((filled,q),.ok va)) (x : Nat) (inside : x < len.toNat) :
    ∃ start at', q.Shows filled d.granule.toNat start at' ∧ start ≤ va.toNat + x ∧
      va.toNat + x < start + d.granule.toNat ∧
      at' + (va.toNat + x - start) = phys.toNat + x := by
  obtain ⟨first,less⟩ := covers.first backed
  obtain ⟨last,most⟩ := covers.last backed
  have positive := granule_positive backed.granule
  have small := granule_le backed.granule
  have below : d.phys.toNat ≤ phys.toNat := covers.below
  have signed (b : BitVec 32) (fits : b.toNat ≤ 64) : b.toInt = b.toNat := BitVec.toInt_eq_toNat_of_lt (by omega)
  have rounds : turns (d.first phys) (d.last phys len) = (d.last phys len).toNat - (d.first phys).toNat := by
    unfold turns
    rw [signed _ most,signed _ (Nat.le_of_lt less)]
    omega
  rw [devmapMapInto] at done
  split at done
  · cases (Prod.mk.inj done).2
  · rename_i full placed loop
    obtain ⟨same,answer⟩ := Prod.mk.inj done
    obtain ⟨rfl,rfl⟩ := Prod.mk.inj same
    have start := Except.ok.inj answer
    rw [rounds] at loop
    obtain ⟨-,each⟩ := placeFrames_shows loop backed
    simp only [Nat.zero_add] at each
    -- the distance of the request from the region, its first frame and its place in that frame
    generalize away : phys.toNat - d.phys.toNat = a at first last
    generalize size : d.granule.toNat = g at *
    have divided := Nat.div_add_mod a g
    have rest := Nat.mod_lt a positive
    have enough : (a + x) / g + 1 ≤ (d.last phys len).toNat := by
      rw [last,Nat.le_div_iff_mul_le positive,Nat.succ_mul]
      have floor := Nat.div_mul_le_self (a + x) g
      omega
    have from_first : a / g ≤ (a + x) / g := Nat.div_le_div_right (by omega)
    obtain ⟨n,turn⟩ : ∃ n, (a + x) / g = a / g + n := ⟨_,(Nat.add_sub_cancel' from_first).symm⟩
    have wide : (BitVec.signExtend 64 (d.first phys)).toNat = a / g := by
      rw [BitVec.signExtend_eq_setWidth_of_msb_false (by rw [BitVec.msb_eq_false_iff_two_mul_lt]; omega),
        BitVec.toNat_setWidth,Nat.mod_eq_of_lt (by omega),first]
    have step_fits : ∀ j < (d.last phys len).toNat - (d.first phys).toNat,
        (roundUp p.mmapTop megaPage + BitVec.ofNat 64 j * d.granule).toNat + d.granule.toNat ≤ cfg.userTop :=
      fun j less => size ▸ (each j less).2
    have at_page := block_toNat cfg.userTop_le step_fits (j := n) (by omega)
    obtain ⟨shows,low⟩ := each n (by omega)
    rw [at_page,size] at shows low
    have frame : (d.first phys + BitVec.ofNat 32 n).toNat = a / g + n := by
      rw [BitVec.toNat_add,BitVec.toNat_ofNat,first]
      omega
    rw [frame] at shows
    have skipped : (BitVec.signExtend 64 (d.first phys) * d.granule).toNat = a / g * g := by
      rw [BitVec.toNat_mul,wide,size,Nat.mod_eq_of_lt]
      have floor := Nat.div_mul_le_self a g
      have range := phys.isLt
      omega
    have offset : (phys - d.phys - BitVec.signExtend 64 (d.first phys) * d.granule).toNat = a % g := by
      have whole : (phys - d.phys).toNat = a := by rw [BitVec.toNat_sub_of_le covers.below,away]
      rw [BitVec.toNat_sub_of_le (by rw [BitVec.le_def,skipped,whole]; exact Nat.div_mul_le_self a g),whole,skipped]
      rw [Nat.mul_comm] at divided
      omega
    have top := cfg.userTop_le
    have address : va.toNat = (roundUp p.mmapTop megaPage).toNat + a % g := by
      rw [← start,BitVec.toNat_add,offset,Nat.mod_eq_of_lt (by omega)]
    have upper := Nat.div_add_mod (a + x) g
    have range := Nat.mod_lt (a + x) positive
    rw [turn,Nat.mul_add,Nat.mul_comm g n] at upper
    refine ⟨_,_,shows.setTop _,?_,?_,?_⟩
    · omega
    · omega
    · rw [Nat.add_mul,Nat.mul_comm (a / g) g]
      omega

theorem Uncut.carvesWell {kernel : Kernel} {flags : Addr}
    (uncut : Uncut cfg s (.mmap caller len flags phys kernel)) (owner : s.procs caller = some p)
    (nonempty : len ≠ 0) (device : flags &&& cfg.flagPhys ≠ 0) (even : phys &&& (page4k - 1) = 0) :
    CarvesWell cfg s phys (roundUp len page4k) kernel.retype := by
  intro c missing plan room ahead
  refine uncut c kernel.retype ⟨rfl,?_,nonempty,device,even,missing,plan,room,ahead⟩
  rw [owner]
  simp

theorem mmapServe_backed {kernel : Kernel} {flags : Addr} (boot : cfg.Aligned) (metered : s.Metered cfg)
    (agreed : s.Agreed cfg) (sound : s.Sound cfg)
    (backed : s.Backed) (uncut : Uncut cfg s (.mmap caller len flags phys kernel)) :
    (s.mmapServe cfg caller len flags phys kernel).1.Backed := by
  cases owner : s.procs caller with
  | none =>
    simp only [State.mmapServe,owner]
    exact backed
  | some p =>
    by_cases empty : len = 0
    · rw [mmapServe_empty owner empty]
      exact backed
    · by_cases device : flags &&& cfg.flagPhys ≠ 0
      · rw [mmapServe_phys len kernel owner empty device]
        by_cases even : phys &&& (page4k - 1) = 0
        · cases found : s.region cfg phys (roundUp len page4k) kernel.retype with
          | mk t answer =>
            obtain ⟨sound',procs,granule⟩ := region_sound sound found
            obtain ⟨backed',-⟩ := region_backed boot metered agreed backed even
              (uncut.carvesWell owner empty device even) found
            cases answer with
            | none =>
              rw [mmapPhys_refused p phys len kernel found even]
              exact backed'
            | some d =>
              rw [mmapPhys_mapped p phys len kernel found even]
              exact backed'.setProc sound' (procs ▸ owner)
                (devmapMapInto_keeps cfg t.slots p d phys _ kernel.dev (granule_positive (granule d rfl)))
        · rw [mmapPhys_uneven p len kernel even]
          exact backed
      · rw [mmapServe_anonymous phys kernel owner empty (not_not.mp device)]
        exact backed.setProc sound owner (mmapAnonymous_keeps cfg s.slots p len kernel.page)

theorem write_backed (backed : s.Backed) (caller : Pid) (x : Nat) : (s.write caller x).Backed := by
  rcases write_slots s caller x with same | ⟨cap,zero,frame,same⟩
  · rw [same]
    exact backed
  · rw [same]
    intro i d there
    have old := backed i d there
    refine ⟨old.granule,old.few,old.count,old.len,old.inside,fun j c member => ?_⟩
    have device := old.frames j c member
    have other : c ≠ cap := by
      rintro rfl
      rw [frame] at device
      cases device
    exact (Function.update_of_ne other ..).trans device

def Works (cfg : Config) (s t : State) : Prop :=
  t = s ∨ ∃ caller p slots q, s.procs caller = some p ∧ Keeps cfg s.slots p slots q ∧ t = s.setProc caller slots q

theorem State.Backed.works (backed : s.Backed) (sound : s.Sound cfg) (works : Works cfg s t) : t.Backed := by
  obtain rfl | ⟨caller,p,slots,q,owner,keeps,rfl⟩ := works
  · exact backed
  · exact backed.setProc sound owner keeps

theorem allocPhysServe_works (s : State) (caller : Pid) (len : Addr) (k : Kernel) :
    Works cfg s (s.allocPhysServe cfg caller len k).1 := by
  cases owner : s.procs caller with
  | none =>
    simp only [State.allocPhysServe,owner]
    exact .inl rfl
  | some p =>
    by_cases bad : len = 0 ∨ megaPage < len
    · rw [allocPhysServe_bad owner bad]
      exact .inl rfl
    · rw [allocPhysServe_state k owner (not_or.mp bad).1 (not_or.mp bad).2]
      exact .inr ⟨caller,p,_,_,owner,mmapAnonymous_keeps cfg s.slots p len k.page,rfl⟩

theorem munmapServe_works (s : State) (caller : Pid) (va len : Addr) :
    Works cfg s (s.munmapServe caller va len).1 := by
  cases owner : s.procs caller with
  | none =>
    simp only [State.munmapServe,owner]
    exact .inl rfl
  | some p =>
    by_cases bad : len = 0 ∨ (munmapDevframes s.slots p va len).2 = [] ∧
        (va &&& (megaPage - 1) ≠ 0 ∨ allTracked p va (pagesIn (roundUp len megaPage)) 0 = false)
    · rw [munmapServe_bad owner bad]
      exact .inl rfl
    · obtain ⟨nonempty,rest⟩ := not_or.mp bad
      by_cases hit : (munmapDevframes s.slots p va len).2 = []
      · obtain ⟨aligned,tracked⟩ := not_or.mp fun why => rest ⟨hit,why⟩
        rw [munmapServe_anonymous owner nonempty hit (not_not.mp aligned) (Bool.not_eq_false _ ▸ tracked)]
        have dropped : Keeps cfg s.slots p (dropPages va (pagesIn (roundUp len megaPage)) 0 s.slots p).1
            (dropPages va (pagesIn (roundUp len megaPage)) 0 s.slots p).2 := fun own =>
              (dropPages_spec own va _ 0).1
        exact .inr ⟨caller,p,_,_,owner,dropped.setTop _,rfl⟩
      · rw [munmapServe_device owner nonempty hit]
        exact .inr ⟨caller,p,_,_,owner,munmapDevframes_keeps s.slots p va len,rfl⟩

theorem mprotectServe_works (s : State) (caller : Pid) (addr len prot : Addr) (k : Nat → Bool) :
    Works cfg s (s.mprotectServe cfg caller addr len prot k).1 := by
  cases owner : s.procs caller with
  | none =>
    simp only [State.mprotectServe,owner]
    exact .inl rfl
  | some p =>
    by_cases bad : len = 0 ∨ addr &&& (page4k - 1) ≠ 0
    · rw [mprotectServe_bad owner bad]
      exact .inl rfl
    · obtain ⟨nonempty,aligned⟩ := not_or.mp bad
      rw [mprotectServe_pages prot k owner nonempty (not_not.mp aligned)]
      exact .inr ⟨caller,p,_,_,owner,protectPages_keeps (Prod.ext rfl rfl),rfl⟩

theorem step_backed (boot : cfg.Aligned) (metered : s.Metered cfg) (agreed : s.Agreed cfg) (sound : s.Sound cfg)
    (backed : s.Backed) (uncut : Uncut cfg s e) : (step cfg s e).Backed := by
  cases e with
  | mmap caller len flags phys kernel => exact mmapServe_backed boot metered agreed sound backed uncut
  | allocPhys caller len kernel => exact backed.works sound (allocPhysServe_works s caller len kernel)
  | munmap caller va len => exact backed.works sound (munmapServe_works s caller va len)
  | mprotect caller addr len prot kernel =>
    exact backed.works sound (mprotectServe_works s caller addr len prot kernel)
  | write caller x => exact write_backed backed caller x

structure State.Steady (cfg : Config) (s : State) : Prop where
  metered : s.Metered cfg
  agreed : s.Agreed cfg
  sound : s.Sound cfg
  backed : s.Backed

theorem Start.steady (initial : Start cfg s) : s.Steady cfg := by
  refine ⟨initial.in_step.1,initial.in_step.2,initial.toSound,fun i d there => ?_⟩
  rw [initial.regions] at there
  cases there

theorem State.Steady.step (steady : s.Steady cfg) (boot : cfg.Aligned) (uncut : Uncut cfg s e) :
    (step cfg s e).Steady cfg :=
  ⟨step_metered steady.metered e,(step_agreed_iff boot steady.metered steady.agreed e).mpr uncut,
    step_sound steady.sound e,
    step_backed boot steady.metered steady.agreed steady.sound steady.backed uncut⟩

theorem run_steady (boot : cfg.Aligned) (initial : Start cfg s)
    (run : Lts.Run (fun s e => some (step cfg s e)) (Uncut cfg) s es t) :
    t.Steady cfg :=
  run.invariant (State.Steady cfg) (fun s e u steady uncut taken => by
    obtain rfl := Option.some.inj taken
    exact steady.step boot uncut) initial.steady

/-- A request for device memory that is not refused has a region that covers it. -/
theorem mmapServe_region {kernel : Kernel} {flags : Addr} (steady : s.Steady cfg) (boot : cfg.Aligned)
    (device : flags &&& cfg.flagPhys ≠ 0) (room : phys.toNat + len.toNat + (2 ^ 12 - 1) < 2 ^ 64)
    (uncut : Uncut cfg s (.mmap caller len flags phys kernel))
    (done : (s.mmapServe cfg caller len flags phys kernel).2 = .ok va) :
    ∃ p t d filled q, s.procs caller = some p ∧ s.region cfg phys (roundUp len page4k) kernel.retype = (t,some d) ∧
      d.Covers phys (roundUp len page4k) ∧ d.Backed t.slots ∧ len.toNat ≤ (roundUp len page4k).toNat ∧
      devmapMapInto cfg t.slots p d phys (roundUp len page4k) kernel.dev = ((filled,q),.ok va) ∧
      (s.mmapServe cfg caller len flags phys kernel).1 = t.setProc caller filled q := by
  cases owner : s.procs caller with
  | none =>
    simp only [State.mmapServe,owner] at done
    cases done
  | some p =>
    have nonempty : len ≠ 0 := by
      intro empty
      rw [mmapServe_empty owner empty] at done
      cases done
    rw [mmapServe_phys len kernel owner nonempty device] at done ⊢
    have even : phys &&& (page4k - 1) = 0 := by
      by_contra uneven
      rw [mmapPhys_uneven p len kernel uneven] at done
      cases done
    have positive : len.toNat ≠ 0 := fun nothing => nonempty (BitVec.eq_of_toNat_eq nothing)
    have rounded := roundUp_4k len (by omega)
    obtain ⟨page,start⟩ := (low_zero page4k_toNat).mp even
    cases found : s.region cfg phys (roundUp len page4k) kernel.retype with
    | mk t answer =>
      cases answer with
      | none =>
        rw [mmapPhys_refused p phys len kernel found even] at done
        cases done
      | some d =>
        rw [mmapPhys_mapped p phys len kernel found even] at done ⊢
        have well := uncut.carvesWell owner nonempty device even
        obtain ⟨-,each⟩ := region_backed boot steady.metered steady.agreed steady.backed even well found
        obtain ⟨backed,below,within⟩ := each d rfl
        exact ⟨p,t,d,_,_,rfl,rfl,⟨below,by omega,by omega,within (by omega) (by omega)⟩,backed,by omega,
          Prod.ext rfl done,rfl⟩

/-- In every run whose carves are made whole, a request for device memory that is not refused and whose
range does not wrap gets exactly the physical addresses that it names. -/
theorem run_map_phys {kernel : Kernel} {flags : Addr} (boot : cfg.Aligned) (initial : Start cfg s)
    (run : Lts.Run (fun s e => some (step cfg s e)) (Uncut cfg) s es t) (device : flags &&& cfg.flagPhys ≠ 0)
    (room : phys.toNat + len.toNat + (2 ^ 12 - 1) < 2 ^ 64)
    (uncut : Uncut cfg t (.mmap caller len flags phys kernel))
    (done : (t.mmapServe cfg caller len flags phys kernel).2 = .ok va) (x : Nat) (inside : x < len.toNat) :
    (t.mmapServe cfg caller len flags phys kernel).1.Translates caller (va.toNat + x) (phys.toNat + x) := by
  obtain ⟨p,u,d,filled,q,-,-,covers,backed,enough,mapped,same⟩ := mmapServe_region (run_steady boot initial run)
    boot device room uncut done
  obtain ⟨start,at',⟨page,member,rfl,size,cap,behind,there⟩,low,high,maps⟩ :=
    devmapMapInto_shows covers backed mapped x (Nat.lt_of_lt_of_le inside enough)
  rw [same]
  refine ⟨q,page,cap,at',setProc_procs ..,member,⟨low,?_⟩,behind,there,maps⟩
  rw [Mapping.stop,size]
  exact high

theorem run_map_phys_board : (step boardConfig board boardRequest).Translates 1 0x2000fff 0x10001fff := by
  obtain ⟨metered,agreed⟩ := board_start.in_step
  have uncut := (step_agreed_iff boardConfig_aligned metered agreed boardRequest).mp boardRequest_agreed
  have done : (board.mmapServe boardConfig 1 0x1000 2 0x10001000 boardKernel).2 = .ok 0x2000000 := by decide +kernel
  exact run_map_phys boardConfig_aligned board_start .nil (by decide) (by decide) uncut done 0xfff (by decide)

end Qsoe.Mem
