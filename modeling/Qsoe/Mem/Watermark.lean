import Qsoe.Mem.History
import Qsoe.Mem.Skipping

/-! The marks that taskman keeps of the device untypeds, against the kernel's own watermarks. A carve
writes its mark once, behind all its retypes; the two agree as long as no carve stops half way and no
count of frames is cut to an `int`. -/
namespace Qsoe.Mem

variable {cfg : Config} {s t marked : State} {e : Event} {c : Carve} {k : Nat → RetypeKernel} {u v : Untyped}
  {ut paddr i bits : Nat} {sizes : List Nat}

/-- The untypeds lie at multiples of their size, as the kernel makes them. -/
def Config.Aligned (cfg : Config) : Prop := ∀ u ∈ cfg.untypeds, u.sizeBits < 64 ∧ 2 ^ u.sizeBits ∣ u.paddr.toNat

/-- Every device untyped is marked as far as the kernel has used it up. -/
def State.Agreed (cfg : Config) (s : State) : Prop :=
  ∀ i u, cfg.untypeds[i]? = some u → u.isDevice = true → (s.hwmOf i).toNat = (s.untyped i).watermark

/-- A request sets out on the retypes of carve `c`. -/
def Carving (cfg : Config) (s : State) (c : Carve) (k : Nat → RetypeKernel) : Event → Prop
  | .mmap caller len flags phys kernel =>
    k = kernel.retype ∧ s.procs caller ≠ none ∧ len ≠ 0 ∧ flags &&& cfg.flagPhys ≠ 0 ∧ phys &&& (page4k - 1) = 0 ∧
      s.devmapFind phys (roundUp len page4k) = none ∧ s.carvePlan cfg phys (roundUp len page4k) = some c ∧
      s.hwmSlot c.ut ≠ none ∧ ¬c.offset < s.hwmOf c.ut
  | _ => False

/-- The retypes of a carve, from the marks the request finds. -/
def Carve.run (c : Carve) (s : State) (k : Nat → RetypeKernel) : State × Bool :=
  s.retypes c.ut c.paddr.toNat k 0 (c.objects (s.hwmOf c.ut))

/-- The first retype of the carve is refused, or none is and its frames are no more than a region may have. -/
def Carve.AllOrNone (c : Carve) (s : State) (k : Nat → RetypeKernel) : Prop :=
  (∃ bits ∈ (c.objects (s.hwmOf c.ut)).head?, s.retype c.ut c.paddr.toNat bits (k 0) = none) ∨
    (c.run s k).2 = true ∧ c.rlen / c.granule ≤ devmapMaxFrames.setWidth 64

def Uncut (cfg : Config) (s : State) (e : Event) : Prop := ∀ c k, Carving cfg s c k e → c.AllOrNone s k

/-- An untyped without children is at its start. -/
def Fresh (u : Untyped) : Prop := u.children = 0 → u.watermark = 0

theorem retype_grows (made : u.retype (2 ^ bits) = some v) (fresh : Fresh u) :
    u.watermark < v.watermark ∧ Fresh v ∧ v.size = u.size ∧ v.watermark ≤ v.size := by
  have positive := Nat.two_pow_pos bits
  have base : u.watermark ≤ u.base (2 ^ bits) := by
    unfold Untyped.base
    split
    · rename_i nothing
      rw [fresh nothing]
    · have whole := Nat.lt_div_mul_add positive (a := u.watermark + 2 ^ bits - 1)
      omega
  unfold Untyped.retype at made
  split at made
  · rename_i fits
    obtain rfl := Option.some.inj made
    exact ⟨by dsimp only; omega,fun nothing => absurd nothing (Nat.succ_ne_zero _),rfl,fits⟩
  · cases made

theorem retype_at (made : u.retype (2 ^ bits) = some v) (fresh : Fresh u) (aligned : 2 ^ bits ∣ u.watermark) :
    v.watermark = u.watermark + 2 ^ bits := by
  have fits : u.watermark + 2 ^ bits ≤ u.size := by
    obtain ⟨grown,-,size,inside⟩ := retype_grows made fresh
    obtain ⟨n,start⟩ := aligned
    unfold Untyped.retype at made
    split at made
    · rename_i room
      refine Nat.le_trans (Nat.add_le_add_right ?_ _) room
      unfold Untyped.base
      split
      · rename_i childless
        exact Nat.le_of_eq (fresh childless)
      · have whole := Nat.lt_div_mul_add (Nat.two_pow_pos bits) (a := u.watermark + 2 ^ bits - 1)
        have positive := Nat.two_pow_pos bits
        omega
    · cases made
  have shape := Untyped.retype_of_dvd (Nat.two_pow_pos bits) aligned fresh fits
  rw [made] at shape
  rw [Option.some.inj shape]

def carveAll (u : Untyped) (sizes : List Nat) : Option Untyped := sizes.foldlM (fun u bits => u.retype (2 ^ bits)) u

theorem carveAll_cons : carveAll u (bits :: sizes) = (u.retype (2 ^ bits)).bind fun v => carveAll v sizes := rfl

theorem carveAll_append {more : List Nat} :
    carveAll u (sizes ++ more) = (carveAll u sizes).bind fun v => carveAll v more :=
  List.foldlM_append

theorem carveAll_grows (made : carveAll u sizes = some v) (fresh : Fresh u) :
    u.watermark ≤ v.watermark ∧ Fresh v ∧ v.size = u.size ∧
      (sizes ≠ [] → u.watermark < v.watermark ∧ v.watermark ≤ v.size) := by
  induction sizes generalizing u with
  | nil =>
    obtain rfl := Option.some.inj made
    exact ⟨Nat.le_refl _,fresh,rfl,fun nonempty => absurd rfl nonempty⟩
  | cons bits sizes ih =>
    rw [carveAll_cons] at made
    obtain ⟨w,first,rest⟩ := Option.bind_eq_some_iff.mp made
    obtain ⟨grown,fresh',size,inside⟩ := retype_grows first fresh
    obtain ⟨more,last,size',within⟩ := ih rest fresh'
    refine ⟨by omega,last,size'.trans size,fun _ => ⟨by omega,?_⟩⟩
    cases sizes with
    | nil =>
      obtain rfl := Option.some.inj rest
      exact inside
    | cons bits sizes => exact (within (List.cons_ne_nil _ _)).2

theorem Chained.watermark {cs : List Chunk} (chained : Chained u.watermark cs)
    (aligned : ∀ c ∈ cs, 2 ^ c.bits ∣ c.pos.toNat)
    (fresh : Fresh u) (made : carveAll u (cs.map Chunk.bits) = some v) : v.watermark = reached u.watermark cs := by
  induction cs generalizing u with
  | nil =>
    obtain rfl := Option.some.inj made
    rfl
  | cons c cs ih =>
    obtain ⟨first,rest⟩ := chained
    have divides := aligned c List.mem_cons_self
    rw [first] at divides
    rw [List.map_cons,carveAll_cons] at made
    obtain ⟨w,one,more⟩ := Option.bind_eq_some_iff.mp made
    have next := retype_at one fresh divides
    rw [← next] at rest
    rw [ih rest (fun d member => aligned d (List.mem_cons_of_mem _ member)) (retype_grows one fresh).2.1 more,
      next,reached]

theorem skips_watermark {mark offset : Addr} (le : mark ≤ offset) (utBits : Nat) (start : u.watermark = mark.toNat)
    (fresh : Fresh u) (made : carveAll u (skipChunks utBits offset.toNat mark.toNat) = some v) :
    v.watermark = offset.toNat := by
  obtain ⟨out,-,skips,whole⟩ := skipLoop_skips utBits (fun _ => ⟨1,true⟩) 0 le
  obtain ⟨success,same⟩ := whole fun _ => ⟨Nat.one_ne_zero,rfl⟩
  have chained := skips.chained
  have arrives := (skips.landed success).2
  rw [← start] at chained arrives
  rw [← same] at made
  exact (chained.watermark skips.aligned fresh made).trans arrives

theorem frames_watermark (aligned : 2 ^ bits ∣ u.watermark) (fresh : Fresh u)
    (made : carveAll u (List.replicate n bits) = some v) :
    v.watermark = u.watermark + n * 2 ^ bits := by
  induction n generalizing u with
  | zero =>
    obtain rfl := Option.some.inj made
    rw [Nat.zero_mul]
    rfl
  | succ n ih =>
    rw [List.replicate_succ,carveAll_cons] at made
    obtain ⟨w,first,rest⟩ := Option.bind_eq_some_iff.mp made
    have next := retype_at first fresh aligned
    have last := ih (next ▸ Nat.dvd_add aligned (Nat.dvd_refl _)) (retype_grows first fresh).2.1 rest
    rw [last,next,Nat.succ_mul]
    omega

theorem retype_hwm (s : State) (hwm : List (Nat × Addr)) (ut paddr bits : Nat) (k : RetypeKernel) :
    State.retype { s with hwm := hwm } ut paddr bits k = (s.retype ut paddr bits k).map fun t =>
      { t with hwm := hwm } := by
  unfold State.retype
  split
  · rw [Option.map_bind]
    refine Option.bind_congr fun filled _ => ?_
    rw [Function.comp_apply,Option.map_map]
    rfl
  · rfl

theorem retypes_hwm (s : State) (hwm : List (Nat × Addr)) (ut paddr : Nat) (k : Nat → RetypeKernel) (i : Nat)
    (sizes : List Nat) :
    State.retypes { s with hwm := hwm } ut paddr k i sizes =
      ({ (s.retypes ut paddr k i sizes).1 with hwm := hwm },(s.retypes ut paddr k i sizes).2) := by
  induction sizes generalizing s i with
  | nil => rfl
  | cons bits sizes ih =>
    rw [State.retypes,State.retypes,retype_hwm]
    cases s.retype ut paddr bits (k i) with
    | none => rfl
    | some made => exact ih made (i + 1)

theorem retypes_untyped (loop : s.retypes ut paddr k i sizes = (t,done)) :
    t.hwm = s.hwm ∧ (∀ j, j ≠ ut → t.untyped j = s.untyped j) ∧
      (done = true → carveAll (s.untyped ut) sizes = some (t.untyped ut)) ∧
      (done = false → ∃ less, less <+: sizes ∧ carveAll (s.untyped ut) less = some (t.untyped ut) ∧
        ∀ bits ∈ sizes.head?, s.retype ut paddr bits (k i) ≠ none → less ≠ []) := by
  induction sizes generalizing s i with
  | nil =>
    obtain ⟨rfl,rfl⟩ := Prod.mk.inj loop
    exact ⟨rfl,fun _ _ => rfl,fun _ => rfl,fun stopped => by cases stopped⟩
  | cons bits sizes ih =>
    rw [State.retypes] at loop
    split at loop
    · rename_i refused
      obtain ⟨rfl,rfl⟩ := Prod.mk.inj loop
      refine ⟨rfl,fun _ _ => rfl,fun ended => absurd ended Bool.false_ne_true,fun _ => ⟨[],List.nil_prefix,rfl,?_⟩⟩
      intro b first made
      obtain rfl : bits = b := Option.some.inj first
      exact absurd refused made
    · rename_i made here
      obtain ⟨v,carved,-,same⟩ := retype_some here
      obtain ⟨hwm,others,whole,part⟩ := ih loop
      have own : made.untyped ut = v := by
        rw [same]
        exact Function.update_self ..
      refine ⟨hwm.trans (by rw [same]),fun j other => (others j other).trans ?_,fun ended => ?_,fun stopped => ?_⟩
      · rw [same]
        exact Function.update_of_ne other ..
      · rw [carveAll_cons,carved,Option.bind_some,← own]
        exact whole ended
      · obtain ⟨less,front,rest,-⟩ := part stopped
        refine ⟨bits :: less,List.cons_prefix_cons.mpr ⟨rfl,front⟩,?_,fun _ _ _ => List.cons_ne_nil _ _⟩
        rw [carveAll_cons,carved,Option.bind_some,← own]
        exact rest

theorem hwmSlot_hwmOf (marking : s.hwmSlot ut = some marked) :
    (∀ j, marked.hwmOf j = s.hwmOf j) ∧ (marked.hwm.find? (·.1 == ut)).isSome := by
  unfold State.hwmSlot at marking
  split at marking
  · rename_i found
    obtain rfl := Option.some.inj marking
    exact ⟨fun _ => rfl,found⟩
  · split at marking
    · cases marking
    · obtain rfl := Option.some.inj marking
      refine ⟨fun j => ?_,?_⟩
      · unfold State.hwmOf
        rw [List.find?_append]
        cases s.hwm.find? (·.1 == j) with
        | some entry => rfl
        | none =>
          rw [Option.none_or,List.find?_singleton]
          split <;> rfl
      · rw [List.find?_append,Option.isSome_or,List.find?_singleton]
        simp

theorem setHwm_hwmOf (found : (s.hwm.find? (·.1 == ut)).isSome) (mark : Addr) (j : Nat) :
    (s.setHwm ut mark).hwmOf j = if j = ut then mark else s.hwmOf j := by
  have keys : (s.setHwm ut mark).hwm.find? (·.1 == j) =
      (s.hwm.find? (·.1 == j)).map fun e => if e.1 == ut then (e.1,mark) else e := by
    unfold State.setHwm
    rw [List.find?_map]
    congr 2
    funext e
    rw [Function.comp_apply]
    split <;> rfl
  unfold State.hwmOf
  rw [keys]
  split
  · rename_i same
    rw [same]
    obtain ⟨e,there⟩ := Option.isSome_iff_exists.mp found
    rw [there,Option.map_some,if_pos (List.find?_some there)]
    rfl
  · rename_i other
    cases there : s.hwm.find? (·.1 == j) with
    | none => rfl
    | some e =>
      have key : e.1 = j := by simpa using List.find?_some there
      rw [Option.map_some,if_neg (by rw [key]; simpa using other)]

/-- The state has the marks and the untypeds of `s`. -/
def SameMarks (s t : State) : Prop := t.untyped = s.untyped ∧ ∀ j, t.hwmOf j = s.hwmOf j

/-- What a carve leaves of marks and untypeds: the mark is written behind all of its retypes. -/
def Carve.Leaves (c : Carve) (s : State) (k : Nat → RetypeKernel) (t : State) : Prop :=
  t.untyped = (c.run s k).1.untyped ∧
    ∀ j, t.hwmOf j = if (c.run s k).2 = true ∧ j = c.ut then c.offset + c.rlen else s.hwmOf j

theorem devmapCarve_leaves (plan : s.carvePlan cfg phys len = some c) (room : s.hwmSlot c.ut ≠ none)
    (ahead : ¬c.offset < s.hwmOf c.ut) : c.Leaves s k (s.devmapCarve cfg phys len k).1 := by
  obtain ⟨marked,marking⟩ := Option.ne_none_iff_exists'.mp room
  obtain ⟨marks,found⟩ := hwmSlot_hwmOf marking
  have shape := retypes_hwm s marked.hwm c.ut c.paddr.toNat k 0 (c.objects (s.hwmOf c.ut))
  rw [← hwmSlot_some marking] at shape
  have run : marked.retypes c.ut c.paddr.toNat k 0 (c.objects (marked.hwmOf c.ut)) =
      ({ (c.run s k).1 with hwm := marked.hwm },(c.run s k).2) := by
    rw [marks]
    exact shape
  have behind : ¬c.offset < marked.hwmOf c.ut := by
    rw [marks]
    exact ahead
  have kept : ∀ j, State.hwmOf { (c.run s k).1 with hwm := marked.hwm } j = s.hwmOf j := marks
  rw [State.devmapCarve,plan]
  simp only [marking,if_neg behind,run]
  cases ended : (c.run s k).2 with
  | false => exact ⟨rfl,fun j => by rw [if_neg (fun both => by rw [ended] at both; cases both.1)]; exact kept j⟩
  | true =>
    refine ⟨rfl,fun j => ?_⟩
    have marked' := setHwm_hwmOf (s := { (c.run s k).1 with hwm := marked.hwm }) found (c.offset + c.rlen) j
    refine Eq.trans marked' ?_
    rw [kept,ended]
    simp only [true_and]

theorem devmapCarve_idle (cfg : Config) (s : State) (k : Nat → RetypeKernel)
    (idle : ∀ c, s.carvePlan cfg phys len = some c → s.hwmSlot c.ut ≠ none → c.offset < s.hwmOf c.ut) :
    SameMarks s (s.devmapCarve cfg phys len k).1 := by
  unfold State.devmapCarve
  split
  · exact ⟨rfl,fun _ => rfl⟩
  · rename_i c plan
    split
    · exact ⟨rfl,fun _ => rfl⟩
    · rename_i marked marking
      have marks := (hwmSlot_hwmOf marking).1
      have behind := idle c plan (by rw [marking]; simp)
      dsimp only
      rw [if_pos (by rw [marks]; exact behind)]
      exact ⟨by rw [hwmSlot_some marking],marks⟩

theorem Carving.unique {c' : Carve} {k' : Nat → RetypeKernel} (one : Carving cfg s c k e)
    (two : Carving cfg s c' k' e) :
    c = c' ∧ k = k' := by
  cases e with
  | mmap caller len flags phys kernel =>
    obtain ⟨rfl,-,-,-,-,-,plan,-,-⟩ := one
    obtain ⟨rfl,-,-,-,-,-,plan',-,-⟩ := two
    exact ⟨Option.some.inj (plan.symm.trans plan'),rfl⟩
  | _ => exact one.elim

theorem mmapPhys_marks (cfg : Config) (s : State) (caller : Pid) (p : Proc) (phys len : Addr) (k : Kernel)
    (aligned : phys &&& (page4k - 1) = 0) :
    SameMarks (s.region cfg phys (roundUp len page4k) k.retype).1 (s.mmapPhys cfg caller p phys len k).1 := by
  cases found : s.region cfg phys (roundUp len page4k) k.retype with
  | mk t answer =>
    cases answer with
    | none =>
      rw [mmapPhys_refused p phys len k found aligned]
      exact ⟨rfl,fun _ => rfl⟩
    | some d =>
      rw [mmapPhys_mapped p phys len k found aligned]
      exact ⟨rfl,fun _ => rfl⟩

theorem Carve.Leaves.same {t' : State} (left : c.Leaves s k t) (same : SameMarks t t') : c.Leaves s k t' :=
  ⟨same.1.trans left.1,fun j => (same.2 j).trans (left.2 j)⟩

/-- A request either carves and leaves what its carve leaves, or does not and leaves all marks and untypeds. -/
def Marked (cfg : Config) (s : State) (e : Event) (t : State) : Prop :=
  (∃ c k, Carving cfg s c k e ∧ c.Leaves s k t) ∨ (∀ c k, ¬Carving cfg s c k e) ∧ SameMarks s t

theorem SameMarks.idle (same : SameMarks s t) (not : ∀ c k, ¬Carving cfg s c k e) : Marked cfg s e t :=
    .inr ⟨not,same⟩

theorem mmapServe_marks (cfg : Config) (s : State) (caller : Pid) (len flags phys : Addr) (kernel : Kernel) :
    Marked cfg s (.mmap caller len flags phys kernel) (s.mmapServe cfg caller len flags phys kernel).1 := by
  have stays : SameMarks s s := ⟨rfl,fun _ => rfl⟩
  cases owner : s.procs caller with
  | none =>
    simp only [State.mmapServe,owner]
    exact stays.idle fun c k carving => absurd owner carving.2.1
  | some p =>
    by_cases empty : len = 0
    · rw [mmapServe_empty owner empty]
      exact stays.idle fun c k carving => absurd empty carving.2.2.1
    · by_cases device : flags &&& cfg.flagPhys ≠ 0
      · rw [mmapServe_phys len kernel owner empty device]
        by_cases aligned : phys &&& (page4k - 1) = 0
        · have marks := mmapPhys_marks cfg s caller p phys len kernel aligned
          unfold State.region at marks
          cases hit : s.devmapFind phys (roundUp len page4k) with
          | some found =>
            rw [hit] at marks
            refine marks.idle fun c k carving => ?_
            rw [carving.2.2.2.2.2.1] at hit
            cases hit
          | none =>
            rw [hit] at marks
            by_cases sets : ∃ c, s.carvePlan cfg phys (roundUp len page4k) = some c ∧ s.hwmSlot c.ut ≠ none ∧
              ¬c.offset < s.hwmOf c.ut
            · obtain ⟨c,plan,room,ahead⟩ := sets
              refine .inl ⟨c,kernel.retype,⟨rfl,?_,empty,device,aligned,hit,plan,room,ahead⟩,
                (devmapCarve_leaves plan room ahead).same marks⟩
              rw [owner]
              simp
            · have still := devmapCarve_idle cfg s kernel.retype fun c plan room =>
                not_not.mp fun ahead => sets ⟨c,plan,room,ahead⟩
              refine SameMarks.idle ⟨marks.1.trans still.1,fun j => (marks.2 j).trans (still.2 j)⟩
                fun c k carving => ?_
              obtain ⟨-,-,-,-,-,-,plan,room,ahead⟩ := carving
              exact sets ⟨c,plan,room,ahead⟩
        · rw [mmapPhys_uneven p len kernel aligned]
          exact stays.idle fun c k carving => absurd carving.2.2.2.2.1 aligned
      · rw [mmapServe_anonymous phys kernel owner empty (not_not.mp device)]
        exact SameMarks.idle ⟨rfl,fun _ => rfl⟩ fun c k carving => absurd carving.2.2.2.1 device

theorem step_marks (cfg : Config) (s : State) (e : Event) : Marked cfg s e (step cfg s e) := by
  have set (caller : Pid) (slots : Slots) (p : Proc) : SameMarks s (s.setProc caller slots p) := ⟨rfl,fun _ => rfl⟩
  have stays : SameMarks s s := ⟨rfl,fun _ => rfl⟩
  cases e with
  | mmap caller len flags phys k => exact mmapServe_marks cfg s caller len flags phys k
  | allocPhys caller len k =>
    refine SameMarks.idle ?_ fun _ _ => not_false
    rw [step]
    cases owner : s.procs caller with
    | none =>
      simp only [State.allocPhysServe,owner]
      exact stays
    | some p =>
      by_cases bad : len = 0 ∨ megaPage < len
      · rw [allocPhysServe_bad owner bad]
        exact stays
      · rw [allocPhysServe_state k owner (not_or.mp bad).1 (not_or.mp bad).2]
        exact set ..
  | munmap caller va len =>
    refine SameMarks.idle ?_ fun _ _ => not_false
    rw [step]
    unfold State.munmapServe
    split
    · exact stays
    · dsimp only
      split_ifs
      all_goals exact stays
  | mprotect caller addr len prot k =>
    refine SameMarks.idle ?_ fun _ _ => not_false
    rw [step]
    unfold State.mprotectServe
    split
    · exact stays
    · dsimp only
      split_ifs
      all_goals exact stays
  | write caller x =>
    refine SameMarks.idle ?_ fun _ _ => not_false
    rw [step]
    rcases write_slots s caller x with same | ⟨cap,zero,-,same⟩
    · rw [same]
      exact stays
    · rw [same]
      exact ⟨rfl,fun _ => rfl⟩

theorem findDeviceUt_some {phys len : Addr} {u : BootUntyped} (found : findDeviceUt cfg.untypeds phys len =
    some (u,ut)) :
    cfg.untypeds[ut]? = some u ∧ u.isDevice = true ∧ u.paddr ≤ phys ∧
      phys + len ≤ u.paddr + (1#64 <<< u.sizeBits) := by
  have listed := List.mem_of_find?_eq_some found
  have test := List.find?_some found
  simp only [Bool.and_eq_true,decide_eq_true_eq] at test
  exact ⟨List.mem_zipIdx_iff_getElem?.mp listed,test.1.1,test.1.2,test.2⟩

theorem low_zero {x granule : Addr} (power : granule.toNat = 2 ^ bits) :
    x &&& (granule - 1) = 0 ↔ 2 ^ bits ∣ x.toNat := by
  have mask : (granule - 1).toNat = 2 ^ bits - 1 := by
    rw [BitVec.toNat_sub_of_le (by rw [BitVec.le_def,power]; exact Nat.two_pow_pos bits),power]
    rfl
  rw [Nat.dvd_iff_mod_eq_zero,← Align.toNat_and_mask x _ mask]
  exact ⟨fun zero => congrArg BitVec.toNat zero,fun zero => BitVec.eq_of_toNat_eq zero⟩

theorem roundUp_dvd {x granule : Addr} (power : granule.toNat = 2 ^ bits) :
    2 ^ bits ∣ (roundUp x granule).toNat := by
  have mask : (granule - 1).toNat = 2 ^ bits - 1 := by
    rw [BitVec.toNat_sub_of_le (by rw [BitVec.le_def,power]; exact Nat.two_pow_pos bits),power]
    rfl
  rw [roundUp,Align.toNat_and_not _ _ mask]
  exact Nat.dvd_mul_left ..

structure Carve.Planned (cfg : Config) (c : Carve) (u : BootUntyped) : Prop where
  listed : cfg.untypeds[c.ut]? = some u
  device : u.isDevice = true
  granule : c.granule.toNat = 2 ^ c.frameBits
  aligned : c.frameBits ≤ u.sizeBits → 2 ^ c.frameBits ∣ c.offset.toNat
  whole : 2 ^ c.frameBits ∣ c.rlen.toNat
  count : c.nframes = (c.rlen / c.granule).setWidth 32
  few : devmapMaxFrames.slt c.nframes = false

theorem carvePlan_planned {phys len : Addr} (boot : cfg.Aligned) (plan : s.carvePlan cfg phys len = some c)
    (even : phys &&& (page4k - 1) = 0) :
    ∃ u, c.Planned cfg u := by
  obtain ⟨u,found,-,-,offset,-,granule,rlen,count,few,-⟩ := carvePlan_some plan
  obtain ⟨listed,device,above,-⟩ := findDeviceUt_some found
  have sized := (boot u (List.mem_of_getElem? listed)).2
  have different : page4k ≠ megaPage := fun same => absurd (congrArg BitVec.toNat same) (by
    rw [page4k_toNat,megaPage_toNat]
    decide)
  have page := (low_zero page4k_toNat).mp even
  have apart : c.offset.toNat = phys.toNat - u.paddr.toNat := by rw [offset,BitVec.toNat_sub_of_le above]
  have power : c.granule.toNat = 2 ^ c.frameBits := by
    unfold Carve.frameBits
    rcases granuleOf_cases phys c.offset len with mega | small
    · rw [granule,mega,if_pos rfl,megaPage_toNat]
    · rw [granule,small,if_neg different,page4k_toNat]
  refine ⟨u,listed,device,power,fun inside => ?_,?_,count,few⟩
  · by_cases mega : c.granule = megaPage
    · rw [Carve.frameBits,if_pos mega]
      rw [granule] at mega
      unfold granuleOf at mega
      split at mega
      · rename_i large
        exact (low_zero megaPage_toNat).mp large.2.1
      · exact absurd mega different
    · rw [Carve.frameBits,if_neg mega] at inside ⊢
      rw [apart]
      exact Nat.dvd_sub page (Nat.dvd_trans (Nat.pow_dvd_pow 2 inside) sized)
  · rw [rlen]
    exact roundUp_dvd power

theorem Carve.Planned.count_le {u : BootUntyped} (planned : c.Planned cfg u) : c.count ≤ 64 := by
  have few := planned.few
  rw [BitVec.slt_eq_decide,decide_eq_false_iff_not,Int.not_lt] at few
  have most : devmapMaxFrames.toInt = 64 := rfl
  rw [most] at few
  unfold Carve.count
  omega

/-- The frames are what the length asks for exactly if these are not too many. -/
theorem Carve.Planned.count_iff {u : BootUntyped} (planned : c.Planned cfg u) :
    c.rlen / c.granule ≤ devmapMaxFrames.setWidth 64 ↔ c.count * 2 ^ c.frameBits = c.rlen.toNat := by
  have quotient : (c.rlen / c.granule).toNat = c.rlen.toNat / 2 ^ c.frameBits := by
    rw [BitVec.toNat_udiv,planned.granule]
  have most : (devmapMaxFrames.setWidth 64).toNat = 64 := rfl
  rw [BitVec.le_def,most]
  constructor
  · intro small
    have count : c.count = (c.rlen / c.granule).toNat := by
      have narrow : c.nframes.toNat = (c.rlen / c.granule).toNat := by
        rw [planned.count,BitVec.toNat_setWidth,Nat.mod_eq_of_lt (by omega)]
      have value := BitVec.toInt_eq_toNat_of_lt (x := c.nframes) (by omega)
      unfold Carve.count
      omega
    rw [count,quotient]
    exact Nat.div_mul_cancel planned.whole
  · intro same
    rw [quotient,← same,Nat.mul_div_cancel _ (Nat.two_pow_pos _)]
    exact planned.count_le

/-- Where all retypes of a carve succeed the kernel's watermark is behind its frames. -/
theorem Carve.Planned.watermark {u : BootUntyped} (planned : c.Planned cfg u)
    (size : (s.untyped c.ut).size = 2 ^ u.sizeBits)
    (fresh : Fresh (s.untyped c.ut)) (agreed : (s.hwmOf c.ut).toNat = (s.untyped c.ut).watermark)
    (ahead : ¬c.offset < s.hwmOf c.ut) (done : (c.run s k).2 = true) :
    ((c.run s k).1.untyped c.ut).watermark = c.offset.toNat + c.count * 2 ^ c.frameBits := by
  have loop : c.run s k = ((c.run s k).1,true) := Prod.ext rfl done
  obtain ⟨-,-,whole,-⟩ := retypes_untyped loop
  have made := whole rfl
  rw [Carve.objects,carveAll_append] at made
  obtain ⟨v,skipped,framed⟩ := Option.bind_eq_some_iff.mp made
  obtain ⟨-,fresh',size',-⟩ := carveAll_grows skipped fresh
  have there := skips_watermark (BitVec.not_lt.mp ahead) c.utBits agreed.symm fresh skipped
  cases count : c.count with
  | zero =>
    rw [count] at framed
    rw [← Option.some.inj framed,there]
    omega
  | succ n =>
    rw [← count]
    have inside : c.frameBits ≤ u.sizeBits := by
      rw [count,List.replicate_succ,carveAll_cons] at framed
      obtain ⟨w,first,-⟩ := Option.bind_eq_some_iff.mp framed
      unfold Untyped.retype at first
      split at first
      · rename_i fits
        rw [size',size] at fits
        exact (Nat.pow_le_pow_iff_right (by decide : 1 < 2)).mp (by omega)
      · cases first
    rw [frames_watermark (there ▸ planned.aligned inside) fresh' framed,there]

structure Metered (u : BootUntyped) (v : Untyped) : Prop where
  size : v.size = 2 ^ u.sizeBits
  fresh : Fresh v
  inside : v.watermark ≤ v.size

theorem Metered.carve {b : BootUntyped} (metered : Metered b u) (made : carveAll u sizes = some v) :
    Metered b v := by
  obtain ⟨-,fresh,size,grown⟩ := carveAll_grows made metered.fresh
  refine ⟨size.trans metered.size,fresh,?_⟩
  cases sizes with
  | nil =>
    obtain rfl := Option.some.inj made
    exact metered.inside
  | cons bits sizes => exact (grown (List.cons_ne_nil _ _)).2

theorem Carve.run_metered {b : BootUntyped} (metered : Metered b (s.untyped i)) :
    Metered b ((c.run s k).1.untyped i) := by
  obtain ⟨-,others,whole,part⟩ := retypes_untyped (Prod.ext rfl rfl : c.run s k = ((c.run s k).1,(c.run s k).2))
  rcases eq_or_ne i c.ut with rfl | other
  · cases done : (c.run s k).2 with
    | true => exact metered.carve (whole done)
    | false =>
      obtain ⟨less,-,made,-⟩ := part done
      exact metered.carve made
  · rw [others i other]
    exact metered

theorem Carve.run_refused (refused : ∃ bits ∈ (c.objects (s.hwmOf c.ut)).head?, s.retype c.ut c.paddr.toNat bits
    (k 0) = none) :
    c.run s k = (s,false) := by
  obtain ⟨bits,first,nothing⟩ := refused
  obtain ⟨rest,shape⟩ := List.head?_eq_some_iff.mp first
  rw [Carve.run,shape,State.retypes,nothing]

theorem Carve.Planned.agreed_iff {u : BootUntyped} (planned : c.Planned cfg u) (narrow : u.sizeBits < 64)
    (agreed : s.Agreed cfg)
    (metered : Metered u (s.untyped c.ut)) (ahead : ¬c.offset < s.hwmOf c.ut) (left : c.Leaves s k t) :
    t.Agreed cfg ↔ c.AllOrNone s k := by
  obtain ⟨hwm,others,whole,part⟩ := retypes_untyped (Prod.ext rfl rfl : c.run s k = ((c.run s k).1,(c.run s k).2))
  have own := agreed c.ut u planned.listed planned.device
  have reduce : t.Agreed cfg ↔ (t.hwmOf c.ut).toNat = (t.untyped c.ut).watermark := by
    refine ⟨fun all => all c.ut u planned.listed planned.device,fun here i b listed device => ?_⟩
    rcases eq_or_ne i c.ut with rfl | other
    · exact here
    · rw [left.1,left.2 i,if_neg (fun both => other both.2),others i other]
      exact agreed i b listed device
  rw [reduce,left.1,left.2 c.ut]
  by_cases refused : ∃ bits ∈ (c.objects (s.hwmOf c.ut)).head?, s.retype c.ut c.paddr.toNat bits (k 0) = none
  · rw [Carve.run_refused refused,if_neg (fun both => by cases both.1)]
    exact ⟨fun _ => .inl refused,fun _ => own⟩
  · cases done : (c.run s k).2 with
    | false =>
      obtain ⟨less,front,made,only⟩ := part done
      rw [if_neg (fun both => by cases both.1),own]
      have grew : (s.untyped c.ut).watermark < ((c.run s k).1.untyped c.ut).watermark := by
        refine ((carveAll_grows made metered.fresh).2.2.2 ?_).1
        cases shape : c.objects (s.hwmOf c.ut) with
        | nil =>
          rw [Carve.run,shape,State.retypes] at done
          cases done
        | cons bits rest =>
          refine only bits (by rw [shape]; rfl) fun nothing => refused ⟨bits,by rw [shape]; rfl,nothing⟩
      refine ⟨fun same => absurd same (Nat.ne_of_lt grew),fun all => ?_⟩
      rcases all with first | ⟨ended,-⟩
      · exact absurd first refused
      · rw [done] at ended
        cases ended
    | true =>
      have there := planned.watermark metered.size metered.fresh own ahead done
      have inside := (Carve.run_metered (k := k) (c := c) metered).inside
      have size := (Carve.run_metered (k := k) (c := c) metered).size
      have small : 2 ^ u.sizeBits < 2 ^ 64 := Nat.pow_lt_pow_right (by decide) narrow
      rw [size,there] at inside
      have range := c.rlen.isLt
      have frames : c.count * 2 ^ c.frameBits < 2 ^ 64 := by omega
      rw [if_pos ⟨rfl,rfl⟩,there,BitVec.toNat_add]
      constructor
      · intro same
        refine .inr ⟨done,planned.count_iff.mpr ?_⟩
        omega
      · intro all
        have few := planned.count_iff.mp (all.resolve_left refused).2
        omega

def State.Metered (cfg : Config) (s : State) : Prop :=
  ∀ i u, cfg.untypeds[i]? = some u → Mem.Metered u (s.untyped i)

theorem step_metered (metered : s.Metered cfg) (e : Event) : (step cfg s e).Metered cfg := by
  intro i u listed
  rcases step_marks cfg s e with ⟨c,k,-,untyped,-⟩ | ⟨-,untyped,-⟩
  · rw [untyped]
    exact Carve.run_metered (metered i u listed)
  · rw [untyped]
    exact metered i u listed

theorem step_agreed_iff (boot : cfg.Aligned) (metered : s.Metered cfg) (agreed : s.Agreed cfg) (e : Event) :
    (step cfg s e).Agreed cfg ↔ Uncut cfg s e := by
  rcases step_marks cfg s e with ⟨c,k,carving,left⟩ | ⟨nothing,untyped,marks⟩
  · have planned : (∃ u, c.Planned cfg u) ∧ ¬c.offset < s.hwmOf c.ut := by
      cases e with
      | mmap caller len flags phys kernel =>
        obtain ⟨-,-,-,-,even,-,plan,-,ahead⟩ := carving
        exact ⟨carvePlan_planned boot plan even,ahead⟩
      | _ => exact carving.elim
    obtain ⟨⟨u,planned⟩,ahead⟩ := planned
    have narrow := (boot u (List.mem_of_getElem? planned.listed)).1
    rw [planned.agreed_iff narrow agreed (metered _ u planned.listed) ahead left]
    refine ⟨fun all c' k' other => ?_,fun uncut => uncut c k carving⟩
    obtain ⟨rfl,rfl⟩ := carving.unique other
    exact all
  · refine ⟨fun _ c k carving => absurd carving (nothing c k),fun _ i u listed device => ?_⟩
    rw [marks,untyped]
    exact agreed i u listed device

theorem Start.in_step (initial : Start cfg s) : s.Metered cfg ∧ s.Agreed cfg := by
  refine ⟨fun i u listed => ?_,fun i u listed _ => ?_⟩
  · rw [initial.untouched i u listed]
    exact ⟨rfl,fun _ => rfl,Nat.zero_le _⟩
  · rw [initial.untouched i u listed,State.hwmOf,initial.marks]
    rfl

/-- As long as no carve breaks off half way or is cut short, the marks are the kernel's watermarks; the
first that does puts them apart. -/
theorem run_marks_agree (boot : cfg.Aligned) (initial : Start cfg s)
    (run : Lts.Run (fun s e => some (step cfg s e)) (Uncut cfg) s es t) :
    t.Agreed cfg ∧ ∀ e, (step cfg t e).Agreed cfg ↔ Uncut cfg t e := by
  obtain ⟨metered,agreed⟩ := run.invariant (fun s => s.Metered cfg ∧ s.Agreed cfg) (fun s e t both uncut taken => by
      obtain rfl := Option.some.inj taken
      exact ⟨step_metered both.1 e,(step_agreed_iff boot both.1 both.2 e).mpr uncut⟩) initial.in_step
  exact ⟨agreed,step_agreed_iff boot metered agreed⟩

/-- A board with 64 KiB of device memory. -/
def boardConfig : Config := { smallConfig with untypeds := [⟨true,0x10000000,16⟩] }

def board : State := { oneProcess with untyped := fun _ => ⟨2 ^ 16,0,0⟩ }

def boardKernel : Kernel := ⟨fun _ => ⟨true,0,true⟩,fun i => ⟨i + 5,true⟩,fun _ => ⟨true,9,true,true⟩,none⟩

/-- The second frame of the device is asked for, with one throwaway child in front of it. -/
def boardRequest : Event := .mmap 1 0x1000 2 0x10001000 boardKernel

theorem board_procs {pid : Pid} (there : board.procs pid = some p) : p = idleProc := by
  unfold board oneProcess at there
  dsimp only at there
  split at there
  · exact (Option.some.inj there).symm
  · cases there

theorem board_start : Start boardConfig board := by
  refine Start.bare (fun pid p there => ?_) rfl rfl fun i u listed => ?_
  · obtain rfl := board_procs there
    exact ⟨rfl,rfl,rfl,rfl,rfl⟩
  · cases i with
    | zero =>
      obtain rfl := Option.some.inj listed
      rfl
    | succ i => cases listed

theorem boardRequest_agreed : (step boardConfig board boardRequest).Agreed boardConfig := by
  have marks : ((step boardConfig board boardRequest).hwmOf 0).toNat =
    ((step boardConfig board boardRequest).untyped 0).watermark := by
    decide +kernel
  intro i u listed _
  cases i with
  | zero => exact marks
  | succ i => cases listed

theorem boardConfig_aligned : boardConfig.Aligned := by
  intro u listed
  obtain rfl := List.mem_singleton.mp listed
  exact ⟨by decide,by decide⟩

theorem run_marks_agree_board : (step boardConfig board boardRequest).Agreed boardConfig ∧
    ∀ e, (step boardConfig (step boardConfig board boardRequest) e).Agreed boardConfig ↔
      Uncut boardConfig (step boardConfig board boardRequest) e := by
  obtain ⟨metered,agreed⟩ := board_start.in_step
  have uncut := (step_agreed_iff boardConfig_aligned metered agreed boardRequest).mp boardRequest_agreed
  exact run_marks_agree boardConfig_aligned board_start (.cons uncut rfl .nil)

end Qsoe.Mem
