import Qsoe.Mem.History

/-! What a successful request for anonymous memory delivers: zero frames of its own behind every page
of the range, and nothing that was mapped before in it. -/
namespace Qsoe.Mem

variable {cfg : Config} {slots filled : Slots} {p q : Proc} {s : State} {caller : Pid} {len flags phys base : Addr}

/-- The range of a process that has gone from `p` to `q` holds zero pages, and nothing of `p` is in it. -/
structure Delivered (cfg : Config) (p : Proc) (slots : Slots) (q : Proc) (base len : Addr) : Prop where
  inside : base.toNat + len.toNat ≤ 2 ^ 64
  pages : ∀ i, i * 2 ^ 21 < base.toNat + len.toNat → base.toNat < (i + 1) * 2 ^ 21 →
    ∃ frame, Placed cfg slots q (BitVec.ofNat 64 (i * 2 ^ 21)) frame
  distinct : ∀ va va' frame, Placed cfg slots q va frame → Placed cfg slots q va' frame → va = va'
  unmapped : ∀ page ∈ p.pages, ∀ x, page.Contains x → base.toNat ≤ x → ¬x < base.toNat + len.toNat
  untracked : ∀ e ∈ p.mmap, e.1.toNat + 2 ^ 21 ≤ base.toNat ∨ base.toNat + len.toNat ≤ e.1.toNat

/-- The request of `caller` has taken `s` to `t`. -/
def State.Delivers (cfg : Config) (s t : State) (caller : Pid) (base len : Addr) : Prop :=
  ∃ p q, s.procs caller = some p ∧ t.procs caller = some q ∧ Delivered cfg p t.slots q base len

theorem mmapAnonymous_some {k : Nat → PageKernel} (done : (mmapAnonymous cfg slots p len k).2 = .ok base) :
    ∃ filled q, placePages cfg base k (pagesIn (roundUp len megaPage)) 0 slots p = ((filled,q),true) ∧
      base = roundUp p.mmapTop megaPage ∧ (mmapAnonymous cfg slots p len k).1 =
        (filled,q.setTop (base + roundUp len megaPage)) := by
  rw [mmapAnonymous] at done ⊢
  cases loop : placePages cfg (roundUp p.mmapTop megaPage) k (pagesIn (roundUp len megaPage)) 0 slots p with
  | mk there placed =>
    obtain ⟨filled,q⟩ := there
    cases placed with
    | false =>
      rw [mmapPages_stopped loop] at done
      cases done
    | true =>
      rw [mmapPages_placed loop] at done ⊢
      obtain rfl := Except.ok.inj done
      exact ⟨filled,q,loop,rfl,rfl⟩

theorem page_toNat {top : Nat} (low : top ≤ 2 ^ 63)
    (fits : ∀ j < n, (base + BitVec.ofNat 64 j * megaPage).toNat + 2 ^ 21 ≤ top) (less : j < n) :
    (base + BitVec.ofNat 64 j * megaPage).toNat = base.toNat + j * 2 ^ 21 := by
  induction j with
  | zero => simp
  | succ j ih =>
    have before := ih (Nat.lt_of_succ_lt less)
    have room := fits j (Nat.lt_of_succ_lt less)
    rw [before] at room
    have next : base + BitVec.ofNat 64 (j + 1) * megaPage = base + BitVec.ofNat 64 j * megaPage + megaPage := by
      rw [BitVec.ofNat_add,BitVec.add_mul,BitVec.add_assoc,BitVec.one_mul]
    rw [next,BitVec.toNat_add,before,megaPage_toNat,Nat.mod_eq_of_lt (by omega)]
    omega

theorem pagesIn_roundUp (nonempty : len ≠ 0) (room : len.toNat + (2 ^ 21 - 1) < 2 ^ 64) :
    0 < pagesIn (roundUp len megaPage) ∧ len.toNat ≤ pagesIn (roundUp len megaPage) * 2 ^ 21 ∧
      (pagesIn (roundUp len megaPage) - 1) * 2 ^ 21 < len.toNat := by
  have positive : len.toNat ≠ 0 := fun nothing => nonempty (BitVec.eq_of_toNat_eq nothing)
  rw [pagesIn_eq,roundUp_mega len room]
  omega

theorem pagesIn_wraps (wraps : ¬len.toNat + (2 ^ 21 - 1) < 2 ^ 64) : pagesIn (roundUp len megaPage) = 0 := by
  rw [pagesIn_eq,roundUp,Align.roundUp_wraps len megaPage megaPage_toNat wraps,Nat.zero_div]

theorem page_index {base len i n : Nat} (aligned : 2 ^ 21 ∣ base) (fits : len ≤ n * 2 ^ 21)
    (low : i * 2 ^ 21 < base + len) (high : base < (i + 1) * 2 ^ 21) : ∃ j < n, i * 2 ^ 21 = base + j * 2 ^ 21 := by
  obtain ⟨b,rfl⟩ := aligned
  exact ⟨i - b,by omega,by omega⟩

theorem placePages_delivers {k : Nat → PageKernel} (sound : p.Sound cfg slots)
    (loop : placePages cfg base k n 0 slots p = ((filled,q),true)) (aligned : 2 ^ 21 ∣ base.toNat) (top : Addr)
    (positive : 0 < n) (fits : len.toNat ≤ n * 2 ^ 21) :
    Delivered cfg p filled (q.setTop top) base len := by
  obtain ⟨⟨last,-⟩,ended⟩ := placePages_keeps loop sound aligned
  obtain ⟨-,each⟩ := ended rfl
  simp only [Nat.zero_add] at each
  have at_page := fun j less => page_toNat cfg.userTop_le (fun j less => (each j less).2.2) (n := n) (j := j) less
  have room : base.toNat + n * 2 ^ 21 ≤ 2 ^ 63 := by
    have high := (each (n - 1) (by omega)).2.2
    rw [at_page (n - 1) (by omega)] at high
    have bound := cfg.userTop_le
    omega
  -- the space of each page was clear, so no page that was there holds an address of the range
  have clear : ∀ page ∈ p.pages, ∀ x, page.Contains x → base.toNat ≤ x → ¬x < base.toNat + len.toNat := by
    intro page member x ⟨start,stop⟩ low high
    have less : (x - base.toNat) / 2 ^ 21 < n := by omega
    have apart := (each _ less).2.1 page member
    rw [at_page _ less] at apart
    omega
  have set := fun va frame (there : Placed cfg filled (q.setTop top) va frame) => q.setTop_pages top ▸ there.page
  refine ⟨by omega,fun i low high => ?_,fun va va' frame one two => ?_,clear,fun e member => ?_⟩
  · obtain ⟨j,less,same⟩ := page_index aligned fits low high
    obtain ⟨⟨frame,there⟩,-⟩ := each j less
    refine ⟨frame,?_⟩
    rw [same,← at_page j less,BitVec.ofNat_toNat,BitVec.setWidth_eq]
    exact ⟨q.setTop_mmap top ▸ there.tracked,q.setTop_pages top ▸ there.page,there.zero⟩
  · have page := last.spaced.once _ (set va frame one) _ (set va' frame two) frame rfl rfl
    exact BitVec.eq_of_toNat_eq (congrArg Mapping.start page)
  · obtain ⟨page,⟨b,even⟩⟩ := sound.tracked e member
    obtain ⟨a,start⟩ := aligned
    have outside := clear _ page
    unfold Mapping.Contains Mapping.stop megaPageAt pageOf at outside
    dsimp only at outside
    rw [megaPage_toNat] at outside
    by_contra meets
    obtain ⟨low,high⟩ := not_or.mp meets
    exact outside (max base.toNat e.1.toNat) ⟨by omega,by omega⟩ (by omega) (by omega)

theorem not_delivered (same : q.mmap = p.mmap) (aligned : 2 ^ 21 ∣ base.toNat) (nonempty : len ≠ 0) :
    ¬Delivered cfg p slots q base len := by
  intro delivered
  have positive : len.toNat ≠ 0 := fun nothing => nonempty (BitVec.eq_of_toNat_eq nothing)
  obtain ⟨i,first⟩ := aligned
  obtain ⟨frame,there⟩ := delivered.pages i (by omega) (by omega)
  have apart := delivered.untracked _ (same ▸ there.tracked)
  have bound : base.toNat < 2 ^ 64 := base.isLt
  rw [BitVec.toNat_ofNat,Nat.mod_eq_of_lt (by omega)] at apart
  omega

theorem anonymous_served {k : Kernel} (owner : s.procs caller = some p) (nonempty : len ≠ 0)
    (anonymous : flags &&& cfg.flagPhys = 0) (done : (s.mmapServe cfg caller len flags phys k).2 = .ok base) :
    ∃ filled q, placePages cfg base k.page (pagesIn (roundUp len megaPage)) 0 s.slots p = ((filled,q),true) ∧
      2 ^ 21 ∣ base.toNat ∧ (s.Delivers cfg (s.mmapServe cfg caller len flags phys k).1 caller base len ↔
        Delivered cfg p filled (q.setTop (base + roundUp len megaPage)) base len) := by
  have served := mmapServe_anonymous phys k owner nonempty anonymous
  rw [snd_of_eq served] at done
  rw [fst_of_eq served]
  obtain ⟨filled,q,loop,start,result⟩ := mmapAnonymous_some done
  refine ⟨filled,q,loop,start ▸ roundUp_aligned p.mmapTop,?_⟩
  rw [result]
  unfold State.Delivers
  rw [setProc_procs,owner]
  refine ⟨?_,fun delivered => ⟨p,_,rfl,rfl,delivered⟩⟩
  rintro ⟨p',q',before,after,delivered⟩
  obtain rfl := Option.some.inj before
  obtain rfl := Option.some.inj after
  exact delivered

theorem anonymous_wraps {k : Kernel} (owner : s.procs caller = some p) (nonempty : len ≠ 0)
    (anonymous : flags &&& cfg.flagPhys = 0)
    (done : (s.mmapServe cfg caller len flags phys k).2 = .ok base) (wraps : ¬len.toNat + (2 ^ 21 - 1) < 2 ^ 64) :
    ¬s.Delivers cfg (s.mmapServe cfg caller len flags phys k).1 caller base len := by
  obtain ⟨filled,q,loop,aligned,same⟩ := anonymous_served owner nonempty anonymous done
  rw [pagesIn_wraps wraps] at loop
  obtain ⟨-,rfl⟩ := Prod.mk.inj (Prod.mk.inj loop).1
  rw [same]
  exact not_delivered (p.setTop_mmap _) aligned nonempty

/-- An anonymous request that succeeds delivers its range exactly if its length can be rounded up. -/
theorem anonymous_delivers {k : Kernel} (reached : Reachable cfg s) (nonempty : len ≠ 0)
    (anonymous : flags &&& cfg.flagPhys = 0) (done : (s.mmapServe cfg caller len flags phys k).2 = .ok base) :
    s.Delivers cfg (s.mmapServe cfg caller len flags phys k).1 caller base len ↔
      len.toNat + (2 ^ 21 - 1) < 2 ^ 64 := by
  cases owner : s.procs caller with
  | none =>
    simp only [State.mmapServe,owner] at done
    cases done
  | some p =>
    constructor
    · intro delivers
      by_contra wraps
      exact anonymous_wraps owner nonempty anonymous done wraps delivers
    · intro room
      obtain ⟨filled,q,loop,aligned,same⟩ := anonymous_served owner nonempty anonymous done
      obtain ⟨more,fits,-⟩ := pagesIn_roundUp nonempty room
      exact same.mpr (placePages_delivers (reached.sound.procs caller p owner) loop aligned _ more fits)

/-- A length of all ones is rounded to nothing, and the request succeeds with nothing mapped. -/
theorem anonymous_delivers_nothing :
    Reachable smallConfig oneProcess ∧
      (oneProcess.mmapServe smallConfig 1 0xffffffffffffffff 0 0 oneSlot).2 = .ok mmapBase ∧
      ¬oneProcess.Delivers smallConfig (oneProcess.mmapServe smallConfig 1 0xffffffffffffffff 0 0 oneSlot).1
        1 mmapBase
        0xffffffffffffffff := by
  have done : (oneProcess.mmapServe smallConfig 1 0xffffffffffffffff 0 0 oneSlot).2 =
    .ok mmapBase := by decide +kernel
  have owner : oneProcess.procs 1 = some idleProc := rfl
  exact ⟨oneProcess_start.reachable,done,anonymous_wraps owner (by decide) (by decide) done (by decide)⟩

theorem anonymous_delivers_page :
    oneProcess.Delivers smallConfig (oneProcess.mmapServe smallConfig 1 1 0 0 oneSlot).1 1 mmapBase 1 ↔
      (1 : Addr).toNat + (2 ^ 21 - 1) < 2 ^ 64 :=
  anonymous_delivers oneProcess_start.reachable (by decide) (by decide) (by decide +kernel)

end Qsoe.Mem
