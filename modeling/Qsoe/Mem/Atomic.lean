import Qsoe.Mem.Machine

/-! When a failed request for anonymous memory leaves the process as it was. The loop keeps what
its earlier pages did, so only a request that is refused at its first page, before a frame or a
mapping has changed hands, does. -/
namespace Qsoe.Mem

variable {cfg : Config} {slots filled : Slots} {p q : Proc}

/-- The first page is not to be had, and asking for it takes no frame off the recycle list. -/
def Proc.RefusesFirst (cfg : Config) (slots : Slots) (p : Proc) (k : PageKernel) : Prop :=
  match p.mmapFree with
  | _ :: _ => k.zeroed = false
  | [] => newSlot slots k.slot (.ram true) = none ∨
    pageMap cfg p (roundUp p.mmapTop megaPage) megaPage k.slot rightsAll k.mapped = none

theorem refusesFirst_cons (parked : p.mmapFree = frame :: rest) :
    p.RefusesFirst cfg slots k ↔ k.zeroed = false := by
  simp [Proc.RefusesFirst,parked]

theorem refusesFirst_nil (empty : p.mmapFree = []) :
    p.RefusesFirst cfg slots k ↔ newSlot slots k.slot (.ram true) = none ∨
      pageMap cfg p (roundUp p.mmapTop megaPage) megaPage k.slot rightsAll k.mapped = none := by
  simp [Proc.RefusesFirst,empty]

/-- What `Page_Map` changes of a process. -/
theorem pageMap_some (there : pageMap cfg p va size cap rights granted = some q) :
    q = { p with pages := pageOf cfg va size cap rights :: p.pages } ∧ Mapping.Clear p.pages va.toNat size.toNat ∧
      va.toNat + size.toNat ≤ cfg.userTop := by
  unfold pageMap at there
  split at there
  · rename_i able
    exact ⟨(Option.some.inj there).symm,able.2.2,able.2.1⟩
  · cases there

theorem takeFrame_some (taking : takeFrame slots p k = some (filled,q,frame)) :
    (∃ rest, p.mmapFree = frame :: rest ∧ k.zeroed = true ∧ filled = zeroFrame slots frame ∧
      q = { p with mmapFree := rest }) ∨
    (p.mmapFree = [] ∧ newSlot slots k.slot (.ram true) = some filled ∧ q = p ∧ frame = k.slot) := by
  unfold takeFrame at taking
  split at taking
  · rename_i recycled rest parked
    split at taking
    · rename_i zeroed
      obtain ⟨rfl,rfl,rfl⟩ : zeroFrame slots recycled = filled ∧ _ = q ∧ recycled = frame := by simpa using taking
      exact .inl ⟨rest,parked,zeroed,rfl,rfl⟩
    · cases taking
  · rename_i empty
    obtain ⟨full,fresh,same⟩ := Option.map_eq_some_iff.mp taking
    obtain ⟨rfl,rfl,rfl⟩ : full = filled ∧ p = q ∧ k.slot = frame := by simpa using same
    exact .inr ⟨empty,fresh,rfl,rfl⟩

theorem takeFrame_mmap (taking : takeFrame slots p k = some (filled,q,frame)) :
    q.mmap = p.mmap ∧ q.pages = p.pages ∧ q.mmapTop = p.mmapTop ∧ q.devframes = p.devframes := by
  rcases takeFrame_some taking with ⟨rest,-,-,-,rfl⟩ | ⟨-,-,rfl,-⟩ <;> exact ⟨rfl,rfl,rfl,rfl⟩

theorem takeFrame_none (refused : takeFrame slots p k = none) : p.RefusesFirst cfg slots k := by
  unfold takeFrame at refused
  split at refused
  · rename_i parked
    split at refused
    · cases refused
    · rename_i dirty
      exact (refusesFirst_cons parked).mpr (by simpa using dirty)
  · rename_i empty
    exact (refusesFirst_nil empty).mpr (.inl (Option.map_eq_none_iff.mp refused))

theorem placePage_ok (placed : placePage cfg slots p va k = ((filled,q),true)) :
    q.mmap.length = p.mmap.length + 1 := by
  unfold placePage at placed
  split at placed
  · cases (Prod.mk.inj placed).2
  · rename_i taking
    obtain ⟨same,-⟩ := takeFrame_mmap taking
    split at placed
    · cases (Prod.mk.inj placed).2
    · rename_i mapping
      obtain ⟨rfl,-,-⟩ := pageMap_some mapping
      split at placed
      · cases (Prod.mk.inj placed).2
      · obtain ⟨-,rfl⟩ := Prod.mk.inj (Prod.mk.inj placed).1
        simp [same]

theorem placePage_failed (failed : placePage cfg slots p (roundUp p.mmapTop megaPage) k = ((filled,q),false)) :
    q = p ↔ p.RefusesFirst cfg slots k := by
  unfold placePage at failed
  split at failed
  · rename_i refused
    obtain ⟨-,rfl⟩ := Prod.mk.inj (Prod.mk.inj failed).1
    exact ⟨fun _ => takeFrame_none refused,fun _ => rfl⟩
  · rename_i full taken frame taking
    split at failed
    · -- the kernel does not map the frame: a recycled one is lost
      rename_i unmapped
      obtain ⟨-,rfl⟩ := Prod.mk.inj (Prod.mk.inj failed).1
      rcases takeFrame_some taking with ⟨rest,parked,zeroed,-,rfl⟩ | ⟨empty,-,rfl,rfl⟩
      · have shorter : rest ≠ p.mmapFree := by simp [parked]
        simp only [refusesFirst_cons parked,zeroed,reduceCtorEq,iff_false]
        exact fun same => shorter (congrArg Proc.mmapFree same)
      · simp [refusesFirst_nil empty,unmapped]
    · rename_i there mapping
      obtain ⟨same,-,-⟩ := pageMap_some mapping
      have before := (takeFrame_mmap taking).2.1
      split at failed
      · -- the tracker is full, and the page stays mapped
        obtain ⟨-,rfl⟩ := Prod.mk.inj (Prod.mk.inj failed).1
        have changed : there ≠ p := by
          intro equal
          have longer := congrArg (fun r => r.pages.length) (same.symm.trans equal)
          simp [before] at longer
        have granted : ¬ p.RefusesFirst cfg slots k := by
          rcases takeFrame_some taking with ⟨rest,parked,zeroed,-,-⟩ | ⟨empty,fresh,rfl,rfl⟩
          · simp [refusesFirst_cons parked,zeroed]
          · simp [refusesFirst_nil empty,fresh,mapping]
        exact ⟨fun equal => absurd equal changed,fun refused => absurd refused granted⟩
      · cases (Prod.mk.inj failed).2

theorem placePage_granted (placed : placePage cfg slots p (roundUp p.mmapTop megaPage) k = ((filled,q),true)) :
    ¬ p.RefusesFirst cfg slots k := by
  unfold placePage at placed
  split at placed
  · cases (Prod.mk.inj placed).2
  · rename_i taking
    split at placed
    · cases (Prod.mk.inj placed).2
    · rename_i mapping
      rcases takeFrame_some taking with ⟨rest,parked,zeroed,-,-⟩ | ⟨empty,fresh,rfl,rfl⟩
      · simp [refusesFirst_cons parked,zeroed]
      · simp [refusesFirst_nil empty,fresh,mapping]

theorem placePage_length (placed : placePage cfg slots p va k = ((filled,q),done)) :
    p.mmap.length ≤ q.mmap.length := by
  cases done with
  | true =>
    rw [placePage_ok placed]
    exact Nat.le_succ _
  | false =>
    unfold placePage at placed
    split at placed
    · obtain ⟨-,rfl⟩ := Prod.mk.inj (Prod.mk.inj placed).1
      exact le_rfl
    · rename_i taking
      obtain ⟨same,-⟩ := takeFrame_mmap taking
      split at placed
      · obtain ⟨-,rfl⟩ := Prod.mk.inj (Prod.mk.inj placed).1
        rw [same]
      · rename_i mapping
        obtain ⟨rfl,-,-⟩ := pageMap_some mapping
        split at placed
        · obtain ⟨-,rfl⟩ := Prod.mk.inj (Prod.mk.inj placed).1
          simp [same]
        · cases (Prod.mk.inj placed).2

theorem placePages_length (placed : placePages cfg base k n i slots p = ((filled,q),done)) :
    p.mmap.length ≤ q.mmap.length := by
  induction n generalizing i slots p with
  | zero =>
    obtain ⟨-,rfl⟩ := Prod.mk.inj (Prod.mk.inj placed).1
    exact le_rfl
  | succ n ih =>
    rw [placePages] at placed
    split at placed
    · rename_i stopping
      obtain ⟨same,-⟩ := Prod.mk.inj placed
      rw [same] at stopping
      exact placePage_length stopping
    · rename_i placing
      exact (placePage_length placing).trans (ih placed)

theorem placePages_failed (failed : placePages cfg (roundUp p.mmapTop megaPage) k n 0 slots p =
    ((filled,q),false)) :
    q = p ↔ p.RefusesFirst cfg slots (k 0) := by
  cases n with
  | zero => cases (Prod.mk.inj failed).2
  | succ n =>
    have here : roundUp p.mmapTop megaPage + BitVec.ofNat 64 0 * megaPage = roundUp p.mmapTop megaPage := by
      simp
    rw [placePages,here] at failed
    split at failed
    · rename_i stopping
      obtain ⟨same,-⟩ := Prod.mk.inj failed
      rw [same] at stopping
      exact placePage_failed stopping
    · rename_i placing
      have longer := placePages_length failed
      have first := placePage_ok placing
      have granted := placePage_granted placing
      refine ⟨?_,fun refused => absurd refused granted⟩
      rintro rfl
      omega

theorem mmapPages_stopped (loop : placePages cfg base k (pagesIn bytes) 0 slots p = (stopped,false)) :
    mmapPages cfg slots p base bytes k = (stopped,.error .enomem) := by
  rw [mmapPages,loop]

theorem mmapPages_placed (loop : placePages cfg base k (pagesIn bytes) 0 slots p = ((filled,q),true)) :
    mmapPages cfg slots p base bytes k = ((filled,q.setTop (base + bytes)),.ok base) := by
  rw [mmapPages,loop]

theorem mmapPages_failed (failed : (mmapPages cfg slots p (roundUp p.mmapTop megaPage) bytes k).2 = .error e) :
    (mmapPages cfg slots p (roundUp p.mmapTop megaPage) bytes k).1.2 = p ↔ p.RefusesFirst cfg slots (k 0) := by
  cases loop : placePages cfg (roundUp p.mmapTop megaPage) k (pagesIn bytes) 0 slots p with
  | mk there placed =>
    obtain ⟨full,q⟩ := there
    cases placed with
    | false =>
      rw [mmapPages_stopped loop]
      exact placePages_failed loop
    | true =>
      rw [mmapPages_placed loop] at failed
      cases failed

theorem placePages_first (placed : placePages cfg (roundUp p.mmapTop megaPage) k (n + 1) 0 slots p =
    ((filled,q),true)) :
    p.mmap.length < q.mmap.length ∧ ¬ p.RefusesFirst cfg slots (k 0) := by
  have here : roundUp p.mmapTop megaPage + BitVec.ofNat 64 0 * megaPage = roundUp p.mmapTop megaPage := by
    simp
  rw [placePages,here] at placed
  split at placed
  · cases (Prod.mk.inj placed).2
  · rename_i first
    have longer := placePages_length placed
    have one := placePage_ok first
    exact ⟨by omega,placePage_granted first⟩

theorem mmapPages_ok (done : (mmapPages cfg slots p (roundUp p.mmapTop megaPage) bytes k).2 = .ok base)
    (pages : pagesIn bytes = n + 1) :
    p.mmap.length < (mmapPages cfg slots p (roundUp p.mmapTop megaPage) bytes k).1.2.mmap.length ∧
      ¬ p.RefusesFirst cfg slots (k 0) := by
  cases loop : placePages cfg (roundUp p.mmapTop megaPage) k (pagesIn bytes) 0 slots p with
  | mk there placed =>
    obtain ⟨full,q⟩ := there
    cases placed with
    | false =>
      rw [mmapPages_stopped loop] at done
      cases done
    | true =>
      rw [mmapPages_placed loop]
      simp only [Proc.setTop_mmap]
      rw [pages] at loop
      exact placePages_first loop

theorem mmapAnonymous_failed (failed : (mmapAnonymous cfg slots p len k).2 = .error e) :
    (mmapAnonymous cfg slots p len k).1.2 = p ↔ p.RefusesFirst cfg slots (k 0) := by
  rw [mmapAnonymous] at failed ⊢
  exact mmapPages_failed failed

theorem pagesIn_one (nonempty : len ≠ 0) (fits : len ≤ megaPage) : pagesIn (roundUp len megaPage) = 0 + 1 := by
  have positive : len.toNat ≠ 0 := fun nothing => nonempty (BitVec.eq_of_toNat_eq nothing)
  have bound : len.toNat ≤ megaPage.toNat := fits
  rw [megaPage_toNat] at bound
  rw [pagesIn_eq,roundUp_mega len (by omega)]
  omega

theorem mmapAnonymous_ok (done : (mmapAnonymous cfg slots p len k).2 = .ok base) (nonempty : len ≠ 0)
    (fits : len ≤ megaPage) :
    p.mmap.length < (mmapAnonymous cfg slots p len k).1.2.mmap.length ∧ ¬ p.RefusesFirst cfg slots (k 0) := by
  rw [mmapAnonymous] at done ⊢
  exact mmapPages_ok done (pagesIn_one nonempty fits)

variable {s : State} {caller : Pid} {len flags phys : Addr} {k : Kernel}

/-- The request is turned down before the loop has taken anything. -/
def State.TurnedDown (cfg : Config) (s : State) (caller : Pid) (k : Kernel) : Prop :=
  ∃ p, s.procs caller = some p ∧ p.RefusesFirst cfg s.slots (k.page 0)

theorem setProc_procs (s : State) (caller : Pid) (slots : Slots) (q : Proc) :
    (s.setProc caller slots q).procs caller = some q := Function.update_self ..

-- a pair is projected by rewriting: comparing its parts would evaluate the loop
theorem fst_of_eq {pair : α × β} (same : pair = (a,b)) : pair.1 = a := by rw [same]

theorem snd_of_eq {pair : α × β} (same : pair = (a,b)) : pair.2 = b := by rw [same]

theorem mmapServe_empty (owner : s.procs caller = some p) (empty : len = 0) :
    s.mmapServe cfg caller len flags phys k = (s,.error .einval) := by
  simp only [State.mmapServe,owner,if_pos empty]

theorem mmapServe_anonymous (phys : Addr) (k : Kernel) (owner : s.procs caller = some p) (nonempty : len ≠ 0)
    (anonymous : flags &&& cfg.flagPhys = 0) :
    s.mmapServe cfg caller len flags phys k =
      (s.setProc caller (mmapAnonymous cfg s.slots p len k.page).1.1 (mmapAnonymous cfg s.slots p len k.page).1.2,
        (mmapAnonymous cfg s.slots p len k.page).2) := by
  have off : ¬ flags &&& cfg.flagPhys ≠ 0 := not_not.mpr anonymous
  simp only [State.mmapServe,owner,if_neg nonempty,if_neg off]

theorem mmapServe_atomic (s : State) (caller : Pid) (len flags phys : Addr) (k : Kernel)
    (anonymous : flags &&& cfg.flagPhys = 0) (failed : (s.mmapServe cfg caller len flags phys k).2 = .error e) :
    (s.mmapServe cfg caller len flags phys k).1.procs caller = s.procs caller ↔
      s.procs caller = none ∨ len = 0 ∨ s.TurnedDown cfg caller k := by
  unfold State.TurnedDown
  cases owner : s.procs caller with
  | none => simp [State.mmapServe,owner]
  | some p =>
    by_cases empty : len = 0
    · rw [mmapServe_empty owner empty,owner]
      simp only [empty,true_or,or_true]
    · have served := mmapServe_anonymous phys k owner empty anonymous
      rw [snd_of_eq served] at failed
      rw [fst_of_eq served,setProc_procs]
      simp only [Option.some.injEq,mmapAnonymous_failed failed,reduceCtorEq,empty,false_or,exists_eq_left']

theorem allocPhysServe_procs (owner : s.procs caller = some p) (nonempty : len ≠ 0) (fits : ¬ megaPage < len) :
    (s.allocPhysServe cfg caller len k).1.procs caller = some (mmapAnonymous cfg s.slots p len k.page).1.2 := by
  simp only [State.allocPhysServe,owner,if_neg (not_or.mpr ⟨nonempty,fits⟩)]
  split
  · exact setProc_procs ..
  · split
    · exact setProc_procs ..
    · split <;> exact setProc_procs ..

theorem allocPhysServe_bad (owner : s.procs caller = some p) (bad : len = 0 ∨ megaPage < len) :
    s.allocPhysServe cfg caller len k = (s,.error .einval) := by
  simp only [State.allocPhysServe,owner,if_pos bad]

theorem allocPhysServe_atomic (s : State) (caller : Pid) (len : Addr) (k : Kernel) :
    (s.allocPhysServe cfg caller len k).1.procs caller = s.procs caller ↔
      s.procs caller = none ∨ len = 0 ∨ megaPage < len ∨ s.TurnedDown cfg caller k := by
  unfold State.TurnedDown
  cases owner : s.procs caller with
  | none => simp [State.allocPhysServe,owner]
  | some p =>
    by_cases bad : len = 0 ∨ megaPage < len
    · rw [allocPhysServe_bad owner bad]
      exact ⟨fun _ => .inr (or_assoc.mp (.inl bad)),fun _ => owner⟩
    · obtain ⟨nonempty,fits⟩ := not_or.mp bad
      rw [allocPhysServe_procs owner nonempty fits]
      simp only [Option.some.injEq,reduceCtorEq,nonempty,fits,false_or,exists_eq_left']
      cases result : (mmapAnonymous cfg s.slots p len k.page).2 with
      | error e' => exact mmapAnonymous_failed result
      | ok base =>
        -- only the address is missing: the page has been tracked
        obtain ⟨longer,granted⟩ := mmapAnonymous_ok result nonempty (BitVec.not_lt.mp fits)
        refine ⟨fun same => ?_,fun refused => absurd refused granted⟩
        rw [same] at longer
        exact absurd longer (Nat.lt_irrefl _)

/-- A failed request for memory leaves the process as it was exactly if its arguments were bad or
its first page was refused. -/
theorem failed_mmap_atomic (s : State) (caller : Pid) (len flags phys : Addr) (k : Kernel)
    (anonymous : flags &&& cfg.flagPhys = 0) :
    (∀ e, (s.mmapServe cfg caller len flags phys k).2 = .error e →
      ((s.mmapServe cfg caller len flags phys k).1.procs caller = s.procs caller ↔
        s.procs caller = none ∨ len = 0 ∨ s.TurnedDown cfg caller k)) ∧
    (∀ e, (s.allocPhysServe cfg caller len k).2 = .error e →
      ((s.allocPhysServe cfg caller len k).1.procs caller = s.procs caller ↔
        s.procs caller = none ∨ len = 0 ∨ megaPage < len ∨ s.TurnedDown cfg caller k)) :=
  ⟨fun _ failed => mmapServe_atomic s caller len flags phys k anonymous failed,
    fun _ _ => allocPhysServe_atomic s caller len k⟩

def idleProc : Proc := ⟨mmapBase,[],[],[],[],[]⟩

/-- The kernel maps nothing that is only writable. -/
def smallConfig : Config := ⟨64,2,2 ^ 38,[],by decide,fun r => if r.read then r else ⟨false,false,r.exec⟩,
    fun _ => rfl⟩

def oneProcess : State :=
  ⟨fun pid => if pid = 1 then some idleProc else none,fun _ => none,fun _ => none,[],fun _ => ⟨0,0,0⟩⟩

/-- The first page is granted, the second gets no slot. -/
def oneSlot : Kernel := ⟨fun i => ⟨true,if i = 0 then 7 else 0,true⟩,fun _ => ⟨0,true⟩,fun _ =>
    ⟨true,0,true,true⟩,none⟩

/-- 4 MiB are asked for and refused, and a page stays. -/
theorem failed_mmap_keeps_page :
    (oneProcess.mmapServe smallConfig 1 0x400000 0 0 oneSlot).2 = .error .enomem ∧
      ((oneProcess.mmapServe smallConfig 1 0x400000 0 0 oneSlot).1.procs 1).map (·.mmap) = some [(mmapBase,7)] ∧
      (oneProcess.procs 1).map (·.mmap) = some [] := by
  decide +kernel

theorem failed_mmap_atomic_small :
    (∀ e, (oneProcess.mmapServe smallConfig 1 0x400000 0 0 oneSlot).2 = .error e →
      ((oneProcess.mmapServe smallConfig 1 0x400000 0 0 oneSlot).1.procs 1 = oneProcess.procs 1 ↔
        oneProcess.procs 1 = none ∨ (0x400000 : Addr) = 0 ∨ oneProcess.TurnedDown smallConfig 1 oneSlot)) ∧
    (∀ e, (oneProcess.allocPhysServe smallConfig 1 0x400000 oneSlot).2 = .error e →
      ((oneProcess.allocPhysServe smallConfig 1 0x400000 oneSlot).1.procs 1 = oneProcess.procs 1 ↔
        oneProcess.procs 1 = none ∨ (0x400000 : Addr) = 0 ∨ megaPage < 0x400000 ∨
          oneProcess.TurnedDown smallConfig 1 oneSlot)) :=
  failed_mmap_atomic oneProcess 1 0x400000 0 0 oneSlot (by decide)

end Qsoe.Mem
