import Qsoe.Mem.Holdings

/-! The memory of all processes over whole histories of requests and writes: every state that comes
about is sound. -/
namespace Qsoe.Mem

variable {cfg : Config} {slots : Slots} {p q : Proc} {s t : State} {caller : Pid}

theorem mmapPhys_refused (p : Proc) (phys len : Addr) (k : Kernel)
    (found : s.region cfg phys (roundUp len page4k) k.retype = (t,none)) (aligned : phys &&& (page4k - 1) = 0) :
    s.mmapPhys cfg caller p phys len k = (t,.error .enomem) := by
  have even : ¬phys &&& (page4k - 1) ≠ 0 := not_not.mpr aligned
  simp only [State.mmapPhys,if_neg even,found]

theorem mmapPhys_mapped (p : Proc) (phys len : Addr) (k : Kernel)
    (found : s.region cfg phys (roundUp len page4k) k.retype = (t,some d)) (aligned : phys &&& (page4k - 1) = 0) :
    s.mmapPhys cfg caller p phys len k =
      (t.setProc caller (devmapMapInto cfg t.slots p d phys (roundUp len page4k) k.dev).1.1
          (devmapMapInto cfg t.slots p d phys (roundUp len page4k) k.dev).1.2,
        (devmapMapInto cfg t.slots p d phys (roundUp len page4k) k.dev).2) := by
  have even : ¬phys &&& (page4k - 1) ≠ 0 := not_not.mpr aligned
  simp only [State.mmapPhys,if_neg even,found]

theorem mmapPhys_uneven (p : Proc) (len : Addr) (k : Kernel) (uneven : phys &&& (page4k - 1) ≠ 0) :
    s.mmapPhys cfg caller p phys len k = (s,.error .einval) := by
  simp only [State.mmapPhys,if_pos uneven]

theorem mmapPhys_sound (sound : s.Sound cfg) (owner : s.procs caller = some p) (phys len : Addr) (k : Kernel) :
    (s.mmapPhys cfg caller p phys len k).1.Sound cfg := by
  by_cases uneven : phys &&& (page4k - 1) ≠ 0
  · rw [mmapPhys_uneven p len k uneven]
    exact sound
  · have aligned := not_not.mp uneven
    cases found : s.region cfg phys (roundUp len page4k) k.retype with
    | mk t answer =>
      obtain ⟨base,procs,granule⟩ := region_sound sound found
      cases answer with
      | none =>
        rw [mmapPhys_refused p phys len k found aligned]
        exact base
      | some d =>
        rw [mmapPhys_mapped p phys len k found aligned]
        have sized := granule_positive (granule d rfl)
        exact base.setProc (procs ▸ owner) (devmapMapInto_keeps cfg t.slots p d phys _ k.dev sized)

theorem mmapServe_phys (len : Addr) (k : Kernel) (owner : s.procs caller = some p) (nonempty : len ≠ 0)
    (device : flags &&& cfg.flagPhys ≠ 0) :
    s.mmapServe cfg caller len flags phys k = s.mmapPhys cfg caller p phys len k := by
  simp only [State.mmapServe,owner,if_neg nonempty,if_pos device]

theorem mmapServe_sound (sound : s.Sound cfg) (caller : Pid) (len flags phys : Addr) (k : Kernel) :
    (s.mmapServe cfg caller len flags phys k).1.Sound cfg := by
  cases owner : s.procs caller with
  | none =>
    simp only [State.mmapServe,owner]
    exact sound
  | some p =>
    by_cases empty : len = 0
    · rw [mmapServe_empty owner empty]
      exact sound
    · by_cases device : flags &&& cfg.flagPhys ≠ 0
      · rw [mmapServe_phys len k owner empty device]
        exact mmapPhys_sound sound owner phys len k
      · rw [mmapServe_anonymous phys k owner empty (not_not.mp device)]
        exact sound.setProc owner (mmapAnonymous_keeps cfg s.slots p len k.page)

theorem allocPhysServe_state (k : Kernel) (owner : s.procs caller = some p) (nonempty : len ≠ 0)
    (fits : ¬megaPage < len) :
    (s.allocPhysServe cfg caller len k).1 =
      s.setProc caller (mmapAnonymous cfg s.slots p len k.page).1.1
        (mmapAnonymous cfg s.slots p len k.page).1.2 := by
  simp only [State.allocPhysServe,owner,if_neg (not_or.mpr ⟨nonempty,fits⟩)]
  split
  · rfl
  · split
    · rfl
    · split <;> rfl

theorem allocPhysServe_sound (sound : s.Sound cfg) (caller : Pid) (len : Addr) (k : Kernel) :
    (s.allocPhysServe cfg caller len k).1.Sound cfg := by
  cases owner : s.procs caller with
  | none =>
    simp only [State.allocPhysServe,owner]
    exact sound
  | some p =>
    by_cases bad : len = 0 ∨ megaPage < len
    · rw [allocPhysServe_bad owner bad]
      exact sound
    · obtain ⟨nonempty,fits⟩ := not_or.mp bad
      rw [allocPhysServe_state k owner nonempty fits]
      exact sound.setProc owner (mmapAnonymous_keeps cfg s.slots p len k.page)

theorem munmapServe_device (owner : s.procs caller = some p) (nonempty : len ≠ 0)
    (hit : (munmapDevframes s.slots p va len).2 ≠ []) :
    s.munmapServe caller va len =
      (s.setProc caller (munmapDevframes s.slots p va len).1.1 (munmapDevframes s.slots p va len).1.2,.ok ()) := by
  simp only [State.munmapServe,owner,if_neg nonempty,if_pos hit]

theorem munmapServe_bad (owner : s.procs caller = some p)
    (bad : len = 0 ∨ (munmapDevframes s.slots p va len).2 = [] ∧
      (va &&& (megaPage - 1) ≠ 0 ∨ allTracked p va (pagesIn (roundUp len megaPage)) 0 = false)) :
    s.munmapServe caller va len = (s,.error .einval) := by
  simp only [State.munmapServe,owner]
  by_cases empty : len = 0
  · rw [if_pos empty]
  · rw [if_neg empty]
    obtain ⟨nothing,why⟩ := bad.resolve_left empty
    rw [if_neg (not_not.mpr nothing)]
    by_cases uneven : va &&& (megaPage - 1) ≠ 0
    · rw [if_pos uneven]
    · rw [if_neg uneven,if_pos (why.resolve_left uneven)]

def rewound (p : Proc) (va bytes : Addr) : Addr := if va + bytes = p.mmapTop then va else p.mmapTop

theorem munmapServe_anonymous (owner : s.procs caller = some p) (nonempty : len ≠ 0)
    (nothing : (munmapDevframes s.slots p va len).2 = []) (aligned : va &&& (megaPage - 1) = 0)
    (tracked : allTracked p va (pagesIn (roundUp len megaPage)) 0 = true) :
    s.munmapServe caller va len =
      (s.setProc caller (dropPages va (pagesIn (roundUp len megaPage)) 0 s.slots p).1
        ((dropPages va (pagesIn (roundUp len megaPage)) 0 s.slots p).2.setTop (rewound p va (roundUp len megaPage))),
        .ok ()) := by
  have even : ¬va &&& (megaPage - 1) ≠ 0 := not_not.mpr aligned
  have all : ¬allTracked p va (pagesIn (roundUp len megaPage)) 0 = false := by
    simp [tracked]
  simp only [State.munmapServe,owner,if_neg nonempty,if_neg (not_not.mpr nothing),if_neg even,if_neg all]
  rfl

theorem munmapServe_sound (sound : s.Sound cfg) (caller : Pid) (va len : Addr) :
    (s.munmapServe caller va len).1.Sound cfg := by
  cases owner : s.procs caller with
  | none =>
    simp only [State.munmapServe,owner]
    exact sound
  | some p =>
    by_cases bad : len = 0 ∨ (munmapDevframes s.slots p va len).2 = [] ∧
        (va &&& (megaPage - 1) ≠ 0 ∨ allTracked p va (pagesIn (roundUp len megaPage)) 0 = false)
    · rw [munmapServe_bad owner bad]
      exact sound
    · obtain ⟨nonempty,rest⟩ := not_or.mp bad
      by_cases hit : (munmapDevframes s.slots p va len).2 = []
      · obtain ⟨aligned,tracked⟩ := not_or.mp fun why => rest ⟨hit,why⟩
        rw [munmapServe_anonymous owner nonempty hit (not_not.mp aligned) (Bool.not_eq_false _ ▸ tracked)]
        have dropped : Keeps cfg s.slots p (dropPages va (pagesIn (roundUp len megaPage)) 0 s.slots p).1
            (dropPages va (pagesIn (roundUp len megaPage)) 0 s.slots p).2 := fun own =>
              (dropPages_spec own va _ 0).1
        exact sound.setProc owner (dropped.setTop _)
      · rw [munmapServe_device owner nonempty hit]
        exact sound.setProc owner (munmapDevframes_keeps s.slots p va len)

theorem mprotectServe_bad (owner : s.procs caller = some p) (bad : len = 0 ∨ addr &&& (page4k - 1) ≠ 0) :
    s.mprotectServe cfg caller addr len prot k = (s,.error .einval) := by
  simp only [State.mprotectServe,owner]
  by_cases empty : len = 0
  · rw [if_pos empty]
  · rw [if_neg empty,if_pos (bad.resolve_left empty)]

theorem mprotectServe_pages (prot : Addr) (k : Nat → Bool) (owner : s.procs caller = some p) (nonempty : len ≠ 0)
    (aligned : addr &&& (page4k - 1) = 0) :
    s.mprotectServe cfg caller addr len prot k =
      (s.setProc caller s.slots (protectPages cfg addr prot k (protectTurns addr len) 0 p).1,
        (protectPages cfg addr prot k (protectTurns addr len) 0 p).2) := by
  have even : ¬addr &&& (page4k - 1) ≠ 0 := not_not.mpr aligned
  simp only [State.mprotectServe,owner,if_neg nonempty,if_neg even]

theorem mprotectServe_sound (sound : s.Sound cfg) (caller : Pid) (addr len prot : Addr) (k : Nat → Bool) :
    (s.mprotectServe cfg caller addr len prot k).1.Sound cfg := by
  cases owner : s.procs caller with
  | none =>
    simp only [State.mprotectServe,owner]
    exact sound
  | some p =>
    by_cases bad : len = 0 ∨ addr &&& (page4k - 1) ≠ 0
    · rw [mprotectServe_bad owner bad]
      exact sound
    · obtain ⟨nonempty,aligned⟩ := not_or.mp bad
      rw [mprotectServe_pages prot k owner nonempty (not_not.mp aligned)]
      cases loop : protectPages cfg addr prot k (protectTurns addr len) 0 p with
      | mk q answer => exact sound.setProc owner (protectPages_keeps loop)

/-- A process writes at an address of its own: the frame there may no longer be zero. -/
def State.write (s : State) (caller : Pid) (x : Nat) : State :=
  match (s.procs caller).bind fun p => p.pages.find? fun q =>
    q.start ≤ x && x < q.stop && q.target.rights.write with
  | none => s
  | some q =>
    match q.target.cap with
    | none => s
    | some cap =>
      match s.slots cap with
      | some (.ram _) => { s with slots := Function.update s.slots cap (some (.ram false)) }
      | _ => s

theorem write_slots (s : State) (caller : Pid) (x : Nat) :
    s.write caller x = s ∨ ∃ cap zero, s.slots cap = some (.ram zero) ∧
      s.write caller x = { s with slots := Function.update s.slots cap (some (.ram false)) } := by
  unfold State.write
  split
  · exact .inl rfl
  · split
    · exact .inl rfl
    · rename_i cap _
      split
      · rename_i zero frame
        exact .inr ⟨cap,zero,frame,rfl⟩
      · exact .inl rfl

theorem write_sound (sound : s.Sound cfg) (caller : Pid) (x : Nat) : (s.write caller x).Sound cfg := by
  rcases write_slots s caller x with same | ⟨cap,zero,frame,same⟩
  · rw [same]
    exact sound
  · rw [same]
    have stays : ∀ c, s.slots c ≠ none → Function.update s.slots cap (some (.ram false)) c ≠ none := by
      intro c used
      rcases eq_or_ne c cap with rfl | other
      · rw [Function.update_self]
        simp
      · rw [Function.update_of_ne other]
        exact used
    refine ⟨fun pid p there => ?_,sound.apart,sound.shared,fun c known => stays c (sound.kept c known),
      sound.granules⟩
    have old := sound.procs pid p there
    exact ⟨old.spaced,fun c holds => stays c (old.occupied c holds),old.parked,old.tracked,old.devices,
      old.relro,old.distinct⟩

/-- What the processes ask for and do. -/
inductive Event where
  | mmap (caller : Pid) (len flags phys : Addr) (k : Kernel)
  | allocPhys (caller : Pid) (len : Addr) (k : Kernel)
  | munmap (caller : Pid) (va len : Addr)
  | mprotect (caller : Pid) (addr len prot : Addr) (k : Nat → Bool)
  | write (caller : Pid) (x : Nat)

def step (cfg : Config) (s : State) : Event → State
  | .mmap caller len flags phys k => (s.mmapServe cfg caller len flags phys k).1
  | .allocPhys caller len k => (s.allocPhysServe cfg caller len k).1
  | .munmap caller va len => (s.munmapServe caller va len).1
  | .mprotect caller addr len prot k => (s.mprotectServe cfg caller addr len prot k).1
  | .write caller x => s.write caller x

/-- The processes as they are spawned, with nothing mapped by request, and untouched untypeds. -/
structure Start (cfg : Config) (s : State) : Prop extends State.Sound cfg s where
  idle : ∀ pid p, s.procs pid = some p → p.mmap = [] ∧ p.mmapFree = [] ∧ p.devframes = []
  regions : s.devmaps = fun _ => none
  marks : s.hwm = []
  untouched : ∀ i u, cfg.untypeds[i]? = some u → s.untyped i = ⟨2 ^ u.sizeBits,0,0⟩

/-- The state comes about by requests and writes. -/
def Reachable (cfg : Config) (s : State) : Prop :=
  ∃ start es, Start cfg start ∧ Lts.Run (fun s e => some (step cfg s e)) (fun _ _ => True) start es s

theorem step_sound (sound : s.Sound cfg) (e : Event) : (step cfg s e).Sound cfg := by
  cases e with
  | mmap caller len flags phys k => exact mmapServe_sound sound caller len flags phys k
  | allocPhys caller len k => exact allocPhysServe_sound sound caller len k
  | munmap caller va len => exact munmapServe_sound sound caller va len
  | mprotect caller addr len prot k => exact mprotectServe_sound sound caller addr len prot k
  | write caller x => exact write_sound sound caller x

theorem Reachable.sound (reached : Reachable cfg s) : s.Sound cfg := by
  obtain ⟨start,es,initial,run⟩ := reached
  refine run.invariant (State.Sound cfg) (fun s e t sound _ taken => ?_) initial.toSound
  obtain rfl := Option.some.inj taken
  exact step_sound sound e

/-- Processes without any memory and untouched untypeds are a start. -/
theorem Start.bare (bare : ∀ pid p, s.procs pid = some p →
      p.pages = [] ∧ p.mmap = [] ∧ p.mmapFree = [] ∧ p.devframes = [] ∧ p.mprot = [])
    (regions : s.devmaps = fun _ => none) (marks : s.hwm = [])
    (untouched : ∀ i u, cfg.untypeds[i]? = some u → s.untyped i = ⟨2 ^ u.sizeBits,0,0⟩) : Start cfg s := by
  have unheld : ∀ pid p, s.procs pid = some p → ∀ cap, ¬p.Holds cap := by
    rintro pid p there cap (⟨page,member,-⟩ | parked)
    · rw [(bare pid p there).1] at member
      cases member
    · rw [(bare pid p there).2.2.1] at parked
      cases parked
  have unregistered : ∀ cap, ¬s.Registered cap := by
    rintro cap ⟨i,d,there,-⟩
    rw [regions] at there
    cases there
  refine ⟨⟨fun pid p there => ?_,fun pid p _ _ there _ _ cap holds => absurd holds (unheld pid p there cap),
    fun _ _ _ cap known => absurd known (unregistered cap),fun cap known => absurd known (unregistered cap),
    fun i d there => ?_⟩,fun pid p there => ?_,regions,marks,untouched⟩
  · obtain ⟨pages,mmap,free,devframes,mprot⟩ := bare pid p there
    constructor
    · rw [pages]
      exact ⟨List.Pairwise.nil,fun _ member => absurd member List.not_mem_nil,fun _ member =>
        absurd member List.not_mem_nil⟩
    · exact fun cap holds => absurd holds (unheld pid p there cap)
    · rw [free]
      exact ⟨List.nodup_nil,fun _ member => absurd member List.not_mem_nil⟩
    · rw [mmap]
      exact fun _ member => absurd member List.not_mem_nil
    · rw [devframes]
      exact fun _ member => absurd member List.not_mem_nil
    · rw [mprot]
      exact fun _ member => absurd member List.not_mem_nil
    · unfold Proc.named
      rw [mmap,devframes,mprot]
      exact List.nodup_nil
  · rw [regions] at there
    cases there
  · obtain ⟨-,mmap,free,devframes,-⟩ := bare pid p there
    exact ⟨mmap,free,devframes⟩

theorem Start.reachable (initial : Start cfg s) : Reachable cfg s := ⟨s,[],initial,.nil⟩

theorem oneProcess_start : Start smallConfig oneProcess := by
  refine Start.bare (fun pid p there => ?_) rfl rfl fun i u listed => by cases listed
  obtain rfl : idleProc = p := by
    unfold oneProcess at there
    dsimp only at there
    split at there
    · exact Option.some.inj there
    · cases there
  exact ⟨rfl,rfl,rfl,rfl,rfl⟩

end Qsoe.Mem
