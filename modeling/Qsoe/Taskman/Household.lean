import Mathlib.Data.BitVec
import Mathlib.Data.List.OfFn
import Qsoe.Lib.Heirs
import Qsoe.Taskman.Lifecycle

/-! What a process has of its own and hands on to its children: credentials, umask and working
directory. The fields stand in records that are found by pid and taken over by later processes. Seen by
incarnation, a child starts with what its parent had at the spawn, and everyone changes what is its own.
`permitted` is `tm_cred_change_permitted`. -/
namespace Qsoe.Taskman

variable {cfg : Config}

/-- `struct _cred_info` without its groups. -/
structure Cred where
  ruid : BitVec 32
  euid : BitVec 32
  suid : BitVec 32
  rgid : BitVec 32
  egid : BitVec 32
  sgid : BitVec 32
  deriving DecidableEq, Repr

/-- `CRED_KEEP`. -/
def credKeep : BitVec 32 := 0xFFFFFFFF

def chosen (asked old : BitVec 32) : BitVec 32 := if asked ≠ credKeep then asked else old

/-- The assignments of `tm_set_cred`. -/
def Cred.change (c asked : Cred) : Cred where
  ruid := chosen asked.ruid c.ruid
  euid := chosen asked.euid c.euid
  suid := chosen asked.suid c.suid
  rgid := chosen asked.rgid c.rgid
  egid := chosen asked.egid c.egid
  sgid := chosen asked.sgid c.sgid

def lowHalf (w : Word) : BitVec 32 := (w &&& 0xFFFFFFFF).setWidth 32
def highHalf (w : Word) : BitVec 32 := (w >>> 32 &&& 0xFFFFFFFF).setWidth 32
def halves (lo hi : BitVec 32) : Word := lo.setWidth 64 ||| hi.setWidth 64 <<< 32

theorem lowHalf_toNat (w : Word) : (lowHalf w).toNat = w.toNat % 2 ^ 32 := by
  have mask : (0xFFFFFFFF : Word).toNat = 2 ^ 32 - 1 := by decide
  rw [lowHalf,BitVec.toNat_setWidth,BitVec.toNat_and,mask,Nat.and_two_pow_sub_one_eq_mod,Nat.mod_mod]

theorem highHalf_toNat (w : Word) : (highHalf w).toNat = w.toNat / 2 ^ 32 := by
  have less := w.isLt
  have mask : (0xFFFFFFFF : Word).toNat = 2 ^ 32 - 1 := by decide
  rw [highHalf,BitVec.toNat_setWidth,BitVec.toNat_and,mask,Nat.and_two_pow_sub_one_eq_mod,BitVec.toNat_ushiftRight,
    Nat.shiftRight_eq_div_pow]
  omega

theorem halves_toNat (lo hi : BitVec 32) : (halves lo hi).toNat = hi.toNat * 2 ^ 32 + lo.toNat := by
  have less := lo.isLt
  have less' := hi.isLt
  have shifted : hi.toNat * 2 ^ 32 % 2 ^ 64 = hi.toNat * 2 ^ 32 := by omega
  simp only [halves,BitVec.toNat_or,BitVec.toNat_shiftLeft,BitVec.toNat_setWidth]
  rw [Nat.mod_eq_of_lt (by omega : lo.toNat < 2 ^ 64),Nat.mod_eq_of_lt (by omega : hi.toNat < 2 ^ 64),
    Nat.shiftLeft_eq,shifted,Nat.or_comm,Nat.mul_comm,← Nat.two_pow_add_eq_or_of_lt less]

@[simp] theorem lowHalf_halves (lo hi : BitVec 32) : lowHalf (halves lo hi) = lo := by
  apply BitVec.eq_of_toNat_eq
  have less := lo.isLt
  rw [lowHalf_toNat,halves_toNat]
  omega

@[simp] theorem highHalf_halves (lo hi : BitVec 32) : highHalf (halves lo hi) = hi := by
  apply BitVec.eq_of_toNat_eq
  have less := lo.isLt
  rw [highHalf_toNat,halves_toNat]
  omega

/-- The six ids, two to a word: `TM_REQ_SET_CRED` and the reply of `TM_REQ_PROC_SELF_INFO`. -/
def Cred.ofWords (a b c : Word) : Cred := ⟨lowHalf a,highHalf a,lowHalf b,highHalf b,lowHalf c,highHalf c⟩

def Cred.words (c : Cred) : Word × Word × Word := (halves c.ruid c.euid,halves c.suid c.rgid,halves c.egid c.sgid)

/-- The size of `cwd` in a record. -/
def cwdSize : Nat := 256

def slashByte : BitVec 8 := 0x2f

/-- The array `cwd`, with a NUL in it. -/
structure Cwd where
  cells : Fin cwdSize → BitVec 8
  ended : ∃ i, cells i = 0

/-- What `tm_getcwd` sends: its loop ends at the first NUL. -/
def Cwd.path (d : Cwd) : List (BitVec 8) := (List.ofFn d.cells).takeWhile (· ≠ 0)

/-- `len` bytes and a NUL. -/
def Cwd.store (d : Cwd) (len : Nat) (fits : len < cwdSize) (text : Nat → BitVec 8) : Cwd where
  cells i := if i.val < len then text i else if i.val = len then 0 else d.cells i
  ended := ⟨⟨len,fits⟩,by simp⟩

/-- The first `len` bytes of a request, up to a NUL. -/
def textPath (len : Nat) (text : Nat → BitVec 8) : List (BitVec 8) := ((List.range len).map text).takeWhile (· ≠ 0)

theorem takeWhile_stop {p : α → Bool} (stops : p x = false) (xs rest : List α) :
    (xs ++ x :: rest).takeWhile p = xs.takeWhile p := by
  induction xs with
  | nil => rw [List.nil_append,List.takeWhile_cons_of_neg (by simp [stops]),List.takeWhile_nil]
  | cons y ys ih => rw [List.cons_append,List.takeWhile_cons,List.takeWhile_cons,ih]

theorem Cwd.store_cells (d : Cwd) (fits : len < cwdSize) (text : Nat → BitVec 8) :
    List.ofFn (d.store len fits text).cells = (List.range len).map text ++ 0 :: (List.ofFn d.cells).drop
      (len + 1) := by
  have front : ((List.range len).map text).length = len := by rw [List.length_map,List.length_range]
  apply List.ext_getElem
  · rw [List.length_ofFn,List.length_append,front,List.length_cons,List.length_drop,List.length_ofFn]
    omega
  · intro i here there
    rw [List.getElem_ofFn]
    rcases Nat.lt_trichotomy i len with before | same | behind
    · rw [List.getElem_append_left (by omega),List.getElem_map,List.getElem_range]
      exact if_pos before
    · rw [List.getElem_append_right (by omega)]
      have zero : i - ((List.range len).map text).length = 0 := by omega
      have whole : ¬ i < len := by omega
      simp only [zero,List.getElem_cons_zero]
      exact (if_neg whole).trans (if_pos same)
    · obtain ⟨k,rfl⟩ : ∃ k, i = len + 1 + k := ⟨i - (len + 1),by omega⟩
      have next : len + 1 + k - ((List.range len).map text).length = k + 1 := by omega
      have whole : ¬ len + 1 + k < len := by omega
      have past : len + 1 + k ≠ len := by omega
      rw [List.getElem_append_right (by omega)]
      simp only [next,List.getElem_cons_succ,List.getElem_drop,List.getElem_ofFn]
      exact (if_neg whole).trans (if_neg past)

theorem Cwd.store_path (d : Cwd) (fits : len < cwdSize) (text : Nat → BitVec 8) :
    (d.store len fits text).path = textPath len text := by
  rw [path,store_cells,textPath]
  exact takeWhile_stop (by simp) ..

structure Attributes where
  cred : Cred
  umask : BitVec 32
  cwd : Cwd

structure Traits where
  cred : Cred
  umask : BitVec 32
  path : List (BitVec 8)

def Attributes.traits (a : Attributes) : Traits := ⟨a.cred,a.umask,a.cwd.path⟩

def rootCred : Cred := ⟨0,0,0,0,0,0⟩

/-- What taskman has, and what `tm_process_register` gives: root, umask 022 and `/`. -/
def Traits.first : Traits := ⟨rootCred,0o22,[slashByte]⟩

/-- The bytes of `cwd` behind the NUL stay. -/
def Attributes.register (a : Attributes) : Attributes :=
    ⟨rootCred,0o22,a.cwd.store 1 (by decide) fun _ => slashByte⟩

theorem Attributes.register_traits (a : Attributes) : a.register.traits = .first := by
  have path : (a.cwd.store 1 (by decide) fun _ => slashByte).path = [slashByte] := Cwd.store_path ..
  rw [traits,register,path,Traits.first]

inductive TraitErrno where
  | esrch | eperm | einval | enametoolong
  deriving DecidableEq, Repr

/-- The requests that change the caller's own; `text` is the payload from word 1 on. -/
inductive Wish where
  | setCred (mr0 mr1 mr2 : Word)
  | umask (mr0 : Word)
  | chdir (mr0 : Word) (text : Nat → BitVec 8)

/-- A negative mask only asks. -/
def maskAfter (old set : BitVec 32) : BitVec 32 := if 0 ≤ set.toInt then set &&& 0o777 else old

section Policy

variable (permitted : Cred → Cred → Bool)

/-- `tm_set_cred`, `tm_umask` and `tm_chdir` on the record of the caller. -/
def Wish.serve (a : Attributes) : Wish → Except TraitErrno Attributes
  | .setCred mr0 mr1 mr2 =>
    if permitted a.cred (.ofWords mr0 mr1 mr2) then .ok { a with cred := a.cred.change (.ofWords mr0 mr1 mr2) }
    else .error .eperm
  | .umask mr0 => .ok { a with umask := maskAfter a.umask (mr0.setWidth 32) }
  | .chdir mr0 text =>
    let len := (mr0.setWidth 32).toNat
    if fits : len ≠ 0 ∧ len < cwdSize then
      if text 0 ≠ slashByte then .error .einval else .ok { a with cwd := a.cwd.store len fits.2 text }
    else .error .enametoolong

/-- What the requests are for. -/
def Wish.grant (t : Traits) : Wish → Except TraitErrno Traits
  | .setCred mr0 mr1 mr2 =>
    if permitted t.cred (.ofWords mr0 mr1 mr2) then .ok { t with cred := t.cred.change (.ofWords mr0 mr1 mr2) }
    else .error .eperm
  | .umask mr0 => .ok { t with umask := maskAfter t.umask (mr0.setWidth 32) }
  | .chdir mr0 text =>
    let len := (mr0.setWidth 32).toNat
    if len ≠ 0 ∧ len < cwdSize then
      if text 0 ≠ slashByte then .error .einval else .ok { t with path := textPath len text }
    else .error .enametoolong

theorem Wish.serve_traits (w : Wish) (a : Attributes) :
    (w.serve permitted a).map Attributes.traits = w.grant permitted a.traits := by
  cases w with
  | setCred mr0 mr1 mr2 =>
    simp only [serve,grant]
    by_cases allowed : permitted a.traits.cred (.ofWords mr0 mr1 mr2) = true
    · have here : permitted a.cred (.ofWords mr0 mr1 mr2) = true := allowed
      rw [if_pos allowed,if_pos here]
      simp only [Except.map,Attributes.traits]
    · have here : ¬ permitted a.cred (.ofWords mr0 mr1 mr2) = true := allowed
      rw [if_neg allowed,if_neg here]
      rfl
  | umask mr0 => simp only [serve,grant,Except.map,Attributes.traits]
  | chdir mr0 text =>
    simp only [serve,grant]
    by_cases fits : (mr0.setWidth 32).toNat ≠ 0 ∧ (mr0.setWidth 32).toNat < cwdSize
    · rw [dif_pos fits,if_pos fits]
      by_cases relative : text 0 ≠ slashByte
      · rw [if_pos relative,if_pos relative]
        rfl
      · rw [if_neg relative,if_neg relative,← Cwd.store_path a.cwd fits.2 text]
        rfl
    · rw [dif_neg fits,if_neg fits]
      rfl

end Policy

/-- `heirs` is history: the traits of every incarnation. -/
structure Household (cfg : Config) where
  life : Life cfg
  attributes : Fin maxProcesses → Attributes
  heirs : Heirs Traits

/-- `tm_process_set_parent`, which copies them when it finds the parent. -/
def setParent (reg : State cfg) (attributes : Fin maxProcesses → Attributes) (child parent : Pid) :
    Fin maxProcesses → Attributes :=
  match reg.processLookup child, reg.processLookup parent with
  | some (i,_), some (j,_) => Function.update attributes i (attributes j)
  | _, _ => attributes

namespace Household

/-- A record that is left by a spawn that fails keeps what it was registered with. -/
def spawn (h : Household cfg) (w : Fin maxProcesses) (parent : Pid) (k : SpawnKernel) : Household cfg :=
  let done := h.life.reg.processCreate parent k
  match Slab.free h.life.reg.processes with
  | none => { h with life := h.life.spawn w parent k }
  | some i =>
    if (done.1.processes i).isSome then
      let registered := Function.update h.attributes i (h.attributes i).register
      match done.2 with
      | .ok child => {
        life := h.life.spawn w parent k
        attributes := setParent done.1 registered child parent
        heirs := h.heirs.birth (h.life.born w) }
      | .error _ => { life := h.life.spawn w parent k, attributes := registered, heirs := h.heirs.birth 0 }
    else { h with life := h.life.spawn w parent k }

variable (permitted : Cred → Cred → Bool)

/-- The traits of the incarnation behind a record. -/
def own (h : Household cfg) (i : Fin maxProcesses) : Traits := h.heirs.value (h.life.born i)

def serve (h : Household cfg) (pid : Pid) (w : Wish) : Household cfg × Except TraitErrno Unit :=
  match h.life.reg.processLookup pid with
  | none => (h,.error .esrch)
  | some (i,_) =>
    match w.serve permitted (h.attributes i) with
    | .error e => (h,.error e)
    | .ok a => ({ h with
        attributes := Function.update h.attributes i a
        heirs := match w.grant permitted (h.own i) with
          | .ok t => h.heirs.change (h.life.born i) t
          | .error _ => h.heirs },.ok ())

/-- `TM_REQ_PROC_SELF_INFO` -/
def procSelfInfo (h : Household cfg) (pid : Pid) : Except TraitErrno (Word × Word × Word × Word) :=
  match h.life.reg.processLookup pid with
  | none => .error .esrch
  | some (i,p) => .ok (halves p.pid p.parent,(h.attributes i).cred.words)

/-- `TM_REQ_GETCWD` -/
def getcwd (h : Household cfg) (pid : Pid) : Except TraitErrno (List (BitVec 8)) :=
  match h.life.reg.processLookup pid with
  | none => .error .esrch
  | some (i,_) => .ok (h.attributes i).cwd.path

/-- The old mask in the reply of `TM_REQ_UMASK`. -/
def oldMask (h : Household cfg) (pid : Pid) : Except TraitErrno (BitVec 32) :=
  match h.life.reg.processLookup pid with
  | none => .error .esrch
  | some (i,_) => .ok (h.attributes i).umask

end Household

/-- `qsoe_proc_self_info` takes the reply apart. -/
def readSelfInfo (reply : Word × Word × Word × Word) : Pid × Pid × Cred :=
  (lowHalf reply.1,highHalf reply.1,.ofWords reply.2.1 reply.2.2.1 reply.2.2.2)

inductive HouseCall where
  | call (c : Call)
  | wish (pid : Pid) (w : Wish)

namespace Household

def step (permitted : Cred → Cred → Bool) (h : Household cfg) : HouseCall → Option (Household cfg)
  | .call (.spawn parent k) => (h.life.caller parent).map fun w => h.spawn w parent k
  | .call c => (h.life.step c).map fun l => { h with life := l }
  | .wish pid w => (h.life.caller pid).map fun _ => (h.serve permitted pid w).1

def anyCall (_ : Household cfg) (_ : HouseCall) : Prop := True

/-- `tm_init` gives taskman what `tm_process_register` gives init. -/
def start (s : State cfg) : Household cfg where
  life := .start s
  attributes _ := Attributes.register ⟨rootCred,0,⟨fun _ => 0,⟨⟨0,by decide⟩,rfl⟩⟩⟩
  heirs := ⟨fun _ => .first,fun _ => 0,maxProcesses⟩

end Household

namespace Family

variable {v v' : Family}

/-- A move that registers nobody leaves every record to its incarnation. -/
theorem Move.steady (move : v.Move a v') (still : v'.clock = v.clock) :
    v'.born = v.born ∧ ∀ i p', v'.people i = some p' → ∃ p, v.people i = some p ∧ p'.pid = p.pid := by
  cases move with
  | idle => exact ⟨rfl,fun i p' used => ⟨p',used,rfl⟩⟩
  | strand free ranged => exact absurd still (Nat.succ_ne_self _)
  | spawn called free ranged => exact absurd still (Nat.succ_ne_self _)
  | detach called live =>
    refine ⟨rfl,fun i p' used => ?_⟩
    rcases Slab.put_cases used with ⟨rfl,rfl⟩ | old
    · exact ⟨_,called.there,rfl⟩
    · exact ⟨p',old,rfl⟩
  | retire there live other end' =>
    refine ⟨rfl,fun i p' used => ?_⟩
    obtain ⟨apart,old⟩ := Slab.erase_some used
    exact ⟨p',old,rfl⟩
  | leave there live other alone attends =>
    refine ⟨rfl,fun i p' used => ?_⟩
    rcases Slab.put_cases used with ⟨rfl,rfl⟩ | old
    · exact ⟨_,there,rfl⟩
    · exact ⟨p',old,rfl⟩
  | reap called there mine dead =>
    refine ⟨rfl,fun i p' used => ?_⟩
    obtain ⟨apart,old⟩ := Slab.erase_some used
    exact ⟨p',old,rfl⟩
  | park called there mine live =>
    refine ⟨rfl,fun i p' used => ?_⟩
    rcases Slab.put_cases used with ⟨rfl,rfl⟩ | old
    · exact ⟨_,there,rfl⟩
    · exact ⟨p',old,rfl⟩

end Family

namespace Life

variable {l l' : Life cfg}

theorem step_clock (taken : l.step c = some l') (other : ∀ parent k, c ≠ .spawn parent k) : l'.clock = l.clock := by
  cases c with
  | spawn parent k => exact absurd rfl (other parent k)
  | detach pid status =>
    obtain ⟨w,-,rfl⟩ := Option.map_eq_some_iff.mp taken
    rfl
  | terminate target status =>
    simp only [step] at taken
    split at taken
    · rw [← Option.some.inj taken]
    · rw [← Option.some.inj taken]
  | waitpid waiter child parked =>
    obtain ⟨w,-,rfl⟩ := Option.map_eq_some_iff.mp taken
    unfold waitpid
    dsimp only
    split <;> rfl

end Life

namespace Household

variable {permitted : Cred → Cred → Bool} {h h' : Household cfg}

/-- The records and the individuals agree. Nobody but taskman is incarnation 0. -/
structure Sound (h : Household cfg) : Prop where
  life : h.life.Sound
  clock : h.heirs.clock = h.life.clock
  ordered : h.heirs.Ordered
  first : h.heirs.value 0 = .first
  taskman : ∀ i p, h.life.family.people i = some p → h.life.born i = 0 → p.pid = pidTaskman
  same : ∀ i p, h.life.family.people i = some p → (h.attributes i).traits = h.own i

theorem Sound.still (sound : h.Sound) (life : l.Sound) (clock : l.clock = h.life.clock)
    (born : l.born = h.life.born)
    (later : ∀ i p', l.family.people i = some p' → ∃ p, h.life.family.people i = some p ∧ p'.pid = p.pid) :
    ({ h with life := l } : Household cfg).Sound where
  life := life
  clock := sound.clock.trans clock.symm
  ordered := sound.ordered
  first := sound.first
  taskman i p' used zero := by
    obtain ⟨p,there,same⟩ := later i p' used
    rw [born] at zero
    exact same.trans (sound.taskman i p there zero)
  same i p' used := by
    obtain ⟨p,there,-⟩ := later i p' used
    rw [own,born]
    exact sound.same i p there

/-- A record is taken for somebody new, with the traits of its mother. -/
theorem Sound.registers (sound : h.Sound) (life : l.Sound) (free : h.life.family.people i = none)
    (people : l.family.people = Slab.put h.life.family.people i p) (clock : l.clock = h.life.clock + 1)
    (born : l.born = Function.update h.life.born i h.life.clock) (mother : m < h.life.clock)
    (given : a.traits = h.heirs.value m) :
    (⟨l,Function.update h.attributes i a,h.heirs.birth m⟩ : Household cfg).Sound := by
  have older : m < h.heirs.clock := by
    rw [sound.clock]
    exact mother
  have started := sound.life.kin.started
  have newborn : l.born i = h.heirs.clock := by
    rw [born,Function.update_self,sound.clock]
  have others : ∀ k ≠ i, l.born k = h.life.born k := fun k other => by rw [born,Function.update_of_ne other]
  have aged : ∀ k q, h.life.family.people k = some q → h.life.born k < h.heirs.clock := fun k q there => by
    rw [sound.clock]
    exact (sound.life.kin.clock k q there).1
  have apart : ∀ k q, h.life.family.people k = some q → k ≠ i := by
    rintro k q there rfl
    exact absurd there (by simp [free])
  refine ⟨life,?_,sound.ordered.birth older,?_,?_,?_⟩
  · exact (congrArg (· + 1) sound.clock).trans clock.symm
  · rw [Heirs.birth_old (by rw [sound.clock]; exact started)]
    exact sound.first
  · intro k q used zero
    dsimp only at used zero
    rw [people] at used
    rcases Slab.put_cases used with ⟨rfl,-⟩ | old
    · rw [newborn,sound.clock] at zero
      exact absurd zero (Nat.ne_of_gt started)
    · rw [others k (apart k q old)] at zero
      exact sound.taskman k q old zero
  · intro k q used
    dsimp only at used
    rw [people] at used
    rcases Slab.put_cases used with ⟨rfl,-⟩ | old
    · simp only [own]
      rw [Function.update_self,newborn,Heirs.birth_new]
      exact given
    · have other := apart k q old
      simp only [own]
      rw [Function.update_of_ne other,others k other,Heirs.birth_old (aged k q old)]
      exact sound.same k q old

/-- A spawn registers nobody, or a child of taskman's or the caller's. -/
theorem spawn_cases (wf : Roster.Wf h.life.reg.roster) (called : h.life.family.Caller w q) (k : SpawnKernel) :
    ((∃ e, (h.life.reg.processCreate q.pid k).2 = .error e) ∧ h.spawn w q.pid k =
      { h with life := h.life.spawn w q.pid k } ∧
      (h.life.spawn w q.pid k).born = h.life.born ∧ (h.life.spawn w q.pid k).clock = h.life.clock ∧
      (h.life.spawn w q.pid k).family.people = h.life.family.people) ∨
    ∃ i p a m, h.spawn w q.pid k = ⟨h.life.spawn w q.pid k,Function.update h.attributes i a,h.heirs.birth m⟩ ∧
      (h.life.spawn w q.pid k).born = Function.update h.life.born i h.life.clock ∧
      (h.life.spawn w q.pid k).clock = h.life.clock + 1 ∧ h.life.family.people i = none ∧
      (h.life.spawn w q.pid k).family.people = Slab.put h.life.family.people i p ∧
      (m = 0 ∧ a = (h.attributes i).register ∧ (∃ e, (h.life.reg.processCreate q.pid k).2 = .error e) ∨
        m = h.life.born w ∧ a = h.attributes w ∧ (h.life.reg.processCreate q.pid k).2 = .ok p.pid) := by
  have same : Slab.free h.life.reg.roster.people = Slab.free h.life.reg.processes := Slab.free_map ..
  have used : ∀ (s : State cfg) i, (s.processes i).isSome = (s.roster.people i).isSome := by
    simp [State.roster,Slab.map]
  have ending := h.life.reg.processCreate_roster q.pid k
  unfold spawn Life.spawn
  rw [← same]
  simp only [used]
  rcases ending.people wf with ⟨e,error,kept⟩ | ⟨pid,i,ranged,free,⟨⟨e,error⟩,added⟩ | ⟨done,added⟩⟩
  · left
    cases free : Slab.free h.life.reg.roster.people with
    | none => exact ⟨⟨e,error⟩,rfl,rfl,rfl,kept⟩
    | some i =>
      simp only [kept,Slab.free_some free,Option.isSome_none,Bool.false_eq_true,if_false]
      exact ⟨⟨e,error⟩,trivial,trivial,trivial,kept⟩
  · right
    simp only [free,added,Slab.put_same,Option.isSome_some,if_true,error]
    exact ⟨i,_,_,0,rfl,rfl,trivial,Slab.free_some free,added,.inl ⟨rfl,rfl,e,rfl⟩⟩
  · right
    have wf' := wf.spawns ending
    have empty := Slab.free_some free
    have apart : w ≠ i := by
      rintro rfl
      exact absurd called.there (by simp [Life.family,empty])
    obtain ⟨c,child,-⟩ := State.processLookup_of_roster (wf'.lookup (i := i) (p := ⟨pid,q.pid,.live,0,false⟩)
      (by simp [added]))
    obtain ⟨r,parent,-⟩ := State.processLookup_of_roster (wf'.lookup (i := w) (p := q) (by
      rw [added,Slab.put_other _ apart]
      exact called.there))
    simp only [free,added,Slab.put_same,Option.isSome_some,if_true,done,setParent,child,parent]
    refine ⟨i,_,h.attributes w,h.life.born w,?_,rfl,trivial,empty,added,.inr ⟨rfl,rfl,rfl⟩⟩
    rw [Function.update_of_ne apart,Function.update_idem]

theorem Sound.spawn (sound : h.Sound) (called : h.life.caller parent = some w) (k : SpawnKernel) :
    (h.spawn w parent k).Sound := by
  obtain ⟨q,able,rfl⟩ := Life.caller_spec called
  have life : (h.life.spawn w q.pid k).Sound :=
    Life.step_sound h.life (.spawn q.pid k) _ sound.life (by rw [Life.step,called,Option.map_some])
  rcases spawn_cases sound.life.pids able k with
    ⟨-,made,born,clock,people⟩ | ⟨i,p,a,m,made,born,clock,free,people,given⟩
  · rw [made]
    exact sound.still life clock born fun i p used => ⟨p,people ▸ used,rfl⟩
  · rw [made]
    have mother : m < h.life.clock ∧ a.traits = h.heirs.value m := by
      rcases given with ⟨rfl,rfl,-⟩ | ⟨rfl,rfl,-⟩
      · exact ⟨sound.life.kin.started,(Attributes.register_traits _).trans sound.first.symm⟩
      · exact ⟨(sound.life.kin.clock w q able.there).1,sound.same w q able.there⟩
    exact sound.registers life free people clock born mother.1 mother.2

theorem Sound.call (sound : h.Sound) (taken : h.life.step c = some l) (other : ∀ parent k, c ≠ .spawn parent k) :
    ({ h with life := l } : Household cfg).Sound := by
  obtain ⟨move,pids⟩ := Life.step_move sound.life.pids taken
  have clock := Life.step_clock taken other
  obtain ⟨born,later⟩ := move.steady clock
  exact sound.still (Life.step_sound h.life c l sound.life taken) clock born later

/-- The record a request acts on is the caller's own. -/
theorem caller_lookup (called : h.life.caller pid = some w) :
    ∃ p, h.life.reg.processLookup pid = some (w,p) ∧ h.life.family.Caller w p.person ∧ p.pid = pid := by
  obtain ⟨q,able,same⟩ := Life.caller_spec called
  unfold Life.caller at called
  split at called
  · cases called
  · rename_i i p found
    split at called
    · cases called
    · obtain rfl : i = w := Option.some.inj called
      have there := (Roster.lookup_some (State.lookup_roster_some found)).1
      obtain rfl : p.person = q := Option.some.inj (there.symm.trans able.there)
      exact ⟨p,found,able,same⟩

theorem Sound.caller (sound : h.Sound) (able : h.life.family.Caller w q) : h.life.born w ≠ 0 :=
  fun zero => able.process (sound.taskman w q able.there zero)

theorem Sound.put (sound : h.Sound) (able : h.life.family.Caller w q) (given : a.traits = t) :
    (⟨h.life,Function.update h.attributes w a,h.heirs.change (h.life.born w) t⟩ : Household cfg).Sound where
  life := sound.life
  clock := sound.clock
  ordered := sound.ordered
  first := by
    rw [Heirs.change_other (sound.caller able).symm]
    exact sound.first
  taskman := sound.taskman
  same i p used := by
    simp only [own]
    by_cases self : i = w
    · subst self
      rw [Function.update_self,Heirs.change_self]
      exact given
    · have apart : h.life.born i ≠ h.life.born w := fun same =>
        self (sound.life.kin.apart i w p q used able.there same)
      rw [Function.update_of_ne self,Heirs.change_other apart]
      exact sound.same i p used

/-- A request is granted or refused as its own traits have it. -/
theorem serve_cases (sound : h.Sound) (called : h.life.caller pid = some w) (r : Wish) :
    (∃ e, r.grant permitted (h.own w) = .error e ∧ h.serve permitted pid r = (h,.error e)) ∨
    ∃ a t, r.grant permitted (h.own w) = .ok t ∧ a.traits = t ∧
      h.serve permitted pid r = (⟨h.life,Function.update h.attributes w a,h.heirs.change (h.life.born w) t⟩,
        .ok ()) := by
  obtain ⟨p,found,able,-⟩ := caller_lookup called
  have agree := r.serve_traits permitted (h.attributes w)
  rw [sound.same w p.person able.there] at agree
  simp only [serve,found]
  cases served : r.serve permitted (h.attributes w) with
  | error e =>
    rw [served] at agree
    exact .inl ⟨e,agree.symm,rfl⟩
  | ok a =>
    rw [served] at agree
    refine .inr ⟨a,a.traits,agree.symm,rfl,?_⟩
    rw [← agree]
    rfl

/-- What a step does: a spawn, a call that registers nobody, or a request for the caller's own. -/
theorem step_cases (taken : h.step permitted c = some h') :
    (∃ parent w k, h.life.caller parent = some w ∧ h' = h.spawn w parent k) ∨
    (∃ c l, h.life.step c = some l ∧ (∀ parent k, c ≠ .spawn parent k) ∧ h' = { h with life := l }) ∨
    ∃ pid w r, h.life.caller pid = some w ∧ h' = (h.serve permitted pid r).1 := by
  cases c with
  | call c =>
    cases c with
    | spawn parent k =>
      obtain ⟨w,called,made⟩ := Option.map_eq_some_iff.mp taken
      exact .inl ⟨parent,w,k,called,made.symm⟩
    | detach pid status =>
      obtain ⟨l,done,made⟩ := Option.map_eq_some_iff.mp taken
      exact .inr (.inl ⟨_,l,done,by simp,made.symm⟩)
    | terminate target status =>
      obtain ⟨l,done,made⟩ := Option.map_eq_some_iff.mp taken
      exact .inr (.inl ⟨_,l,done,by simp,made.symm⟩)
    | waitpid waiter child parked =>
      obtain ⟨l,done,made⟩ := Option.map_eq_some_iff.mp taken
      exact .inr (.inl ⟨_,l,done,by simp,made.symm⟩)
  | wish pid r =>
    obtain ⟨w,called,made⟩ := Option.map_eq_some_iff.mp taken
    exact .inr (.inr ⟨pid,w,r,called,made.symm⟩)

theorem step_sound (h : Household cfg) (c : HouseCall) (h' : Household cfg) (sound : h.Sound)
    (taken : h.step permitted c = some h') : h'.Sound := by
  rcases step_cases taken with ⟨parent,w,k,called,rfl⟩ | ⟨c,l,done,other,rfl⟩ | ⟨pid,w,r,called,rfl⟩
  · exact sound.spawn called k
  · exact sound.call done other
  · obtain ⟨p,-,able,-⟩ := caller_lookup called
    rcases serve_cases sound called r with ⟨e,-,refused⟩ | ⟨a,t,-,given,done⟩
    · rw [refused]
      exact sound
    · rw [done]
      exact sound.put able given

theorem start_sound (booted : boot cfg = some s) : (start s).Sound where
  life := Life.start_sound booted
  clock := rfl
  ordered n _ := by
    show 0 < maxProcesses
    decide
  first := rfl
  taskman k p used zero := by
    obtain ⟨issued,pid,i,drawn,enrolled⟩ := boot_roster booted
    obtain ⟨-,-,free,people⟩ := Roster.enroll_lookup enrolled
    rw [Roster.issue_people drawn] at free
    have first : (State.init cfg).roster.people k = some ⟨pidTaskman,pidTaskman,.live,0,false⟩ := by
      have zero : k.val = 0 := zero
      simp [State.roster,Slab.map,State.init,zero,Process.person]
    have used : s.roster.people k = some p := used
    rw [people] at used
    rcases Slab.put_cases used with ⟨rfl,-⟩ | old
    · rw [first] at free
      cases free
    · rw [Roster.issue_people drawn,first] at old
      rw [← Option.some.inj old]
  same i p used := Attributes.register_traits _

theorem ofWords_words (c : Cred) : Cred.ofWords c.words.1 c.words.2.1 c.words.2.2 = c := by
  simp only [Cred.ofWords,Cred.words,lowHalf_halves,highHalf_halves]

/-- What a caller with the traits `t` is told, and what it is granted. -/
structure Answers (permitted : Cred → Cred → Bool) (h : Household cfg) (pid : Pid) (t : Traits) : Prop where
  info : ∃ i p, h.life.reg.processLookup pid = some (i,p) ∧
    (h.procSelfInfo pid).map readSelfInfo = .ok (pid,p.parent,t.cred)
  cwd : h.getcwd pid = .ok t.path
  mask : h.oldMask pid = .ok t.umask
  wishes : ∀ r, (h.serve permitted pid r).2 = (r.grant permitted t).map fun _ => ()

theorem Sound.answers (sound : h.Sound) (called : h.life.caller pid = some w) :
    h.Answers permitted pid (h.own w) := by
  obtain ⟨p,found,able,self⟩ := caller_lookup called
  have same := sound.same w p.person able.there
  refine ⟨⟨w,p,found,?_⟩,?_,?_,fun r => ?_⟩
  · simp only [procSelfInfo,found,Except.map,readSelfInfo,lowHalf_halves,highHalf_halves,ofWords_words]
    rw [self,← same]
    rfl
  · simp only [getcwd,found]
    rw [← same]
    rfl
  · simp only [oldMask,found]
    rw [← same]
    rfl
  · rcases serve_cases sound called r with ⟨e,refused,done⟩ | ⟨a,t,granted,-,done⟩
    · rw [refused,done]
      rfl
    · rw [granted,done]
      rfl

/-- In every run, whatever becomes of slots and pids, a caller is told what is its own: what it had from
its parent at its spawn and what it was granted since. -/
theorem traits_read_back (booted : boot cfg = some s) (run : Lts.Run (step permitted) anyCall (start s) cs h)
    (called : h.life.caller pid = some w) : h.Answers permitted pid (h.own w) :=
  Sound.answers (run.invariant Sound (fun h c h' sound _ => step_sound h c h' sound) (start_sound booted)) called

instance : DecidableRel (@anyCall cfg) := fun _ _ => .isTrue trivial

/-- A process that is not root sets only ids it holds. -/
def heldOnly (c asked : Cred) : Bool :=
  c.euid == 0 ||
    [asked.ruid,asked.euid,asked.suid].all (fun u => u == credKeep || [c.ruid,c.euid,c.suid].contains u) &&
    [asked.rgid,asked.egid,asked.sgid].all (fun g => g == credKeep || [c.rgid,c.egid,c.sgid].contains g)

/-- Init goes to `/a`, spawns, and goes to `/b`; its child becomes user and group 7. -/
def family : List HouseCall :=
  [.wish 2 (.chdir 2 fun n => if n = 0 then slashByte else 0x61),.call (.spawn 2 bootSpawn),
    .wish 2 (.chdir 2 fun n => if n = 0 then slashByte else 0x62),.wish 3 (.setCred 0x700000007 0x700000007 0x700000007)]

theorem traits_read_back_child : ∃ h : Household small, ∃ w,
    Lts.Run (step heldOnly) anyCall (start smallBoot) family h ∧ h.life.caller 3 = some w ∧
      h.getcwd 3 = .ok [slashByte,0x61] ∧ h.Answers heldOnly 3 (h.own w) := by
  obtain ⟨h,run,called,cwd⟩ := Lts.Run.exists_of_replay (step heldOnly) anyCall (start smallBoot) family
    (fun h : Household small => h.life.caller 3 = some ⟨2,by decide⟩ ∧ (h.getcwd 3).toOption =
      some [slashByte,0x61]) (by decide +kernel)
  have told := traits_read_back boot_small run called
  refine ⟨h,_,run,called,?_,told⟩
  rw [told.cwd] at cwd ⊢
  exact congrArg Except.ok (Option.some.inj cwd)

end Household

end Qsoe.Taskman
