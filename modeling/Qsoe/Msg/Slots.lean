import Mathlib.Data.List.Basic
import Qsoe.Msg.Machine

/-! What the reply objects of a server are tied to and which empty slots are in use, as the
kernel calls of `libc/qsoe/msg.c` change them. -/
namespace Qsoe.Msg

variable {ι γ : Type} {S : Server ι} {s t : State ι γ} {i j : ι}

theorem State.move_eq (moved : s.move dest src = some t) :
    s.cap src ≠ none ∧ s.cap dest = none ∧
    (∀ x, t.cap x = if x = src then none else if x = dest then s.cap src else s.cap x) ∧
    t.bind = s.bind ∧ t.objects = s.objects ∧ t.client = s.client ∧ t.stash = s.stash := by
  unfold State.move at moved
  split_ifs at moved with ready
  cases moved
  refine ⟨ready.1,ready.2,fun x => ?_,rfl,rfl,rfl,rfl⟩
  by_cases atSrc : x = src
  · simp [atSrc]
  · by_cases atDest : x = dest
    · subst atDest; simp [atSrc]
    · simp [atSrc,atDest]

theorem State.move_rest (moved : s.move dest src = some t) :
    t.free = s.free ∧ t.next = s.next ∧ t.pc = s.pc ∧ t.opened = s.opened ∧ t.last = s.last ∧ t.log = s.log ∧
    t.client = s.client ∧ t.stash = s.stash := by
  unfold State.move at moved
  split_ifs at moved
  cases moved
  exact ⟨rfl,rfl,rfl,rfl,rfl,rfl,rfl,rfl⟩

theorem State.allocEmptySlot_eq (taken : s.allocEmptySlot = some (slot,t)) :
    t.cap = s.cap ∧ t.bind = s.bind ∧ t.objects = s.objects ∧ t.client = s.client ∧ t.stash = s.stash ∧
    t.opened = s.opened ∧ t.last = s.last ∧ t.log = s.log ∧ t.pc = s.pc := by
  unfold State.allocEmptySlot at taken
  split at taken
  · cases taken
    exact ⟨rfl,rfl,rfl,rfl,rfl,rfl,rfl,rfl,rfl⟩
  · split_ifs at taken
    cases taken
    exact ⟨rfl,rfl,rfl,rfl,rfl,rfl,rfl,rfl,rfl⟩

theorem State.retype_eq (made : s.retype dest = some t) :
    s.cap dest = none ∧ (∀ x, t.cap x = if x = dest then some s.objects else s.cap x) ∧
    t.bind = s.bind ∧ t.objects = s.objects + 1 ∧ t.client = s.client ∧ t.stash = s.stash := by
  unfold State.retype at made
  split_ifs at made with empty
  cases made
  refine ⟨empty,fun x => ?_,rfl,rfl,rfl,rfl⟩
  by_cases same : x = dest
  · simp [same]
  · simp [same]

theorem State.answer_rest [DecidableEq γ] (s : State ι γ) (slot : Nat) :
    (s.answer slot).1.free = s.free ∧ (s.answer slot).1.next = s.next ∧ (s.answer slot).1.pc = s.pc ∧
    (s.answer slot).1.opened = s.opened ∧ (s.answer slot).1.last = s.last ∧ (s.answer slot).1.log = s.log ∧
    (s.answer slot).1.cap = s.cap ∧ (s.answer slot).1.stash = s.stash ∧
    ∀ c, (s.answer slot).1.client c = .idle ∨ (s.answer slot).1.client c = s.client c := by
  unfold State.answer
  split
  · rename_i c o _ _
    refine ⟨rfl,rfl,rfl,rfl,rfl,rfl,rfl,rfl,fun d => ?_⟩
    by_cases same : d = c
    · simp [same]
    · simp [same]
  · exact ⟨rfl,rfl,rfl,rfl,rfl,rfl,rfl,rfl,fun _ => .inr rfl⟩

theorem State.retype_rest (made : s.retype dest = some t) :
    t.free = s.free ∧ t.next = s.next ∧ t.pc = s.pc ∧ t.opened = s.opened ∧ t.last = s.last ∧ t.log = s.log := by
  unfold State.retype at made
  split_ifs at made
  cases made
  exact ⟨rfl,rfl,rfl,rfl,rfl,rfl⟩

theorem State.freeEmptySlot_eq (s : State ι γ) (slot : Nat) :
    (s.freeEmptySlot slot).cap = s.cap ∧ (s.freeEmptySlot slot).bind = s.bind ∧
    (s.freeEmptySlot slot).objects = s.objects ∧ (s.freeEmptySlot slot).client = s.client ∧
    (s.freeEmptySlot slot).stash = s.stash ∧ (s.freeEmptySlot slot).opened = s.opened ∧
    (s.freeEmptySlot slot).log = s.log ∧ (s.freeEmptySlot slot).pc = s.pc ∧ (s.freeEmptySlot slot).last =
      s.last := by
  unfold State.freeEmptySlot
  split_ifs <;> exact ⟨rfl,rfl,rfl,rfl,rfl,rfl,rfl,rfl,rfl⟩

def Binding.of : Option γ → Binding ι γ
  | none => .free
  | some c => .caller c

theorem Binding.of_injective : Function.Injective (Binding.of : Option γ → Binding ι γ) := by
  intro c d same
  cases c <;> cases d <;> cases same <;> rfl

/-- What the object in a slot is tied to, if the slots kept for clients and the main
thread's own place are all there is. -/
def expect (place : Nat) (tied : Binding ι γ) (stash : Nat → Option γ) (slot : Nat) : Binding ι γ :=
  match stash slot with
  | some c => .caller c
  | none => if slot = place then tied else .free

theorem expect_retie (own : stash place = none) (old new : Binding ι γ) (x : Nat) :
    expect place new stash x = if x = place then new else expect place old stash x := by
  by_cases same : x = place
  · simp [expect,same,own]
  · simp [expect,same]

/-- Every waiting client is tied to one object, in the slot that stands for it. -/
structure Bound (place : Nat) (tied : Binding ι γ) (s : State ι γ) : Prop where
  held : ∀ slot o, s.cap slot = some o → s.bind o = expect place tied s.stash slot
  loose : ∀ o, (∀ slot, s.cap slot ≠ some o) → s.bind o = .free
  one : ∀ slot slot' o, s.cap slot = some o → s.cap slot' = some o → slot = slot'
  made : ∀ slot o, s.cap slot = some o → o < s.objects
  present : ∀ slot, slot = place ∨ s.stash slot ≠ none → s.cap slot ≠ none
  own : s.stash place = none
  unique : ∀ slot slot' c, expect place tied s.stash slot = .caller c →
    expect place tied s.stash slot' = .caller c → slot = slot'
  busy : ∀ slot c, expect place tied s.stash slot = .caller c → s.client c = .waiting
  waiting : ∀ c, s.client c = .waiting → ∃ slot, expect place tied s.stash slot = .caller c
  alive : ∀ c, s.client c ≠ .stranded

namespace Bound

variable {place place' : Nat} {tied tied' b : Binding ι γ}

theorem expect_place (bound : Bound place tied s) : expect place tied s.stash place = tied := by
  simp [expect,bound.own]

/-- The object in one slot is tied to something else, and the clients with it. -/
theorem retie (bound : Bound place tied s) (there : s.cap slot = some o) (cap : t.cap = s.cap)
    (objects : t.objects = s.objects) (bind : t.bind = Function.update s.bind o b)
    (expects : ∀ x, expect place' tied' t.stash x = if x = slot then b else expect place tied s.stash x)
    (present : ∀ x, x = place' ∨ t.stash x ≠ none → s.cap x ≠ none) (own : t.stash place' = none)
    (new : ∀ c, b = .caller c → s.client c ≠ .waiting)
    (clients : ∀ c, t.client c = .waiting ↔
      b = .caller c ∨ s.client c = .waiting ∧ expect place tied s.stash slot ≠ .caller c)
    (alive : ∀ c, t.client c ≠ .stranded) : Bound place' tied' t where
  held x o' holds := by
    rw [cap] at holds
    rw [bind,expects]
    split_ifs with same
    · subst same
      obtain rfl := Option.some.inj (there.symm.trans holds)
      simp
    · have other : o' ≠ o := by
        rintro rfl
        exact same (bound.one x slot o' holds there)
      rw [Function.update_of_ne other]
      exact bound.held x o' holds
  loose o' nowhere := by
    rw [cap] at nowhere
    have other : o' ≠ o := by
      rintro rfl
      exact nowhere slot there
    rw [bind,Function.update_of_ne other]
    exact bound.loose o' nowhere
  one := by rw [cap]; exact bound.one
  made := by rw [cap,objects]; exact bound.made
  present := by rw [cap]; exact present
  own := own
  unique x y c first second := by
    rw [expects] at first second
    split_ifs at first second with atX atY atY
    · rw [atX,atY]
    · exact absurd (bound.busy y c second) (new c first)
    · exact absurd (bound.busy x c first) (new c second)
    · exact bound.unique x y c first second
  busy x c there := by
    rw [expects] at there
    rw [clients]
    split_ifs at there with same
    · exact .inl there
    · refine .inr ⟨bound.busy x c there,fun mine => same ?_⟩
      exact bound.unique x slot c there mine
  waiting c waits := by
    rcases (clients c).mp waits with mine | ⟨waited,other⟩
    · exact ⟨slot,by rw [expects,if_pos rfl]; exact mine⟩
    · obtain ⟨x,mine⟩ := bound.waiting c waited
      have apart : x ≠ slot := by
        rintro rfl
        exact other mine
      exact ⟨x,by rw [expects,if_neg apart]; exact mine⟩
  alive := alive

/-- Nothing the kernel knows changes and the slots keep their meaning. -/
theorem keep (bound : Bound place tied s) (cap : t.cap = s.cap) (bind : t.bind = s.bind)
    (objects : t.objects = s.objects)
    (stash : t.stash = s.stash) (clients : ∀ c, t.client c = .waiting ↔ s.client c = .waiting)
    (alive : ∀ c, t.client c ≠ .stranded) : Bound place tied t where
  held := by rw [cap,bind,stash]; exact bound.held
  loose := by rw [cap,bind]; exact bound.loose
  one := by rw [cap]; exact bound.one
  made := by rw [cap,objects]; exact bound.made
  present := by rw [cap,stash]; exact bound.present
  own := by rw [stash]; exact bound.own
  unique := by rw [stash]; exact bound.unique
  busy x c there := by
    rw [stash] at there
    exact (clients c).mpr (bound.busy x c there)
  waiting c waits := by
    rw [stash]
    exact bound.waiting c ((clients c).mp waits)
  alive := alive

/-- The place moves to an empty slot and the object with it. -/
theorem move (bound : Bound place tied s) (moved : s.move dest place = some t) (unused : s.stash dest = none) :
    Bound dest tied t := by
  obtain ⟨full,empty,cap,bind,objects,client,stash⟩ := State.move_eq moved
  have apart : dest ≠ place := by
    rintro rfl
    exact full empty
  have expects (x : Nat) : expect dest tied s.stash x =
      if x = place then .free else if x = dest then tied else expect place tied s.stash x := by
    by_cases atPlace : x = place
    · simp [expect,atPlace,bound.own,apart.symm]
    · by_cases atDest : x = dest
      · simp [expect,atDest,unused,apart]
      · simp [expect,atPlace,atDest]
  have caller (x : Nat) (c : γ) (there : expect dest tied s.stash x = .caller c) :
      x = dest ∧ tied = .caller c ∨ x ≠ place ∧ expect place tied s.stash x = .caller c := by
    rw [expects] at there
    split_ifs at there with atPlace atDest
    · exact .inl ⟨atDest,there⟩
    · exact .inr ⟨atPlace,there⟩
  have here (c : γ) (mine : tied = .caller c) : expect place tied s.stash place = .caller c :=
    bound.expect_place.trans mine
  refine ⟨fun x o holds => ?_,fun o nowhere => ?_,fun x y o first second => ?_,fun x o holds => ?_,fun x used => ?_,
    by rw [stash]; exact unused,fun x y c first second => ?_,fun x c there => ?_,fun c waits => ?_,
    by rw [client]; exact bound.alive⟩
  · rw [cap] at holds
    rw [bind,stash,expects]
    split_ifs at holds ⊢ with atPlace atDest
    · rw [bound.held place o holds]
      exact bound.expect_place
    · exact bound.held x o holds
  · rw [bind]
    refine bound.loose o fun x holds => ?_
    by_cases atPlace : x = place
    · subst atPlace
      exact nowhere dest (by rw [cap,if_neg apart,if_pos rfl]; exact holds)
    · have atDest : x ≠ dest := by
        rintro rfl
        simp [empty] at holds
      exact nowhere x (by rw [cap,if_neg atPlace,if_neg atDest]; exact holds)
  · rw [cap] at first second
    split_ifs at first second with atX atX' atY atY' atY atY'
    · rw [atX',atY']
    · exact absurd (bound.one y place o second first) atY
    · exact absurd (bound.one x place o first second) atX
    · exact bound.one x y o first second
  · rw [cap] at holds
    rw [objects]
    split_ifs at holds with atPlace atDest
    · exact bound.made place o holds
    · exact bound.made x o holds
  · rw [stash] at used
    rw [cap]
    rcases used with rfl | stashed
    · rw [if_neg apart,if_pos rfl]
      exact full
    · have atPlace : x ≠ place := by
        rintro rfl
        exact stashed bound.own
      have atDest : x ≠ dest := by
        rintro rfl
        exact stashed unused
      rw [if_neg atPlace,if_neg atDest]
      exact bound.present x (.inr stashed)
  · rw [stash] at first second
    rcases caller x c first with ⟨atX,mine⟩ | ⟨leftX,there⟩
    · rcases caller y c second with ⟨atY,-⟩ | ⟨leftY,there⟩
      · rw [atX,atY]
      · exact absurd (bound.unique y place c there (here c mine)) leftY
    · rcases caller y c second with ⟨-,mine⟩ | ⟨-,there'⟩
      · exact absurd (bound.unique x place c there (here c mine)) leftX
      · exact bound.unique x y c there there'
  · rw [stash] at there
    rw [client]
    rcases caller x c there with ⟨-,mine⟩ | ⟨-,there⟩
    · exact bound.busy place c (here c mine)
    · exact bound.busy x c there
  · rw [client] at waits
    rw [stash]
    obtain ⟨x,there⟩ := bound.waiting c waits
    by_cases atPlace : x = place
    · subst atPlace
      refine ⟨dest,?_⟩
      rw [expects,if_neg apart,if_pos rfl,← bound.expect_place]
      exact there
    · have atDest : x ≠ dest := by
        rintro rfl
        simp [expect,unused,apart] at there
      exact ⟨x,by rw [expects,if_neg atPlace,if_neg atDest]; exact there⟩

/-- A fresh object takes the empty slot `dest`, and the old place is kept for its client. -/
theorem retype (bound : Bound place (.of c) s) (made : s.retype dest = some t) (unused : s.stash dest = none)
    (apart : dest ≠ place) : Bound dest .free (t.setStash place c) := by
  obtain ⟨empty,cap,bind,objects,client,kept⟩ := State.retype_eq made
  have stash : (t.setStash place c).stash = Function.update s.stash place c := by rw [← kept]; rfl
  have expects : (expect dest .free (t.setStash place c).stash : Nat → Binding ι γ) =
      expect place (.of c) s.stash := by
    rw [stash]
    funext x
    by_cases atPlace : x = place
    · subst atPlace
      cases c <;> simp [expect,bound.own,Binding.of]
    · simp [expect,atPlace]
  have new (x : Nat) : s.cap x ≠ some s.objects := fun holds => Nat.lt_irrefl _ (bound.made x _ holds)
  refine ⟨fun x o holds => ?_,fun o nowhere => ?_,fun x y o first second => ?_,fun x o holds => ?_,fun x used =>
    ?_,?_,?_,?_,
    ?_,fun d => by rw [State.setStash_client,client]; exact bound.alive d⟩
  · rw [State.setStash_cap,cap] at holds
    rw [State.setStash_bind,bind,expects]
    split_ifs at holds with same
    · cases holds
      subst same
      rw [bound.loose _ new]
      simp [expect,unused,apart]
    · exact bound.held x o holds
  · rw [State.setStash_bind,bind]
    refine bound.loose o fun x holds => nowhere x ?_
    have same : x ≠ dest := by
      rintro rfl
      simp [empty] at holds
    rw [State.setStash_cap,cap,if_neg same]
    exact holds
  · rw [State.setStash_cap,cap] at first second
    split_ifs at first second with atX atY atY
    · rw [atX,atY]
    · cases first
      exact absurd second (new y)
    · cases second
      exact absurd first (new x)
    · exact bound.one x y o first second
  · rw [State.setStash_cap,cap] at holds
    rw [State.setStash_objects,objects]
    split_ifs at holds
    · cases holds
      exact Nat.lt_succ_self _
    · exact Nat.lt_succ_of_lt (bound.made x o holds)
  · rw [State.setStash_cap,cap]
    split_ifs with same
    · simp
    · refine bound.present x ?_
      by_cases atPlace : x = place
      · exact .inl atPlace
      · simpa [same,kept,atPlace] using used
  · simpa [kept,apart] using unused
  · rw [expects]; exact bound.unique
  · rw [expects,show (t.setStash place c).client = s.client from client]; exact bound.busy
  · rw [expects,show (t.setStash place c).client = s.client from client]; exact bound.waiting

theorem delete [DecidableEq ι] [DecidableEq γ] (bound : Bound place tied s) (apart : slot ≠ place)
    (unused : s.stash slot = none) :
    s.delete slot = s.setCap slot none ∧ Bound place tied (s.setCap slot none) := by
  have none_there : expect place tied s.stash slot = .free := by simp [expect,unused,apart]
  have free (o : Nat) (there : s.cap slot = some o) : s.bind o = .free := (bound.held slot o there).trans none_there
  have cap (x : Nat) : (s.setCap slot none).cap x = if x = slot then none else s.cap x := by
    by_cases same : x = slot
    · simp [same]
    · simp [same]
  refine ⟨?_,fun x o holds => ?_,fun o nowhere => ?_,fun x y o first second => ?_,fun x o holds =>
    ?_,fun x used => ?_,
    bound.own,bound.unique,bound.busy,bound.waiting,bound.alive⟩
  · unfold State.delete State.setCap
    cases there : s.cap slot with
    | none =>
      have same : Function.update s.cap slot none = s.cap := by rw [← there,Function.update_eq_self]
      rw [same]
    | some o => simp only [State.cancel,free o there]
  · rw [cap] at holds
    split_ifs at holds
    exact bound.held x o holds
  · by_cases there : s.cap slot = some o
    · exact free o there
    · refine bound.loose o fun x holds => nowhere x ?_
      rw [cap,if_neg]
      · exact holds
      · rintro rfl
        exact there holds
  · rw [cap] at first second
    split_ifs at first second
    exact bound.one x y o first second
  · rw [cap] at holds
    split_ifs at holds
    exact bound.made x o holds
  · rw [cap,if_neg]
    · exact bound.present x used
    · rintro rfl
      rcases used with atPlace | stashed
      · exact apart atPlace
      · exact stashed unused

theorem answer [DecidableEq γ] (bound : Bound place tied s) (there : s.cap slot ≠ none)
    (kind : ∃ c, expect place tied s.stash slot = .of c)
    (expects : ∀ x, expect place tied' stash' x = if x = slot then .free else expect place tied s.stash x)
    (present : ∀ x, x = place ∨ stash' x ≠ none → s.cap x ≠ none) (own : stash' place = none) :
    Bound place tied' { (s.answer slot).1 with stash := stash' } ∧
      expect place tied s.stash slot = .of (s.answer slot).2 := by
  obtain ⟨o,holds⟩ := Option.ne_none_iff_exists'.mp there
  obtain ⟨c,kind⟩ := kind
  have bind := (bound.held slot o holds).trans kind
  cases c with
  | none =>
    have result : s.answer slot = (s,none) := by simp [State.answer,holds,bind,Binding.of]
    rw [result]
    refine ⟨?_,kind⟩
    refine bound.retie (b := .free) holds rfl rfl ?_ expects present own (by simp) (fun c => ?_) bound.alive
    · rw [show Binding.free = s.bind o from bind.symm,Function.update_eq_self]
    · simp [kind,Binding.of]
  | some c =>
    have result : s.answer slot = ((s.setBind o .free).setClient c .idle,some c) := by
      simp [State.answer,holds,bind,Binding.of]
    rw [result]
    refine ⟨?_,kind⟩
    refine bound.retie (b := .free) holds rfl rfl rfl expects present own (by simp) (fun d => ?_) fun d => ?_
    · by_cases same : d = c
      · simp [same,kind,Binding.of]
      · simp [same,kind,Binding.of,Ne.symm same]
    · by_cases same : d = c
      · simp [same]
      · simpa [same] using bound.alive d

end Bound

def Pc.holding : Pc → Option Nat
  | .saveMove slot | .saveRetype slot | .saveBack slot | .saveFree slot | .savedDelete slot | .savedFree slot =>
    some slot
  | _ => none

/-- Every slot that is in use is in use once. -/
structure Slots (s : State ι γ) : Prop where
  base : emptySlotBase ≤ s.next
  nodup : s.free.Nodup
  range : ∀ slot ∈ s.free, emptySlotBase ≤ slot ∧ slot < s.next
  stashed : ∀ slot, s.stash slot ≠ none → emptySlotBase ≤ slot ∧ slot < s.next ∧ slot ∉ s.free
  held : ∀ i slot, (s.pc i).holding = some slot →
    emptySlotBase ≤ slot ∧ slot < s.next ∧ slot ∉ s.free ∧ s.stash slot = none
  apart : ∀ i j slot, (s.pc i).holding = some slot → (s.pc j).holding = some slot → i = j

namespace Slots

theorem keep (slots : Slots s) (free : t.free = s.free) (next : t.next = s.next)
    (stash : ∀ slot, t.stash slot = none ∨ t.stash slot = s.stash slot)
    (pcs : ∀ i, (t.pc i).holding = none ∨ (t.pc i).holding = (s.pc i).holding) : Slots t where
  base := by rw [next]; exact slots.base
  nodup := by rw [free]; exact slots.nodup
  range := by rw [free,next]; exact slots.range
  stashed slot used := by
    rw [free,next]
    rcases stash slot with nothing | same
    · exact absurd nothing used
    · exact slots.stashed slot (by rwa [← same])
  held i slot holds := by
    rw [free,next]
    rcases pcs i with nothing | same
    · simp [nothing] at holds
    · obtain ⟨base,below,out,unused⟩ := slots.held i slot (by rwa [← same])
      refine ⟨base,below,out,?_⟩
      rcases stash slot with nothing | kept
      · exact nothing
      · rw [kept]; exact unused
  apart i j slot first second := by
    rcases pcs i with nothing | same
    · simp [nothing] at first
    · rcases pcs j with nothing' | same'
      · simp [nothing'] at second
      · exact slots.apart i j slot (by rwa [← same]) (by rwa [← same'])

/-- Thread `i` takes a slot from the allocator. -/
theorem alloc [DecidableEq ι] (slots : Slots s) (taken : s.allocEmptySlot = some (slot,t))
    (before : (s.pc i).holding = none) (after : p.holding = some slot) : Slots (t.setPc i p) := by
  have fresh : emptySlotBase ≤ slot ∧ slot < t.next ∧ slot ∉ t.free ∧ s.stash slot = none ∧
      ∀ j, (s.pc j).holding ≠ some slot := by
    unfold State.allocEmptySlot at taken
    split at taken
    · rename_i rest list
      cases taken
      have member : slot ∈ s.free := by simp [list]
      have nodup := slots.nodup
      rw [list,List.nodup_cons] at nodup
      refine ⟨(slots.range slot member).1,(slots.range slot member).2,nodup.1,?_,fun j holds => ?_⟩
      · by_contra used
        exact (slots.stashed slot used).2.2 member
      · exact (slots.held j slot holds).2.2.1 member
    · rename_i list
      split_ifs at taken
      cases taken
      refine ⟨slots.base,Nat.lt_succ_self _,by simp [list],?_,fun j holds => ?_⟩
      · by_contra used
        exact Nat.lt_irrefl _ (slots.stashed _ used).2.1
      · exact Nat.lt_irrefl _ (slots.held j _ holds).2.1
  have rest : s.next ≤ t.next ∧ t.free.Sublist s.free ∧ t.stash = s.stash ∧ t.pc = s.pc := by
    unfold State.allocEmptySlot at taken
    split at taken
    · rename_i rest list
      cases taken
      exact ⟨Nat.le_refl _,by rw [list]; exact List.sublist_cons_self _ _,rfl,rfl⟩
    · split_ifs at taken
      cases taken
      exact ⟨Nat.le_succ _,List.Sublist.refl _,rfl,rfl⟩
  obtain ⟨next,free,stash,pcs⟩ := rest
  obtain ⟨base,below,out,unused,alone⟩ := fresh
  have other (j : ι) (self : j ≠ i) : ((t.setPc i p).pc j) = s.pc j := by simp [self,pcs]
  refine ⟨Nat.le_trans slots.base next,slots.nodup.sublist free,fun x member => ?_,fun x used =>
    ?_,fun j x holds => ?_,
    fun j k x first second => ?_⟩
  · obtain ⟨low,high⟩ := slots.range x (free.subset member)
    exact ⟨low,Nat.lt_of_lt_of_le high next⟩
  · obtain ⟨low,high,outside⟩ := slots.stashed x (by simpa [stash] using used)
    exact ⟨low,Nat.lt_of_lt_of_le high next,fun member => outside (free.subset member)⟩
  · by_cases self : j = i
    · subst self
      obtain rfl : slot = x := by simpa [after] using holds
      exact ⟨base,below,out,by simpa [stash] using unused⟩
    · rw [other j self] at holds
      obtain ⟨low,high,outside,empty⟩ := slots.held j x holds
      exact ⟨low,Nat.lt_of_lt_of_le high next,fun member =>
        outside (free.subset member),by simpa [stash] using empty⟩
  · by_cases selfJ : j = i
    · subst selfJ
      obtain rfl : slot = x := by simpa [after] using first
      by_contra apart
      rw [other k (Ne.symm apart)] at second
      exact alone k second
    · by_cases selfK : k = i
      · subst selfK
        obtain rfl : slot = x := by simpa [after] using second
        rw [other j selfJ] at first
        exact absurd first (alone j)
      · rw [other j selfJ] at first
        rw [other k selfK] at second
        exact slots.apart j k x first second

/-- Thread `i` hands its slot back. -/
theorem release [DecidableEq ι] (slots : Slots s) (holds : (s.pc i).holding = some slot)
    (after : p.holding = none) :
    Slots ((s.freeEmptySlot slot).setPc i p) := by
  obtain ⟨base,below,out,unused⟩ := slots.held i slot holds
  have alone (j : ι) (self : j ≠ i) : (s.pc j).holding ≠ some slot := fun mine =>
    self (slots.apart j i slot mine holds)
  have idle : Slots (s.setPc i p) := by
    refine slots.keep rfl rfl (fun _ => .inr rfl) fun j => ?_
    by_cases self : j = i
    · subst self; exact .inl (by simp [after])
    · exact .inr (by simp [self])
  unfold State.freeEmptySlot
  split_ifs
  · exact idle
  · refine ⟨slots.base,List.nodup_cons.mpr ⟨out,slots.nodup⟩,fun x member => ?_,fun x used => ?_,fun j x mine => ?_,
      fun j k x first second => ?_⟩
    · rcases List.mem_cons.mp member with rfl | rest
      · exact ⟨base,below⟩
      · exact slots.range x rest
    · obtain ⟨low,high,outside⟩ := slots.stashed x used
      refine ⟨low,high,fun member => ?_⟩
      rcases List.mem_cons.mp member with rfl | rest
      · exact used unused
      · exact outside rest
    · have self : j ≠ i := by
        rintro rfl
        simp [after] at mine
      have taken : (s.pc j).holding = some x := by simpa [self] using mine
      obtain ⟨low,high,outside,empty⟩ := slots.held j x taken
      refine ⟨low,high,fun member => ?_,empty⟩
      rcases List.mem_cons.mp member with rfl | rest
      · exact alone j self taken
      · exact outside rest
    · have selfJ : j ≠ i := by
        rintro rfl
        simp [after] at first
      have selfK : k ≠ i := by
        rintro rfl
        simp [after] at second
      exact slots.apart j k x (by simpa [selfJ] using first) (by simpa [selfK] using second)
  · exact idle

/-- Thread `i` keeps its slot for a client. -/
theorem hand (slots : Slots s) (holds : (s.pc i).holding = some slot) (free : t.free = s.free)
    (next : t.next = s.next)
    (stash : t.stash = Function.update s.stash slot c) (others : ∀ j, j ≠ i → t.pc j = s.pc j)
    (after : (t.pc i).holding = none) : Slots t := by
  obtain ⟨base,below,out,-⟩ := slots.held i slot holds
  have mine (j : ι) (x : Nat) (taken : (t.pc j).holding = some x) : j ≠ i ∧ (s.pc j).holding = some x := by
    have self : j ≠ i := by
      rintro rfl
      simp [after] at taken
    exact ⟨self,by rw [← others j self]; exact taken⟩
  refine ⟨by rw [next]; exact slots.base,by rw [free]; exact slots.nodup,
    by rw [free,next]; exact slots.range,fun x used => ?_,
    fun j x taken => ?_,fun j k x first second => slots.apart j k x (mine j x first).2 (mine k x second).2⟩
  · rw [free,next]
    by_cases same : x = slot
    · subst same; exact ⟨base,below,out⟩
    · exact slots.stashed x (by simpa [stash,same] using used)
  · rw [free,next]
    obtain ⟨self,before⟩ := mine j x taken
    obtain ⟨low,high,outside,empty⟩ := slots.held j x before
    have apart : x ≠ slot := by
      rintro rfl
      exact self (slots.apart j i x before holds)
    exact ⟨low,high,outside,by simpa [stash,apart] using empty⟩

/-- Thread `i` takes the slot kept for a client. -/
theorem claim [DecidableEq ι] (slots : Slots s) (used : s.stash slot ≠ none) (free : t.free = s.free)
    (next : t.next = s.next)
    (stash : t.stash = Function.update s.stash slot none) (others : ∀ j, j ≠ i → t.pc j = s.pc j)
    (after : (t.pc i).holding = some slot) : Slots t := by
  obtain ⟨base,below,out⟩ := slots.stashed slot used
  have alone (j : ι) (self : j ≠ i) : (t.pc j).holding ≠ some slot := by
    rw [others j self]
    exact fun taken => used (slots.held j slot taken).2.2.2
  refine ⟨by rw [next]; exact slots.base,by rw [free]; exact slots.nodup,
    by rw [free,next]; exact slots.range,fun x still => ?_,
    fun j x taken => ?_,fun j k x first second => ?_⟩
  · rw [free,next]
    by_cases same : x = slot
    · simp [stash,same] at still
    · exact slots.stashed x (by simpa [stash,same] using still)
  · rw [free,next]
    by_cases self : j = i
    · subst self
      obtain rfl := Option.some.inj (after.symm.trans taken)
      exact ⟨base,below,out,by simp [stash]⟩
    · rw [others j self] at taken
      obtain ⟨low,high,outside,empty⟩ := slots.held j x taken
      have apart : x ≠ slot := by
        rintro rfl
        exact used empty
      exact ⟨low,high,outside,by simpa [stash,apart] using empty⟩
  · by_cases selfJ : j = i
    · subst selfJ
      obtain rfl := Option.some.inj (after.symm.trans first)
      by_contra apart
      exact alone k (Ne.symm apart) second
    · by_cases selfK : k = i
      · subst selfK
        obtain rfl := Option.some.inj (after.symm.trans second)
        exact absurd first (alone j selfJ)
      · rw [others j selfJ] at first
        rw [others k selfK] at second
        exact slots.apart j k x first second

theorem stash_low (slots : Slots s) (low : slot < emptySlotBase) : s.stash slot = none := by
  by_contra used
  exact absurd (slots.stashed slot used).1 (Nat.not_le.mpr low)

end Slots

theorem capReply_low : capReply < emptySlotBase := by decide

end Qsoe.Msg
