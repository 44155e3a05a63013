import Mathlib.Data.List.FinRange
import Mathlib.Logic.Function.Basic

/-! The in-process wait/wake table of `libc/qsoe/sync.c`: sixteen entries keyed by
the address of a `sync_t` word, each with a credit, a generation and a FIFO of
parked Notifications. A thread stands for its park Notification. The critical
sections are translated slot by slot; their specifications speak only of the
entry of their own address and of whether a slot is free. -/
namespace Qsoe.Sync

/-- The two words of a `sync_t` whose addresses key the table. -/
inductive Field where
  | owner | count
  deriving DecidableEq, Repr

structure Addr (κ : Type) where
  obj : κ
  field : Field
  deriving DecidableEq, Repr

/-- `SYNC_MAX_ENTRIES` and `SYNC_MAX_WAITERS`. -/
def maxEntries : Nat := 16
def maxWaiters : Nat := 4

structure Entry (κ ι : Type) where
  addr : Addr κ
  credit : Nat
  gen : Int
  waiters : List ι
  deriving DecidableEq, Repr

inductive WaitMode where
  | credit
  | gen (expected : Int)
  deriving DecidableEq, Repr

inductive WakeMode where
  | absorb | discard
  deriving DecidableEq, Repr

/-- `g_sync`; `none` is an entry whose `in_use` is 0. -/
abbrev Slots (κ ι : Type) := Fin maxEntries → Option (Entry κ ι)

variable {κ ι : Type} [DecidableEq κ]

def findEntry (t : Slots κ ι) (a : Addr κ) : Option (Fin maxEntries × Entry κ ι) :=
  (List.finRange maxEntries).findSome? fun i =>
    (t i).bind fun e => if e.addr = a then some (i,e) else none

def allocEntry (t : Slots κ ι) (a : Addr κ) : Option (Fin maxEntries × Entry κ ι) :=
  (List.finRange maxEntries).findSome? fun i =>
    match t i with
    | some _ => none
    | none => some (i,⟨a,0,0,[]⟩)

def store (t : Slots κ ι) (i : Fin maxEntries) (e : Entry κ ι) : Slots κ ι :=
  Function.update t i (some e)

/-- Drop an entry with no waiters and no pending credit. -/
def retireIfIdle (t : Slots κ ι) (i : Fin maxEntries) : Slots κ ι :=
  match t i with
  | some e => if e.waiters = [] ∧ e.credit = 0 then Function.update t i none else t
  | none => t

def pushWaiter (e : Entry κ ι) (n : ι) : Option (Entry κ ι) :=
  if e.waiters.length < maxWaiters then some { e with waiters := e.waiters ++ [n] } else none

def popWaiter (e : Entry κ ι) : Option (ι × Entry κ ι) :=
  match e.waiters with
  | [] => none
  | n :: rest => some (n,{ e with waiters := rest })

def removeWaiter [DecidableEq ι] (e : Entry κ ι) (n : ι) : Entry κ ι :=
  { e with waiters := e.waiters.erase n }

/-- How the first critical section of `sync_wait_impl` ends: return 0, go on to
`qsoe_sys_wait`, or fail with `ENOMEM`. -/
inductive Enter where
  | pass | parked | full
  deriving DecidableEq, Repr

/-- Push the caller's Notification on an entry; the tail both branches share. -/
def park (t : Slots κ ι) (i : Fin maxEntries) (e : Entry κ ι) (n : ι) : Slots κ ι × Enter :=
  match pushWaiter e n with
  | some pushed => (store t i pushed,.parked)
  | none => (retireIfIdle t i,.full)

def parkFresh (t : Slots κ ι) (a : Addr κ) (n : ι) : Slots κ ι × Enter :=
  match allocEntry t a with
  | some (i,e) => park (store t i e) i e n
  | none => (t,.full)

/-- `sync_wait_impl` between its first `table_lock` and `table_unlock`. -/
def enterSection (t : Slots κ ι) (a : Addr κ) (mode : WaitMode) (n : ι) : Slots κ ι × Enter :=
  match mode, findEntry t a with
  | .gen expected, some (i,e) =>
      if e.gen ≠ expected then (retireIfIdle t i,.pass) else park t i e n
  | .gen expected, none => if expected ≠ 0 then (t,.pass) else parkFresh t a n
  | .credit, some (i,e) =>
      if 0 < e.credit then (retireIfIdle (store t i { e with credit := e.credit - 1 }) i,.pass)
      else park t i e n
  | .credit, none => parkFresh t a n

/-- `sync_wait_impl` after `qsoe_sys_wait` returned. -/
def leaveSection [DecidableEq ι] (t : Slots κ ι) (a : Addr κ) (n : ι) : Slots κ ι :=
  match findEntry t a with
  | some (i,e) => retireIfIdle (store t i (removeWaiter e n)) i
  | none => t

/-- The `while (woken < max_n)` loop; the popped Notifications in signal order. -/
def popLoop : Nat → Entry κ ι → List ι × Entry κ ι
  | 0, e => ([],e)
  | k + 1, e =>
    match popWaiter e with
    | none => ([],e)
    | some (n,rest) => (n :: (popLoop k rest).1,(popLoop k rest).2)

/-- `max_n` after the `0 = wake all` default. -/
def wakeLimit (maxN : Nat) : Nat := if maxN = 0 then maxWaiters else maxN

/-- `sync_wake_impl` between its lock and unlock: the new table, the signalled
Notifications and whether it returned 0. -/
def wakeSection (t : Slots κ ι) (a : Addr κ) (maxN : Nat) (mode : WakeMode) :
    Slots κ ι × List ι × Bool :=
  let limit := wakeLimit maxN
  match findEntry t a with
  | some (i,e) =>
    let popped := popLoop limit { e with gen := e.gen + 1 }
    let credit := if popped.1.length < limit ∧ mode = .absorb ∧ popped.2.credit < 1 then 1
      else popped.2.credit
    (retireIfIdle (store t i { popped.2 with credit := credit }) i,popped.1,true)
  | none =>
    if mode = .absorb then
      match allocEntry t a with
      | some (i,e) => (retireIfIdle (store t i { e with gen := 1, credit := 1 }) i,[],true)
      | none => (t,[],false)
    else (t,[],true)

def Unique (t : Slots κ ι) : Prop :=
  ∀ i j e f, t i = some e → t j = some f → e.addr = f.addr → i = j

def lookup (t : Slots κ ι) (a : Addr κ) : Option (Entry κ ι) := (findEntry t a).map Prod.snd

/-- Some entry is free, so `alloc_entry` succeeds. -/
def Room (t : Slots κ ι) : Prop := ∃ i, t i = none

instance (t : Slots κ ι) : Decidable (Room t) := Nat.decidableExistsFin _

/-- Slot `i` is the only one that may hold `a`, and it holds nothing else. -/
structure Owns (t : Slots κ ι) (i : Fin maxEntries) (a : Addr κ) : Prop where
  only : ∀ e, t i = some e → e.addr = a
  unique : ∀ j e, t j = some e → e.addr = a → j = i

theorem findEntry_some {t : Slots κ ι} (found : findEntry t a = some (i,e)) :
    t i = some e ∧ e.addr = a := by
  obtain ⟨j,_,h⟩ := List.exists_of_findSome?_eq_some found
  obtain ⟨f,occupied,match'⟩ := Option.bind_eq_some_iff.mp h
  split at match'
  · obtain ⟨rfl,rfl⟩ := Prod.mk.inj (Option.some.inj match')
    exact ⟨occupied,by assumption⟩
  · cases match'

theorem findEntry_none {t : Slots κ ι} :
    findEntry t a = none ↔ ∀ i e, t i = some e → e.addr ≠ a := by
  simp only [findEntry,List.findSome?_eq_none_iff,List.mem_finRange,true_implies]
  constructor
  · intro free i e occupied same
    simpa [occupied,same] using free i
  · intro apart i
    cases occupied : t i with
    | none => rfl
    | some e => simp [apart i e occupied]

omit [DecidableEq κ] in
theorem allocEntry_some {t : Slots κ ι} (allocated : allocEntry t a = some (i,e)) :
    t i = none ∧ e = ⟨a,0,0,[]⟩ := by
  obtain ⟨j,_,h⟩ := List.exists_of_findSome?_eq_some allocated
  split at h
  · cases h
  · obtain ⟨rfl,rfl⟩ := Prod.mk.inj (Option.some.inj h)
    exact ⟨by assumption,rfl⟩

omit [DecidableEq κ] in
theorem allocEntry_none {t : Slots κ ι} : allocEntry t a = none ↔ ¬Room t := by
  simp only [allocEntry,List.findSome?_eq_none_iff,List.mem_finRange,true_implies,Room,not_exists]
  constructor
  · intro used i free
    simpa [free] using used i
  · intro used i
    split
    · rfl
    · exact absurd (by assumption) (used i)

theorem lookup_eq_some_iff {t : Slots κ ι} (unique : Unique t) :
    lookup t a = some e ↔ ∃ i, t i = some e ∧ e.addr = a := by
  constructor
  · intro h
    obtain ⟨⟨i,f⟩,found,rfl⟩ := Option.map_eq_some_iff.mp h
    exact ⟨i,findEntry_some found⟩
  · rintro ⟨i,occupied,rfl⟩
    cases found : findEntry t e.addr with
    | none => exact absurd rfl (findEntry_none.mp found i e occupied)
    | some p =>
      obtain ⟨j,f⟩ := p
      obtain ⟨there,same⟩ := findEntry_some found
      obtain rfl := unique i j e f occupied there same.symm
      rw [occupied] at there
      cases there
      simp [lookup,found]

theorem Owns.of_find {t : Slots κ ι} (unique : Unique t) (found : findEntry t a = some (i,e)) :
    Owns t i a := by
  obtain ⟨occupied,rfl⟩ := findEntry_some found
  refine ⟨?_,fun j f there same => unique j i f e there occupied same⟩
  intro f there
  rw [occupied] at there
  cases there
  rfl

theorem Owns.of_alloc {t : Slots κ ι} (missing : findEntry t a = none)
    (allocated : allocEntry t a = some (i,e)) : Owns t i a := by
  obtain ⟨free,-⟩ := allocEntry_some allocated
  refine ⟨fun f there => ?_,fun j f there same => absurd same (findEntry_none.mp missing j f there)⟩
  rw [free] at there
  cases there

section update

variable {t : Slots κ ι} {i : Fin maxEntries} {a : Addr κ} {o : Option (Entry κ ι)}
  (own : Owns t i a) (keyed : ∀ e, o = some e → e.addr = a)
include own keyed

omit [DecidableEq κ] in
theorem Owns.update_unique (unique : Unique t) : Unique (Function.update t i o) := by
  intro j k e f hj hk same
  by_cases ji : j = i <;> by_cases ki : k = i
  · exact ji.trans ki.symm
  · subst ji
    rw [Function.update_self] at hj
    rw [Function.update_of_ne ki] at hk
    exact absurd (own.unique k f hk (same.symm.trans (keyed e hj))) ki
  · subst ki
    rw [Function.update_of_ne ji] at hj
    rw [Function.update_self] at hk
    exact absurd (own.unique j e hj (same.trans (keyed f hk))) ji
  · rw [Function.update_of_ne ji] at hj
    rw [Function.update_of_ne ki] at hk
    exact unique j k e f hj hk same

/-- Writing the slot of `a` changes the entry of `a` and no other entry. -/
theorem Owns.lookup_update (unique : Unique t) (b : Addr κ) :
    lookup (Function.update t i o) b = if b = a then o else lookup t b := by
  have updated := own.update_unique keyed unique
  apply Option.ext
  intro e
  rw [lookup_eq_some_iff updated]
  by_cases same : b = a
  · subst same
    rw [if_pos rfl]
    constructor
    · rintro ⟨j,there,addr⟩
      by_cases ji : j = i
      · subst ji; simpa using there
      · rw [Function.update_of_ne ji] at there
        exact absurd (own.unique j e there addr) ji
    · intro h
      exact ⟨i,by simp [h],keyed e h⟩
  · rw [if_neg same,lookup_eq_some_iff unique]
    constructor
    · rintro ⟨j,there,addr⟩
      by_cases ji : j = i
      · subst ji
        rw [Function.update_self] at there
        exact absurd (addr.symm.trans (keyed e there)) same
      · exact ⟨j,by simpa [ji] using there,addr⟩
    · rintro ⟨j,there,addr⟩
      have ji : j ≠ i := by
        rintro rfl
        exact same (addr.symm.trans (own.only e there))
      exact ⟨j,by simpa [ji] using there,addr⟩

end update

/-- `t'` is `t` with the entry of `a` replaced by `o`. -/
structure Replaces (t : Slots κ ι) (a : Addr κ) (o : Option (Entry κ ι)) (t' : Slots κ ι) : Prop where
  unique : Unique t'
  entries : ∀ b, lookup t' b = if b = a then o else lookup t b

/-- `retire_if_idle` on the entry alone. -/
def settle (e : Entry κ ι) : Option (Entry κ ι) :=
  if e.waiters = [] ∧ e.credit = 0 then none else some e

def parkEntry (e : Entry κ ι) (n : ι) : Option (Entry κ ι) × Enter :=
  if e.waiters.length < maxWaiters then (some { e with waiters := e.waiters ++ [n] },.parked)
  else (some e,.full)

/-- The entry a wait on `a` leaves, from the entry it finds. -/
def enterEntry (a : Addr κ) (room : Bool) (mode : WaitMode) (n : ι) :
    Option (Entry κ ι) → Option (Entry κ ι) × Enter
  | some e =>
    match mode with
    | .gen expected => if e.gen ≠ expected then (settle e,.pass) else parkEntry e n
    | .credit => if 0 < e.credit then (settle { e with credit := e.credit - 1 },.pass) else parkEntry e n
  | none =>
    match mode with
    | .gen expected =>
        if expected ≠ 0 then (none,.pass)
        else if room then (some ⟨a,0,0,[n]⟩,.parked) else (none,.full)
    | .credit => if room then (some ⟨a,0,0,[n]⟩,.parked) else (none,.full)

def leaveEntry [DecidableEq ι] (n : ι) (found : Option (Entry κ ι)) : Option (Entry κ ι) :=
  found.bind fun e => settle (removeWaiter e n)

/-- The entry a wake on `a` leaves, the threads it signals and whether it returned 0. -/
def wakeEntry (a : Addr κ) (room : Bool) (maxN : Nat) (mode : WakeMode) :
    Option (Entry κ ι) → Option (Entry κ ι) × List ι × Bool
  | some e =>
    (settle { e with
        gen := e.gen + 1
        waiters := e.waiters.drop (wakeLimit maxN)
        credit := if e.waiters.length < wakeLimit maxN ∧ mode = .absorb ∧ e.credit < 1 then 1
          else e.credit },
      e.waiters.take (wakeLimit maxN),true)
  | none =>
    if mode = .absorb then
      if room then (some ⟨a,1,1,[]⟩,[],true) else (none,[],false)
    else (none,[],true)

theorem settle_addr (settled : settle e = some f) : f = e := by
  unfold settle at settled
  split at settled
  · cases settled
  · exact (Option.some.inj settled).symm

omit [DecidableEq κ] in
theorem retireIfIdle_eq {t : Slots κ ι} (occupied : t i = some e) :
    retireIfIdle t i = Function.update t i (settle e) := by
  simp only [retireIfIdle,occupied,settle]
  split
  · rfl
  · rw [← occupied,Function.update_eq_self]

omit [DecidableEq κ] in
theorem retireIfIdle_store (t : Slots κ ι) :
    retireIfIdle (store t i e) i = Function.update t i (settle e) := by
  rw [retireIfIdle_eq (e := e) (by simp [store]),store,Function.update_idem]

theorem Replaces.keep {t : Slots κ ι} (unique : Unique t) (same : lookup t a = o) : Replaces t a o t := by
  refine ⟨unique,fun b => ?_⟩
  by_cases ba : b = a
  · rw [if_pos ba,ba,same]
  · rw [if_neg ba]

theorem Replaces.update {t : Slots κ ι} (unique : Unique t) (own : Owns t i a)
    (keyed : ∀ e, o = some e → e.addr = a) : Replaces t a o (Function.update t i o) :=
  ⟨own.update_unique keyed unique,own.lookup_update keyed unique⟩

theorem Replaces.settle {t : Slots κ ι} (unique : Unique t) (own : Owns t i a) (keyed : e.addr = a) :
    Replaces t a (settle e) (Function.update t i (settle e)) :=
  .update unique own fun _ settled => by rw [settle_addr settled,keyed]

theorem park_spec {t : Slots κ ι} (unique : Unique t) (own : Owns t i a) (keyed : e.addr = a)
    (occupied : t i = some e) :
    Replaces t a (parkEntry e n).1 (park t i e n).1 ∧ (park t i e n).2 = (parkEntry e n).2 := by
  unfold park parkEntry pushWaiter
  by_cases short : e.waiters.length < maxWaiters
  · simp only [short,if_true,and_true]
    exact .update unique own fun _ h => by cases h; exact keyed
  · simp only [short,if_false,and_true]
    rw [retireIfIdle_eq occupied]
    have busy : Sync.settle e = some e := by
      rw [Sync.settle,if_neg]
      rintro ⟨empty,-⟩
      exact short (by simp [empty,maxWaiters])
    rw [busy]
    exact .update unique own fun _ h => by cases h; exact keyed

theorem parkFresh_spec {t : Slots κ ι} (unique : Unique t) (missing : findEntry t a = none) :
    Replaces t a (enterEntry a (decide (Room t)) .credit n none).1 (parkFresh t a n).1 ∧
      (parkFresh t a n).2 = (enterEntry a (decide (Room t)) .credit n none).2 := by
  simp only [parkFresh,enterEntry,decide_eq_true_eq]
  cases allocated : allocEntry t a with
  | none =>
    rw [if_neg (allocEntry_none.mp allocated)]
    exact ⟨.keep unique (by simp [lookup,missing]),rfl⟩
  | some p =>
    obtain ⟨i,e⟩ := p
    obtain ⟨free,rfl⟩ := allocEntry_some allocated
    rw [if_pos ⟨i,free⟩]
    have own := Owns.of_alloc missing allocated
    simp only [park,pushWaiter,List.length_nil,maxWaiters,Nat.zero_lt_succ,if_true,List.nil_append,
      and_true,store,Function.update_idem]
    exact .update unique own fun _ h => by cases h; rfl

theorem enterSection_spec {t : Slots κ ι} (unique : Unique t) :
    Replaces t a (enterEntry a (decide (Room t)) mode n (lookup t a)).1 (enterSection t a mode n).1 ∧
      (enterSection t a mode n).2 = (enterEntry a (decide (Room t)) mode n (lookup t a)).2 := by
  cases found : findEntry t a with
  | none =>
    have fresh := parkFresh_spec (n := n) unique found
    have absent : lookup t a = none := by simp [lookup,found]
    cases mode with
    | credit => simpa [enterSection,found,absent] using fresh
    | gen expected =>
      by_cases zero : expected = 0
      · simpa [enterSection,found,absent,enterEntry,zero] using fresh
      · simpa [enterSection,found,absent,enterEntry,zero] using Replaces.keep unique absent
  | some p =>
    obtain ⟨i,e⟩ := p
    obtain ⟨occupied,keyed⟩ := findEntry_some found
    have own := Owns.of_find unique found
    have present : lookup t a = some e := by simp [lookup,found]
    have parked := park_spec (n := n) unique own keyed occupied
    cases mode with
    | credit =>
      by_cases stored : 0 < e.credit
      · simp only [enterSection,found,present,enterEntry,stored,if_true,and_true,retireIfIdle_store]
        exact .settle unique own keyed
      · simpa [enterSection,found,present,enterEntry,stored] using parked
    | gen expected =>
      by_cases same : e.gen = expected
      · simpa [enterSection,found,present,enterEntry,same] using parked
      · simp only [enterSection,found,present,enterEntry,same,ne_eq,not_false_eq_true,if_true,and_true,
          retireIfIdle_eq occupied]
        exact .settle unique own keyed

theorem leaveSection_spec [DecidableEq ι] {t : Slots κ ι} (unique : Unique t) :
    Replaces t a (leaveEntry n (lookup t a)) (leaveSection t a n) := by
  cases found : findEntry t a with
  | none =>
    have absent : lookup t a = none := by simp [lookup,found]
    simpa [leaveSection,leaveEntry,found,absent] using Replaces.keep unique absent
  | some p =>
    obtain ⟨i,e⟩ := p
    obtain ⟨occupied,keyed⟩ := findEntry_some found
    have present : lookup t a = some e := by simp [lookup,found]
    simp only [leaveSection,found,leaveEntry,present,Option.bind_some,retireIfIdle_store]
    exact .settle unique (.of_find unique found) keyed

omit [DecidableEq κ] in
theorem popLoop_eq (k : Nat) (e : Entry κ ι) :
    popLoop k e = (e.waiters.take k,{ e with waiters := e.waiters.drop k }) := by
  induction k generalizing e with
  | zero => simp [popLoop]
  | succ k ih =>
    unfold popLoop popWaiter
    cases queue : e.waiters with
    | nil =>
      obtain ⟨addr,credit,gen,waiters⟩ := e
      obtain rfl : waiters = [] := queue
      simp
    | cons n rest => simp [ih]

theorem wakeSection_spec {t : Slots κ ι} (unique : Unique t) :
    Replaces t a (wakeEntry a (decide (Room t)) maxN mode (lookup t a)).1 (wakeSection t a maxN mode).1 ∧
      (wakeSection t a maxN mode).2 = (wakeEntry a (decide (Room t)) maxN mode (lookup t a)).2 := by
  cases found : findEntry t a with
  | some p =>
    obtain ⟨i,e⟩ := p
    obtain ⟨occupied,keyed⟩ := findEntry_some found
    have present : lookup t a = some e := by simp [lookup,found]
    have shortened (k : Nat) : (e.waiters.take k).length < k ↔ e.waiters.length < k := by
      rw [List.length_take]
      omega
    simp only [wakeSection,found,present,wakeEntry,popLoop_eq,retireIfIdle_store,shortened,and_true]
    exact .settle unique (.of_find unique found) keyed
  | none =>
    have absent : lookup t a = none := by simp [lookup,found]
    by_cases absorb : mode = .absorb
    · cases allocated : allocEntry t a with
      | none =>
        simp only [wakeSection,found,absent,wakeEntry,absorb,if_true,allocated,decide_eq_true_eq,
          if_neg (allocEntry_none.mp allocated),and_true]
        exact .keep unique absent
      | some p =>
        obtain ⟨i,e⟩ := p
        obtain ⟨free,rfl⟩ := allocEntry_some allocated
        have room : Room t := ⟨i,free⟩
        have own := Owns.of_alloc found allocated
        simp only [wakeSection,found,absent,wakeEntry,absorb,if_true,allocated,decide_eq_true_eq,room,
          and_true,retireIfIdle_store]
        exact .settle (e := ⟨a,1,1,[]⟩) unique own rfl
    · simpa [wakeSection,found,absent,wakeEntry,absorb] using Replaces.keep unique absent

/-- The table as the lock holders leave it: no address has two entries. -/
structure Table (κ ι : Type) where
  slots : Slots κ ι
  unique : Unique slots

namespace Table

def empty : Table κ ι := ⟨fun _ => none,fun _ _ _ _ h => by cases h⟩

def entry (t : Table κ ι) (a : Addr κ) : Option (Entry κ ι) := lookup t.slots a

def room (t : Table κ ι) : Bool := decide (Room t.slots)

def enter (t : Table κ ι) (a : Addr κ) (mode : WaitMode) (n : ι) : Table κ ι × Enter :=
  (⟨(enterSection t.slots a mode n).1,(enterSection_spec t.unique).1.unique⟩,
    (enterSection t.slots a mode n).2)

def leave [DecidableEq ι] (t : Table κ ι) (a : Addr κ) (n : ι) : Table κ ι :=
  ⟨leaveSection t.slots a n,(leaveSection_spec t.unique).unique⟩

def wake (t : Table κ ι) (a : Addr κ) (maxN : Nat) (mode : WakeMode) : Table κ ι × List ι × Bool :=
  (⟨(wakeSection t.slots a maxN mode).1,(wakeSection_spec t.unique).1.unique⟩,
    (wakeSection t.slots a maxN mode).2)

@[simp] theorem entry_empty (a : Addr κ) : (empty : Table κ ι).entry a = none := by
  have missing : findEntry (empty : Table κ ι).slots a = none :=
    findEntry_none.mpr fun _ _ occupied => by cases occupied
  simp [entry,lookup,missing]

theorem entry_enter (t : Table κ ι) (b : Addr κ) : (t.enter a mode n).1.entry b =
    if b = a then (enterEntry a t.room mode n (t.entry a)).1 else t.entry b :=
  (enterSection_spec t.unique).1.entries b

theorem enter_outcome (t : Table κ ι) :
    (t.enter a mode n).2 = (enterEntry a t.room mode n (t.entry a)).2 :=
  (enterSection_spec t.unique).2

theorem entry_leave [DecidableEq ι] (t : Table κ ι) (b : Addr κ) :
    (t.leave a n).entry b = if b = a then leaveEntry n (t.entry a) else t.entry b :=
  (leaveSection_spec t.unique).entries b

theorem entry_wake (t : Table κ ι) (b : Addr κ) : (t.wake a maxN mode).1.entry b =
    if b = a then (wakeEntry a t.room maxN mode (t.entry a)).1 else t.entry b :=
  (wakeSection_spec t.unique).1.entries b

theorem wake_outcome (t : Table κ ι) :
    (t.wake a maxN mode).2 = (wakeEntry a t.room maxN mode (t.entry a)).2 :=
  (wakeSection_spec t.unique).2

/-- A table that only ever holds one address never fills up. -/
theorem room_of_alone (t : Table κ ι) (alone : ∀ b, b ≠ a → t.entry b = none) : t.room = true := by
  have keyed : ∀ i e, t.slots i = some e → e.addr = a := by
    intro i e occupied
    by_contra other
    have found := (lookup_eq_some_iff t.unique).mpr ⟨i,occupied,rfl⟩
    rw [show lookup t.slots e.addr = t.entry e.addr from rfl,alone e.addr other] at found
    cases found
  refine decide_eq_true (Classical.byContradiction fun full => ?_)
  have used : ∀ i, ∃ e, t.slots i = some e := fun i => Option.ne_none_iff_exists'.mp fun free => full ⟨i,free⟩
  obtain ⟨e,first⟩ := used ⟨0,by decide⟩
  obtain ⟨f,second⟩ := used ⟨1,by decide⟩
  have same := t.unique _ _ e f first second ((keyed _ e first).trans (keyed _ f second).symm)
  exact absurd (congrArg Fin.val same) (by decide)

/-- The threads parked on an address, in wake order. -/
def waiters (t : Table κ ι) (a : Addr κ) : List ι := (t.entry a).elim [] Entry.waiters

def credit (t : Table κ ι) (a : Addr κ) : Nat := (t.entry a).elim 0 Entry.credit

@[simp] theorem waiters_empty (a : Addr κ) : (empty : Table κ ι).waiters a = [] := by simp [waiters]

@[simp] theorem credit_empty (a : Addr κ) : (empty : Table κ ι).credit a = 0 := by simp [credit]

omit [DecidableEq κ] in
@[simp] theorem settle_waiters (e : Entry κ ι) : (settle e).elim [] Entry.waiters = e.waiters := by
  unfold settle
  split
  · rename_i idle
    exact idle.1.symm
  · rfl

omit [DecidableEq κ] in
@[simp] theorem settle_credit (e : Entry κ ι) : (settle e).elim 0 Entry.credit = e.credit := by
  unfold settle
  split
  · rename_i idle
    exact idle.2.symm
  · rfl

theorem waiters_enter (t : Table κ ι) (a b : Addr κ) (mode : WaitMode) (n : ι) :
    (t.enter a mode n).1.waiters b =
      if b = a ∧ (t.enter a mode n).2 = .parked then t.waiters a ++ [n] else t.waiters b := by
  by_cases same : b = a
  · subst same
    simp only [waiters,entry_enter,enter_outcome,if_true,true_and]
    cases t.entry b <;> cases mode <;> simp only [enterEntry,parkEntry] <;> split_ifs <;> simp_all
  · simp [waiters,entry_enter,same]

theorem credit_enter (t : Table κ ι) (a b : Addr κ) (mode : WaitMode) (n : ι) :
    (t.enter a mode n).1.credit b =
      if b = a ∧ mode = .credit ∧ (t.enter a mode n).2 = .pass then t.credit a - 1 else t.credit b := by
  by_cases same : b = a
  · subst same
    simp only [credit,entry_enter,enter_outcome,if_true,true_and]
    cases t.entry b <;> cases mode <;> simp only [enterEntry,parkEntry] <;> split_ifs <;> simp_all
  · simp [credit,entry_enter,same]

theorem waiters_leave [DecidableEq ι] (t : Table κ ι) (a b : Addr κ) (n : ι) :
    (t.leave a n).waiters b = if b = a then (t.waiters a).erase n else t.waiters b := by
  by_cases same : b = a
  · subst same
    simp only [waiters,entry_leave,if_true,leaveEntry]
    cases t.entry b <;> simp [removeWaiter]
  · simp [waiters,entry_leave,same]

theorem credit_leave [DecidableEq ι] (t : Table κ ι) (a b : Addr κ) (n : ι) :
    (t.leave a n).credit b = t.credit b := by
  by_cases same : b = a
  · subst same
    simp only [credit,entry_leave,if_true,leaveEntry]
    cases t.entry b <;> simp [removeWaiter]
  · simp [credit,entry_leave,same]

theorem waiters_wake (t : Table κ ι) (a b : Addr κ) (maxN : Nat) (mode : WakeMode) :
    (t.wake a maxN mode).1.waiters b =
      if b = a then (t.waiters a).drop (wakeLimit maxN) else t.waiters b := by
  by_cases same : b = a
  · subst same
    simp only [waiters,entry_wake,if_true]
    cases t.entry b <;> simp only [wakeEntry] <;> (try split_ifs) <;> simp
  · simp [waiters,entry_wake,same]

theorem wake_signalled (t : Table κ ι) (a : Addr κ) (maxN : Nat) (mode : WakeMode) :
    (t.wake a maxN mode).2.1 = (t.waiters a).take (wakeLimit maxN) := by
  simp only [waiters,wake_outcome]
  cases t.entry a <;> simp only [wakeEntry] <;> (try split_ifs) <;> simp

theorem credit_wake_other (t : Table κ ι) (other : b ≠ a) :
    (t.wake a maxN mode).1.credit b = t.credit b := by
  simp [credit,entry_wake,other]

/-- An absorbing wake that runs out of waiters leaves a credit, if there is room for it. -/
theorem credit_wake_absorb (t : Table κ ι) (room : t.room) (short : (t.waiters a).length < wakeLimit maxN) :
    0 < (t.wake a maxN .absorb).1.credit a := by
  simp only [credit,entry_wake,if_true]
  cases found : t.entry a with
  | none => simp [wakeEntry,room]
  | some e =>
    have few : e.waiters.length < wakeLimit maxN := by simpa [waiters,found] using short
    simp only [wakeEntry,settle_credit,few,true_and]
    split_ifs <;> omega

end Table

end Qsoe.Sync
