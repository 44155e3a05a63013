import Qsoe.Taskman.Handlers
import Mathlib.Data.List.Nodup

/-! Badges come from three counters that know nothing of each other: scoids, pids and pipe
ids. Rows of one draw always agree on client and channel, so a badge routes to its own
connection as long as no two draws in use share a number. -/
namespace Qsoe.Taskman

variable {cfg : Config} {s t : State cfg} {v w : Tables cfg}

namespace Tables

/-- Rows with equal badges come from one draw. -/
def Apart (v : Tables cfg) : Prop :=
  ∀ j k, ∀ r ∈ v.rows j, ∀ r' ∈ v.rows k, r.badge = r'.badge → r.source = r'.source

/-- No row in use carries the number of `σ` from another draw. -/
def Unclaimed (v : Tables cfg) (σ : Source) : Prop :=
  ∀ j, ∀ r ∈ v.rows j, r.badge = σ.badge → r.source = σ

def Clear (v : Tables cfg) (l : List Source) : Prop :=
  (∀ σ ∈ l, v.Unclaimed σ) ∧ (l.map Source.badge).Nodup

instance (v : Tables cfg) : Decidable v.Apart :=
  inferInstanceAs (Decidable (∀ j k, ∀ r ∈ v.rows j, ∀ r' ∈ v.rows k, r.badge = r'.badge → r.source = r'.source))

instance (v : Tables cfg) (σ : Source) : Decidable (v.Unclaimed σ) :=
  inferInstanceAs (Decidable (∀ j, ∀ r ∈ v.rows j, r.badge = σ.badge → r.source = σ))

instance (v : Tables cfg) (l : List Source) : Decidable (v.Clear l) :=
  inferInstanceAs (Decidable ((∀ σ ∈ l, v.Unclaimed σ) ∧ (l.map Source.badge).Nodup))

/-- A move keeps the connections it finds and adds at most those it is labelled with. -/
theorem Move.rows (move : Move v l w) (used : w.rows j = some r) :
    (∃ k r', v.rows k = some r' ∧ Row.Like r' r) ∨ r.source ∈ l := by
  cases move with
  | scoid => exact .inl ⟨j,r,used,.refl r⟩
  | pipe => exact .inl ⟨j,r,used,.refl r⟩
  | register enters =>
    rcases Slab.put_cases used with ⟨-,rfl⟩ | old
    · exact .inr (List.mem_singleton_self _)
    · exact .inl ⟨j,r,old,.refl r⟩
  | alter row like =>
    rcases Slab.put_cases used with ⟨-,rfl⟩ | old
    · exact .inl ⟨_,_,row,like⟩
    · exact .inl ⟨j,r,old,.refl r⟩
  | unregister => exact .inl ⟨j,r,(Slab.erase_some used).2,.refl r⟩
  | create _ _ _ => exact .inl ⟨j,r,used,.refl r⟩
  | mute _ => exact .inl ⟨j,r,used,.refl r⟩
  | destroy => exact .inl ⟨j,r,(Slab.drop_some.mp used).1,.refl r⟩

theorem Path.rows (path : Path v l w) (used : w.rows j = some r) :
    (∃ k r', v.rows k = some r' ∧ Row.Like r' r) ∨ r.source ∈ l := by
  induction path with
  | nil => exact .inl ⟨j,r,used,.refl r⟩
  | cons move _ ih =>
    rcases ih used with ⟨k,r',mid,like⟩ | added
    · rcases move.rows mid with ⟨i,q,old,like'⟩ | added
      · exact .inl ⟨i,q,old,like'.trans like⟩
      · right
        rw [like.source]
        exact List.mem_append_left _ added
    · exact .inr (List.mem_append_right _ added)

theorem Draws.apart (draws : Draws v l w) (wf : Wf v) (apart : Apart v) (clear : Clear v l) : Apart w := by
  have wf' := draws.wf wf
  obtain ⟨m,sub,path⟩ := draws
  intro j k r used r' used' equal
  rcases path.rows used with ⟨i,q,old,like⟩ | new
  · rcases path.rows used' with ⟨i',q',old',like'⟩ | new'
    · rw [like.source,like'.source]
      rw [like.badge,like'.badge] at equal
      exact apart i i' q old q' old' equal
    · rw [like.source]
      apply clear.1 r'.source (sub.subset new') i q old
      rw [← like.badge,equal]
      exact wf'.number k r' used'
  · rcases path.rows used' with ⟨i',q',old',like'⟩ | new'
    · rw [like'.source]
      symm
      apply clear.1 r.source (sub.subset new) i' q' old'
      rw [← like'.badge,← equal]
      exact wf'.number j r used
    · rw [wf'.number j r used,wf'.number k r' used'] at equal
      exact List.inj_on_of_nodup_map clear.2 (sub.subset new) (sub.subset new') equal

theorem Apart.teardown (apart : Apart v) (pid : Pid) : Apart (v.teardown pid) := by
  intro j k r used r' used' equal
  exact apart j k r (Slab.drop_some.mp used).1 r' (Slab.drop_some.mp used').1 equal

end Tables

open Tables

/-- Every number the event draws is one that no row in use carries from another draw. -/
def drawsClear (s : State cfg) (e : Event) : Prop := s.tables.Clear (e.draws s)

instance : DecidableRel (@drawsClear cfg) := fun s e => inferInstanceAs (Decidable (s.tables.Clear (e.draws s)))

/-- A badge names one client and one channel, and every lookup by badge finds them. -/
structure Routed (s : State cfg) : Prop where
  unambiguous : ∀ j k r r', s.rows j = some r → s.rows k = some r' → r.badge = r'.badge →
    r.clientPid = r'.clientPid ∧ r.channelIdx = r'.channelIdx
  found : ∀ j r, s.rows j = some r → ∃ k r', s.connectionFindByBadge r.badge = some (k,r') ∧
    r'.clientPid = r.clientPid ∧ r'.channelIdx = r.channelIdx ∧ s.connectionGetCtx r.badge = .ok (s.ctx k)
  client : ∀ j r, s.rows j = some r → s.connectionClientPid r.badge = r.clientPid
  info : ∀ j r, s.rows j = some r → ∃ flags, s.connectClientInfo r.badge = .ok (r.clientPid,r.clientPid,flags)
  channel : ∀ j r, s.rows j = some r → s.channelByBadge r.badge = s.channelAt r.channelIdx
  pulse : ∀ pid slot j r, s.connectionFindBySlot pid slot = some (j,r) →
    s.pulseChannel pid slot = (s.channels r.channelIdx).map fun _ => r.channelIdx

theorem channelIndex_self (wf : Wf s.tables) (used : s.channels i = some c) :
    s.channelIndex c.owner c.chid = some i := by
  have own : c.matches cfg c.owner c.chid = true := by simp [Channel.matches]
  obtain ⟨k,c',found⟩ := Slab.find_of_used (Channel.matches cfg c.owner c.chid) used own
  obtain ⟨used',hit⟩ := Slab.find_some found
  have same : i = k := wf.keys i k c c' used used' hit
  rw [State.channelIndex,State.channelFind,found,same]
  rfl

theorem routed (wf : Wf s.tables) (apart : Apart s.tables) : Routed s := by
  have unambiguous : ∀ j k r r', s.rows j = some r → s.rows k = some r' → r.badge = r'.badge →
      r.clientPid = r'.clientPid ∧ r.channelIdx = r'.channelIdx := by
    intro j k r r' used used' equal
    exact wf.same j k r r' used used' (apart j k r used r' used' equal)
  have lookup : ∀ j r, s.rows j = some r → ∃ k r', s.connectionFindByBadge r.badge = some (k,r') ∧
      r'.clientPid = r.clientPid ∧ r'.channelIdx = r.channelIdx := by
    intro j r used
    obtain ⟨k,r',found⟩ := Slab.find_of_used (fun q => q.badge == r.badge) used (by simp)
    obtain ⟨used',equal⟩ := Slab.find_some found
    exact ⟨k,r',found,unambiguous k j r' r used' used (by simpa using equal)⟩
  have channel : ∀ j r, s.rows j = some r → s.channelByBadge r.badge = s.channelAt r.channelIdx := by
    intro j r used
    obtain ⟨k,r',found,-,same⟩ := lookup j r used
    simp only [State.channelByBadge,found,same]
  refine ⟨unambiguous,?_,?_,?_,channel,?_⟩
  · intro j r used
    obtain ⟨k,r',found,client,same⟩ := lookup j r used
    exact ⟨k,r',found,client,same,by simp [State.connectionGetCtx,found]⟩
  · intro j r used
    obtain ⟨k,r',found,client,-⟩ := lookup j r used
    simp [State.connectionClientPid,found,client]
  · intro j r used
    obtain ⟨k,r',found,client,-⟩ := lookup j r used
    exact ⟨r'.flags,by simp [State.connectClientInfo,found,client]⟩
  · intro pid slot j r found
    have used : s.rows j = some r := (Slab.find_some found).1
    simp only [State.pulseChannel,State.connectionBadgeBySlot,found,Option.map_some,Option.bind_some,
      channel j r used,State.channelAt]
    cases live : s.channels r.channelIdx with
    | none => rfl
    | some c => exact channelIndex_self wf live

/-- A row in use carries the number of `σ` to the channel at `idx`. -/
def Tables.Holds (v : Tables cfg) (σ : Source) (idx : Fin cfg.channels) : Prop :=
  ∃ j r, v.rows j = some r ∧ r.badge = σ.badge ∧ r.channelIdx = idx

namespace State

theorem connectionRegisterExisting_ok
    (added : s.connectionRegisterExisting pid slot idx σ flags = (t,.ok u)) :
    (∀ τ i, s.tables.Holds τ i → t.tables.Holds τ i) ∧ t.tables.Holds σ idx ∧
      t.channels = s.channels ∧ t.scoids = s.scoids := by
  unfold connectionRegisterExisting at added
  split at added
  · cases added
  · split at added
    · cases added
    · rename_i j free
      obtain ⟨rfl,-⟩ := Prod.mk.inj added
      refine ⟨?_,⟨j,_,Slab.put_same s.rows,rfl,rfl⟩,rfl,rfl⟩
      rintro τ i ⟨k,r,used,row⟩
      have other : k ≠ j := by
        rintro rfl
        cases (Slab.free_some free).symm.trans used
      exact ⟨k,r,(Slab.put_other s.rows other).trans used,row⟩

theorem spawnStdio_ok (done : s.spawnStdio pid cnode idx master slots = (t,.ok u)) :
    (∀ τ i, s.tables.Holds τ i → t.tables.Holds τ i) ∧
      (∀ σ ∈ scoidsFrom s.scoids slots.length, t.tables.Holds σ idx) ∧ t.channels = s.channels := by
  induction slots generalizing s with
  | nil =>
    obtain ⟨rfl,-⟩ := Prod.mk.inj done
    exact ⟨fun _ _ holds => holds,by simp [scoidsFrom],rfl⟩
  | cons head rest ih =>
    obtain ⟨slot,minted⟩ := head
    rw [spawnStdio] at done
    split at done
    · cases done
    · rename_i held minting
      have kept := mint_tables minting
      split at done
      · cases done
      · rename_i next _ registering
        obtain ⟨earlier,scoids,channels⟩ := ih done
        obtain ⟨before,added,same,drawn⟩ := connectionRegisterExisting_ok registering
        have count : next.scoids = s.scoids + 1 := drawn.trans (congrArg Tables.scoids kept)
        refine ⟨?_,?_,channels.trans (same.trans (congrArg Tables.channels kept))⟩
        · intro τ i holds
          apply earlier τ i
          apply before τ i
          rw [kept]
          exact holds
        · intro σ member
          rw [List.length_cons,scoidsFrom,List.mem_cons] at member
          rcases member with rfl | later
          · exact earlier _ idx added
          · rw [← count] at later
            exact scoids σ later

theorem spawnRegister_ok (done : s.spawnRegister pid cnode moved = (t,.ok u)) :
    (∀ τ i, s.tables.Holds τ i → t.tables.Holds τ i) ∧
      ∃ idx c, t.tables.Holds (.sysmgr pid) idx ∧ s.channels idx = some c ∧ c.Primary := by
  have recorded := (processRegister_quiet s pid cnode capWellKnownEnd).tables
  unfold spawnRegister at done
  split at done
  · cases done
  · rename_i next _ registering
    rw [registering] at recorded
    split at done
    · cases done
    · rename_i idx c found
      split at done
      · cases done
      · rename_i connecting
        split at done
        · obtain ⟨rfl,-⟩ := Prod.mk.inj done
          obtain ⟨before,added,-⟩ := connectionRegisterExisting_ok connecting
          obtain ⟨live,primary⟩ := channelFind_primary found
          rw [recorded] at live before
          exact ⟨before,idx,c,added,live,primary⟩
        · cases done

theorem spawn_ok (done : s.spawn pid k = (t,.ok u)) :
    ∃ server chid idx c idx' c', k.console = some (server,chid) ∧ s.channelFind server chid = some (idx,c) ∧
      (∀ σ ∈ scoidsFrom s.scoids 3, t.tables.Holds σ idx) ∧
      t.tables.Holds (.sysmgr pid) idx' ∧ s.channels idx' = some c' ∧ c'.Primary := by
  unfold spawn at done
  split at done
  · cases done
  · split at done
    · cases done
    · rename_i held minting
      have minted := mint_tables minting
      have kept : held.tables = s.tables := minted
      split at done
      · cases done
      · split at done
        · cases done
        · rename_i idx c resolving
          obtain ⟨⟨server,chid⟩,console,found⟩ := Option.bind_eq_some_iff.mp resolving
          split at done
          · cases done
          · rename_i stdio _ looping
            obtain ⟨-,scoids,channels⟩ := spawnStdio_ok looping
            split at done
            · cases done
            · obtain ⟨earlier,idx',c',added,live,primary⟩ := spawnRegister_ok done
              have same : held.channels = s.channels := congrArg Tables.channels kept
              have count : held.scoids = s.scoids := congrArg Tables.scoids kept
              rw [channelFind,same] at found
              rw [count] at scoids
              refine ⟨server,chid,idx,c,idx',c',console,found,?_,added,?_,primary⟩
              · intro σ member
                exact earlier σ idx (scoids σ member)
              · rw [← same,← channels]
                exact live

end State

theorem boot_not_routed (booted : boot cfg = some s) : ¬ Routed s := by
  intro routed
  obtain ⟨registered,registering,rest⟩ := Option.bind_eq_some_iff.mp booted
  obtain ⟨⟨issued,pid⟩,allocating,spawning⟩ := Option.bind_eq_some_iff.mp rest
  have frame := registerBoot_frame registering
  have quiet := (State.pidAlloc_quiet allocating).tables
  obtain rfl : 2 = pid := by
    have free : registered.freePids = [] := frame.freePids
    have next : registered.nextPid = 2 := frame.nextPid
    rw [State.pidAlloc,free,next] at allocating
    exact (Prod.mk.inj (Option.some.inj allocating)).2
  have count : issued.scoids = 0 := (congrArg Tables.scoids quiet).trans frame.scoids
  dsimp only at spawning
  split at spawning
  · cases spawning
  · rename_i done
    obtain rfl := Option.some.inj spawning
    obtain ⟨server,chid,idx,c,idx',c',console,found,scoids,sysmgr,live,primary⟩ := State.spawn_ok done
    obtain ⟨rfl,rfl⟩ := Prod.mk.inj (Option.some.inj console)
    obtain ⟨j,r,used,badge,channel⟩ := scoids (.scoid 1) (by simp [count,scoidsFrom])
    obtain ⟨k,r',used',badge',channel'⟩ := sysmgr
    have equal : r.badge = r'.badge := by
      rw [badge,badge']
      decide
    have same := (routed.unambiguous j k r r' used used' equal).2
    rw [channel,channel'] at same
    subst same
    obtain ⟨live',hit⟩ := Slab.find_some found
    obtain rfl : c' = c := Option.some.inj (live.symm.trans live')
    rw [Channel.matches,primary.2] at hit
    exact absurd hit (by simp [consoleChid])

theorem step_apart (s : State cfg) (e : Event) (t : State cfg) (inv : Wf s.tables ∧ Apart s.tables)
    (clear : drawsClear s e) (taken : step s e = some t) : Wf t.tables ∧ Apart t.tables := by
  refine ⟨step_wf s e t inv.1 taken,?_⟩
  rcases step_tables inv.1 taken with path | ⟨pid,-,-,gone⟩
  · exact path.apart inv.1 inv.2 clear
  · rw [gone]
    exact inv.2.teardown pid

/-- Routing by badge fails right after boot. From any reachable state in which draws are apart
it holds for as long as every number drawn is one that no row in use carries from another
draw. -/
theorem badges_route_apart (booted : boot cfg = some first) :
    ¬ Routed first ∧ ∀ es s fs t, Lts.Run step anyStep first es s → Apart s.tables →
      Lts.Run step drawsClear s fs t → Routed t := by
  refine ⟨boot_not_routed booted,?_⟩
  intro es s fs t before apart run
  have wf := before.invariant (fun s => Wf s.tables)
    (fun s e t wf _ taken => step_wf s e t wf taken) (boot_wf booted)
  have inv := run.invariant (fun s => Wf s.tables ∧ Apart s.tables) step_apart ⟨wf,apart⟩
  exact routed inv.1 inv.2

/-- Init closes its stdout and stderr, opens a file and spawns pid 3, whose scoids are 5, 6
and 7: every badge routes to its own connection. -/
theorem badges_route_apart_closed : ∃ s t,
    Lts.Run step anyStep smallBoot
      [.message 1 1 0 (.connectDetach capStdoutConnect true),
        .message 1 1 0 (.connectDetach capStderrConnect true)] s ∧
    Lts.Run step drawsClear s
      [.message 1 1 0 (.openPath (some (pidTaskman,3)) ⟨true,true⟩ true true),
        .message 1 1 0 (.processCreate bootSpawn)] t ∧
    t.pidOf 2 = some 3 ∧ Routed t := by
  obtain ⟨s,before,apart,ready⟩ := Lts.Run.exists_of_replay step anyStep smallBoot
    [.message 1 1 0 (.connectDetach capStdoutConnect true),
      .message 1 1 0 (.connectDetach capStderrConnect true)]
    (fun s => s.tables.Apart ∧ (Lts.replay step drawsClear s
      [.message 1 1 0 (.openPath (some (pidTaskman,3)) ⟨true,true⟩ true true),
        .message 1 1 0 (.processCreate bootSpawn)]).any (fun t => decide (t.pidOf 2 = some 3)) = true)
    (by decide +kernel)
  obtain ⟨t,run,child⟩ := Lts.Run.exists_of_replay step drawsClear s _ _ ready
  exact ⟨s,t,before,run,child,(badges_route_apart boot_small).2 _ s _ t before apart run⟩

/-- Badge 2 is both init's stdout on the console and its SYSMGR connection. -/
theorem stdout_is_sysmgr : ¬ ∀ es s, Lts.Run step anyStep smallBoot es s → Routed s := by
  intro routed
  have stdout : smallBoot.rows (1 : Fin 16) = some ⟨(1 : Fin 12),2,2,capStdoutConnect,0,0,.scoid 1,
    1⟩ := by decide +kernel
  have sysmgr : smallBoot.rows (3 : Fin 16) =
    some ⟨(0 : Fin 12),2,2,capTaskmanEp,0,0,.sysmgr 2,0⟩ := by decide +kernel
  have same := ((routed [] smallBoot .nil).unambiguous _ _ _ _ stdout sysmgr rfl).2
  exact absurd same (by decide)

end Qsoe.Taskman
