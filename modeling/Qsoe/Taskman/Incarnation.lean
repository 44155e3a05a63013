import Qsoe.Taskman.Badge

/-! A row names its channel by table index. `tm_channel_destroy` drops the rows of the index
it frees; `tm_process_terminate` frees the channels of the process but drops only the rows
the process held as a client. -/
namespace Qsoe.Taskman

variable {cfg : Config} {s t : State cfg} {v w : Tables cfg}

namespace Tables

/-- Every row in use names the channel it was made to; create calls are numbered. -/
structure Attached (v : Tables cfg) : Prop where
  rows : ∀ j r, v.rows j = some r → ∃ c, v.channels r.channelIdx = some c ∧ c.born = r.target
  born : ∀ i c, v.channels i = some c → c.born < v.objects
  once : ∀ i k c c', v.channels i = some c → v.channels k = some c' → c.born = c'.born → i = k

/-- No other process holds a row to a channel of `pid`. -/
def Orderly (v : Tables cfg) (pid : Pid) : Prop :=
  ∀ j, ∀ r ∈ v.rows j, r.clientPid ≠ pid → ∀ c ∈ v.channels r.channelIdx, c.owner ≠ pid

instance (v : Tables cfg) (pid : Pid) : Decidable (v.Orderly pid) :=
  inferInstanceAs (Decidable (∀ j, ∀ r ∈ v.rows j, r.clientPid ≠ pid →
    ∀ c ∈ v.channels r.channelIdx, c.owner ≠ pid))

/-- Rows of connections that were there before, on channels that stay. -/
theorem Attached.of_like (attached : Attached v) (channels : w.channels = v.channels)
    (objects : w.objects = v.objects)
    (like : ∀ j r, w.rows j = some r → ∃ k r', v.rows k = some r' ∧ Row.Like r' r) : Attached w where
  rows j r used := by
    obtain ⟨k,r',old,same⟩ := like j r used
    rw [channels,same.channelIdx,same.target]
    exact attached.rows k r' old
  born := by
    rw [channels,objects]
    exact attached.born
  once := by
    rw [channels]
    exact attached.once

theorem Attached.register (attached : Attached v) (enters : v.Enters r c) :
    Attached { v with rows := Slab.put v.rows j r } where
  rows k q used := by
    rcases Slab.put_cases used with ⟨-,rfl⟩ | old
    · exact ⟨c,enters.live,enters.born.symm⟩
    · exact attached.rows k q old
  born := attached.born
  once := attached.once

theorem Attached.create (attached : Attached v) (free : v.channels i = none) (fresh : c.born = v.objects) :
    Attached { v with channels := Slab.put v.channels i c, objects := v.objects + 1 } where
  rows j r used := by
    obtain ⟨d,live,same⟩ := attached.rows j r used
    have other : r.channelIdx ≠ i := by
      rintro rfl
      cases free.symm.trans live
    exact ⟨d,(Slab.put_other v.channels other).trans live,same⟩
  born k d used := by
    rcases Slab.put_cases used with ⟨-,rfl⟩ | old
    · exact fresh ▸ Nat.lt_succ_self _
    · exact Nat.lt_succ_of_lt (attached.born k d old)
  once k l d d' used used' equal := by
    rcases Slab.put_cases used with ⟨rfl,rfl⟩ | old
    · rcases Slab.put_cases used' with ⟨rfl,-⟩ | old'
      · rfl
      · have bound := attached.born l d' old'
        omega
    · rcases Slab.put_cases used' with ⟨rfl,rfl⟩ | old'
      · have bound := attached.born k d old
        omega
      · exact attached.once k l d d' old old' equal

theorem Attached.channels_sub (attached : Attached v) (objects : w.objects = v.objects)
    (sub : ∀ i c, w.channels i = some c → ∃ c', v.channels i = some c' ∧ c'.born = c.born)
    (rows : ∀ j r, w.rows j = some r → v.rows j = some r ∧
      ∀ c, v.channels r.channelIdx = some c → ∃ c', w.channels r.channelIdx = some c' ∧ c'.born = c.born) :
    Attached w where
  rows j r used := by
    obtain ⟨old,stays⟩ := rows j r used
    obtain ⟨c,live,same⟩ := attached.rows j r old
    obtain ⟨c',live',born⟩ := stays c live
    exact ⟨c',live',born.trans same⟩
  born i c used := by
    obtain ⟨c',old,same⟩ := sub i c used
    rw [← same,objects]
    exact attached.born i c' old
  once i k c c' used used' equal := by
    obtain ⟨d,old,same⟩ := sub i c used
    obtain ⟨d',old',same'⟩ := sub k c' used'
    exact attached.once i k d d' old old' (same.trans (equal.trans same'.symm))

theorem Move.attached (move : Move v l w) (attached : Attached v) : Attached w := by
  cases move with
  | scoid => exact attached.of_like rfl rfl fun j r used => ⟨j,r,used,.refl r⟩
  | pipe => exact attached.of_like rfl rfl fun j r used => ⟨j,r,used,.refl r⟩
  | register enters => exact attached.register enters
  | alter row like =>
    refine attached.of_like rfl rfl ?_
    intro j r used
    rcases Slab.put_cases used with ⟨-,rfl⟩ | old
    · exact ⟨_,_,row,like⟩
    · exact ⟨j,r,old,.refl r⟩
  | unregister =>
    exact attached.of_like rfl rfl fun j r used => ⟨j,r,(Slab.erase_some used).2,.refl r⟩
  | create free _ fresh => exact attached.create free fresh
  | @mute _ i c used =>
    refine attached.channels_sub rfl ?_ ?_
    · intro k d put
      rcases Slab.put_cases put with ⟨rfl,rfl⟩ | old
      · exact ⟨c,used,rfl⟩
      · exact ⟨d,old,rfl⟩
    · intro j r row
      refine ⟨row,?_⟩
      intro d live
      rcases eq_or_ne r.channelIdx i with rfl | other
      · obtain rfl : c = d := Option.some.inj (used.symm.trans live)
        exact ⟨_,Slab.put_same v.channels,rfl⟩
      · exact ⟨d,(Slab.put_other v.channels other).trans live,rfl⟩
  | @destroy _ i =>
    refine attached.channels_sub rfl ?_ ?_
    · intro k d left
      exact ⟨d,(Slab.erase_some left).2,rfl⟩
    · intro j r row
      obtain ⟨old,apart⟩ := Slab.drop_some.mp row
      have other : r.channelIdx ≠ i := by simpa using apart
      exact ⟨old,fun d live => ⟨d,(Slab.erase_other v.channels other).trans live,rfl⟩⟩

theorem Draws.attached (draws : Draws v l w) (attached : Attached v) : Attached w := by
  obtain ⟨m,-,path⟩ := draws
  induction path with
  | nil => exact attached
  | cons move _ ih => exact ih (move.attached attached)

/-- The teardown strands no row when nobody else was connected. -/
theorem Attached.teardown (attached : Attached v) (orderly : v.Orderly pid) : Attached (v.teardown pid) := by
  refine attached.channels_sub rfl ?_ ?_
  · intro i c used
    exact ⟨c,(Slab.drop_some.mp used).1,rfl⟩
  · intro j r used
    obtain ⟨old,other⟩ := Slab.drop_some.mp used
    refine ⟨old,?_⟩
    intro c live
    have kept := orderly j r old (by simpa using other) c live
    exact ⟨c,Slab.drop_some.mpr ⟨live,by simpa using kept⟩,rfl⟩

end Tables

open Tables

/-- A process is torn down only while no other process holds a row to one of its channels. -/
def exitsOrderly (s : State cfg) (e : Event) : Prop :=
  ∀ pid ∈ e.target s, s.tearsDown pid = true → s.tables.Orderly pid

-- Instance search would try all pids here.
instance : DecidableRel (@exitsOrderly cfg) := fun s e =>
  match h : e.target s with
  | none => .isTrue (by simp [exitsOrderly,h])
  | some pid => decidable_of_iff (s.tearsDown pid = true → s.tables.Orderly pid) (by simp [exitsOrderly,h])

/-- Rows reach the incarnation they were attached to, and so do the pulses and queries made
through them. A later create call gets a number no row has. -/
structure Incarnated (s : State cfg) : Prop where
  rows : ∀ j r, s.rows j = some r → ∃ c, s.channels r.channelIdx = some c ∧ c.born = r.target
  once : ∀ i k c c', s.channels i = some c → s.channels k = some c' → c.born = c'.born → i = k
  later : ∀ j r, s.rows j = some r → r.target < s.objects
  query : ∀ pid slot j r, s.connectionFindBySlot pid slot = some (j,r) →
    ∃ c, s.connectServerInfo pid slot = .ok (some (c.owner,c.chid),r.badge) ∧
      s.channels r.channelIdx = some c ∧ c.born = r.target
  pulse : ∀ pid slot idx, s.pulseChannel pid slot = some idx →
    ∃ j r c, s.connectionBadgeBySlot pid slot = some r.badge ∧ s.connectionFindByBadge r.badge = some (j,r) ∧
      s.channels idx = some c ∧ c.born = r.target

theorem incarnated (wf : Wf s.tables) (attached : Attached s.tables) : Incarnated s where
  rows := attached.rows
  once := attached.once
  later j r used := by
    obtain ⟨c,live,same⟩ := attached.rows j r used
    rw [← same]
    exact attached.born _ c live
  query pid slot j r found := by
    obtain ⟨c,live,same⟩ := attached.rows j r (Slab.find_some found).1
    have live' : s.channels r.channelIdx = some c := live
    exact ⟨c,by simp [State.connectServerInfo,found,live'],live,same⟩
  pulse pid slot idx reached := by
    obtain ⟨badge,sent,routed⟩ := Option.bind_eq_some_iff.mp reached
    unfold State.channelByBadge at routed
    cases found : s.connectionFindByBadge badge with
    | none => simp [found] at routed
    | some hit =>
      obtain ⟨j,r⟩ := hit
      obtain ⟨used,equal⟩ := Slab.find_some found
      obtain rfl : r.badge = badge := by simpa using equal
      obtain ⟨c,live,same⟩ := attached.rows j r used
      have live' : s.channels r.channelIdx = some c := live
      simp only [found,State.channelAt,live',channelIndex_self wf live',Option.some.injEq] at routed
      subst routed
      exact ⟨j,r,c,sent,found,live,same⟩

theorem step_attached (s : State cfg) (e : Event) (t : State cfg)
    (inv : Wf s.tables ∧ Attached s.tables) (orderly : exitsOrderly s e) (taken : step s e = some t) :
    Wf t.tables ∧ Attached t.tables := by
  refine ⟨step_wf s e t inv.1 taken,?_⟩
  rcases step_tables inv.1 taken with path | ⟨pid,target,torn,gone⟩
  · exact path.attached inv.2
  · rw [gone]
    exact inv.2.teardown (orderly pid target torn)

theorem boot_attached (booted : boot cfg = some s) : Attached s.tables := by
  obtain ⟨l,path⟩ := boot_draws booted
  apply path.attached
  constructor <;> simp [State.init,State.tables]

/-- In every run whose teardowns are orderly, connections never outlive the channel they were
attached to. -/
theorem rows_keep_incarnation (booted : boot cfg = some first)
    (run : Lts.Run step exitsOrderly first es s) : Incarnated s := by
  have inv := run.invariant (fun s => Wf s.tables ∧ Attached s.tables) step_attached
    ⟨boot_wf booted,boot_attached booted⟩
  exact incarnated inv.1 inv.2

/-- Init spawns two servers and connects to a channel of the first; with `polite` it closes the
connection before that server exits. The second server then takes the freed index. -/
def serverReplaced (polite : Bool) : List Event := List.flatten
  [[.message 1 1 0 (.processCreate bootSpawn),
    .message 1 1 0 (.processCreate bootSpawn),
    .message 2 1 0 (.channelCreate 7 0 ⟨true,true,true⟩),
    .message 1 1 0 (.connectAttach 3 7 0 ⟨true,true⟩)],
  if polite then [.message 1 1 0 (.connectDetach 16 true)] else [],
  [.message 2 1 0 (.processTerminate 0 0),
    .message 3 1 0 (.channelCreate 9 0 ⟨true,true,true⟩)]]

theorem rows_keep_incarnation_polite : ∃ s, Lts.Run step exitsOrderly smallBoot (serverReplaced true) s ∧
    (s.channels (8 : Fin 12)).map Channel.born = some 9 ∧ Incarnated s := by
  obtain ⟨s,run,reused⟩ := Lts.Run.exists_of_replay step exitsOrderly smallBoot (serverReplaced true)
    (fun s => (s.channels (8 : Fin 12)).map Channel.born = some 9) (by decide +kernel)
  exact ⟨s,run,reused,rows_keep_incarnation boot_small run⟩

/-- Without the close, the connection made to the first server's channel names the second
server's: a pulse of init through it is queued there. -/
theorem row_outlives_channel : ¬ ∀ es s, Lts.Run step anyStep smallBoot es s → Incarnated s := by
  intro incarnated
  obtain ⟨s,run,row,channel,reached⟩ := Lts.Run.exists_of_replay step anyStep smallBoot (serverReplaced false)
    (fun s => (s.rows (12 : Fin 16)).map (fun r => (r.clientSlot,r.channelIdx.val,r.target)) = some (16,8,8) ∧
      (s.channels (8 : Fin 12)).map Channel.born = some 9 ∧
      (s.pulseChannel 2 16).map Fin.val = some 8) (by decide +kernel)
  obtain ⟨r,used,data⟩ := Option.map_eq_some_iff.mp row
  obtain ⟨-,index,target⟩ : r.clientSlot = 16 ∧ r.channelIdx.val = 8 ∧ r.target = 8 := by simpa using data
  obtain ⟨c,live,same⟩ := (incarnated _ s run).rows _ r used
  obtain ⟨c',live',born⟩ := Option.map_eq_some_iff.mp channel
  have there : r.channelIdx = (8 : Fin 12) := Fin.ext index
  rw [there] at live
  obtain rfl : c = c' := Option.some.inj (live.symm.trans live')
  omega

end Qsoe.Taskman
