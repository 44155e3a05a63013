import Qsoe.Msg.Exchange

/-! Where the bytes of a bulk reply go. An entry of `s_bulk_pending` is right for the message a
thread is about to answer as long as nobody else of the same process has been received since. -/
namespace Qsoe.Msg

open Qsoe.Taskman (Pid Word)

variable {τ ι : Type} [DecidableEq τ] {P : Parties τ ι} {s s' : Exchange τ ι} {i j : ι} {t : τ}

/-- The reply wrote only to the reply buffer of the `MsgSend` it was sent through to, and not past its end. -/
def Landing.Lands (P : Parties τ ι) (l : Landing τ) : Prop :=
  (∀ p x, l.write.after p x ≠ l.write.before p x → ∃ e, l.write.extent = some e ∧ e.Has p x) ∧
  ∀ e, l.write.extent = some e → ∃ t mail d, l.reached = some (t,mail) ∧ mail.message.descriptor = some d ∧
    e.pid = P.pid t ∧ e.base = d.rbuf ∧ e.len ≤ d.rbytes.toNat

omit [DecidableEq τ] in
theorem Landing.lands_nothing (P : Parties τ ι) (mem : Pid → Word → Byte) (reached : Option (τ × Mail)) :
    Landing.Lands P ⟨⟨none,mem,mem⟩,reached⟩ :=
  ⟨fun _ _ changed => absurd rfl changed,fun _ nothing => nomatch nothing⟩

namespace Exchange

def Single (pending : Slab.Table bulkPendingMax Pending) : Prop :=
  ∀ k l e f, pending k = some e → pending l = some f → e.pid = f.pid → k = l

variable {sp : Space} {c : Pid} {k l : Fin bulkPendingMax} {e : Pending}

theorem pendingSlot_only (single : Single sp.pending) (slot : sp.pendingSlot c = some k)
    (used : sp.pending l = some e) (own : e.pid = c) : l = k := by
  unfold Space.pendingSlot at slot
  split at slot
  · rename_i f found
    obtain rfl := Option.some.inj slot
    obtain ⟨there,same⟩ := Slab.find_some found
    exact single l _ e f used there (own.trans (beq_iff_eq.mp same).symm)
  · rename_i missing
    have other := Slab.find_none missing used
    simp [own] at other

theorem pendingSlot_none (full : sp.pendingSlot c = none) (used : sp.pending l = some e) : e.pid ≠ c := by
  unfold Space.pendingSlot at full
  split at full
  · cases full
  · rename_i missing
    have other := Slab.find_none missing used
    simpa using other

theorem Single.put (single : Single sp.pending) (slot : sp.pendingSlot c = some k) (rbuf rbytes : Word) :
    Single (Slab.put sp.pending k ⟨c,rbuf,rbytes⟩) := by
  intro a b e f first second same
  rcases Slab.put_cases first with ⟨rfl,rfl⟩ | old
  · rcases Slab.put_cases second with ⟨rfl,rfl⟩ | old
    · rfl
    · exact (pendingSlot_only single slot old same.symm).symm
  · rcases Slab.put_cases second with ⟨rfl,rfl⟩ | old'
    · exact pendingSlot_only single slot old same
    · exact single a b e f old old' same

structure Settled (P : Parties τ ι) (s : Exchange τ ι) : Prop where
  held : ∀ i t, s.tied i = some t → s.phase t = .held ∧ (s.mail t).dest = P.proc i
  alone : ∀ i j t, s.tied i = some t → s.tied j = some t → i = j
  single : Single s.sp.pending
  entry : ∀ i t d rcvid k e, s.tied i = some t → s.last i = some rcvid → (s.mail t).message.descriptor = some d →
    s.sp.pending k = some e → e.pid = P.pid t → e.rbuf = d.rbuf ∧ e.rbytes = d.rbytes
  pulling : ∀ i t badge d, s.stage i = .pulling t badge d →
    s.tied i = some t ∧ badge = (s.mail t).badge ∧ (s.mail t).message.descriptor = some d
  sending : ∀ i w, s.stage i = .sending w → P.main i = i ∧ Landing.Lands P ⟨w,s.holding i⟩
  log : ∀ l ∈ s.log, l.Lands P

section Fields

variable (s : Exchange τ ι) (o : Option τ) (k : Phase)

@[simp] theorem setPhase_sp : (s.setPhase o k).sp = s.sp := by cases o <;> rfl
@[simp] theorem setPhase_mail : (s.setPhase o k).mail = s.mail := by cases o <;> rfl
@[simp] theorem setPhase_tied : (s.setPhase o k).tied = s.tied := by cases o <;> rfl
@[simp] theorem setPhase_stage : (s.setPhase o k).stage = s.stage := by cases o <;> rfl
@[simp] theorem setPhase_last : (s.setPhase o k).last = s.last := by cases o <;> rfl
@[simp] theorem setPhase_log : (s.setPhase o k).log = s.log := by cases o <;> rfl

theorem setPhase_other (other : o ≠ some t) : (s.setPhase o k).phase t = s.phase t := by
  cases o with
  | none => rfl
  | some t' =>
    have apart : t ≠ t' := fun same => other (by rw [same])
    simp [setPhase,apart]

end Fields

omit [DecidableEq τ] in
theorem start_settled (P : Parties τ ι) (mem : Pid → Word → Byte) (frame : Pid → Nat → Bool) (mail : τ → Mail) :
    Settled P (start mem frame mail : Exchange τ ι) where
  held _ _ tied := nomatch tied
  alone _ _ _ tied := nomatch tied
  single _ _ _ _ used := nomatch used
  entry _ _ _ _ _ _ tied := nomatch tied
  pulling _ _ _ _ stage := nomatch stage
  sending _ _ stage := nomatch stage
  log _ member := nomatch member

namespace Settled

/-- The reply object of `i` lets go of its client and the thread is done with its call. -/
theorem untie [DecidableEq ι] (settled : Settled P s) (i : ι) (k : Phase) {log : List (Landing τ)}
    (landed : ∀ l ∈ log, l.Lands P) :
    Settled P { s.setPhase (s.tied i) k with
      tied := Function.update s.tied i none, stage := Function.update s.stage i .idle, log := log } := by
  have others : ∀ j t, Function.update s.tied i none j = some t → j ≠ i ∧ s.tied j = some t := by
    intro j t tied
    rcases eq_or_ne j i with rfl | other
    · simp at tied
    · exact ⟨other,by simpa [other] using tied⟩
  have stages : ∀ j x, Function.update s.stage i .idle j = x → x ≠ .idle → j ≠ i ∧ s.stage j = x := by
    intro j x stage busy
    rcases eq_or_ne j i with rfl | other
    · exact absurd (by simpa using stage.symm) busy
    · exact ⟨other,by simpa [other] using stage⟩
  refine ⟨?_,?_,?_,?_,?_,?_,landed⟩
  · intro j t tied
    obtain ⟨other,tied⟩ := others j t tied
    have apart : s.tied i ≠ some t := fun here => other (settled.alone j i t tied here)
    simp only [setPhase_mail]
    rw [setPhase_other s _ k apart]
    exact settled.held j t tied
  · intro j j' t first second
    exact settled.alone j j' t (others j t first).2 (others j' t second).2
  · simpa using settled.single
  · intro j t d rcvid k e tied last desc used own
    simp only [setPhase_sp,setPhase_mail,setPhase_last] at last desc used
    exact settled.entry j t d rcvid k e (others j t tied).2 last desc used own
  · intro j t badge d stage
    obtain ⟨other,stage⟩ := stages j _ stage (by simp)
    obtain ⟨tied,rest⟩ := settled.pulling j t badge d stage
    simp only [setPhase_mail]
    exact ⟨by simpa [other] using tied,rest⟩
  · intro j w stage
    obtain ⟨other,stage⟩ := stages j _ stage (by simp)
    simpa [holding,other] using settled.sending j w stage

theorem send (settled : Settled P s) (idle : s.phase t = .idle) (mail : Mail) :
    Settled P { s.setPhase (some t) .queued with mail := Function.update s.mail t mail } := by
  have apart : ∀ i t', s.tied i = some t' → t' ≠ t := by
    rintro i t' tied rfl
    have held := (settled.held i t' tied).1
    rw [idle] at held
    cases held
  have kept : ∀ i t', s.tied i = some t' → Function.update s.mail t mail t' = s.mail t' :=
    fun i t' tied => Function.update_of_ne (apart i t' tied) ..
  refine ⟨?_,by simpa using settled.alone,by simpa using settled.single,?_,?_,?_,by simpa using settled.log⟩
  · intro i t' tied
    rw [setPhase_tied] at tied
    have other := apart i t' tied
    obtain ⟨held,dest⟩ := settled.held i t' tied
    dsimp only
    rw [kept i t' tied,setPhase_other s (some t) .queued (by simpa using other.symm)]
    exact ⟨held,dest⟩
  · intro i t' d rcvid k e tied last desc used own
    simp only [setPhase_sp,setPhase_tied,setPhase_last] at tied last used
    dsimp only at desc
    rw [kept i t' tied] at desc
    exact settled.entry i t' d rcvid k e tied last desc used own
  · intro i t' badge d stage
    rw [setPhase_stage] at stage
    obtain ⟨tied,rest⟩ := settled.pulling i t' badge d stage
    dsimp only
    rw [setPhase_tied,kept i t' tied]
    exact ⟨tied,rest⟩
  · intro i w stage
    rw [setPhase_stage] at stage
    have same : holding { s.setPhase (some t) .queued with mail := Function.update s.mail t mail } i =
      s.holding i := by
      unfold holding
      rw [setPhase_tied]
      cases tied : s.tied i with
      | none => rfl
      | some t' => exact congrArg (fun m => some (t',m)) (kept i t' tied)
    rw [same]
    exact settled.sending i w stage

/-- The reply object of `i` is tied to a new client, and the thread goes on to `stage`. -/
theorem tie [DecidableEq ι] (settled : Settled P s) (idle : s.stage i = .idle) (queued : s.phase t = .queued)
    (dest : (s.mail t).dest = P.proc i) {stage : Stage τ} (last : Option (BitVec 32))
    (goes : stage = .idle ∧ (s.mail t).message.descriptor = none ∨
      last = none ∧ ∃ d, (s.mail t).message.descriptor = some d ∧ stage = .pulling t (s.mail t).badge d) :
    Settled P { (s.setPhase (s.tied i) .stranded).setPhase (some t) .held with
      tied := Function.update s.tied i (some t), stage := Function.update s.stage i stage
      last := Function.update s.last i last } := by
  have apart : ∀ j t', s.tied j = some t' → t' ≠ t := by
    rintro j t' tied rfl
    have held := (settled.held j t' tied).1
    rw [queued] at held
    cases held
  have ties : ∀ j t', Function.update s.tied i (some t) j = some t' → j = i ∧ t' = t ∨ j ≠ i ∧
    s.tied j = some t' := by
    intro j t' tied
    rcases eq_or_ne j i with rfl | other
    · exact .inl ⟨rfl,by simpa using tied.symm⟩
    · exact .inr ⟨other,by simpa [other] using tied⟩
  refine ⟨?_,?_,by simpa using settled.single,?_,?_,?_,by simpa using settled.log⟩
  · intro j t' tied
    simp only [setPhase_mail]
    rcases ties j t' tied with ⟨rfl,rfl⟩ | ⟨other,tied⟩
    · exact ⟨by simp [setPhase],dest⟩
    · rw [setPhase_other _ (some t) .held (by simpa using (apart j t' tied).symm),setPhase_other s _ .stranded]
      · exact settled.held j t' tied
      · exact fun here => other (settled.alone j i t' tied here)
  · intro j j' t' first second
    rcases ties j t' first with ⟨rfl,rfl⟩ | ⟨-,old⟩
    · rcases ties j' _ second with ⟨rfl,-⟩ | ⟨-,old⟩
      · rfl
      · exact absurd rfl (apart j' _ old)
    · rcases ties j' t' second with ⟨rfl,rfl⟩ | ⟨-,old'⟩
      · exact absurd rfl (apart j _ old)
      · exact settled.alone j j' t' old old'
  · intro j t' d rcvid k e tied returned desc used own
    simp only [setPhase_sp,setPhase_mail] at desc used
    rcases ties j t' tied with ⟨rfl,rfl⟩ | ⟨other,tied⟩
    · rcases goes with ⟨-,plain⟩ | ⟨nothing,-⟩
      · rw [plain] at desc
        cases desc
      · simp [nothing] at returned
    · exact settled.entry j t' d rcvid k e tied (by simpa [other] using returned) desc used own
  · intro j t' badge d there
    simp only [setPhase_mail]
    rcases eq_or_ne j i with rfl | other
    · simp only [Function.update_self] at there
      rcases goes with ⟨rfl,-⟩ | ⟨-,d',desc,rfl⟩
      · cases there
      · obtain ⟨rfl,rfl,rfl⟩ := there
        exact ⟨by simp,rfl,desc⟩
    · obtain ⟨tied,rest⟩ := settled.pulling j t' badge d (by simpa [other] using there)
      exact ⟨by simpa [other] using tied,rest⟩
  · intro j w there
    rcases eq_or_ne j i with rfl | other
    · simp only [Function.update_self] at there
      rcases goes with ⟨rfl,-⟩ | ⟨-,d',desc,rfl⟩
      · cases there
      · cases there
    · simpa [holding,other] using settled.sending j w (by simpa [other] using there)

theorem receive [DecidableEq ι] (settled : Settled P s) (taken : s.receive P i t = some s') : Settled P s' := by
  unfold Exchange.receive at taken
  split at taken
  · rename_i idle
    split_ifs at taken with ready
    dsimp only at taken
    split at taken
    · rename_i d desc
      cases taken
      simp only [setPhase_mail] at desc
      have tied := settled.tie idle ready.1 ready.2 none (.inr ⟨rfl,d,desc,rfl⟩)
      simpa using tied
    · rename_i desc
      cases taken
      simp only [setPhase_mail] at desc
      have tied := settled.tie idle ready.1 ready.2 (some ((s.mail t).badge.setWidth 32)) (.inl ⟨rfl,desc⟩)
      rw [← idle,Function.update_eq_self] at tied
      simpa using tied
  · cases taken

omit [DecidableEq τ] in
/-- The message `i` is at is pulled: the table is as it was or has its entry, and it has if `i` gets an rcvid
and there was room. -/
theorem enter [DecidableEq ι] {sp' : Space} {last : Option (BitVec 32)} (settled : Settled P s)
    (here : s.tied i = some t) (desc : (s.mail t).message.descriptor = some d)
    (table : sp'.pending = s.sp.pending ∧ (last ≠ none → s.sp.pendingSlot (P.pid t) = none) ∨
      ∃ k, s.sp.pendingSlot (P.pid t) = some k ∧ sp'.pending = Slab.put s.sp.pending k ⟨P.pid t,d.rbuf,d.rbytes⟩)
    (others : ∀ j t', s.tied j = some t' → t' ≠ t → P.pid t' = P.pid t → (s.mail t').message.descriptor.isSome →
      s.last j = none) :
    Settled P { s with
      sp := sp', stage := Function.update s.stage i .idle, last := Function.update s.last i last } := by
  refine ⟨settled.held,settled.alone,?_,?_,?_,?_,settled.log⟩
  · rcases table with ⟨same,-⟩ | ⟨k,slot,put⟩
    · simpa only [same] using settled.single
    · simpa only [put] using settled.single.put slot _ _
  · intro j t' d' rcvid k e tied returned desc' used own
    dsimp only at tied returned desc' used
    rcases eq_or_ne j i with rfl | other
    · obtain rfl : t = t' := Option.some.inj (here.symm.trans tied)
      obtain rfl : d = d' := Option.some.inj (desc.symm.trans desc')
      rw [Function.update_self] at returned
      rcases table with ⟨same,full⟩ | ⟨l,slot,put⟩
      · rw [same] at used
        exact absurd own (pendingSlot_none (full (by simp [returned])) used)
      · rw [put] at used
        rcases Slab.put_cases used with ⟨rfl,rfl⟩ | old
        · exact ⟨rfl,rfl⟩
        · obtain rfl := pendingSlot_only settled.single slot old own
          rw [Slab.put_same] at used
          obtain rfl := Option.some.inj used
          exact ⟨rfl,rfl⟩
    · rw [Function.update_of_ne other] at returned
      by_cases same : P.pid t' = P.pid t
      · have apart : t' ≠ t := fun eq => other (settled.alone j i t (eq ▸ tied) here)
        rw [others j t' tied apart same (by simp [desc'])] at returned
        cases returned
      · have old : s.sp.pending k = some e := by
          rcases table with ⟨unchanged,-⟩ | ⟨l,slot,put⟩
          · rwa [unchanged] at used
          · rw [put] at used
            rcases Slab.put_cases used with ⟨rfl,rfl⟩ | old
            · exact absurd own.symm same
            · exact old
        exact settled.entry j t' d' rcvid k e tied returned desc' old own
  · intro j t' badge' d' there
    rcases eq_or_ne j i with rfl | other
    · simp at there
    · exact settled.pulling j t' badge' d' (by simpa [other] using there)
  · intro j w there
    rcases eq_or_ne j i with rfl | other
    · simp at there
    · exact settled.sending j w (by simpa [other] using there)

omit [DecidableEq τ] in
theorem pull [DecidableEq ι] (settled : Settled P s) (orderly : Orderly P s (.pull i names granted msg bytes))
    (taken : s.pull P i names granted msg bytes = some s') : Settled P s' := by
  unfold Exchange.pull at taken
  split at taken
  · rename_i t badge d pulling
    obtain ⟨named,client,server,others⟩ := orderly t badge d pulling
    obtain ⟨here,-,desc⟩ := settled.pulling i t badge d pulling
    obtain rfl := Option.some.inj taken
    apply settled.enter here desc _ others
    cases result : (s.sp.receiveBulk names granted (P.proc i) badge msg bytes d.sbuf d.sbytes d.rbuf
      d.rbytes).2 with
    | error e =>
      rw [receiveBulk_request,← named]
      rcases pull_pending s.sp names granted (P.proc i) (pullKey badge) d.sbuf (msg.getD 0)
        _ d.rbuf d.rbytes with ⟨kept,-⟩ | entered
      · exact .inl ⟨kept,fun ok => absurd rfl ok⟩
      · exact .inr entered
    | ok rcvid =>
      rw [← named]
      rcases receiveBulk_entry (named ▸ P.real t) (by rw [named,client,server]; rfl) result with ⟨same,full⟩ | entered
      · exact .inl ⟨same,fun _ => full⟩
      · exact .inr entered
  · cases taken

omit [DecidableEq τ] in
theorem shrink {sp' : Space} (settled : Settled P s) (fewer : ∀ k e, sp'.pending k = some e →
    s.sp.pending k = some e) :
    Settled P { s with sp := sp' } where
  held := settled.held
  alone := settled.alone
  single k l e f first second := settled.single k l e f (fewer k e first) (fewer l f second)
  entry i t d rcvid k e tied last desc used := settled.entry i t d rcvid k e tied last desc (fewer k e used)
  pulling := settled.pulling
  sending := settled.sending
  log := settled.log

omit [DecidableEq τ] in
theorem logged {l : Landing τ} (settled : Settled P s) (lands : l.Lands P) :
    Settled P { s with log := l :: s.log } where
  held := settled.held
  alone := settled.alone
  single := settled.single
  entry := settled.entry
  pulling := settled.pulling
  sending := settled.sending
  log := List.forall_mem_cons.mpr ⟨lands,settled.log⟩

omit [DecidableEq τ] in
theorem pushed [DecidableEq ι] {w : Write} (settled : Settled P s) (main : P.main i = i)
    (lands : Landing.Lands P ⟨w,s.holding i⟩) :
    Settled P { s with stage := Function.update s.stage i (.sending w) } := by
  refine ⟨settled.held,settled.alone,settled.single,settled.entry,?_,?_,settled.log⟩
  · intro j t badge d there
    rcases eq_or_ne j i with rfl | other
    · simp at there
    · exact settled.pulling j t badge d (by simpa [other] using there)
  · intro j w' there
    rcases eq_or_ne j i with rfl | other
    · obtain rfl : w = w' := by simpa using there
      exact ⟨main,lands⟩
    · exact settled.sending j w' (by simpa [other] using there)

omit [DecidableEq τ] in
/-- What the PUSH of an orderly reply has written lies in the reply buffer of the client at hand. -/
theorem push_lands (settled : Settled P s) (orderly : Orderly P s (.push i rcvid r))
    (bulk : rcvid &&& rcvidBulk ≠ 0) :
    Landing.Lands P ⟨⟨s.sp.pushExtent r.names (P.proc i) (pushRequest rcvid r.msg r.bytes),s.sp.mem,
      (s.sp.msgReply r.names r.granted (P.proc i) r.ipc rcvid r.status r.msg r.bytes).1.mem⟩,s.holding i⟩ := by
  obtain ⟨-,last,t,tied,desc,named⟩ := orderly
  obtain ⟨d,desc⟩ := Option.isSome_iff_exists.mp desc
  obtain ⟨src,len,request⟩ := pushRequest_push rcvid r.msg r.bytes
  refine ⟨fun p x changed => ?_,fun e extent => ?_⟩
  · by_contra outside
    push Not at outside
    apply changed
    dsimp only at outside ⊢
    rw [msgReply_request _ _ _ _ _ _ _ _ bulk,request]
    rw [request] at outside
    exact (push_effect s.sp r.names r.granted (P.proc i) (pushKey rcvid) src len).2 p x outside
  · dsimp only at extent
    rw [request] at extent
    obtain ⟨⟨k,entry⟩,found,extent⟩ := Option.bind_eq_some_iff.mp extent
    obtain ⟨used,own⟩ := Slab.find_some found
    obtain ⟨rbuf,rbytes⟩ := settled.entry i t d rcvid k entry tied last desc used (by rw [← named]; exact beq_iff_eq.mp own)
    have short : (if entry.rbytes < len then entry.rbytes else len).toNat ≤ entry.rbytes.toNat := by
      split
      · exact le_rfl
      · rename_i long
        exact BitVec.not_lt.mp long
    dsimp only at extent
    generalize (if entry.rbytes < len then entry.rbytes else len) = n at extent short
    split_ifs at extent
    obtain rfl := Option.some.inj extent
    exact ⟨t,s.mail t,d,by simp [holding,tied],desc,named,rbuf,rbytes ▸ short⟩

omit [DecidableEq τ] in
theorem push [DecidableEq ι] (settled : Settled P s) (orderly : Orderly P s (.push i rcvid r))
    (taken : s.push P i rcvid r = some s') :
    Settled P s' := by
  unfold Exchange.push at taken
  split at taken
  · rename_i idle
    split_ifs at taken with plain
    have lands := settled.push_lands orderly plain
    have fewer : ∀ k e, (s.sp.msgReply r.names r.granted (P.proc i) r.ipc rcvid r.status r.msg
      r.bytes).1.pending k = some e →
        s.sp.pending k = some e := by
      intro k e used
      rw [msgReply_request _ _ _ _ _ _ _ _ plain] at used
      obtain ⟨src,len,request⟩ := pushRequest_push rcvid r.msg r.bytes
      rw [request] at used
      rcases (push_effect s.sp r.names r.granted (P.proc i) (pushKey rcvid) src len).1 with same | ⟨l,erased⟩
      · rwa [same] at used
      · rw [erased] at used
        exact (Slab.erase_some used).2
    have shrunk := settled.shrink fewer
    dsimp only at taken
    split at taken
    · obtain rfl := Option.some.inj taken
      rw [orderly.1]
      exact shrunk.logged lands
    · obtain rfl := Option.some.inj taken
      exact shrunk.pushed orderly.1 lands
  · cases taken

theorem finish [DecidableEq ι] (settled : Settled P s) (taken : s.finish P i = some s') : Settled P s' := by
  unfold Exchange.finish at taken
  split at taken
  · rename_i w sending
    obtain ⟨main,lands⟩ := settled.sending i w sending
    obtain rfl := Option.some.inj taken
    rw [main]
    have untied := settled.untie i .idle (List.forall_mem_cons.mpr ⟨lands,settled.log⟩)
    simpa [answer] using untied
  · cases taken

/-- Nobody is tied to `t`. -/
theorem free (settled : Settled P s) (k : Phase) (loose : ∀ i, s.tied i ≠ some t) :
    Settled P (s.setPhase (some t) k) := by
  refine ⟨?_,by simpa using settled.alone,by simpa using settled.single,by simpa using settled.entry,
    by simpa using settled.pulling,by simpa [holding] using settled.sending,by simpa using settled.log⟩
  intro i t' tied
  rw [setPhase_tied] at tied
  have other : t ≠ t' := fun same => loose i (same ▸ tied)
  rw [setPhase_mail,setPhase_other s (some t) k (by simpa using other)]
  exact settled.held i t' tied

theorem untie_idle [DecidableEq ι] (settled : Settled P s) (idle : s.stage i = .idle) (k : Phase)
    {log : List (Landing τ)} (landed : ∀ l ∈ log, l.Lands P) :
    Settled P { s.setPhase (s.tied i) k with tied := Function.update s.tied i none, log := log } := by
  have untied := settled.untie i k landed
  rw [← idle,Function.update_eq_self] at untied
  simpa using untied

theorem step [DecidableEq ι] (settled : Settled P s) (m : Move τ ι) (orderly : Orderly P s m)
    (taken : step P s m = some s') :
    Settled P s' := by
  cases m with
  | send t mail =>
    simp only [Exchange.step] at taken
    split_ifs at taken with idle
    obtain rfl := Option.some.inj taken
    exact settled.send idle mail
  | receive i t => exact settled.receive taken
  | pull i names granted msg bytes => exact settled.pull orderly taken
  | push i rcvid r => exact settled.push orderly taken
  | finish i => exact settled.finish taken
  | reply i =>
    simp only [Exchange.step] at taken
    split at taken
    · rename_i idle
      obtain rfl := Option.some.inj taken
      have main : P.main i = i := orderly
      rw [main]
      exact settled.untie_idle idle .idle (List.forall_mem_cons.mpr ⟨Landing.lands_nothing P _ _,settled.log⟩)
    · cases taken
  | savereply i =>
    simp only [Exchange.step] at taken
    split at taken
    · rename_i idle
      obtain rfl := Option.some.inj taken
      have main : P.main i = i := orderly
      rw [main]
      have untied := settled.untie_idle idle .kept settled.log
      simpa using untied
    · cases taken
  | replySaved t =>
    simp only [Exchange.step] at taken
    split_ifs at taken with kept
    obtain rfl := Option.some.inj taken
    have free := settled.free .idle fun i tied => by
      have held := (settled.held i t tied).1
      rw [kept] at held
      cases held
    have done := free.logged (Landing.lands_nothing P s.sp.mem (some (t,s.mail t)))
    simpa using done
  | xfer caller names granted request => exact orderly.elim
  | elapse mem frame =>
    obtain rfl := Option.some.inj taken
    exact settled.shrink fun _ _ used => used

end Settled

/-- In every run of orderly steps, every reply has written only to the reply buffer of the
`MsgSend` it was sent through to. -/
theorem bulk_replies_land [DecidableEq ι] (P : Parties τ ι) (mem : Pid → Word → Byte)
    (frame : Pid → Nat → Bool) (mail : τ → Mail)
    (run : Lts.Run (step P) (Orderly P) (start mem frame mail) moves s) : ∀ l ∈ s.log, l.Lands P :=
  (run.invariant (Settled P) (fun _ m _ settled orderly taken => settled.step m orderly taken)
    (start_settled P mem frame mail)).log

/-- Both client threads belong to process 3; the servers are the processes 4 and 5. -/
def duo : Parties Bool Bool where
  pid _ := 3
  proc i := if i then 5 else 4
  main := id
  real _ := by decide
  shared _ := rfl
  once _ := rfl

/-- `false` asks server 4 and `true` server 5 for 5000 bytes. -/
def letter (t : Bool) : Mail :=
  if t then ⟨8,5,.bulk 0x11000000 64 0x11000000 5000⟩ else ⟨7,4,.bulk 0x10000000 64 0x10000000 5000⟩

def empty : Exchange Bool Bool := start (fun _ _ => 0) (fun _ _ => true) letter

/-- A reply of 64 bytes. -/
def reply64 : ReplyArgs := Post.answer (some 0x20000000) 64

/-- The steps of `MsgSend`, `MsgReceive`, `MsgSavereply` and `MsgReply`, whatever order they come in. -/
def Calls (_ : Exchange τ ι) : Move τ ι → Prop
  | .xfer _ _ _ _ => False
  | _ => True

theorem push_finish (allow : Exchange Bool Bool → Move Bool Bool → Prop) {s : Exchange Bool Bool}
    (idle : s.stage false = .idle)
    (tied : s.tied false = some false) (mail : s.mail false = letter false) (frame : s.sp.frame = fun _ _ => true)
    (found : s.sp.bulkPendingFind 3 = some (k,⟨3,rbuf,5000⟩)) (first : allow s (.push false 0x40000007 reply64))
    (second : ∀ s', allow s' (.finish false)) :
    ∃ s' w, Lts.Run (step duo) allow s [.push false 0x40000007 reply64,.finish false] s' ∧
      s'.log = ⟨w,some (false,letter false)⟩ :: s.log ∧ w.extent = some ⟨3,rbuf,64⟩ := by
  obtain ⟨sp,sent⟩ := Post.msgReply_full (fun _ _ => by rw [frame]) Post.everyone (fun _ => rfl)
    (duo.proc false) reply64.ipc 0x40000007
    reply64.status 0x20000000 64 (by decide) (by decide) (by decide) (by decide) found
  have extent : s.sp.pushExtent Post.everyone (duo.proc false) (pushRequest 0x40000007 (some 0x20000000) 64) =
    some ⟨3,rbuf,64⟩ := by
    have request : pushRequest 0x40000007 (some 0x20000000) 64 = .push (pushKey 0x40000007) 0x20000000 64 := rfl
    have client : Post.everyone.client (pushKey 0x40000007) = 3 := rfl
    rw [request]
    unfold Space.pushExtent
    dsimp only
    rw [client,found]
    rfl
  have pushed : step duo s (.push false 0x40000007 reply64) = some { s with
      sp := sp, stage := Function.update s.stage false (.sending ⟨some ⟨3,rbuf,64⟩,s.sp.mem,sp.mem⟩) } := by
    simp only [step,push,idle]
    rw [if_neg (by decide),show reply64.msg = some 0x20000000 from rfl,show reply64.bytes = 64 from rfl,
      show reply64.names = Post.everyone from rfl,extent,
      show s.sp.msgReply _ reply64.granted _ reply64.ipc _ reply64.status _ _ = _ from sent]
  refine ⟨_,⟨some ⟨3,rbuf,64⟩,s.sp.mem,sp.mem⟩,.cons first pushed (.cons (second _) rfl .nil),?_,rfl⟩
  simp [Exchange.answer,holding,tied,mail,duo]

/-- The message of `false` is taken in alone. -/
theorem pulled_alone : ∃ s, Lts.Run (step duo) (Orderly duo) empty
    [.send false (letter false),.receive false false,.pull false Post.everyone (fun _ => true) none 0] s ∧
    s.stage false = .idle ∧ s.tied false = some false ∧ s.mail false = letter false ∧
      s.sp.frame = (fun _ _ => true) ∧
    s.sp.bulkPendingFind 3 = some (⟨0,by decide⟩,⟨3,0x10000000,5000⟩) ∧ s.last false = some 0x40000007 ∧
      s.log = [] := by
  refine ⟨_,.cons trivial rfl (.cons trivial rfl (.cons ?_ rfl .nil)),rfl,rfl,rfl,rfl,rfl,rfl,rfl⟩
  rintro t badge d ⟨⟩
  refine ⟨rfl,rfl,rfl,?_⟩
  intro j t' tied other
  cases j with
  | false => exact absurd (Option.some.inj tied).symm other
  | true => cases tied

/-- And its answer lands where it should. -/
theorem bulk_replies_land_alone : ∃ s, Lts.Run (step duo) (Orderly duo) empty
      [.send false (letter false),.receive false false,.pull false Post.everyone (fun _ => true) none 0,
        .push false 0x40000007 reply64,.finish false] s ∧
    s.log.map (fun l => l.write.extent) = [some ⟨3,0x10000000,64⟩] ∧ ∀ l ∈ s.log, l.Lands duo := by
  obtain ⟨s,run,idle,tied,mail,frame,found,last,log⟩ := pulled_alone
  have orderly : Orderly duo s (.push false 0x40000007 reply64) := ⟨rfl,last,false,tied,by rw [mail]; rfl,rfl⟩
  obtain ⟨s',w,rest,logged,extent⟩ := push_finish (Orderly duo) idle tied mail frame found orderly fun _ => trivial
  have all := run.append rest
  refine ⟨s',all,?_,bulk_replies_land duo _ _ _ all⟩
  simp [logged,log,extent]

/-- Two threads of process 3 wait for two servers; what server 4 answers to the first lands in the
buffer of the second. -/
theorem bulk_reply_in_other_buffer : ¬ ∀ (P : Parties Bool Bool) (mem : Pid → Word → Byte)
    (frame : Pid → Nat → Bool) (mail : Bool → Mail)
    (moves : List (Move Bool Bool)) (s : Exchange Bool Bool), Lts.Run (step P) Calls
      (start mem frame mail) moves s →
    ∀ l ∈ s.log, l.Lands P := by
  intro landing
  obtain ⟨s,run,idle,tied,mail,frame,found⟩ : ∃ s, Lts.Run (step duo) Calls empty
      [.send false (letter false),.send true (letter true),.receive false false,.pull false Post.everyone
        (fun _ => true) none 0,
        .receive true true,.pull true Post.everyone (fun _ => true) none 0] s ∧
      s.stage false = .idle ∧ s.tied false = some false ∧ s.mail false = letter false ∧
        s.sp.frame = (fun _ _ => true) ∧
      s.sp.bulkPendingFind 3 = some (⟨0,by decide⟩,⟨3,0x11000000,5000⟩) :=
    ⟨_,.cons trivial rfl (.cons trivial rfl
      (.cons trivial rfl (.cons trivial rfl (.cons trivial rfl (.cons trivial rfl .nil))))),
      rfl,rfl,rfl,rfl,rfl⟩
  obtain ⟨s',w,rest,logged,extent⟩ := push_finish Calls idle tied mail frame found trivial fun _ => trivial
  have lands := landing duo _ _ _ _ s' (run.append rest) _ (logged ▸ List.mem_cons_self)
  obtain ⟨t,m,d,reached,desc,-,base,-⟩ := lands.2 _ extent
  obtain ⟨rfl,rfl⟩ : false = t ∧ letter false = m := by simpa using reached
  obtain rfl : (⟨0x10000000,64,0x10000000,5000⟩ : Descriptor) = d := Option.some.inj desc
  exact absurd base (by decide)

end Exchange

end Qsoe.Msg
