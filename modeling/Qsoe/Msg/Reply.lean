import Qsoe.Lib.Run
import Qsoe.Msg.Slots

/-! Whom a reply answers. `MsgReceive` ties the client to the reply object of the calling
thread, `MsgReply` and `MsgSavereply` take the one in `QSOE_CAP_REPLY`; the two agree in
the main thread only. -/
namespace Qsoe.Msg

variable {ι γ : Type} [DecidableEq ι] {S : Server ι} {s t : State ι γ} {i j : ι}

omit [DecidableEq ι] in
@[simp] theorem Server.reply_eq : S.reply i = S.replyCap i := if_neg (S.nonzero i)

omit [DecidableEq ι] in
theorem Server.reply_main (own : S.reply i = capReply) : i = S.main := by
  rw [Server.reply_eq] at own
  exact S.own (own.trans S.mainCap.symm)

/-- Inside a receive, a save or a reply that goes through `QSOE_CAP_REPLY`. -/
def Pc.Plain : Pc → Prop
  | .idle | .savedSend _ | .savedDelete _ | .savedFree _ | .faulted => False
  | _ => True

def Pc.Pulling : Pc → Prop
  | .pull _ => True
  | _ => False

/-- The slot that holds the main thread's reply object. -/
def Pc.place : Pc → Nat
  | .saveRetype slot | .saveBack slot => slot
  | _ => capReply

def tied (i : ι) (opened : Option γ) : Pc → Binding ι γ
  | .recvBlocked _ => .receiver i
  | _ => .of opened

def Clear (badge : BitVec 64) : Prop := badge.setWidth 32 &&& rcvidSaved = 0 ∧ badge &&& ntfnBadgeBit = 0

instance (badge : BitVec 64) : Decidable (Clear badge) := inferInstanceAs (Decidable (_ ∧ _))

/-- `MsgReply` answers `QSOE_CAP_REPLY` on this rcvid. -/
def Direct (rcvid : BitVec 32) : Prop := rcvid &&& rcvidBulk ≠ 0 ∨ rcvid &&& rcvidSaved = 0

instance (rcvid : BitVec 32) : Decidable (Direct rcvid) := inferInstanceAs (Decidable (_ ∨ _))

/-- A reply to a saved rcvid finds the slot kept for a client. -/
def Live (s : State ι γ) : Pc → Prop
  | .savedSend slot => s.stash slot ≠ none
  | _ => True

/-- Only the thread whose reply object is in `QSOE_CAP_REPLY` receives, and it answers or
saves its latest message before it receives again; a saved rcvid is answered while its
client waits; no pull of a bulk message fails. -/
def Allowed (S : Server ι) (s : State ι γ) : Event ι γ → Prop
  | .send _ badge _ => Clear badge
  | .call i (.receive _ _) => S.reply i = capReply ∧ s.opened i = none
  | .call i (.savereply rcvid) => rcvid &&& rcvidSaved = 0 → S.reply i = capReply ∧ s.last i = some rcvid
  | .call i (.reply rcvid _ _) => Direct rcvid → S.reply i = capReply ∧ s.last i = some rcvid
  | .run i => Live s (s.pc i)
  | .refuse i => ¬(s.pc i).Pulling
  | .deliver _ _ | .pulse _ => True

instance (s : State ι γ) : ∀ p, Decidable (Live s p)
  | .savedSend slot => inferInstanceAs (Decidable (s.stash slot ≠ none))
  | .idle | .recv | .recvBlocked _ | .fetch _ _ | .pull _ | .saveAlloc | .saveMove _ | .saveRetype _
  | .saveBack _ | .saveFree _
  | .push _ | .send | .savedDelete _ | .savedFree _ | .faulted => isTrue trivial

instance : ∀ p : Pc, Decidable p.Pulling
  | .pull _ => isTrue trivial
  | .idle | .recv | .recvBlocked _ | .fetch _ _ | .saveAlloc | .saveMove _ | .saveRetype _
  | .saveBack _ | .saveFree _
  | .push _ | .send | .savedSend _ | .savedDelete _ | .savedFree _ | .faulted => isFalse id

instance (S : Server ι) (s : State ι γ) : ∀ e, Decidable (Allowed S s e)
  | .send _ badge _ => inferInstanceAs (Decidable (Clear badge))
  | .call i (.receive _ _) => inferInstanceAs (Decidable (S.reply i = capReply ∧ s.opened i = none))
  | .call _ (.savereply _) => inferInstanceAs (Decidable (_ → _))
  | .call _ (.reply _ _ _) => inferInstanceAs (Decidable (_ → _))
  | .run i => inferInstanceAs (Decidable (Live s (s.pc i)))
  | .refuse i => inferInstanceAs (Decidable (¬(s.pc i).Pulling))
  | .deliver _ _ | .pulse _ => isTrue trivial

structure Still (s t : State ι γ) : Prop where
  cap : t.cap = s.cap
  bind : t.bind = s.bind
  objects : t.objects = s.objects
  client : t.client = s.client
  free : t.free = s.free
  next : t.next = s.next
  stash : t.stash = s.stash
  opened : t.opened = s.opened
  log : t.log = s.log

namespace Still

theorem setPc : Still s (s.setPc i p) := ⟨rfl,rfl,rfl,rfl,rfl,rfl,rfl,rfl,rfl⟩

theorem finish : Still s (s.finish i r) := ⟨rfl,rfl,rfl,rfl,rfl,rfl,rfl,rfl,rfl⟩

theorem fail : Still s (s.fail i e) := ⟨rfl,rfl,rfl,rfl,rfl,rfl,rfl,rfl,rfl⟩

theorem returnRcvid : Still s (s.returnRcvid i r) := ⟨rfl,rfl,rfl,rfl,rfl,rfl,rfl,rfl,rfl⟩

end Still

omit [DecidableEq ι] in
theorem tied_of {p : Pc} (away : ∀ o, p ≠ .recvBlocked o) : tied i opened p = (.of opened : Binding ι γ) := by
  cases p <;> first | rfl | exact absurd rfl (away _)

structure Invariant (S : Server ι) (s : State ι γ) : Prop where
  slots : Slots s
  bound : Bound (s.pc S.main).place (tied S.main (s.opened S.main) (s.pc S.main)) s
  vacated : (s.pc S.main).place ≠ capReply → s.cap capReply = none
  blocked : ∀ o, s.pc S.main = .recvBlocked o → s.cap capReply = some o ∧ s.opened S.main = none
  closed : s.pc S.main = .recv → s.opened S.main = none
  workers : ∀ i, i ≠ S.main → ¬(s.pc i).Plain ∧ s.opened i = none
  last : ∀ i rcvid, s.last i = some rcvid → rcvid &&& rcvidSaved = 0
  sends : ∀ c badge bulk, s.client c = .sending badge bulk → Clear badge
  pulls : ∀ i badge, s.pc i = .pull badge → Clear badge
  fetches : ∀ i badge bulk, s.pc i ≠ .fetch badge bulk
  log : ∀ a ∈ s.log, a.reached = a.meant

namespace Invariant

theorem main_of_plain (invariant : Invariant S s) (plain : (s.pc i).Plain) : i = S.main := by
  by_contra other
  exact (invariant.workers i other).1 plain

/-- What is left to show of a step of thread `i` once the objects and slots are known. -/
theorem of (invariant : Invariant S s) (pcs : ∀ j, j ≠ i → t.pc j = s.pc j) (slots : Slots t)
    (bound : Bound (t.pc S.main).place (tied S.main (t.opened S.main) (t.pc S.main)) t)
    (vacated : (t.pc S.main).place ≠ capReply → t.cap capReply = none)
    (blocked : ∀ o, t.pc S.main = .recvBlocked o → t.cap capReply = some o ∧ t.opened S.main = none)
    (closed : t.pc S.main = .recv → t.opened S.main = none) (plain : (t.pc i).Plain → i = S.main)
    (opened : ∀ j, j ≠ S.main → t.opened j = s.opened j)
    (last : ∀ j rcvid, t.last j = some rcvid → rcvid &&& rcvidSaved = 0)
    (sends : ∀ c badge bulk, t.client c = .sending badge bulk → Clear badge)
    (pulls : ∀ badge, t.pc i = .pull badge → Clear badge) (fetches : ∀ badge bulk, t.pc i ≠ .fetch badge bulk)
    (log : ∀ a ∈ t.log, a.reached = a.meant) : Invariant S t := by
  refine ⟨slots,bound,vacated,blocked,closed,fun j other => ⟨?_,?_⟩,last,sends,fun j badge counter => ?_,
    fun j badge bulk counter => ?_,log⟩
  · by_cases self : j = i
    · subst self; exact fun busy => other (plain busy)
    · rw [pcs j self]
      exact (invariant.workers j other).1
  · rw [opened j other]
    exact (invariant.workers j other).2
  · by_cases self : j = i
    · subst self; exact pulls badge counter
    · rw [pcs j self] at counter
      exact invariant.pulls j badge counter
  · by_cases self : j = i
    · subst self; exact fetches badge bulk counter
    · rw [pcs j self] at counter
      exact invariant.fetches j badge bulk counter

/-- A step that leaves the main thread's place and message as they are. -/
theorem away (invariant : Invariant S s) (pcs : ∀ j, j ≠ i → t.pc j = s.pc j) (slots : Slots t)
    (bound : Bound (s.pc S.main).place (tied S.main (s.opened S.main) (s.pc S.main)) t)
    (cap : t.cap capReply = s.cap capReply)
    (opened : t.opened = s.opened) (place : (t.pc i).place = (s.pc i).place) (before : ∀ o, s.pc i ≠ .recvBlocked o)
    (after : ∀ o, t.pc i ≠ .recvBlocked o) (closed : t.pc i = .recv → s.opened i = none)
    (plain : (t.pc i).Plain → i = S.main) (last : ∀ j rcvid, t.last j = some rcvid → rcvid &&& rcvidSaved = 0)
    (sends : ∀ c badge bulk, t.client c = .sending badge bulk → Clear badge)
    (pulls : ∀ badge, t.pc i = .pull badge → Clear badge) (fetches : ∀ badge bulk, t.pc i ≠ .fetch badge bulk)
    (log : ∀ a ∈ t.log, a.reached = a.meant) : Invariant S t := by
  have places : (t.pc S.main).place = (s.pc S.main).place := by
    by_cases self : S.main = i
    · rw [self]; exact place
    · rw [pcs _ self]
  have ties : tied S.main (t.opened S.main) (t.pc S.main) = tied S.main (s.opened S.main) (s.pc S.main) := by
    rw [opened]
    by_cases self : S.main = i
    · rw [self,tied_of before,tied_of after]
    · rw [pcs _ self]
  refine invariant.of pcs slots (by rw [places,ties]; exact bound) (by rw [places,cap]; exact invariant.vacated)
    (fun o counter => ?_) (fun counter => ?_) plain (fun j _ => by rw [opened]) last sends pulls fetches log
  · by_cases self : S.main = i
    · subst self; exact absurd counter (after o)
    · rw [pcs _ self] at counter
      rw [cap,opened]
      exact invariant.blocked o counter
  · rw [opened]
    by_cases self : S.main = i
    · subst self; exact closed counter
    · rw [pcs _ self] at counter
      exact invariant.closed counter

/-- A call goes on without touching objects, clients or slots. -/
theorem next (invariant : Invariant S s) (still : Still s t) (pcs : ∀ j, j ≠ i → t.pc j = s.pc j)
    (holding : (t.pc i).holding = none ∨ (t.pc i).holding = (s.pc i).holding)
    (place : (t.pc i).place = (s.pc i).place)
    (before : ∀ o, s.pc i ≠ .recvBlocked o) (after : ∀ o, t.pc i ≠ .recvBlocked o)
    (closed : t.pc i = .recv → s.opened i = none) (plain : (t.pc i).Plain → i = S.main)
    (pulls : ∀ badge, t.pc i = .pull badge → Clear badge) (fetches : ∀ badge bulk, t.pc i ≠ .fetch badge bulk)
    (last : ∀ j rcvid, t.last j = some rcvid → rcvid &&& rcvidSaved = 0) : Invariant S t := by
  refine invariant.away pcs (invariant.slots.keep still.free still.next (fun _ => .inr (by rw [still.stash]))
    fun j => ?_)
    (invariant.bound.keep still.cap still.bind still.objects still.stash (fun c => by rw [still.client])
      (by rw [still.client]; exact invariant.bound.alive)) (by rw [still.cap]) still.opened place before after closed plain
    last (by rw [still.client]; exact invariant.sends) pulls fetches (by rw [still.log]; exact invariant.log)
  by_cases self : j = i
  · subst self; exact holding
  · exact .inr (by rw [pcs j self])

theorem stop (invariant : Invariant S s) (still : Still s t) (pcs : ∀ j, j ≠ i → t.pc j = s.pc j)
    (place : (s.pc i).place = capReply) (before : ∀ o, s.pc i ≠ .recvBlocked o)
    (after : t.pc i = .idle ∨ t.pc i = .faulted)
    (last : ∀ j rcvid, t.last j = some rcvid → rcvid &&& rcvidSaved = 0) : Invariant S t := by
  refine invariant.next still pcs ?_ ?_ before ?_ ?_ ?_ ?_ ?_ last
  all_goals rcases after with idle | faulted
  all_goals simp_all [Pc.holding,Pc.place,Pc.Plain]

theorem goto (invariant : Invariant S s) (p : Pc) (holding : p.holding = none ∨ p.holding = (s.pc i).holding)
    (place : p.place = (s.pc i).place) (before : ∀ o, s.pc i ≠ .recvBlocked o) (after : ∀ o, p ≠ .recvBlocked o)
    (closed : p = .recv → s.opened i = none) (plain : p.Plain → i = S.main) (pulls : ∀ badge, p ≠ .pull badge)
    (fetches : ∀ badge bulk, p ≠ .fetch badge bulk) : Invariant S (s.setPc i p) := by
  refine invariant.next (i := i) .setPc (fun j self => by simp [self]) ?_ ?_ before ?_ ?_ ?_ ?_ ?_ invariant.last
  all_goals simp only [State.setPc_pc,Function.update_self]
  · exact holding
  · exact place
  · exact after
  · exact closed
  · exact plain
  · exact fun badge pull => absurd pull (pulls badge)
  · exact fetches

theorem callStep (invariant : Invariant S s) (idle : s.pc i = .idle) (allowed : Allowed S s (.call i k)) :
    Invariant S (callStep s i k) := by
  have stay (t : State ι γ) (still : Still s t) (pcs : ∀ j, j ≠ i → t.pc j = s.pc j) (after : t.pc i = .idle)
      (last : t.last = s.last) : Invariant S t :=
    invariant.stop still pcs (by simp [idle,Pc.place]) (by simp [idle]) (.inl after) (by rw [last]; exact invariant.last)
  have fails (e : Errno) : Invariant S (s.fail i e) := stay _ .fail (fun j self => by simp [self]) (by simp) rfl
  have place : Pc.idle.place = (s.pc i).place := by rw [idle]
  have before : ∀ o, s.pc i ≠ .recvBlocked o := by simp [idle]
  cases k with
  | receive chan bytes =>
    have main := Server.reply_main allowed.1
    simp only [Msg.callStep]
    split_ifs
    · exact fails _
    · exact invariant.goto .recv (.inl rfl) place before (by simp) (fun _ => allowed.2) (fun _ => main)
        (by simp) (by simp)
    · exact fails _
  | savereply rcvid =>
    simp only [Msg.callStep]
    split_ifs with saved
    · exact stay _ .finish (fun j self => by simp [self]) (by simp) rfl
    · have main := Server.reply_main (allowed (not_not.mp saved)).1
      exact invariant.goto .saveAlloc (.inl rfl) place before (by simp) (by simp) (fun _ => main)
        (by simp) (by simp)
  | reply rcvid payload bytes =>
    simp only [Msg.callStep]
    split_ifs with negative bulk saved
    · exact fails _
    · have main := Server.reply_main (allowed (.inl bulk)).1
      exact invariant.goto (.push _) (.inl rfl) place before (by simp) (by simp) (fun _ => main) (by simp) (by simp)
    · exact invariant.goto (.savedSend _) (.inl rfl) place before (by simp) (by simp) False.elim (by simp) (by simp)
    · have main := Server.reply_main (allowed (.inr (not_not.mp saved))).1
      exact invariant.goto .send (.inl rfl) place before (by simp) (by simp) (fun _ => main) (by simp) (by simp)

/-- A step of the main thread that ties the object in `QSOE_CAP_REPLY` to something else. -/
theorem retied (invariant : Invariant S s) (home : (s.pc S.main).place = capReply) (there : s.cap capReply = some o)
    (pcs : ∀ j, j ≠ S.main → t.pc j = s.pc j) (cap : t.cap = s.cap) (objects : t.objects = s.objects)
    (bind : t.bind = Function.update s.bind o b) (ties : tied S.main (t.opened S.main) (t.pc S.main) = b)
    (free : t.free = s.free) (count : t.next = s.next) (stash : t.stash = s.stash) (opened : ∀ j, j ≠ S.main →
      t.opened j = s.opened j)
    (log : t.log = s.log) (place : (t.pc S.main).place = capReply) (holding : (t.pc S.main).holding = none)
    (blocked : ∀ o', t.pc S.main = .recvBlocked o' → o' = o ∧ t.opened S.main = none) (after : t.pc S.main ≠ .recv)
    (new : ∀ c, b = .caller c → s.client c ≠ .waiting)
    (clients : ∀ c, t.client c = .waiting ↔
      b = .caller c ∨ s.client c = .waiting ∧ tied S.main (s.opened S.main) (s.pc S.main) ≠ .caller c)
    (alive : ∀ c, t.client c ≠ .stranded) (last : ∀ j rcvid, t.last j = some rcvid → rcvid &&& rcvidSaved = 0)
    (sends : ∀ c badge bulk, t.client c = .sending badge bulk → Clear badge)
    (pulls : ∀ badge, t.pc S.main = .pull badge → Clear badge)
    (fetches : ∀ badge bulk, t.pc S.main ≠ .fetch badge bulk) :
    Invariant S t := by
  have bound := invariant.bound
  rw [home] at bound
  refine invariant.of pcs (invariant.slots.keep free count (fun _ => .inr (by rw [stash])) fun j => ?_) ?_
    (fun elsewhere => absurd place elsewhere) (fun o' counter => ?_) (fun counter => absurd counter after)
      (fun _ => rfl) opened
    last sends pulls fetches (by rw [log]; exact invariant.log)
  · by_cases self : j = S.main
    · subst self; exact .inl holding
    · exact .inr (by rw [pcs j self])
  · rw [place,ties]
    refine bound.retie there cap objects bind (fun x => ?_) (fun x used => ?_) (by rw [stash]; exact bound.own) new
      (by simpa only [bound.expect_place] using clients) alive
    · rw [stash]
      exact expect_retie bound.own _ _ x
    · rw [stash] at used
      exact bound.present x used
  · obtain ⟨rfl,nothing⟩ := blocked o' counter
    exact ⟨by rw [cap]; exact there,nothing⟩

theorem recv [DecidableEq γ] (invariant : Invariant S s) (counter : s.pc i = .recv)
    (there : s.cap (S.reply i) = some o) :
    Invariant S ((((s.cancel o).setBind o (.receiver i)).setOpened i none).setPc i (.recvBlocked o)) := by
  obtain rfl := invariant.main_of_plain (i := i) (by simp [counter,Pc.Plain])
  have opened := invariant.closed counter
  rw [Server.reply_eq,S.mainCap] at there
  have home : (s.pc S.main).place = capReply := by simp [counter,Pc.place]
  have idle : tied S.main (s.opened S.main) (s.pc S.main) = (.free : Binding ι γ) := by
    rw [opened,counter]; rfl
  have bound := invariant.bound
  rw [home,idle] at bound
  have free : s.bind o = .free := (bound.held _ _ there).trans bound.expect_place
  have calm : s.cancel o = s := by simp [State.cancel,free]
  rw [calm]
  refine invariant.retied home there (fun j self => by simp [self]) rfl rfl rfl ?_ rfl rfl rfl
    (fun j self => by simp [self])
    rfl ?_ ?_ ?_ ?_ ?_ ?_ bound.alive invariant.last invariant.sends ?_ ?_
  case refine_7 => simp [idle]
  all_goals simp [Pc.place,Pc.holding,tied]

theorem deliver [DecidableEq γ] (invariant : Invariant S s) (taken : deliver s i c = some t) : Invariant S t := by
  unfold Msg.deliver at taken
  split at taken
  · rename_i o badge bulk counter sending
    obtain rfl := invariant.main_of_plain (i := i) (by simp [counter,Pc.Plain])
    obtain ⟨there,opened⟩ := invariant.blocked o counter
    obtain ⟨unsaved,plain⟩ := invariant.sends c badge bulk sending
    have home : (s.pc S.main).place = capReply := by simp [counter,Pc.place]
    simp only [plain,ne_eq,not_true_eq_false,if_false] at taken
    cases taken
    have clients (d : γ) : Function.update s.client c .waiting d = .waiting ↔ c = d ∨ s.client d = .waiting := by
      by_cases same : d = c
      · simp [same]
      · simp [same,Ne.symm same]
    have alive (d : γ) : Function.update s.client c .waiting d ≠ .stranded := by
      by_cases same : d = c
      · simp [same]
      · simpa [same] using invariant.bound.alive d
    have sends (d : γ) (b : BitVec 64) (k : Bool) (queued : Function.update s.client c .waiting d = .sending b k) :
        Clear b := by
      by_cases same : d = c
      · simp [same] at queued
      · exact invariant.sends d b k (by simpa [same] using queued)
    unfold received
    split_ifs
    all_goals
      refine invariant.retied home there (fun j self => by simp [self]) rfl rfl rfl ?_ rfl rfl rfl
        (fun j self => by simp [self]) rfl ?_ ?_ ?_ ?_ ?_ ?_ alive ?_ sends ?_ ?_
      all_goals try simp [Pc.place,Pc.holding,tied,Binding.of,counter,sending]
    · exact fun d => clients d
    · exact invariant.last
    · exact ⟨unsaved,plain⟩
    · exact fun d => clients d
    · intro j rcvid known
      by_cases self : j = S.main
      · subst self
        obtain rfl : badge.setWidth 32 = rcvid := by simpa using known
        exact unsaved
      · exact invariant.last j rcvid (by simpa [self] using known)
  · cases taken

theorem pulse (invariant : Invariant S s) (taken : pulse s i = some t) : Invariant S t := by
  unfold Msg.pulse at taken
  split at taken
  · rename_i o counter
    obtain rfl := invariant.main_of_plain (i := i) (by simp [counter,Pc.Plain])
    obtain ⟨there,opened⟩ := invariant.blocked o counter
    have home : (s.pc S.main).place = capReply := by simp [counter,Pc.place]
    cases taken
    refine invariant.retied home there (fun j self => by simp [self]) rfl rfl rfl ?_ rfl rfl rfl
      (fun j self => rfl) rfl ?_ ?_
      ?_ ?_ ?_ ?_ invariant.bound.alive ?_ invariant.sends ?_ ?_
    all_goals try simp [Pc.place,Pc.holding,tied,Binding.of,counter,opened]
    intro j rcvid known
    by_cases self : j = S.main
    · subst self
      obtain rfl : 0 = rcvid := by simpa using known
      rfl
    · exact invariant.last j rcvid (by simpa [self] using known)
  · cases taken

theorem saveAlloc (invariant : Invariant S s) (counter : s.pc i = .saveAlloc)
    (taken : s.allocEmptySlot = some (slot,t)) : Invariant S (t.setPc i (.saveMove slot)) := by
  have main := invariant.main_of_plain (i := i) (by simp [counter,Pc.Plain])
  have slots := invariant.slots.alloc taken (i := i) (p := .saveMove slot) (by simp [counter,Pc.holding]) rfl
  obtain ⟨cap,bind,objects,client,stash,opened,last,log,pcs⟩ := State.allocEmptySlot_eq taken
  refine invariant.away (i := i) (fun j self => by simp [self,pcs]) slots
    (invariant.bound.keep cap bind objects stash (fun c => by rw [State.setPc_client,client])
      fun c => by rw [State.setPc_client,client]; exact invariant.bound.alive c)
    (by rw [State.setPc_cap,cap]) opened ?_ ?_ ?_ ?_ (fun _ => main) ?_ ?_ ?_ ?_ ?_
  case refine_5 => simpa [last] using invariant.last
  case refine_6 => simpa [client] using invariant.sends
  case refine_9 => simpa [log] using invariant.log
  all_goals simp [counter,Pc.place]

/-- The main thread's object moves to another slot, as its program counter says. -/
theorem moved (invariant : Invariant S s) (counter : (s.pc S.main).holding = some slot) (p : Pc)
    (moved : s.move p.place (s.pc S.main).place = some t) (holds : p.holding = some slot)
    (unused : s.stash p.place = none) (before : ∀ o, s.pc S.main ≠ .recvBlocked o) (after : ∀ o, p ≠ .recvBlocked o)
    (vacated : p.place ≠ capReply → (s.pc S.main).place = capReply) : Invariant S (t.setPc S.main p) := by
  obtain ⟨full,empty,cap,-⟩ := State.move_eq moved
  obtain ⟨free,count,pcs,opened,last,log,client,stash⟩ := State.move_rest moved
  have bound := invariant.bound.move moved unused
  rw [tied_of before] at bound
  have notRecv : p ≠ .recv := by rintro rfl; cases holds
  refine invariant.of (i := S.main) (fun j self => by simp [self,pcs]) ?_ ?_ ?_ ?_ ?_ (fun _ => rfl)
    ?_ ?_ ?_ ?_ ?_ ?_
  · refine invariant.slots.keep free count (fun x => .inr (by rw [State.setPc_stash,stash])) fun j => .inr ?_
    by_cases self : j = S.main
    · subst self; simp [holds,counter]
    · simp [self,pcs]
  · simp only [State.setPc_pc,Function.update_self,State.setPc_opened,opened,tied_of after]
    exact bound.keep rfl rfl rfl rfl (fun _ => .rfl) bound.alive
  · intro elsewhere
    simp only [State.setPc_pc,Function.update_self] at elsewhere
    rw [State.setPc_cap,cap,vacated elsewhere,if_pos rfl]
  · intro o blocked
    exact absurd (by simpa using blocked) (after o)
  · intro recv
    exact absurd (by simpa using recv) notRecv
  · exact fun j _ => by rw [State.setPc_opened,opened]
  · simpa [last] using invariant.last
  · simpa [client] using invariant.sends
  · intro badge pull
    obtain rfl : p = .pull badge := by simpa using pull
    cases holds
  · intro badge bulk fetch
    obtain rfl : p = .fetch badge bulk := by simpa using fetch
    cases holds
  · simpa [log] using invariant.log

theorem saveRetype (invariant : Invariant S s) (counter : s.pc i = .saveRetype slot)
    (made : s.retype capReply = some t) :
    Invariant S (((t.setStash slot (t.opened i)).setOpened i none).finish i r) := by
  obtain rfl := invariant.main_of_plain (i := i) (by simp [counter,Pc.Plain])
  have holds : (s.pc S.main).holding = some slot := by simp [counter,Pc.holding]
  have held := invariant.slots.held _ _ holds
  have apart : capReply ≠ slot := by
    have low := capReply_low
    omega
  obtain ⟨-,cap,bind,objects,client,stash⟩ := State.retype_eq made
  obtain ⟨free,count,pcs,opened,last,log⟩ := State.retype_rest made
  have bound := invariant.bound
  rw [counter] at bound
  have bound := Bound.retype (c := s.opened S.main) bound made (invariant.slots.stash_low capReply_low) apart
  rw [opened]
  refine invariant.of (i := S.main) (fun j self => by simp [self,pcs]) ?_ ?_ ?_ ?_ ?_ ?_
    (fun j self => by simp [self,opened]) ?_ ?_
    ?_ ?_ ?_
  · exact invariant.slots.hand holds free count (by rw [← stash]; rfl) (fun j self => by simp [self,pcs])
      (by simp [Pc.holding])
  · simp only [State.finish_pc,Function.update_self,State.finish_opened,State.setOpened_opened]
    exact bound.keep rfl rfl rfl rfl (fun _ => .rfl) bound.alive
  case refine_7 => simpa [last] using invariant.last
  case refine_8 => simpa [client] using invariant.sends
  case refine_11 => simpa [log] using invariant.log
  all_goals simp [Pc.place,Pc.Plain]

theorem release (invariant : Invariant S s) (holds : (s.pc i).holding = some slot)
    (place : (s.pc i).place = capReply)
    (t : State ι γ) (still : Still (s.freeEmptySlot slot) t) (pcs : ∀ j, j ≠ i → t.pc j = s.pc j)
    (after : t.pc i = .idle) (last : t.last = s.last) (before : ∀ o, s.pc i ≠ .recvBlocked o) : Invariant S t := by
  obtain ⟨cap,bind,objects,client,stash,opened,log,counters,-⟩ := State.freeEmptySlot_eq s slot
  have slots := invariant.slots.release holds (p := .idle) rfl
  refine invariant.away pcs ?_ ?_ (by rw [still.cap,cap]) (still.opened.trans opened) ?_ before ?_ ?_ ?_
    (by rw [last]; exact invariant.last) (by rw [still.client,client]; exact invariant.sends) ?_ ?_
    (by rw [still.log,log]; exact invariant.log)
  · refine slots.keep still.free still.next (fun x => .inr (by rw [still.stash]; rfl)) fun j => .inr ?_
    by_cases self : j = i
    · subst self; simp [after]
    · simp [pcs j self,self,counters]
  · exact invariant.bound.keep (still.cap.trans cap) (still.bind.trans bind) (still.objects.trans objects)
      (still.stash.trans stash) (fun c => by rw [still.client,client])
      (by rw [still.client,client]; exact invariant.bound.alive)
  · rw [after,place]; rfl
  all_goals simp [after,Pc.Plain]

omit [DecidableEq ι] in
theorem answered_sends [DecidableEq γ] (invariant : Invariant S s) (c : γ) (badge : BitVec 64) (bulk : Bool)
    (sending : (s.answer slot).1.client c = .sending badge bulk) : Clear badge := by
  obtain ⟨-,-,-,-,-,-,-,-,client⟩ := State.answer_rest s slot
  rcases client c with idle | same
  · rw [idle] at sending
    cases sending
  · exact invariant.sends c badge bulk (by rw [← same]; exact sending)

/-- A reply through `QSOE_CAP_REPLY` answers the message the main thread has open. -/
theorem send [DecidableEq γ] (invariant : Invariant S s) (counter : s.pc i = .send) :
    Invariant S
      ((((s.answer capReply).1.record ⟨s.opened i,(s.answer capReply).2⟩).setOpened i none).finish i 0) := by
  obtain rfl := invariant.main_of_plain (i := i) (by simp [counter,Pc.Plain])
  obtain ⟨free,count,pcs,opened,last,log,cap,stash,-⟩ := State.answer_rest s capReply
  have bound := invariant.bound
  rw [counter] at bound
  obtain ⟨after,reached⟩ := bound.answer (bound.present _ (.inl rfl)) ⟨s.opened S.main,bound.expect_place⟩
    (fun x => expect_retie bound.own _ .free x) bound.present bound.own
  have same := Binding.of_injective (bound.expect_place.symm.trans reached)
  refine invariant.of (i := S.main) (fun j self => by simp [self,pcs]) ?_ ?_ ?_ ?_ ?_ ?_
    (fun j self => by simp [self,opened]) ?_
    (fun c => invariant.answered_sends c) ?_ ?_ ?_
  · refine invariant.slots.keep free count (fun x => .inr ?_) fun j => ?_
    · simp [stash]
    · by_cases self : j = S.main
      · subst self; exact .inl (by simp [Pc.holding])
      · exact .inr (by simp [self,pcs])
  · simp only [State.finish_pc,Function.update_self,State.finish_opened,State.setOpened_opened]
    exact after.keep rfl rfl rfl stash (fun _ => .rfl) after.alive
  case refine_7 => simpa [last] using invariant.last
  case refine_10 =>
    intro a member
    rcases List.mem_cons.mp member with rfl | old
    · exact same.symm
    · exact invariant.log a (by rw [← log]; exact old)
  all_goals simp [Pc.place,Pc.Plain]

theorem apart_place (invariant : Invariant S s) (holds : (s.pc i).holding = some slot)
    (place : (s.pc i).place = capReply) :
    slot ≠ (s.pc S.main).place := by
  have base := (invariant.slots.held i slot holds).1
  have low := capReply_low
  intro same
  by_cases self : i = S.main
  · subst self
    omega
  · have idle := (invariant.workers i self).1
    have mine : (s.pc S.main).holding = some slot := by
      rw [same]
      cases counter : s.pc S.main <;> rw [counter] at same <;> first | rfl | (simp only [Pc.place] at same; omega)
    exact self (invariant.slots.apart i S.main slot holds mine)

theorem savedSend [DecidableEq γ] (invariant : Invariant S s) (counter : s.pc i = .savedSend slot)
    (used : s.stash slot ≠ none) :
    Invariant S ((((s.answer slot).1.record ⟨meantBySaved s i slot,(s.answer slot).2⟩).setStash slot none).setPc i
      (.savedDelete slot)) := by
  obtain ⟨c,kept⟩ := Option.ne_none_iff_exists'.mp used
  obtain ⟨free,count,pcs,opened,last,log,cap,stash,-⟩ := State.answer_rest s slot
  have bound := invariant.bound
  have apart : slot ≠ (s.pc S.main).place := by
    rintro rfl
    exact used bound.own
  have there : expect (s.pc S.main).place (tied S.main (s.opened S.main) (s.pc S.main)) s.stash slot =
    .caller c := by
    simp [expect,kept]
  have expects (x : Nat) : expect (s.pc S.main).place (tied S.main (s.opened S.main) (s.pc S.main))
      (Function.update s.stash slot none) x = if x = slot then .free else
        expect (s.pc S.main).place (tied S.main (s.opened S.main) (s.pc S.main)) s.stash x := by
    by_cases same : x = slot
    · subst same; simp [expect,apart]
    · simp [expect,same]
  have present (x : Nat) (still : x = (s.pc S.main).place ∨ Function.update s.stash slot none x ≠ none) :
    s.cap x ≠ none := by
    refine bound.present x ?_
    by_cases same : x = slot
    · subst same; exact .inr used
    · simpa [same] using still
  obtain ⟨after,reached⟩ := bound.answer (bound.present _ (.inr used)) ⟨some c,there⟩ expects present
    (by simpa [Ne.symm apart] using bound.own)
  have same : (s.answer slot).2 = some c := Binding.of_injective (reached.symm.trans there)
  have unsaved : s.last i ≠ some (rcvidSaved ||| BitVec.ofNat 32 slot) := by
    intro known
    have clear := invariant.last i _ known
    rw [BitVec.and_or_distrib_right,BitVec.and_self] at clear
    exact absurd (BitVec.or_eq_zero_iff.mp clear).1 (by decide)
  have meant : meantBySaved s i slot = some c := by rw [meantBySaved,if_neg unsaved,kept]
  refine invariant.away (i := i) (fun j self => by simp [self,pcs]) ?_ ?_ (by simp [cap]) opened ?_ ?_ ?_ ?_ ?_ ?_
    (fun c => invariant.answered_sends c) ?_ ?_ ?_
  · exact invariant.slots.claim (i := i) used free count (by rw [← stash]; rfl) (fun j self => by simp [self,pcs])
      (by simp [Pc.holding])
  · exact after.keep rfl rfl rfl (by rw [← stash]; rfl) (fun _ => .rfl) after.alive
  case refine_8 => simpa [last] using invariant.last
  case refine_11 =>
    intro a member
    rcases List.mem_cons.mp member with rfl | old
    · exact same.trans meant.symm
    · exact invariant.log a (by rw [← log]; exact old)
  all_goals simp [counter,Pc.place,Pc.Plain]

theorem savedDelete [DecidableEq γ] (invariant : Invariant S s) (counter : s.pc i = .savedDelete slot) :
    Invariant S ((s.delete slot).setPc i (.savedFree slot)) := by
  have holds : (s.pc i).holding = some slot := by simp [counter,Pc.holding]
  have held := invariant.slots.held i slot holds
  have apart := invariant.apart_place holds (by simp [counter,Pc.place])
  obtain ⟨deleted,bound⟩ := invariant.bound.delete apart held.2.2.2
  have other : capReply ≠ slot := by
    have low := capReply_low
    omega
  rw [deleted]
  refine invariant.away (i := i) (fun j self => by simp [self])
    ?_ (bound.keep rfl rfl rfl rfl (fun _ => .rfl) bound.alive)
    (by simp [other]) rfl ?_ ?_ ?_ ?_ ?_ invariant.last invariant.sends ?_ ?_ invariant.log
  · refine invariant.slots.keep rfl rfl (fun _ => .inr rfl) fun j => .inr ?_
    by_cases self : j = i
    · subst self; simp [counter,Pc.holding]
    · simp [self]
  all_goals simp [counter,Pc.place,Pc.Plain]

theorem saveMove (invariant : Invariant S s) (counter : s.pc i = .saveMove slot)
    (done : s.move slot capReply = some t) :
    Invariant S (t.setPc i (.saveRetype slot)) := by
  obtain rfl := invariant.main_of_plain (i := i) (by simp [counter,Pc.Plain])
  have holds : (s.pc S.main).holding = some slot := by simp [counter,Pc.holding]
  have home : (s.pc S.main).place = capReply := by simp [counter,Pc.place]
  exact invariant.moved holds (.saveRetype slot) (by rw [home]; exact done) rfl (invariant.slots.held _ _ holds).2.2.2
    (by simp [counter]) (by simp) fun _ => home

/-- Moving the object back into the emptied slot cannot fail. -/
theorem saveBack (invariant : Invariant S s) (counter : s.pc i = .saveBack slot) :
    Invariant S (((s.move capReply slot).getD s).setPc i (.saveFree slot)) := by
  obtain rfl := invariant.main_of_plain (i := i) (by simp [counter,Pc.Plain])
  have holds : (s.pc S.main).holding = some slot := by simp [counter,Pc.holding]
  have home : (s.pc S.main).place = slot := by simp [counter,Pc.place]
  have apart : slot ≠ capReply := by
    have low := capReply_low
    have base := (invariant.slots.held _ _ holds).1
    omega
  have full := invariant.bound.present slot (.inl home.symm)
  have empty := invariant.vacated (by rw [home]; exact apart)
  obtain ⟨t,done⟩ : ∃ t, s.move capReply slot = some t := ⟨_,if_pos ⟨full,empty⟩⟩
  rw [done]
  exact invariant.moved holds (.saveFree slot) (by rw [home]; exact done) rfl (invariant.slots.stash_low capReply_low)
    (by simp [counter]) (by simp) fun elsewhere => absurd rfl elsewhere

theorem advance [DecidableEq γ] (invariant : Invariant S s) (allowed : Allowed S s (.run i))
    (taken : advance S s i = some t) :
    Invariant S t := by
  have plain (busy : (s.pc i).Plain) : i = S.main := invariant.main_of_plain busy
  unfold Msg.advance at taken
  cases counter : s.pc i <;> simp only [counter] at taken
  case idle => cases taken
  case recvBlocked => cases taken
  case faulted => cases taken
  case fetch badge bulk => exact absurd counter (invariant.fetches i badge bulk)
  case recv =>
    split at taken
    · cases taken
      exact invariant.stop (i := i) .setPc (fun j self => by simp [self]) (by simp [counter,Pc.place])
        (by simp [counter])
        (.inr (by simp)) invariant.last
    · rename_i o there
      cases taken
      exact invariant.recv counter there
  case pull badge =>
    cases taken
    refine invariant.stop (i := i) .returnRcvid (fun j self => by simp [self]) (by simp [counter,Pc.place])
      (by simp [counter])
      (.inl (by simp)) fun j rcvid known => ?_
    by_cases self : j = i
    · subst self
      obtain rfl : rcvidBulk ||| badge.setWidth 32 = rcvid := by simpa using known
      rw [BitVec.and_or_distrib_right,(invariant.pulls j badge counter).1]
      decide
    · exact invariant.last j rcvid (by simpa [self] using known)
  case saveAlloc =>
    split at taken
    · cases taken
      exact invariant.stop (i := i) .fail (fun j self => by simp [self]) (by simp [counter,Pc.place])
        (by simp [counter])
        (.inl (by simp)) invariant.last
    · rename_i slot u allocated
      cases taken
      exact invariant.saveAlloc counter allocated
  case saveMove slot =>
    split at taken
    · cases taken
      exact invariant.goto (.saveFree slot) (.inr (by rw [counter]; rfl)) (by rw [counter]; rfl) (by simp [counter])
        (by simp)
        (by simp) (fun _ => plain (by simp [counter,Pc.Plain])) (by simp) (by simp)
    · rename_i u done
      cases taken
      exact invariant.saveMove counter done
  case saveRetype slot =>
    split at taken
    · cases taken
      exact invariant.goto (.saveBack slot) (.inr (by rw [counter]; rfl)) (by rw [counter]; rfl) (by simp [counter])
        (by simp)
        (by simp) (fun _ => plain (by simp [counter,Pc.Plain])) (by simp) (by simp)
    · rename_i u made
      cases taken
      exact invariant.saveRetype counter made
  case saveBack slot => cases taken; exact invariant.saveBack counter
  case saveFree slot =>
    cases taken
    obtain ⟨-,-,-,-,-,-,-,counters,last⟩ := State.freeEmptySlot_eq s slot
    exact invariant.release (by rw [counter]; rfl) (by rw [counter]; rfl) _ .fail
      (fun j self => by simp [self,counters]) (by simp) last
      (by simp [counter])
  case push needed =>
    cases taken
    exact invariant.goto .send (.inl rfl) (by rw [counter]; rfl) (by simp [counter]) (by simp) (by simp)
      (fun _ => plain (by simp [counter,Pc.Plain])) (by simp) (by simp)
  case send => cases taken; exact invariant.send counter
  case savedSend slot =>
    cases taken
    change Live s (s.pc i) at allowed
    rw [counter] at allowed
    exact invariant.savedSend counter allowed
  case savedDelete slot => cases taken; exact invariant.savedDelete counter
  case savedFree slot =>
    cases taken
    obtain ⟨-,-,-,-,-,-,-,counters,last⟩ := State.freeEmptySlot_eq s slot
    exact invariant.release (by rw [counter]; rfl) (by rw [counter]; rfl) _ .finish
      (fun j self => by simp [self,counters]) (by simp) last
      (by simp [counter])

theorem refuse (invariant : Invariant S s) (allowed : Allowed S s (.refuse i)) (taken : refuse s i = some t) :
    Invariant S t := by
  unfold Msg.refuse at taken
  cases counter : s.pc i <;> simp only [counter] at taken
  case fetch badge bulk => exact absurd counter (invariant.fetches i badge bulk)
  case pull badge => exact absurd (by rw [counter]; trivial) allowed
  case saveRetype slot =>
    cases taken
    exact invariant.goto (.saveBack slot) (.inr (by rw [counter]; rfl)) (by rw [counter]; rfl) (by simp [counter])
        (by simp)
      (by simp) (fun _ => invariant.main_of_plain (by simp [counter,Pc.Plain])) (by simp) (by simp)
  case push needed =>
    cases taken
    split_ifs
    · exact invariant.stop (i := i) .fail (fun j self => by simp [self]) (by simp [counter,Pc.place])
        (by simp [counter])
        (.inl (by simp)) invariant.last
    · exact invariant.goto .send (.inl rfl) (by rw [counter]; rfl) (by simp [counter]) (by simp) (by simp)
        (fun _ => invariant.main_of_plain (by simp [counter,Pc.Plain])) (by simp) (by simp)
  all_goals cases taken

omit [DecidableEq ι] in
theorem sending [DecidableEq γ] (invariant : Invariant S s) (idle : s.client c = .idle) (clear : Clear badge) :
    Invariant S (s.setClient c (.sending badge bulk)) := by
  have clients (d : γ) : Function.update s.client c (.sending badge bulk) d = .waiting ↔ s.client d = .waiting := by
    by_cases same : d = c
    · simp [same,idle]
    · simp [same]
  refine { invariant with
    slots := invariant.slots.keep rfl rfl (fun _ => .inr rfl) fun _ => .inr rfl
    bound := invariant.bound.keep rfl rfl rfl rfl clients fun d => ?_
    sends := fun d other bulk' sending => ?_ }
  · by_cases same : d = c
    · simp [same]
    · simpa [same] using invariant.bound.alive d
  · by_cases same : d = c
    · obtain ⟨rfl,-⟩ : badge = other ∧ bulk = bulk' := by simpa [same] using sending
      exact clear
    · exact invariant.sends d other bulk' (by simpa [same] using sending)

theorem step [DecidableEq γ] (invariant : Invariant S s) (allowed : Allowed S s e) (taken : step S s e = some t) :
    Invariant S t := by
  cases e with
  | send c badge bulk =>
    simp only [Msg.step] at taken
    split_ifs at taken with idle
    cases taken
    exact invariant.sending idle allowed
  | call i k =>
    simp only [Msg.step] at taken
    split_ifs at taken with idle
    cases taken
    exact invariant.callStep idle allowed
  | run i => exact invariant.advance allowed taken
  | deliver i c => exact invariant.deliver taken
  | pulse i => exact invariant.pulse taken
  | refuse i => exact invariant.refuse allowed taken

omit [DecidableEq ι] in
theorem initial (S : Server ι) : Invariant S (start S : State ι γ) := by
  have holds : S.holds capReply = true := by rw [← S.mainCap]; exact S.provided S.main
  have free (slot : Nat) : expect capReply (.of none) (fun _ => none) slot = (.free : Binding ι γ) := by
    simp [expect,Binding.of]
  have own (slot o : Nat) (there : (start S : State ι γ).cap slot = some o) : slot = o ∧ S.holds slot = true := by
    simp only [start] at there
    split_ifs at there with held
    exact ⟨Option.some.inj there,held⟩
  refine ⟨?_,?_,?_,?_,?_,?_,?_,?_,?_,?_,?_⟩
  · refine ⟨Nat.le_refl _,?_,?_,?_,?_,?_⟩
    all_goals simp [start,Pc.holding]
  · refine ⟨fun slot o _ => (free slot).symm,fun _ _ => rfl,fun x y o first second => ?_,fun x o there =>
      ?_,fun x used => ?_,rfl,
      fun x y c there => ?_,fun x c there => ?_,fun c waits => ?_,fun c => ?_⟩
    · rw [(own x o first).1,(own y o second).1]
    · obtain ⟨rfl,held⟩ := own x o there
      exact S.low x held
    · rcases used with rfl | stashed
      · simp [start,Pc.place,holds]
      · exact absurd rfl stashed
    · exact absurd ((free x).symm.trans there) (by simp)
    · exact absurd ((free x).symm.trans there) (by simp)
    · cases waits
    · simp [start]
  all_goals simp [start,Pc.place,Pc.Plain]

end Invariant

/-- Some reply object tied to the client is in a slot the calls will answer: one kept for
it, or that of a thread that has its message open. -/
def Answerable (s : State ι γ) (c : γ) : Prop :=
  ∃ slot o, s.cap slot = some o ∧ s.bind o = .caller c ∧
    (s.stash slot = some c ∨ ∃ i, s.opened i = some c ∧ slot = (s.pc i).place)

omit [DecidableEq ι] in
theorem Invariant.answerable (invariant : Invariant S s) (waits : s.client c = .waiting) : Answerable s c := by
  obtain ⟨slot,there⟩ := invariant.bound.waiting c waits
  have kept : s.stash slot = some c ∨ s.opened S.main = some c ∧ slot = (s.pc S.main).place := by
    unfold expect at there
    split at there
    · rename_i d stashed
      cases there
      exact .inl stashed
    · split_ifs at there with home
      refine .inr ⟨?_,home⟩
      unfold tied at there
      split at there
      · cases there
      · cases opened : s.opened S.main <;> rw [opened] at there <;> cases there
        rfl
  have full : s.cap slot ≠ none := by
    apply invariant.bound.present
    rcases kept with stashed | ⟨-,home⟩
    · exact .inr (by simp [stashed])
    · exact .inl home
  obtain ⟨o,holds⟩ := Option.ne_none_iff_exists'.mp full
  refine ⟨slot,o,holds,(invariant.bound.held slot o holds).trans there,?_⟩
  rcases kept with stashed | ⟨opened,home⟩
  · exact .inl stashed
  · exact .inr ⟨S.main,opened,home⟩

/-- If only the thread whose reply object is in `QSOE_CAP_REPLY` serves the channel, every
reply reaches the client it was for, every saved slot holds the object tied to its client,
and no client waits without one. -/
theorem replies_reach_their_clients [DecidableEq γ] (run : Lts.Run (step S) (Allowed S) (start S) es s) :
    (∀ a ∈ s.log, a.reached = a.meant) ∧
    (∀ slot c, s.stash slot = some c → ∃ o, s.cap slot = some o ∧ s.bind o = .caller c) ∧
    ∀ c, s.client c ≠ .stranded ∧ (s.client c = .waiting → Answerable s c) := by
  have invariant : Invariant S s := run.invariant (Invariant S)
    (fun _ _ _ invariant allowed taken => invariant.step allowed taken) (.initial S)
  refine ⟨invariant.log,fun slot c kept => ?_,fun c => ⟨invariant.bound.alive c,invariant.answerable⟩⟩
  obtain ⟨o,holds⟩ := Option.ne_none_iff_exists'.mp (invariant.bound.present slot (.inr (by simp [kept])))
  exact ⟨o,holds,by rw [invariant.bound.held slot o holds]; simp [expect,kept]⟩

/-- A main thread and a worker with the reply object of slot 20. -/
def pair : Server (Fin 2) where
  main := 0
  replyCap i := 10 * (i + 1)
  holds slot := slot == 10 || slot == 20
  mainCap := rfl
  own := by
    intro i j same
    have values : 10 * (i.val + 1) = 10 * (j.val + 1) := same
    omega
  nonzero := by decide
  provided := by decide
  low slot held := by
    have either : slot = 10 ∨ slot = 20 := by simpa using held
    rcases either with rfl | rfl <;> decide

/-- The main thread saves the message of client 0, answers client 1, and the worker
answers client 0 on the saved rcvid. -/
def deferred : List (Event (Fin 2) (Fin 2)) :=
  [.send 0 1 false,.call 0 (.receive true 64),.run 0,.deliver 0 0,.call 0 (.savereply 1),.run 0,.run 0,.run 0,
    .send 1 2 false,.call 0 (.receive true 64),.run 0,.deliver 0 1,.call 0 (.reply 2 true 8),.run 0,
    .call 1 (.reply 0x80000800 true 8),.run 1,.run 1,.run 1]

theorem replies_reach_their_clients_deferred : ∃ s : State (Fin 2) (Fin 2),
    Lts.Run (step pair) (Allowed pair) (start pair) deferred s ∧ s.client 0 = .idle ∧ s.client 1 = .idle ∧
      s.log.length = 2 ∧
    ∀ a ∈ s.log, a.reached = a.meant := by
  obtain ⟨s,run,first,second,count⟩ := Lts.Run.exists_of_replay (step pair) (Allowed pair) (start pair) deferred
    (fun s => s.client 0 = .idle ∧ s.client 1 = .idle ∧ s.log.length = 2) (by decide +kernel)
  exact ⟨s,run,first,second,count,(replies_reach_their_clients run).1⟩

/-- A reply names the rcvid of the thread's latest receive. -/
def Latest (s : State ι γ) : Event ι γ → Prop
  | .call i (.reply rcvid _ _) => s.last i = some rcvid
  | _ => True

instance (s : State ι γ) : ∀ e, Decidable (Latest s e)
  | .call i (.reply rcvid _ _) => inferInstanceAs (Decidable (s.last i = some rcvid))
  | .call _ (.receive _ _) | .call _ (.savereply _) | .send _ _ _ | .run _ | .deliver _ _ | .pulse _
  | .refuse _ => isTrue trivial

/-- The main thread receives client 0 and the worker client 1; the worker replies and
receives again. -/
def crossed : List (Event (Fin 2) (Fin 2)) :=
  [.send 0 1 false,.send 1 2 false,.call 0 (.receive true 64),.run 0,.deliver 0 0,.call 1 (.receive true 64),
    .run 1,.deliver 1 1,.call 1 (.reply 2 true 8),.run 1,.call 1 (.receive true 64),.run 1]

theorem worker_answers_for_main : ∃ s : State (Fin 2) (Fin 2),
    Lts.Run (step pair) Latest (start pair) crossed s ∧ s.log = [⟨some 1,some 0⟩] ∧ s.client 1 = .stranded :=
  Lts.Run.exists_of_replay (step pair) Latest (start pair) crossed
    (fun s => s.log = [⟨some 1,some 0⟩] ∧ s.client 1 = .stranded) (by decide +kernel)

end Qsoe.Msg
