import Qsoe.Msg.Transfer

/-! When a message and its answer arrive whole. A request without a reply buffer goes into the
message registers however long it is; taskman finds the process to copy from and to by a badge,
which need not be the sender's. -/
namespace Qsoe.Msg

open Qsoe.Taskman (Pid Word)

variable {a : SendArgs} {line : Line} {sp sp' : Space} {smsg rmsg msg rbuf : Word} {rcvid : BitVec 32}
    {bytes : Nat} {pid : Pid} {client : Pid} {before after data : List Byte}
  {m : Pid → Word → Byte} {i j k n : Nat} {pending : Slab.Table bulkPendingMax Pending} {len : Word}
  {at' : Fin bulkPendingMax}

/-- All zeros but for one byte. -/
def cell (p : Pid) (x : Word) : Pid → Word → Byte := fun q y => if q = p ∧ y = x then 1 else 0

def Space.full (mem : Pid → Word → Byte) (pending : Slab.Table bulkPendingMax Pending) : Space :=
  ⟨mem,fun _ _ => true,pending⟩

/-- An address out of reach of a buffer at `x`. -/
def far (x : Word) : Word := x + 0x200000000

theorem far_apart (p q : Pid) (x : Word) (first : k ≤ 2 ^ 31) (second : n ≤ 2 ^ 31) :
    Memory.Apart p x k q (far x) n := by
  intro _ i below j below' meets
  unfold far at meets
  have i' : (BitVec.ofNat 64 i).toNat = i := size_toNat (by omega)
  have j' : (BitVec.ofNat 64 j).toNat = j := size_toNat (by omega)
  bv_omega

theorem far_apart' (p q : Pid) (x : Word) (first : k ≤ 2 ^ 31) (second : n ≤ 2 ^ 31) :
    Memory.Apart p (far x) k q x n :=
  fun same i below j below' meets => far_apart q p x second first same.symm j below' i below meets.symm

/-- A request that fills its buffer leaves nothing of it. -/
theorem Filled.exact (filled : Filled before after data) (same : before.length = data.length) : after = data := by
  obtain ⟨pad,-,short,rfl⟩ := filled
  obtain rfl : pad = 0 := by omega
  rw [Nat.add_zero,← same,List.drop_length,List.replicate_zero,List.append_nil,List.append_nil]

theorem load_zeros (p : Pid) (x : Word) (n : Nat) (zero : ∀ i < n, m p (x + BitVec.ofNat 64 i) = 0) :
    leNat (Memory.load m p x n) = 0 := by
  have zeros : Memory.load m p x n = List.replicate n 0 := by
    apply List.ext_getElem?
    intro i
    rw [Memory.getElem?_load,List.getElem?_replicate]
    split
    · rename_i below
      rw [zero i below]
    · rfl
  rw [zeros]
  clear zeros zero
  induction n with
  | zero => rfl
  | succ n ih =>
    rw [List.replicate_succ,leNat,ih]
    rfl

/-- At most the type word and the registers are written. -/
theorem receive_cut (names : Names) (granted : Word → Bool) (server : Pid) (badge msg : Word)
    (bytes : Nat) (ipc : Ipc) (own : a.smsg = some smsg) (inline : a.bulk = false)
    (typed : leNat (Memory.load sp.mem client smsg 8) < 2 ^ 30) :
    ∃ text, text.length ≤ msgMaxBytes + 8 ∧
      sp.msgReceive names granted server badge (some msg) bytes (msgSend a ipc sp.mem client) =
        ({ sp with mem := Memory.store sp.mem server msg text },.ok (badge.setWidth 32)) := by
  refine ⟨leBytes 8 (BitVec.ofNat 32 (leNat (Memory.load sp.mem client smsg 8))).toNat ++
    (packBytes (Memory.load sp.mem client (smsg + 8) (a.sbytes - 8))).take (min (bytes - 8) msgMaxBytes),?_,?_⟩
  · rw [List.length_append,length_leBytes,List.length_take]
    omega
  · simp only [msgSend,own,inline,Bool.false_eq_true,if_false,Space.msgReceive,type_bits typed,ne_eq,
      not_true_eq_false]

theorem offset_ne (x : Word) (apart : i ≠ j) (first : i < 2 ^ 31) (second : j < 2 ^ 31) :
    x + BitVec.ofNat 64 i ≠ x + BitVec.ofNat 64 j := by
  have i' : (BitVec.ofNat 64 i).toNat = i := size_toNat first
  have j' : (BitVec.ofNat 64 j).toNat = j := size_toNat second
  bv_omega

theorem Whole.fits (whole : Whole line a smsg) (own : a.smsg = some smsg) (inline : a.bulk = false) :
    a.sbytes ≤ msgMaxBytes + 8 := by
  by_contra beyond
  have int := a.sizes.1
  have max : msgMaxBytes + 8 = 968 := rfl
  rw [max] at beyond
  -- the byte after the last that fits is the only one set
  let sp := Space.full (cell line.client (smsg + BitVec.ofNat 64 968)) fun _ => none
  have typed : leNat (Memory.load sp.mem line.client smsg 8) < 2 ^ 30 := by
    have nothing : leNat (Memory.load sp.mem line.client smsg 8) = 0 := by
      apply load_zeros
      intro i below
      exact if_neg fun set => offset_ne smsg (by omega) (by omega) (by omega) set.2
    omega
  obtain ⟨text,short,received⟩ := receive_cut ⟨fun _ => true,line.clientOf⟩ (fun _ => true) line.server line.badge
    (far smsg) a.sbytes ⟨0,[]⟩ own inline typed
  have arrived := (whole sp _ _ _ _ _ le_rfl int (far_apart _ _ _ int.le int.le) typed _ _ received).1.exact
    (by rw [Memory.length_load,Memory.length_load])
  have byte := congrArg (fun bs => bs[968]?) arrived
  simp only [Memory.getElem?_load,if_pos (not_le.mp beyond),Option.some.injEq] at byte
  have kept : Memory.store sp.mem line.server (far smsg) text line.server (far smsg + BitVec.ofNat 64 968) =
      sp.mem line.server (far smsg + BitVec.ofNat 64 968) := by
    apply Memory.store_outside
    intro _ i below
    exact offset_ne _ (by omega) (by omega) (by omega)
  have clear : sp.mem line.server (far smsg + BitVec.ofNat 64 968) = 0 := by
    refine if_neg fun set => ?_
    exact far_apart line.client line.server smsg (k := 969) (n := 969) (by omega) (by omega)
      set.1.symm 968 (by omega) 968
      (by omega) set.2.symm
  have set : sp.mem line.client (smsg + BitVec.ofNat 64 968) = 1 := if_pos ⟨rfl,rfl⟩
  rw [kept,clear,set] at byte
  exact absurd byte (by decide)

theorem pendingSlot_congr {copied : Space} (same : copied.pending = sp.pending) (pid : Pid) :
    copied.pendingSlot pid = sp.pendingSlot pid := by
  unfold Space.pendingSlot Space.bulkPendingFind
  rw [same]

/-- With everything mapped a PULL copies and leaves an entry. -/
theorem pull_full (clientOf : Word → Pid) (server : Pid) (badge src dst rbuf rbytes : Word)
    (named : clientOf badge ≠ 0)
    (few : len.toNat ≤ bulkMax) (apart : Memory.Apart (clientOf badge) src len.toNat server dst len.toNat)
    (slot : (Space.full m pending).pendingSlot (clientOf badge) = some at') :
    ∃ sp', (Space.full m pending).msgXfer ⟨fun _ => true,clientOf⟩ (fun _ => true) server
        (.pull badge src dst len rbuf rbytes) = (sp',.ok len) ∧
      sp'.mem = Memory.store m server dst (Memory.load m (clientOf badge) src len.toNat) ∧
      sp'.pending = Slab.put pending at' ⟨clientOf badge,rbuf,rbytes⟩ ∧ sp'.frame = fun _ _ => true := by
  obtain ⟨copied,copying⟩ := (Space.full m pending).bulkCopy_total (fun _ _ => rfl) (clientOf badge)
    src server dst few
  have mem := (Space.bulkCopy_ok apart copying).1
  obtain ⟨kept,frame⟩ := (Space.full m pending).bulkCopy_rest (fun _ => true) (clientOf badge) src server dst len
  rw [copying] at kept frame
  rw [← pendingSlot_congr kept] at slot
  refine ⟨{ copied with pending := Slab.put copied.pending at' ⟨clientOf badge,rbuf,rbytes⟩ },?_,mem,?_,frame⟩
  · simp only [Space.msgXfer,named,if_false,Space.msgXferPull,Bool.and_self,Bool.true_eq_false,copying,slot]
  · exact congrArg (fun t => Slab.put t at' _) kept

theorem pendingSlot_empty (m : Pid → Word → Byte) (pid : Pid) :
    (Space.full m fun _ => none).pendingSlot pid = some ⟨0,by decide⟩ := by
  unfold Space.pendingSlot
  have missing : (Space.full m fun _ => none).bulkPendingFind pid = none := Slab.find_none_of fun _ _ used =>
    nomatch used
  rw [missing]
  rfl

theorem Whole.sender (whole : Whole line a smsg) (own : a.smsg = some smsg) (desc : a.bulk = true)
    (long : 8 ≤ a.sbytes) (few : a.sbytes ≤ bulkMax) (named : line.clientOf (pullKey line.badge) ≠ 0) :
    line.clientOf (pullKey line.badge) = line.client := by
  by_contra other
  have int := a.sizes.1
  have size := size_toNat int
  -- the first byte of the request is the only one set
  let sp := Space.full (cell line.client smsg) fun _ => none
  have zero : smsg = smsg + BitVec.ofNat 64 0 := by simp
  have typed : leNat (Memory.load sp.mem line.client smsg 8) < 2 ^ 30 := by
    have split := Memory.load_append sp.mem line.client smsg 1 7
    have rest : leNat (Memory.load sp.mem line.client (smsg + BitVec.ofNat 64 1) 7) = 0 := by
      apply load_zeros
      intro i below
      refine if_neg fun set => ?_
      have meets := set.2
      rw [BitVec.add_assoc,← BitVec.ofNat_add] at meets
      exact offset_ne smsg (by omega) (by omega) (by omega) (meets.trans zero)
    have first : Memory.load sp.mem line.client smsg 1 = [1] := by simp [Memory.load,sp,Space.full,cell]
    rw [split,first,List.singleton_append,leNat,rest]
    decide
  have apart : Memory.Apart (line.clientOf (pullKey line.badge)) smsg (BitVec.ofNat 64 a.sbytes).toNat
    line.server (far smsg)
      (BitVec.ofNat 64 a.sbytes).toNat := by
    rw [size]
    exact far_apart _ _ _ int.le int.le
  obtain ⟨sp',pulled,mem,-⟩ := pull_full line.clientOf line.server (pullKey line.badge) smsg (far smsg)
    (a.rmsg.getD 0)
    (BitVec.ofNat 64 a.rbytes) named (by rwa [size]) apart (pendingSlot_empty (cell line.client smsg) _)
  have received := receive_desc ⟨0,[]⟩ line.client own desc long le_rfl int pulled
  have arrived := (whole sp _ _ _ _ _ le_rfl int (far_apart _ _ _ int.le int.le) typed _ _ received).1.exact
    (by rw [Memory.length_load,Memory.length_load])
  have copied : Memory.load sp'.mem line.server (far smsg) a.sbytes =
      Memory.load sp.mem (line.clientOf (pullKey line.badge)) smsg a.sbytes := by
    rw [mem,size,Memory.load_store _ _ _ (by rw [Memory.length_load]; omega) _ (by rw [Memory.length_load]),Memory.take_load,
      Nat.min_self]
    rfl
  rw [copied] at arrived
  have byte := congrArg (fun bs => bs[0]?) arrived
  simp only [Memory.getElem?_load,if_pos (show 0 < a.sbytes by omega),Option.some.injEq,← zero] at byte
  have clear : sp.mem (line.clientOf (pullKey line.badge)) smsg = 0 := if_neg fun set => other set.1
  have set : sp.mem line.client smsg = 1 := if_pos ⟨rfl,rfl⟩
  rw [clear,set] at byte
  exact absurd byte (by decide)

theorem reply_elsewhere (clientOf : Word → Pid) (server : Pid) (ipc : Ipc) (status : BitVec 32) (answer : Word)
    (bulky : rcvid &&& rcvidBulk ≠ 0) (named : clientOf (pushKey rcvid) ≠ 0)
    (entry : Slab.find pending (fun e => e.pid == clientOf (pushKey rcvid)) =
      some (at',⟨clientOf (pushKey rcvid),rbuf,1⟩)) :
    ∃ sp', (Space.full m pending).msgReply ⟨fun _ => true,clientOf⟩ (fun _ => true) server ipc rcvid status
      (some answer) 1 =
        (sp',.ok ⟨capReply,status,[]⟩) ∧
      ∀ p x, ¬ (p = clientOf (pushKey rcvid) ∧ x = rbuf) → sp'.mem p x = m p x := by
  have found : (Space.full m pending).bulkPendingFind (clientOf (pushKey rcvid)) =
      some (at',⟨clientOf (pushKey rcvid),rbuf,1⟩) := entry
  have few : (1 : Word).toNat ≤ bulkMax := by decide
  obtain ⟨copied,copying⟩ := (Space.full m pending).bulkCopy_total (fun _ _ => rfl) server answer
    (clientOf (pushKey rcvid))
    rbuf few
  have pushed : (Space.full m pending).msgXfer ⟨fun _ => true,clientOf⟩ (fun _ => true) server
      (.push (pushKey rcvid) answer (BitVec.ofNat 64 1)) = (copied.release at',.ok 1) := by
    have all : (if (1 : Word) < BitVec.ofNat 64 1 then (1 : Word) else BitVec.ofNat 64 1) = 1 := by decide
    have one : (1 : Word) ≠ 0 := by decide
    simp only [Space.msgXfer,named,if_false,Space.msgXferPush,found,Bool.and_self,Bool.true_eq_false,all,
      one,copying]
  refine ⟨copied.release at',?_,?_⟩
  · simp only [Space.msgReply,bulky,ne_eq,not_false_eq_true,if_true,Option.isSome_some,Nat.one_ne_zero,and_self,
      Option.getD_some,pushed]
  · intro p x away
    have kept := (Space.full m pending).bulkCopy_outside (fun _ => true) server answer
      (clientOf (pushKey rcvid)) rbuf 1
      (q := p) (x := x) ?_
    · rw [copying] at kept
      exact kept
    · intro same i below
      obtain rfl : i = 0 := by
        have one : (1 : Word).toNat = 1 := rfl
        omega
      intro meets
      refine away ⟨same,?_⟩
      simpa using meets.symm

theorem Whole.misdirected (whole : Whole line a smsg) (own : a.rmsg = some rmsg) (some_bytes : a.rbytes ≠ 0)
    (roomy : a.sbytes ≤ bytes) (int : bytes < 2 ^ 31)
    (apart : Memory.Apart line.client smsg a.sbytes line.server msg bytes)
    (typed : leNat (Memory.load sp.mem line.client smsg 8) < 2 ^ 30)
    (received : sp.msgReceive ⟨fun _ => true,line.clientOf⟩ (fun _ => true) line.server line.badge (some msg) bytes
      (msgSend a ⟨0,[]⟩ sp.mem line.client) = (sp',.ok rcvid))
    (bulky : rcvid &&& rcvidBulk ≠ 0)
    (entry : Slab.find sp'.pending (fun e => e.pid == line.clientOf (pushKey rcvid)) =
      some (at',⟨line.clientOf (pushKey rcvid),rmsg + 1,1⟩)) : line.clientOf (pushKey rcvid) = 0 := by
  by_contra named
  obtain ⟨sp'',sent,kept⟩ := reply_elsewhere (m := cell line.server (far rmsg)) line.clientOf line.server ⟨0,[]⟩
    0 (far rmsg)
    bulky named entry
  have far' : Memory.Apart line.server (far rmsg) 1 line.client rmsg a.rbytes :=
    far_apart' _ _ _ (by decide) a.sizes.2.le
  have filled := ((whole sp _ _ _ _ _ roomy int apart typed _ _ received).2
    (Space.full (cell line.server (far rmsg)) sp'.pending) _ _ _ _ _ _ _ rfl (by decide) own far' _ _ sent rfl).2
  rw [unpack_nothing] at filled
  obtain ⟨pad,-,-,after⟩ := filled
  have byte := congrArg (fun bs => bs[0]?) after
  have data : (Memory.load (cell line.server (far rmsg)) line.server (far rmsg) 1).take a.rbytes = [1] := by
    rw [Memory.take_load,Nat.min_eq_right (by omega)]
    simp [Memory.load,cell]
  have away : sp''.mem line.client rmsg = 0 := by
    rw [kept line.client rmsg fun same => ?_]
    · refine if_neg fun same => ?_
      exact far' same.1.symm 0 (by decide) 0 (by omega) (by simpa using same.2.symm)
    · have next := same.2
      bv_omega
  simp only [Memory.getElem?_load,if_pos (Nat.pos_of_ne_zero some_bytes)] at byte
  rw [show (Space.full (cell line.server (far rmsg)) sp'.pending).mem = cell line.server (far rmsg) from rfl,
    data] at byte
  simp [away] at byte

def stray (q : Pid) (rmsg : Word) : Slab.Table bulkPendingMax Pending :=
  Slab.put (fun _ => none) ⟨0,by decide⟩ ⟨q,rmsg + 1,1⟩

theorem stray_find (q : Pid) (rmsg : Word) :
    Slab.find (stray q rmsg) (fun e => e.pid == q) = some (⟨0,by decide⟩,⟨q,rmsg + 1,1⟩) :=
  Slab.find_put_only (fun _ _ used => nomatch used) (by simp)

theorem zeros_typed (zero : ∀ p x, sp.mem p x = 0) (p : Pid) (x : Word) :
    leNat (Memory.load sp.mem p x 8) < 2 ^ 30 := by
  rw [load_zeros p x 8 fun _ _ => zero _ _]
  decide

theorem stray_other (q : Pid) (rmsg : Word) (other : q ≠ pid) :
    Slab.find (stray q rmsg) (fun e => e.pid == pid) = none := by
  apply Slab.find_none_of
  intro k e used
  rcases Slab.put_cases used with ⟨-,rfl⟩ | old
  · simpa using other
  · cases old

theorem stray_free (q : Pid) (rmsg : Word) : ∃ at', Slab.free (stray q rmsg) = some at' := by
  rw [← Option.isSome_iff_exists,← Option.ne_none_iff_isSome]
  intro full
  exact (Slab.free_none_iff _).mp full ⟨⟨1,by decide⟩,rfl⟩

theorem Whole.plain (whole : Whole line a smsg) (own : a.smsg = some smsg) (inline : a.bulk = false)
    (long : 8 ≤ a.sbytes) :
    line.badge.setWidth 32 &&& rcvidBulk = 0 ∨ a.rmsg = none ∨ a.rbytes = 0 ∨
      line.clientOf (pushKey (line.badge.setWidth 32)) = 0 := by
  by_cases plain : line.badge.setWidth 32 &&& rcvidBulk = 0
  · exact .inl plain
  · cases into : a.rmsg with
    | none => exact .inr (.inl rfl)
    | some rmsg =>
      by_cases empty : a.rbytes = 0
      · exact .inr (.inr (.inl empty))
      · let sp := Space.full (fun _ _ => 0) (stray (line.clientOf (pushKey (line.badge.setWidth 32))) rmsg)
        have typed : leNat (Memory.load sp.mem line.client smsg 8) < 2 ^ 30 :=
          zeros_typed (fun _ _ => rfl) line.client smsg
        have int := a.sizes.1
        obtain ⟨sp',received,kept,-⟩ := receive_regs ⟨fun _ => true,line.clientOf⟩ (fun _ => true)
          line.server line.badge
          (far smsg) ⟨0,[]⟩ own inline long (whole.fits own inline) le_rfl int typed
        have entry : Slab.find sp'.pending (fun e => e.pid == line.clientOf (pushKey (line.badge.setWidth 32))) =
            some (⟨0,by decide⟩,⟨line.clientOf (pushKey (line.badge.setWidth 32)),rmsg + 1,1⟩) := by
          rw [kept]
          exact stray_find _ rmsg
        exact .inr (.inr (.inr (whole.misdirected into empty le_rfl int (far_apart _ _ _ int.le int.le)
          typed received plain
          entry)))

theorem Whole.addressed (whole : Whole line a smsg) (own : a.smsg = some smsg) (desc : a.bulk = true)
    (long : 8 ≤ a.sbytes) (few : a.sbytes ≤ bulkMax) (named : line.clientOf (pullKey line.badge) ≠ 0) :
    a.rbytes = 0 ∨ line.clientOf (pushKey (line.badge.setWidth 32)) = 0 ∨
      line.clientOf (pushKey (line.badge.setWidth 32)) = line.client := by
  have sender := whole.sender own desc long few named
  by_cases empty : a.rbytes = 0
  · exact .inl empty
  · by_cases same : line.clientOf (pushKey (line.badge.setWidth 32)) = line.client
    · exact .inr (.inr same)
    · obtain ⟨rmsg,into⟩ : ∃ rmsg, a.rmsg = some rmsg := by
        rw [SendArgs.bulk,Bool.and_eq_true] at desc
        exact Option.isSome_iff_exists.mp desc.2
      obtain ⟨at',free⟩ := stray_free (line.clientOf (pushKey (line.badge.setWidth 32))) rmsg
      let sp := Space.full (fun _ _ => 0) (stray (line.clientOf (pushKey (line.badge.setWidth 32))) rmsg)
      have typed : leNat (Memory.load sp.mem line.client smsg 8) < 2 ^ 30 :=
        zeros_typed (fun _ _ => rfl) line.client smsg
      have missing : sp.bulkPendingFind (line.clientOf (pullKey line.badge)) = none := by
        rw [sender]
        exact stray_other _ rmsg same
      have slot : sp.pendingSlot (line.clientOf (pullKey line.badge)) = some at' := by
        rw [Space.pendingSlot,missing]
        exact free
      have int := a.sizes.1
      have size := size_toNat int
      have apart : Memory.Apart (line.clientOf (pullKey line.badge)) smsg
        (BitVec.ofNat 64 a.sbytes).toNat line.server
          (far smsg) (BitVec.ofNat 64 a.sbytes).toNat := by
        rw [size]
        exact far_apart _ _ _ int.le int.le
      obtain ⟨sp',pulled,-,kept,-⟩ := pull_full line.clientOf line.server (pullKey line.badge) smsg (far smsg)
        (a.rmsg.getD 0)
        (BitVec.ofNat 64 a.rbytes) named (by rwa [size]) apart slot
      have received := receive_desc ⟨0,[]⟩ line.client own desc long le_rfl int pulled
      have entry : Slab.find sp'.pending
        (fun e => e.pid == line.clientOf (pushKey (rcvidBulk ||| line.badge.setWidth 32))) =
          some (⟨0,by decide⟩,⟨line.clientOf (pushKey (rcvidBulk ||| line.badge.setWidth 32)),rmsg + 1,1⟩) := by
        rw [kept,pushKey_bulk,Slab.find_put_skip (Slab.free_some free) (by simpa [sender] using Ne.symm same)]
        exact stray_find _ rmsg
      have nobody := whole.misdirected into empty le_rfl int (far_apart _ _ _ int.le int.le) typed received
        (bulk_bit _) entry
      rw [pushKey_bulk] at nobody
      exact .inr (.inl nobody)

/-- Over any connection, a request of at least a word arrives whole, with its answer, exactly if
it fits the registers or goes as a descriptor taskman copies from the sender and to it. -/
theorem message_whole_iff (own : a.smsg = some smsg) (long : 8 ≤ a.sbytes) :
    Whole line a smsg ↔ Carried line a := by
  constructor
  · intro whole
    unfold Carried
    cases desc : a.bulk with
    | false => exact ⟨whole.fits own desc,whole.plain own desc long⟩
    | true =>
      rw [if_pos rfl]
      by_cases few : a.sbytes ≤ bulkMax
      · by_cases named : line.clientOf (pullKey line.badge) = 0
        · exact .inr (.inl named)
        · exact .inr (.inr ⟨whole.sender own desc long few named,whole.addressed own desc long few named⟩)
      · exact .inl (not_le.mp few)
  · intro carried
    exact carried.whole own long

/-- Process 3 sends 5000 bytes to process 4 over the connection with badge 7. With a reply buffer
they arrive. -/
theorem message_whole_iff_reply_buffer :
    Whole ⟨3,4,7,fun _ => 3⟩ ⟨some 0x10000000,5000,some 0x10002000,64,by decide⟩ 0x10000000 :=
  (message_whole_iff rfl (by decide)).mpr (by
    rw [Carried,if_pos (by decide)]
    exact .inr (.inr ⟨rfl,.inr (.inr rfl)⟩))

/-- Without a reply buffer the same bytes are cut off after 968. -/
theorem request_without_reply_buffer_cut : ¬ ∀ (line : Line) (a : SendArgs) (smsg : Word), a.smsg = some smsg →
    8 ≤ a.sbytes → Whole line a smsg := by
  intro complete
  have whole := complete ⟨3,4,7,fun _ => 3⟩ ⟨some 0x10000000,5000,none,0,by decide⟩ 0x10000000 rfl (by decide)
  exact absurd (whole.fits rfl rfl) (by decide)

end Qsoe.Msg
