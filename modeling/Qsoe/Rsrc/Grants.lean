import Qsoe.Lib.Align
import Qsoe.Rsrc.Edits

/-! What a single attach is granted. The first free range of the class that `find_fit` accepts is
the first one with room for the request, unless aligning runs past the top of the address space:
then the request is given the addresses from 0 on. -/
namespace Qsoe.Rsrc

open Linked Database

variable {k : Consts} {db db' : Database} {lists lists' : Option Place → List Index} {e i j : Index} {c : Nat}
variable {x : Entry} {r : Request}

/-- The addresses `low` to `high` of the range `s` are what `r` asks for. -/
structure Placement (k : Consts) (s : Segment (BitVec 32)) (r : Request) (low high : Nat) : Prop where
  free : s.label = 0
  length : high + 1 = low + max 1 r.length.toNat
  inside : s.start ≤ low ∧ high ≤ s.stop
  range : r.flags &&& k.flagRange ≠ 0 → r.start.toNat ≤ low ∧ high ≤ r.stop.toNat
  aligned : (alignment k r).toNat ∣ low

/-- An attach of one request grants a placement, and with two entries in the pool fails only if
there is none. -/
structure Delivers (k : Consts) (db : Database) (lists : Option Place → List Index) (caller : BitVec 32)
    (r : Request) : Prop where
  returns : (db.attach k caller [r]).isSome = true
  granted : ∀ db' echoes, db.attach k caller [r] = some (db',.ok echoes) → ∃ echo c, echoes = [echo] ∧
    classOf k r.flags = some c ∧ ∃ s ∈ segments db lists c, Placement k s r echo.start.toNat echo.stop.toNat
  refused : ∀ db', db.attach k caller [r] = some (db',.error .enospc) → 2 ≤ (lists (some .pool)).length →
    ∀ c ∈ classOf k r.flags, ∀ s ∈ segments db lists c, ∀ low high, ¬ Placement k s r low high

/-- The last address of a request that is granted the addresses from 0 on. -/
def Request.extra (r : Request) : BitVec 64 := if r.length ≠ 0 then r.length - 1 else 0

/-- The range is free, its start cannot be aligned below the top of the address space, and its end
would do for a grant from 0 on. -/
def RunsOver (k : Consts) (x : Entry) (r : Request) : Prop :=
  x.owner = 0 ∧ (clip k x r).1 ≤ (clip k x r).2 ∧ ¬ Aligns k x r ∧ r.extra ≤ (clip k x r).2

/-- The request has room somewhere, or no range of its class runs over with a carve that the pool
has the entries for. -/
def Room (k : Consts) (db : Database) (lists : Option Place → List Index) (r : Request) (c : Nat) : Prop :=
  (∃ s ∈ segments db lists c, ∃ low high, Placement k s r low high) ∨
    ∀ e ∈ lists (some (.listed c)), RunsOver k (db.entries e) r →
      (lists (some .pool)).length < pieces (db.entries e) r.extra

theorem extra_length (r : Request) : r.extra.toNat + 1 = max 1 r.length.toNat := by
  unfold Request.extra
  split
  · bv_omega
  · rename_i empty
    have zero : r.length = 0 := by simpa using empty
    simp [zero]

theorem alignment_power (power : r.flags &&& k.flagAlign ≠ 0 → ∃ n, r.align.toNat = 2 ^ n) :
    ∃ n, (alignment k r).toNat = 2 ^ n := by
  by_cases asked : r.flags &&& k.flagAlign ≠ 0
  · obtain ⟨n,size⟩ := power asked
    have positive := Nat.two_pow_pos n
    have nonzero : r.align ≠ 0 := by
      intro zero
      rw [zero] at size
      simp at size
      omega
    exact ⟨n,by simp only [alignment,if_pos asked,if_neg nonzero,size]⟩
  · refine ⟨0,?_⟩
    simp only [alignment,if_neg asked]
    rfl

theorem alignUp_toNat (lo align : BitVec 64) (power : align.toNat = 2 ^ n)
    (room : lo.toNat + align.toNat ≤ 2 ^ 64) :
    (alignUp lo align).toNat = (lo.toNat + (2 ^ n - 1)) / 2 ^ n * 2 ^ n := by
  have positive := Nat.two_pow_pos n
  unfold alignUp
  split
  · exact Align.toNat_roundUp lo align power (by omega)
  · rename_i one
    have unit : 2 ^ n = 1 := by bv_omega
    simp [unit]

theorem alignUp_wraps (lo align : BitVec 64) (power : align.toNat = 2 ^ n)
    (beyond : 2 ^ 64 < lo.toNat + align.toNat) :
    alignUp lo align = 0 := by
  have positive := Nat.two_pow_pos n
  have small := lo.isLt
  have bound := align.isLt
  have more : (1 : BitVec 64) < align := by bv_omega
  have mask : (align - 1).toNat = 2 ^ n - 1 := by bv_omega
  have sum : (lo + align - 1).toNat = lo.toNat + align.toNat - 1 - 2 ^ 64 := by bv_omega
  apply BitVec.eq_of_toNat_eq
  rw [alignUp,if_pos more,Align.toNat_and_not _ _ mask,sum,Nat.div_eq_of_lt (by omega)]
  simp

theorem grant_some (granted : grant k x r = some (start,stop)) :
    x.owner = 0 ∧ (clip k x r).1 ≤ (clip k x r).2 ∧ start = alignUp (clip k x r).1 (alignment k r) ∧
      stop = start + r.extra ∧ start ≤ stop ∧ stop ≤ (clip k x r).2 := by
  unfold grant at granted
  dsimp only at granted
  rw [show (if r.length ≠ 0 then r.length - 1 else 0) = r.extra from rfl] at granted
  split at granted
  · cases granted
  · rename_i fits
    obtain ⟨rfl,rfl⟩ : _ = start ∧ _ = stop := by simpa using granted
    simp only [not_or,ne_eq,Decidable.not_not] at fits
    obtain ⟨free,order,up,down⟩ := fits
    exact ⟨free,BitVec.not_lt.mp order,rfl,rfl,BitVec.not_lt.mp up,BitVec.not_lt.mp down⟩

theorem grant_of (free : x.owner = 0) (order : (clip k x r).1 ≤ (clip k x r).2)
    (up : alignUp (clip k x r).1 (alignment k r) ≤ alignUp (clip k x r).1 (alignment k r) + r.extra)
    (down : alignUp (clip k x r).1 (alignment k r) + r.extra ≤ (clip k x r).2) :
    grant k x r = some (alignUp (clip k x r).1 (alignment k r),alignUp (clip k x r).1
      (alignment k r) + r.extra) := by
  unfold grant
  dsimp only
  rw [show (if r.length ≠ 0 then r.length - 1 else 0) = r.extra from rfl,if_neg]
  simp only [not_or,ne_eq,Decidable.not_not]
  exact ⟨free,BitVec.not_lt.mpr order,BitVec.not_lt.mpr up,BitVec.not_lt.mpr down⟩

/-- What lies in the clipped range lies in the range and meets `FLAG_RANGE`. -/
theorem clip_iff (x : Entry) (r : Request) (low high : Nat) :
    ((clip k x r).1.toNat ≤ low ∧ high ≤ (clip k x r).2.toNat) ↔
      (x.start.toNat ≤ low ∧ high ≤ x.stop.toNat) ∧
        (r.flags &&& k.flagRange ≠ 0 → r.start.toNat ≤ low ∧ high ≤ r.stop.toNat) := by
  unfold clip
  split
  · rename_i ranged
    simp only [ranged,not_false_eq_true,true_implies,ne_eq]
    split <;> split <;> bv_omega
  · rename_i free
    exact ⟨fun inside => ⟨inside,fun ranged => absurd ranged free⟩,And.left⟩

theorem grant_placement (granted : grant k x r = some (start,stop)) (power : (alignment k r).toNat = 2 ^ n)
    (aligns : Aligns k x r) : Placement k x.segment r start.toNat stop.toNat := by
  obtain ⟨free,order,first,last,up,down⟩ := grant_some granted
  have base := alignUp_toNat _ _ power aligns
  rw [← first] at base
  have above := le_alignUp _ _ aligns
  rw [← first] at above
  have length := extra_length r
  obtain ⟨inside,range⟩ := (clip_iff (k := k) x r start.toNat stop.toNat).mp ⟨above,down⟩
  exact ⟨free,by bv_omega,inside,range,by rw [base,power]; exact Nat.dvd_mul_left ..⟩

/-- Every placement starts at the aligned start or later. -/
theorem Placement.aligns (placed : Placement k x.segment r low high) (power : (alignment k r).toNat = 2 ^ n) :
    Aligns k x r ∧ (alignUp (clip k x r).1 (alignment k r)).toNat ≤ low := by
  have length := placed.length
  have clipped := (clip_iff (k := k) x r low high).mpr ⟨placed.inside,placed.range⟩
  have top := (clip k x r).2.isLt
  obtain ⟨m,rfl⟩ := placed.aligned
  have positive := Nat.two_pow_pos n
  have small : n ≤ 64 := by
    by_contra large
    have grown := Nat.pow_lt_pow_right (a := 2) (by decide) (Nat.lt_of_not_le large)
    have bound := (alignment k r).isLt
    omega
  obtain ⟨rest,whole⟩ : ∃ rest, 2 ^ 64 = 2 ^ n * rest :=
    ⟨2 ^ (64 - n),by rw [← Nat.pow_add,Nat.add_sub_cancel' small]⟩
  rw [power] at clipped length
  have below : m < rest := by
    by_contra large
    have grown := Nat.mul_le_mul_left (2 ^ n) (Nat.le_of_not_lt large)
    omega
  have step : 2 ^ n * m + 2 ^ n ≤ 2 ^ 64 := by
    rw [whole,← Nat.mul_succ]
    exact Nat.mul_le_mul_left _ below
  have aligns : Aligns k x r := by
    unfold Aligns
    omega
  refine ⟨aligns,?_⟩
  rw [alignUp_toNat _ _ power aligns,power,Nat.mul_comm (2 ^ n) m]
  apply Nat.mul_le_mul_right
  apply Nat.le_of_lt_succ
  rw [Nat.div_lt_iff_lt_mul positive,Nat.succ_mul,Nat.mul_comm m]
  omega

theorem grant_none (refused : grant k x r = none) (power : (alignment k r).toNat = 2 ^ n) (low high : Nat) :
    ¬ Placement k x.segment r low high := by
  intro placed
  obtain ⟨aligns,first⟩ := placed.aligns power
  have above := le_alignUp _ _ aligns
  have length := placed.length
  have extra := extra_length r
  have clipped := (clip_iff (k := k) x r low high).mpr ⟨placed.inside,placed.range⟩
  have top := (clip k x r).2.isLt
  have granted := grant_of (k := k) (x := x) (r := r) placed.free (by bv_omega) (by bv_omega) (by bv_omega)
  rw [refused] at granted
  cases granted

theorem RunsOver.grant (beyond : RunsOver k x r) (power : (alignment k r).toNat = 2 ^ n) :
    grant k x r = some (0,r.extra) := by
  obtain ⟨free,order,unaligned,reach⟩ := beyond
  have zero := alignUp_wraps _ _ power (Nat.lt_of_not_le unaligned)
  have granted := grant_of (k := k) (x := x) (r := r) free order (by rw [zero]; bv_omega) (by rw [zero]; simpa using reach)
  rw [granted,zero]
  simp

/-- The first range that grants the request, or none does. -/
theorem Held.findFit (held : Held k db lists) (c : Nat) (r : Request) :
    (db.findFit k c r = some none ∧ ∀ i ∈ lists (some (.listed c)), grant k (db.entries i) r = none) ∨
      ∃ pre e post start stop, lists (some (.listed c)) = pre ++ e :: post ∧
        (∀ i ∈ pre, grant k (db.entries i) r = none) ∧ grant k (db.entries e) r = some (start,stop) ∧
        db.findFit k c r = some (some (e,start,stop)) := by
  obtain ⟨pre,post,split,passed,stopped,found⟩ := held.threaded.walk c fun i => (grant k (db.entries i) r).isSome
  have refused : ∀ i ∈ pre, grant k (db.entries i) r = none := fun i member => by simpa using passed i member
  cases post with
  | nil =>
    refine .inl ⟨by simp [Database.findFit,found],?_⟩
    rw [split,List.append_nil]
    exact refused
  | cons e post =>
    obtain ⟨⟨start,stop⟩,granted⟩ := Option.isSome_iff_exists.mp (stopped e rfl)
    exact .inr ⟨pre,e,post,start,stop,split,refused,granted,by simp [Database.findFit,found,granted]⟩

theorem attach_error (one : db.attachOne k caller r = some (db',.error f)) :
    db.attach k caller [r] = some (db',.error .enospc) := by
  simp [Database.attach,Database.attachAll,one,Database.rollback]

theorem attach_ok {again : Option Index} (one : db.attachOne k caller r = some (db',.ok (again,start,stop))) :
    db.attach k caller [r] = some (db',.ok [{ r with start := start, stop := stop, length := stop - start + 1 }]) := by
  simp [Database.attach,Database.attachAll,one,Except.map]

/-- An attach goes on to the carve, which needs its entries from the pool. -/
theorem Held.attachOne (held : Held k db lists) (settled : lists none = []) (named : classOf k r.flags = some c)
    (found : db.findFit k c r = some (some (e,start,stop))) (split : lists (some (.listed c)) = pre ++ e :: post)
    (free : (db.entries e).owner = 0) (range : start ≤ stop) (high : stop ≤ (db.entries e).stop)
    (caller : BitVec 32) :
    ((lists (some .pool)).length < pieces (db.entries e) stop ∧
        ∃ db', db.attachOne k caller r = some (db',.error .enospc)) ∨
      (pieces (db.entries e) stop ≤ (lists (some .pool)).length ∧
        ∃ db' i, db.attachOne k caller r = some (db',.ok (i,start,stop))) := by
  unfold Database.attachOne
  obtain ⟨db₁,lists₁,held₁,-,⟨short,failed,-⟩ | ⟨enough,done,-⟩⟩ :=
    held.carve settled split free range high caller r.flags
  · exact .inl ⟨short,db₁,by simp [named,found,failed]⟩
  · obtain ⟨pre',post',-,-,-,walked⟩ := held₁.threaded.walk c fun j => (db₁.entries j).owner == caller &&
      (db₁.entries j).start == start && (db₁.entries j).stop == stop
    exact .inr ⟨enough,db₁,post'.head?,by simp [named,found,done,walked]⟩

theorem Delivers.of_error (failed : db.attach k caller [r] = some (db',.error .enospc))
    (nothing : 2 ≤ (lists (some .pool)).length → ∀ c ∈ classOf k r.flags, ∀ s ∈ segments db lists c, ∀ low high,
      ¬ Placement k s r low high) : Delivers k db lists caller r where
  returns := by rw [failed]; rfl
  granted db₁ echoes done := by
    rw [failed] at done
    cases done
  refused _ _ := nothing

theorem pieces_le (x : Entry) (stop : BitVec 64) : pieces x stop ≤ 2 := by
  unfold pieces
  split <;> omega

theorem RunsOver.behind {y : Entry} (beyond : RunsOver k x r) (after : x.stop < y.start)
    (power : (alignment k r).toNat = 2 ^ n) (low high : Nat) : ¬ Placement k y.segment r low high := by
  intro placed
  obtain ⟨aligns,-⟩ := placed.aligns power
  obtain ⟨-,order,unaligned,-⟩ := beyond
  have inside := (clip_inside (k := k) x r).2
  have starts := (clip_inside (k := k) y r).1
  unfold Aligns at aligns unaligned
  bv_omega

/-- An attach of a single request delivers exactly if there is room for the request or no range
runs over. -/
theorem attach_delivers (tidy : Tidy k db lists) (caller : BitVec 32)
    (power : r.flags &&& k.flagAlign ≠ 0 → ∃ n, r.align.toNat = 2 ^ n) :
    Delivers k db lists caller r ↔ ∀ c ∈ classOf k r.flags, Room k db lists r c := by
  have held := tidy.toSound.held
  have settled : lists none = [] := List.eq_nil_iff_forall_not_mem.mpr tidy.settled
  obtain ⟨n,size⟩ := alignment_power power
  cases named : classOf k r.flags with
  | none =>
    have failed : db.attachOne k caller r = some (db,.error .enospc) := by simp [Database.attachOne,named]
    simp only [Option.mem_def,reduceCtorEq,false_implies,implies_true,iff_true]
    exact Delivers.of_error (attach_error failed) (by simp [named])
  | some c =>
    simp only [Option.mem_def,Option.some.injEq,forall_eq']
    have nowhere : ∀ i ∈ lists (some (.listed c)), grant k (db.entries i) r = none → ∀ low high,
        ¬ Placement k (db.entries i).segment r low high := fun i _ refused => grant_none refused size
    rcases held.findFit c r with ⟨missed,refused⟩ | ⟨pre,e,post,start,stop,split,refused,granted,found⟩
    · have failed : db.attachOne k caller r = some (db,.error .enospc) := by simp [Database.attachOne,named,missed]
      refine ⟨fun _ => .inr fun i member beyond => ?_,fun _ => Delivers.of_error (attach_error failed)
        fun _ d same s member => ?_⟩
      · have granted := beyond.grant size
        rw [refused i member] at granted
        cases granted
      · obtain rfl : c = d := by simpa [named] using same
        obtain ⟨i,inside,rfl⟩ := List.mem_map.mp member
        exact nowhere i inside (refused i inside)
    · have member : e ∈ lists (some (.listed c)) := by simp [split]
      obtain ⟨free,order,first,last,up,down⟩ := grant_some granted
      have high := BitVec.le_trans down (clip_inside (k := k) (db.entries e) r).2
      have result := held.attachOne settled named found split free up high caller
      by_cases aligns : Aligns k (db.entries e) r
      · have placed := grant_placement granted size aligns
        have inside : (db.entries e).segment ∈ segments db lists c := List.mem_map.mpr ⟨e,member,rfl⟩
        refine ⟨fun _ => .inl ⟨_,inside,_,_,placed⟩,fun _ => ?_⟩
        rcases result with ⟨short,db₁,failed⟩ | ⟨-,db₁,i,done⟩
        · refine Delivers.of_error (attach_error failed) fun two => ?_
          have few := pieces_le (db.entries e) stop
          omega
        · have echoed := attach_ok done
          refine ⟨by rw [echoed]; rfl,fun db₂ echoes answer => ?_,fun db₂ answer => ?_⟩
          · rw [echoed] at answer
            obtain ⟨rfl,rfl⟩ : db₁ = db₂ ∧ _ = echoes := by simpa using answer
            exact ⟨_,c,rfl,named,_,inside,placed⟩
          · rw [echoed] at answer
            cases answer
      · have beyond : RunsOver k (db.entries e) r := by
          refine ⟨free,order,aligns,?_⟩
          have zero := alignUp_wraps _ _ size (Nat.lt_of_not_le aligns)
          rw [last,first,zero] at down
          simpa using down
        obtain ⟨rfl,rfl⟩ : 0 = start ∧ r.extra = stop := by
          have zero := beyond.grant size
          rw [granted,Option.some.injEq,Prod.mk.injEq] at zero
          exact ⟨zero.1.symm,zero.2.symm⟩
        have order := (tidy.sorted c).order
        rw [split] at order
        have later := (List.pairwise_cons.mp (List.pairwise_append.mp order).2.1).1
        have nothing : ∀ s ∈ segments db lists c, ∀ low high, ¬ Placement k s r low high := by
          intro s inside low high placed
          obtain ⟨i,there,rfl⟩ := List.mem_map.mp inside
          have where' := there
          rw [split] at where'
          rcases List.mem_append.mp where' with before | here
          · exact nowhere i there (refused i before) low high placed
          · rcases List.mem_cons.mp here with rfl | after
            · exact aligns (placed.aligns size).1
            · exact beyond.behind (later i after) size low high placed
        rcases result with ⟨short,db₁,failed⟩ | ⟨enough,db₁,i,done⟩
        · refine ⟨fun _ => .inr fun i there beyond' => ?_,fun _ => Delivers.of_error (attach_error failed)
            fun _ d same => ?_⟩
          · have where' := there
            rw [split] at where'
            rcases List.mem_append.mp where' with before | here
            · have granted' := beyond'.grant size
              rw [refused i before] at granted'
              cases granted'
            · rcases List.mem_cons.mp here with rfl | after
              · exact short
              · -- it ends behind `e`, so the carve would leave a residue
                have before := later i after
                have proper := (tidy.sorted c).proper i there
                have more : r.extra < (db.entries i).stop := by bv_omega
                have few := pieces_le (db.entries e) r.extra
                rw [pieces,if_pos more]
                omega
          · obtain rfl : c = d := by simpa [named] using same
            exact nothing
        · have echoed := attach_ok done
          refine ⟨fun delivers => ?_,?_⟩
          · obtain ⟨echo,d,-,same,s,inside,placed⟩ := delivers.granted _ _ echoed
            obtain rfl : c = d := by simpa [named] using same
            exact absurd placed (nothing s inside _ _)
          · rintro (⟨s,inside,low,high,placed⟩ | short)
            · exact absurd placed (nothing s inside low high)
            · have few := short e member beyond
              omega

/-- A page-aligned request in a class with one range. -/
def pageRequest : Request := ⟨0x1000,0x1000,0,0,0x200⟩

theorem attach_delivers_page : ∃ db lists,
    Lts.Run (step fewConsts) (aligned fewConsts) Database.init [.create 2 [⟨0x1800,0x8fff,0⟩]] db ∧
      Tidy fewConsts db lists ∧
      (Delivers fewConsts db lists 3 pageRequest ↔
        ∀ c ∈ classOf fewConsts pageRequest.flags, Room fewConsts db lists pageRequest c) := by
  obtain ⟨db,run,-⟩ := Lts.Run.exists_of_replay (step fewConsts) (aligned fewConsts) Database.init
    [.create 2 [⟨0x1800,0x8fff,0⟩]] (fun _ => True) (by decide +kernel)
  obtain ⟨lists,tidy⟩ := run_good run
  exact ⟨db,lists,run,tidy,attach_delivers tidy 3 fun _ => ⟨12,by decide⟩⟩

/-- From a free range in the last 2048 bytes, 16 bytes on a page boundary are granted at 0. -/
theorem attach_misplaces : ¬ ∀ db lists, Tidy fewConsts db lists →
    Delivers fewConsts db lists 7 ⟨0x10,0x1000,0,0,0x200⟩ := by
  intro delivers
  obtain ⟨db,run,granted,alone⟩ := Lts.Run.exists_of_replay (step fewConsts) (aligned fewConsts) Database.init
    [.create 5 [⟨0xfffffffffffff800,0xffffffffffffffff,0⟩]]
    (fun db => ((db.attach fewConsts 7 [⟨0x10,0x1000,0,0,0x200⟩]).map fun done =>
      done.2.toOption.map (·.map Request.start)) =
        some (some [0]) ∧
      ((db.root (.listed 0)).map fun i => (db.next i,(db.entries i).start)) = some (none,0xfffffffffffff800))
    (by decide +kernel)
  obtain ⟨lists,tidy⟩ := run_good run
  obtain ⟨⟨db',answer⟩,done,echoed⟩ := Option.map_eq_some_iff.mp granted
  obtain ⟨i,first,last⟩ := Option.map_eq_some_iff.mp alone
  obtain ⟨ends,start⟩ : db.next i = none ∧ (db.entries i).start = 0xfffffffffffff800 := by simpa using last
  have one : lists (some (.listed 0)) = [i] := (tidy.shape.chain (.listed 0)).unique ⟨first,ends⟩
  cases answer with
  | error f => simp [Except.toOption] at echoed
  | ok echoes =>
    obtain ⟨echo,c,rfl,named,s,inside,placed⟩ := (delivers db lists tidy).granted db' echoes done
    obtain rfl : 0 = c := by
      have zero : classOf fewConsts 0x200 = some 0 := by decide
      exact Option.some.inj (zero.symm.trans named)
    have low : echo.start = 0 := by simpa [Except.toOption] using echoed
    obtain rfl : s = (db.entries i).segment := by simpa [segments,one] using inside
    have above := placed.inside.1
    simp [Entry.segment,start,low] at above

end Qsoe.Rsrc
