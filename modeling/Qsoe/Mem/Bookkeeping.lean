import Qsoe.Mem.Regions
import Qsoe.Mem.Unmapping

/-! The cursor of a process and its trackers. Requests that are granted keep what is tracked apart and
below the cursor, though it moves both ways. -/
namespace Qsoe.Mem

variable {cfg : Config} {s t : State} {slots filled : Slots} {p q : Proc} {e : Event} {d : Devmap}
  {caller : Pid} {phys len va base : Addr} {cap cap' lo lo' hi hi' : Nat}

/-- The process tracks `cap`, and its frame is mapped from `lo` to `hi`. -/
def Proc.Books (p : Proc) (cap lo hi : Nat) : Prop :=
  ∃ page ∈ p.pages, page.target.cap = some cap ∧ page.start = lo ∧ page.stop = hi ∧
    (cap ∈ p.mmap.map Prod.snd ∨ cap ∈ p.devframes.map DevFrame.cap)

/-- What is tracked is mapped where the trackers say, apart, below the cursor, and once. -/
structure Proc.Booked (p : Proc) : Prop where
  pages : ∀ e ∈ p.mmap, p.Books e.2 e.1.toNat (e.1.toNat + 2 ^ 21)
  frames : ∀ f ∈ p.devframes, ∃ hi, p.Books f.cap f.va.toNat hi
  apart : ∀ cap lo hi cap' lo' hi', p.Books cap lo hi → p.Books cap' lo' hi' → cap ≠ cap' → hi ≤ lo' ∨ hi' ≤ lo
  ends : ∀ cap lo hi, p.Books cap lo hi → hi ≤ p.mmapTop.toNat
  once : (p.mmap.map Prod.snd ++ (p.mmapFree ++ p.devframes.map DevFrame.cap)).Nodup

structure Proc.Below (p : Proc) : Prop where
  low : p.mmapTop.toNat ≤ 2 ^ 63
  ends : ∀ cap lo hi, p.Books cap lo hi → hi ≤ p.mmapTop.toNat

theorem Books.map (books : p.Books cap lo hi) (pages : p.pages ⊆ q.pages)
    (mmap : p.mmap.map Prod.snd ⊆ q.mmap.map Prod.snd)
    (frames : p.devframes.map DevFrame.cap ⊆ q.devframes.map DevFrame.cap) : q.Books cap lo hi := by
  obtain ⟨page,member,behind,start,stop,tracked⟩ := books
  exact ⟨page,pages member,behind,start,stop,tracked.imp (fun h => mmap h) fun h => frames h⟩

theorem books_setTop (p : Proc) (top : Addr) : (p.setTop top).Books cap lo hi ↔ p.Books cap lo hi := by
  unfold Proc.Books
  rw [p.setTop_pages,p.setTop_mmap,p.setTop_devframes]

theorem Proc.Sound.booked (sound : p.Sound cfg slots) (below : p.Below) : p.Booked := by
  have page : ∀ e ∈ p.mmap, p.Books e.2 e.1.toNat (e.1.toNat + 2 ^ 21) := by
    intro e member
    refine ⟨megaPageAt cfg e,(sound.tracked e member).1,rfl,rfl,?_,.inl (List.mem_map_of_mem member)⟩
    unfold Mapping.stop megaPageAt pageOf
    rw [megaPage_toNat]
  refine ⟨page,fun f member => ?_,?_,below.ends,?_⟩
  · obtain ⟨page,there,start,behind⟩ := sound.devices f member
    exact ⟨page.stop,page,there,behind,start,rfl,.inr (List.mem_map_of_mem member)⟩
  · rintro cap lo hi cap' lo' hi' ⟨page,member,behind,rfl,rfl,-⟩ ⟨page',member',behind',rfl,rfl,-⟩ different
    have : Std.Symm fun a b : Page => a.stop ≤ b.start ∨ b.stop ≤ a.start := ⟨fun _ _ => Or.symm⟩
    refine List.Pairwise.forall sound.spaced.apart member member' fun same => different ?_
    rw [same,behind'] at behind
    exact (Option.some.inj behind).symm
  · obtain ⟨mmap,rest,apart⟩ := List.nodup_append.mp sound.distinct
    obtain ⟨frames,-,-⟩ := List.nodup_append.mp rest
    have mapped : ∀ cap ∈ p.mmapFree, cap ∉ p.named := by
      intro cap parked named
      obtain ⟨page,there,behind⟩ := sound.backed named
      exact sound.parked.2 cap parked page there behind
    refine List.nodup_append.mpr ⟨mmap,List.nodup_append.mpr ⟨sound.parked.1,frames,?_⟩,?_⟩
    · rintro cap parked cap' member rfl
      exact mapped cap parked (List.mem_append_right _ (List.mem_append_left _ member))
    · rintro cap member cap' later rfl
      rcases List.mem_append.mp later with parked | frame
      · exact mapped cap parked (List.mem_append_left _ member)
      · exact apart cap member cap (List.mem_append_left _ frame) rfl

/-- A process that has tracked more is still below a cursor that is above what is new. -/
theorem Proc.Below.grow (below : p.Below) (sound : p.Sound cfg slots) (sound' : q.Sound cfg filled) {top : Nat}
    (up : p.mmapTop.toNat ≤ top) (pages : p.pages ⊆ q.pages)
    (mmap : ∀ e ∈ q.mmap, e ∈ p.mmap ∨ e.1.toNat + 2 ^ 21 ≤ top)
    (frames : ∀ f ∈ q.devframes, f ∈ p.devframes ∨ ∃ page ∈ q.pages, page.target.cap = some f.cap ∧ page.stop ≤ top)
    (books : q.Books cap lo hi) : hi ≤ top := by
  obtain ⟨page,member,behind,rfl,rfl,tracked⟩ := books
  rcases tracked with tracked | tracked
  · obtain ⟨e,listed,rfl⟩ := List.mem_map.mp tracked
    have own := sound'.spaced.once page member _ (sound'.tracked e listed).1 e.2 behind rfl
    rcases mmap e listed with old | new
    · have before := below.ends e.2 page.start page.stop ⟨page,own ▸ (sound.tracked e old).1,behind,rfl,rfl,
        .inl (List.mem_map_of_mem old)⟩
      omega
    · rw [own,Mapping.stop,megaPageAt,pageOf,megaPage_toNat]
      exact new
  · obtain ⟨f,listed,rfl⟩ := List.mem_map.mp tracked
    rcases frames f listed with old | ⟨other,there,same,new⟩
    · obtain ⟨before,there,-,same⟩ := sound.devices f old
      obtain rfl := sound'.spaced.once page member before (pages there) f.cap behind same
      have ends := below.ends f.cap page.start page.stop ⟨page,there,behind,rfl,rfl,.inr (List.mem_map_of_mem old)⟩
      omega
    · obtain rfl := sound'.spaced.once page member other there f.cap behind same
      exact new

theorem placePage_books {k : PageKernel} (turn : placePage cfg slots p va k = ((filled,q),true)) :
    q.devframes = p.devframes ∧ p.pages ⊆ q.pages ∧ ∀ e ∈ q.mmap, e ∈ p.mmap ∨ e.1 = va := by
  unfold placePage at turn
  split at turn
  · cases (Prod.mk.inj turn).2
  · rename_i taking
    obtain ⟨mmap,pages,-,frames⟩ := takeFrame_mmap taking
    split at turn
    · cases (Prod.mk.inj turn).2
    · rename_i mapping
      obtain ⟨shape,-,-⟩ := pageMap_some mapping
      split at turn
      · cases (Prod.mk.inj turn).2
      · obtain ⟨-,rfl⟩ := Prod.mk.inj (Prod.mk.inj turn).1
        rw [shape]
        refine ⟨frames,fun page member => List.mem_cons_of_mem _ (pages ▸ member),fun e member => ?_⟩
        rcases List.mem_append.mp member with old | new
        · exact .inl (mmap ▸ old)
        · exact .inr (congrArg Prod.fst (List.mem_singleton.mp new))

theorem placePages_books {k : Nat → PageKernel} (loop : placePages cfg base k n i slots p = ((filled,q),true)) :
    q.devframes = p.devframes ∧ p.pages ⊆ q.pages ∧
      ∀ e ∈ q.mmap, e ∈ p.mmap ∨ ∃ j < n, e.1 = base + BitVec.ofNat 64 (i + j) * megaPage := by
  induction n generalizing i slots p with
  | zero =>
    obtain ⟨-,rfl⟩ := Prod.mk.inj (Prod.mk.inj loop).1
    exact ⟨rfl,fun _ member => member,fun _ member => .inl member⟩
  | succ n ih =>
    rw [placePages] at loop
    split at loop
    · cases (Prod.mk.inj loop).2
    · rename_i placing
      obtain ⟨frames,pages,mmap⟩ := placePage_books placing
      obtain ⟨frames',pages',mmap'⟩ := ih loop
      refine ⟨frames'.trans frames,fun _ member => pages' (pages member),fun e member => ?_⟩
      rcases mmap' e member with old | ⟨j,less,same⟩
      · rcases mmap e old with older | here
        · exact .inl older
        · exact .inr ⟨0,Nat.succ_pos n,here⟩
      · exact .inr ⟨j + 1,Nat.succ_lt_succ less,by rw [same,show i + 1 + j = i + (j + 1) from by omega]⟩

theorem top_roundUp {top : Addr} (low : top.toNat ≤ 2 ^ 63) :
    top.toNat ≤ (roundUp top megaPage).toNat ∧ (roundUp top megaPage).toNat ≤ 2 ^ 63 := by
  rw [roundUp_mega top (by omega)]
  omega

theorem mmapAnonymous_below {k : Nat → PageKernel} (below : p.Below) (sound : p.Sound cfg slots)
    (done : (mmapAnonymous cfg slots p len k).2 = .ok base) : (mmapAnonymous cfg slots p len k).1.2.Below := by
  obtain ⟨filled,q,loop,start,same⟩ := mmapAnonymous_some done
  have aligned : 2 ^ 21 ∣ base.toNat := start ▸ roundUp_aligned p.mmapTop
  obtain ⟨⟨sound',-⟩,ended⟩ := placePages_keeps loop sound aligned
  obtain ⟨-,each⟩ := ended rfl
  simp only [Nat.zero_add] at each
  obtain ⟨frames,pages,mmap⟩ := placePages_books loop
  simp only [Nat.zero_add] at mmap
  obtain ⟨up,low⟩ := top_roundUp below.low
  rw [← start] at up low
  generalize count : pagesIn (roundUp len megaPage) = n at *
  have place := fun j less => page_toNat cfg.userTop_le (fun j less => (each j less).2.2) (n := n) (j := j) less
  have room : base.toNat + n * 2 ^ 21 ≤ 2 ^ 63 := by
    cases n with
    | zero => omega
    | succ n =>
      have high := (each n (Nat.lt_succ_self n)).2.2
      rw [place n (Nat.lt_succ_self n)] at high
      have bound := cfg.userTop_le
      omega
  have whole : (roundUp len megaPage).toNat = n * 2 ^ 21 := by
    rw [← count,pagesIn_eq]
    exact (Nat.div_mul_cancel (roundUp_aligned len)).symm
  have top : (base + roundUp len megaPage).toNat = base.toNat + n * 2 ^ 21 := by
    rw [BitVec.toNat_add,whole,Nat.mod_eq_of_lt (by omega)]
  rw [same]
  refine ⟨by rw [q.setTop_mmapTop,top]; exact room,fun cap lo hi books => ?_⟩
  rw [q.setTop_mmapTop,top]
  refine below.grow sound sound' (by omega) pages (fun e member => ?_) (fun f member => .inl (frames ▸ member))
    ((books_setTop q _).mp books)
  rcases mmap e member with old | ⟨j,less,here⟩
  · exact .inl old
  · refine .inr ?_
    rw [here,place j less]
    omega

theorem placeFrames_books {first : BitVec 32} {k : Nat → DevKernel}
    (loop : placeFrames cfg d first base k n i slots p = ((filled,q),true)) :
    q.mmap = p.mmap ∧ p.pages ⊆ q.pages ∧ ∀ f ∈ q.devframes, f ∈ p.devframes ∨ ∃ j < n, ∃ page ∈ q.pages,
      page.target.cap = some f.cap ∧ page.stop = (base + BitVec.ofNat 64 (i + j) * d.granule).toNat +
        d.granule.toNat := by
  induction n generalizing i slots p with
  | zero =>
    obtain ⟨-,rfl⟩ := Prod.mk.inj (Prod.mk.inj loop).1
    exact ⟨rfl,fun _ member => member,fun _ member => .inl member⟩
  | succ n ih =>
    rw [placeFrames] at loop
    split at loop
    · cases (Prod.mk.inj loop).2
    · rename_i mid placed placing
      obtain ⟨frame,there,-,-,mapping,shape⟩ := placeFrame_some placing
      obtain ⟨same,-,-⟩ := pageMap_some mapping
      obtain ⟨mmap,pages,frames⟩ := ih loop
      have first_page : pageOf cfg (base + BitVec.ofNat 64 i * d.granule) d.granule (k i).slot rightsAll ∈
        placed.pages := by
        rw [shape,same]
        exact List.mem_cons_self
      have before : p.pages ⊆ placed.pages := by
        rw [shape,same]
        exact List.subset_cons_self ..
      refine ⟨mmap.trans (by rw [shape,same]),fun _ member => pages (before member),fun f member => ?_⟩
      rcases frames f member with old | ⟨j,less,page,member',behind,stop⟩
      · rw [shape,same] at old
        rcases List.mem_append.mp old with older | new
        · exact .inl older
        · obtain rfl := List.mem_singleton.mp new
          exact .inr ⟨0,Nat.succ_pos n,_,pages first_page,rfl,rfl⟩
      · exact .inr ⟨j + 1,Nat.succ_lt_succ less,page,member',
          behind,by rw [stop,show i + 1 + j = i + (j + 1) from by omega]⟩

theorem devmapMapInto_below {k : Nat → DevKernel} (below : p.Below) (sound : p.Sound cfg slots)
    (covers : d.Covers phys len)
    (backed : d.Backed slots) (done : devmapMapInto cfg slots p d phys len k = ((filled,q),.ok va)) : q.Below := by
  obtain ⟨first,less⟩ := covers.first backed
  obtain ⟨last,most⟩ := covers.last backed
  have positive := granule_positive backed.granule
  have nonempty := covers.nonempty
  have signed (b : BitVec 32) (fits : b.toNat ≤ 64) : b.toInt = b.toNat := BitVec.toInt_eq_toNat_of_lt (by omega)
  have forward : (d.first phys).toNat + 1 ≤ (d.last phys len).toNat := by
    rw [first,last,Nat.le_div_iff_mul_le positive,Nat.succ_mul]
    have floor := Nat.div_mul_le_self (phys.toNat - d.phys.toNat) d.granule.toNat
    omega
  have rounds : turns (d.first phys) (d.last phys len) = (d.last phys len).toNat - (d.first phys).toNat := by
    unfold turns
    rw [signed _ most,signed _ (Nat.le_of_lt less)]
    omega
  rw [devmapMapInto] at done
  split at done
  · cases (Prod.mk.inj done).2
  · rename_i full placed loop
    obtain ⟨same,-⟩ := Prod.mk.inj done
    obtain ⟨rfl,rfl⟩ := Prod.mk.inj same
    rw [rounds] at loop
    have each := (placeFrames_shows loop backed).2
    simp only [Nat.zero_add] at each
    obtain ⟨mmap,pages,frames⟩ := placeFrames_books loop
    simp only [Nat.zero_add] at frames
    obtain ⟨up,low⟩ := top_roundUp below.low
    have gap : ((d.last phys len) - (d.first phys)).toNat = (d.last phys len).toNat - (d.first phys).toNat :=
      BitVec.toNat_sub_of_le (by rw [BitVec.le_def]; omega)
    generalize count : (d.last phys len).toNat - (d.first phys).toNat = n at *
    have place := fun j less => block_toNat cfg.userTop_le (fun j less => (each j less).2) (n := n) (j := j) less
    have room : (roundUp p.mmapTop megaPage).toNat + n * d.granule.toNat ≤ 2 ^ 63 := by
      have high := (each (n - 1) (by omega)).2
      rw [place (n - 1) (by omega),Nat.add_assoc,← Nat.succ_mul,Nat.succ_eq_add_one,Nat.sub_add_cancel
        (by omega)] at high
      exact Nat.le_trans high cfg.userTop_le
    have wide : (BitVec.signExtend 64 (d.last phys len - d.first phys)).toNat = n := by
      rw [BitVec.signExtend_eq_setWidth_of_msb_false (by rw [BitVec.msb_eq_false_iff_two_mul_lt]; omega),
        BitVec.toNat_setWidth,Nat.mod_eq_of_lt (by omega),gap]
    have top : (roundUp p.mmapTop megaPage + BitVec.signExtend 64 (d.last phys len - d.first phys) *
      d.granule).toNat =
        (roundUp p.mmapTop megaPage).toNat + n * d.granule.toNat := by
      rw [BitVec.toNat_add,BitVec.toNat_mul,wide,Nat.mod_eq_of_lt (a := n * d.granule.toNat) (by omega),
        Nat.mod_eq_of_lt (by omega)]
    refine ⟨by rw [placed.setTop_mmapTop,top]; exact room,fun cap lo hi books => ?_⟩
    rw [placed.setTop_mmapTop,top]
    have bare := (placeFrames_keeps loop positive sound).1
    refine below.grow sound bare (by omega) pages (fun e member => .inl (mmap ▸ member)) (fun f member => ?_)
      ((books_setTop placed _).mp books)
    rcases frames f member with old | ⟨j,inside,page,there,behind,stop⟩
    · exact .inl old
    · refine .inr ⟨page,there,behind,?_⟩
      rw [stop,place j inside,Nat.add_assoc,← Nat.succ_mul]
      exact Nat.add_le_add_left (Nat.mul_le_mul_right _ inside) _

theorem Proc.Below.shrink (below : p.Below) (top : q.mmapTop = p.mmapTop)
    (books : ∀ cap lo hi, q.Books cap lo hi → p.Books cap lo hi) :
    q.Below :=
  ⟨by rw [top]; exact below.low,fun cap lo hi booked => top ▸ below.ends cap lo hi (books cap lo hi booked)⟩

theorem munmapDevframes_below (below : p.Below) (va len : Addr) : (munmapDevframes slots p va len).1.2.Below := by
  obtain ⟨frames,-,mmap,pages⟩ := munmapDevframes_spec slots p va len
  refine below.shrink rfl fun cap lo hi books => Books.map books (fun page member => ((pages page).mp member).1)
    ?_ ?_
  · rw [mmap]
    exact fun _ member => member
  · intro cap member
    obtain ⟨f,listed,rfl⟩ := List.mem_map.mp member
    exact List.mem_map_of_mem ((frames f).mp listed).1

theorem dropPages_below (below : p.Below) (sound : p.Sound cfg slots)
    (tracked : ∀ j < pagesIn (roundUp len megaPage), ∃ frame, (va + BitVec.ofNat 64 j * megaPage,frame) ∈ p.mmap)
    (dropped : Dropped p q fun x => ∃ j < pagesIn (roundUp len megaPage), x =
      va + BitVec.ofNat 64 (0 + j) * megaPage) :
    (q.setTop (rewound p va (roundUp len megaPage))).Below := by
  have less : ∀ cap lo hi, q.Books cap lo hi → p.Books cap lo hi := by
    intro cap lo hi books
    refine Books.map books (fun page member => ((dropped.pages page).mp member).1) ?_ ?_
    · intro cap member
      obtain ⟨e,listed,rfl⟩ := List.mem_map.mp member
      exact List.mem_map_of_mem ((dropped.mmap e).mp listed).1
    · rw [dropped.devframes]
      exact fun _ member => member
  unfold rewound
  split
  · rename_i topmost
    have place := fun j less => tracked_room sound tracked (j := j) less
    have whole : (roundUp len megaPage).toNat = pagesIn (roundUp len megaPage) * 2 ^ 21 := by
      rw [pagesIn_eq]
      exact (Nat.div_mul_cancel (roundUp_aligned len)).symm
    generalize pagesIn (roundUp len megaPage) = n at *
    have low := below.low
    have top : p.mmapTop.toNat = va.toNat + n * 2 ^ 21 := by
      have range := va.isLt
      rw [← topmost,BitVec.toNat_add,whole] at low ⊢
      cases n with
      | zero => omega
      | succ n =>
        have last := (place n (Nat.lt_succ_self n)).2
        rw [Nat.mod_eq_of_lt (by omega)]
    refine ⟨by rw [q.setTop_mmapTop]; omega,fun cap lo hi books => ?_⟩
    rw [q.setTop_mmapTop]
    have booked := (books_setTop q va).mp books
    have ends := below.ends cap lo hi (less cap lo hi booked)
    obtain ⟨page,member,behind,rfl,rfl,-⟩ := booked
    obtain ⟨there,spared'⟩ := (dropped.pages page).mp member
    by_contra above
    -- what ends above the new cursor meets one of the pages that have gone
    have sized := (sound.spaced.inside page there).1
    obtain ⟨x,same⟩ : ∃ x, page.stop = x + 1 := ⟨page.stop - 1,by unfold Mapping.stop; omega⟩
    have last : page.Contains x := by
      unfold Mapping.Contains
      rw [same]
      unfold Mapping.stop at same
      omega
    have inside : (x - va.toNat) / 2 ^ 21 < n := by omega
    obtain ⟨frame,listed⟩ := tracked _ inside
    have gone : (megaPageAt cfg (va + BitVec.ofNat 64 ((x - va.toNat) / 2 ^ 21) * megaPage,frame)).Contains x := by
      unfold Mapping.Contains Mapping.stop megaPageAt pageOf
      dsimp only
      rw [megaPage_toNat,(place _ inside).1]
      omega
    have one := sound.spaced.apart.unique there (sound.tracked _ listed).1 x last gone
    exact spared' _ listed ⟨_,inside,by rw [Nat.zero_add]⟩ (congrArg (fun page : Page => page.target.cap) one)
  · exact (below.shrink (q := q.setTop p.mmapTop) (q.setTop_mmapTop _) fun cap lo hi books =>
      less cap lo hi ((books_setTop q _).mp books))

structure Restated (p q : Proc) : Prop where
  top : q.mmapTop = p.mmapTop
  mmap : q.mmap = p.mmap
  frames : q.devframes = p.devframes
  pages : ∀ page ∈ q.pages, ∃ old ∈ p.pages, old.start = page.start ∧ old.size = page.size ∧
    old.target.cap = page.target.cap

theorem Restated.refl (p : Proc) : Restated p p := ⟨rfl,rfl,rfl,fun page member => ⟨page,member,rfl,rfl,rfl⟩⟩

theorem Restated.trans {r : Proc} (first : Restated p q) (second : Restated q r) : Restated p r := by
  refine ⟨second.top.trans first.top,second.mmap.trans first.mmap,second.frames.trans first.frames,
    fun page member => ?_⟩
  obtain ⟨mid,there,start,size,behind⟩ := second.pages page member
  obtain ⟨old,before,start',size',behind'⟩ := first.pages mid there
  exact ⟨old,before,start'.trans start,size'.trans size,behind'.trans behind⟩

theorem Restated.below (restated : Restated p q) (below : p.Below) : q.Below := by
  refine below.shrink restated.top fun cap lo hi books => ?_
  obtain ⟨page,member,behind,rfl,rfl,tracked⟩ := books
  obtain ⟨old,there,start,size,same⟩ := restated.pages page member
  refine ⟨old,there,same.trans behind,start,?_,?_⟩
  · rw [Mapping.stop,Mapping.stop,start,size]
  · rw [← restated.mmap,← restated.frames]
    exact tracked

theorem protectPage_restated {prot : Addr} {granted : Bool} (turn : protectPage cfg p va prot granted =
    (q,answer)) (sound : p.Sound cfg slots) :
    Restated p q := by
  unfold protectPage at turn
  split at turn
  · rename_i va' frame found
    have here : va' = va := by simpa using List.find?_some found
    subst here
    have listed := List.mem_of_find?_eq_some found
    split at turn
    · obtain ⟨rfl,-⟩ := Prod.mk.inj turn
      exact Restated.refl p
    · rename_i there mapped
      obtain ⟨rfl,-⟩ := Prod.mk.inj turn
      obtain rfl := pageRemap_relro sound listed mapped
      refine ⟨rfl,rfl,rfl,fun page member => ?_⟩
      obtain ⟨old,before,rfl⟩ := List.mem_map.mp member
      obtain ⟨start,size,behind⟩ := setRights_place cfg frame (rightsOf prot) old
      exact ⟨old,before,start.symm,size.symm,behind.symm⟩
  · split at turn
    · split at turn <;>
      · obtain ⟨rfl,-⟩ := Prod.mk.inj turn
        exact Restated.refl p
    · obtain ⟨rfl,-⟩ := Prod.mk.inj turn
      exact Restated.refl p

theorem protectPages_restated {addr prot : Addr} {k : Nat → Bool}
    (loop : protectPages cfg addr prot k n i p = (q,answer)) (sound : p.Sound cfg slots) : Restated p q := by
  induction n generalizing i p with
  | zero =>
    obtain ⟨rfl,-⟩ := Prod.mk.inj loop
    exact Restated.refl p
  | succ n ih =>
    rw [protectPages] at loop
    split at loop
    · rename_i stopping
      obtain ⟨rfl,-⟩ := Prod.mk.inj loop
      exact protectPage_restated stopping sound
    · rename_i turn
      exact (protectPage_restated turn sound).trans (ih loop (protectPage_keeps turn sound).1)

/-- Every request for memory is granted, and one for device memory has a range that does not wrap and is
carved whole. -/
def Granted (cfg : Config) (s : State) : Event → Prop
  | .mmap caller len flags phys k => (∃ va, (s.mmapServe cfg caller len flags phys k).2 = .ok va) ∧
      (flags &&& cfg.flagPhys ≠ 0 → phys.toNat + len.toNat + (2 ^ 12 - 1) < 2 ^ 64 ∧
        Uncut cfg s (.mmap caller len flags phys k))
  | .allocPhys caller len k => ∃ answer, (s.allocPhysServe cfg caller len k).2 = .ok answer
  | _ => True

def State.Below (s : State) : Prop := ∀ pid p, s.procs pid = some p → p.Below

theorem State.Below.setProc (below : s.Below) (slots : Slots) (own : q.Below) :
    (s.setProc caller slots q).Below := by
  intro pid r there
  rcases eq_or_ne pid caller with rfl | other
  · rw [setProc_procs] at there
    exact Option.some.inj there ▸ own
  · rw [setProc_other slots q other] at there
    exact below pid r there

theorem mmapServe_below {flags : Addr} {k : Kernel} (below : s.Below) (steady : s.Steady cfg) (boot : cfg.Aligned)
    (granted : Granted cfg s (.mmap caller len flags phys k)) :
      (s.mmapServe cfg caller len flags phys k).1.Below := by
  obtain ⟨⟨va,done⟩,device⟩ := granted
  by_cases flagged : flags &&& cfg.flagPhys ≠ 0
  · obtain ⟨room,uncut⟩ := device flagged
    obtain ⟨p,t,d,filled,q,owner,found,covers,backed,-,mapped,same⟩ :=
      mmapServe_region steady boot flagged room uncut done
    obtain ⟨sound,procs,-⟩ := region_sound steady.sound found
    rw [same]
    have there : t.procs caller = some p := procs ▸ owner
    have all : t.Below := fun pid r here => below pid r (procs ▸ here)
    exact all.setProc filled (devmapMapInto_below (below caller p owner) (sound.procs caller p there)
      covers backed mapped)
  · cases owner : s.procs caller with
    | none =>
      simp only [State.mmapServe,owner] at done
      cases done
    | some p =>
      have nonempty : len ≠ 0 := by
        intro empty
        rw [mmapServe_empty owner empty] at done
        cases done
      have served := mmapServe_anonymous phys k owner nonempty (not_not.mp flagged)
      rw [snd_of_eq served] at done
      rw [fst_of_eq served]
      exact below.setProc _ (mmapAnonymous_below (below caller p owner) (steady.sound.procs caller p owner) done)

theorem allocPhysServe_below {k : Kernel} (below : s.Below) (sound : s.Sound cfg)
    (granted : Granted cfg s (.allocPhys caller len k)) : (s.allocPhysServe cfg caller len k).1.Below := by
  obtain ⟨answer,done⟩ := granted
  cases owner : s.procs caller with
  | none =>
    simp only [State.allocPhysServe,owner] at done
    cases done
  | some p =>
    by_cases bad : len = 0 ∨ megaPage < len
    · rw [allocPhysServe_bad owner bad] at done
      cases done
    · rw [allocPhysServe_state k owner (not_or.mp bad).1 (not_or.mp bad).2]
      cases ended : (mmapAnonymous cfg s.slots p len k.page).2 with
      | error failure =>
        simp only [State.allocPhysServe,owner,if_neg bad,ended] at done
        cases done
      | ok base =>
        exact below.setProc _ (mmapAnonymous_below (below caller p owner) (sound.procs caller p owner) ended)

theorem munmapServe_below (below : s.Below) (sound : s.Sound cfg) (caller : Pid) (va len : Addr) :
    (s.munmapServe caller va len).1.Below := by
  cases owner : s.procs caller with
  | none =>
    simp only [State.munmapServe,owner]
    exact below
  | some p =>
    by_cases bad : len = 0 ∨ (munmapDevframes s.slots p va len).2 = [] ∧
        (va &&& (megaPage - 1) ≠ 0 ∨ allTracked p va (pagesIn (roundUp len megaPage)) 0 = false)
    · rw [munmapServe_bad owner bad]
      exact below
    · obtain ⟨nonempty,rest⟩ := not_or.mp bad
      by_cases hit : (munmapDevframes s.slots p va len).2 = []
      · obtain ⟨aligned,tracked⟩ := not_or.mp fun why => rest ⟨hit,why⟩
        have all := Bool.not_eq_false _ ▸ tracked
        have each := allTracked_iff.mp all
        simp only [Nat.zero_add] at each
        rw [munmapServe_anonymous owner nonempty hit (not_not.mp aligned) all]
        have own := sound.procs caller p owner
        exact below.setProc _ (dropPages_below (below caller p owner) own each (dropPages_spec own va _ 0).2)
      · rw [munmapServe_device owner nonempty hit]
        exact below.setProc _ (munmapDevframes_below (below caller p owner) va len)

theorem mprotectServe_below (below : s.Below) (sound : s.Sound cfg) (caller : Pid) (addr len prot : Addr)
    (k : Nat → Bool) :
    (s.mprotectServe cfg caller addr len prot k).1.Below := by
  cases owner : s.procs caller with
  | none =>
    simp only [State.mprotectServe,owner]
    exact below
  | some p =>
    by_cases bad : len = 0 ∨ addr &&& (page4k - 1) ≠ 0
    · rw [mprotectServe_bad owner bad]
      exact below
    · obtain ⟨nonempty,aligned⟩ := not_or.mp bad
      rw [mprotectServe_pages prot k owner nonempty (not_not.mp aligned)]
      cases loop : protectPages cfg addr prot k (protectTurns addr len) 0 p with
      | mk q answer =>
        have restated := protectPages_restated loop (sound.procs caller p owner)
        exact below.setProc _ (restated.below (below caller p owner))

theorem write_procs (s : State) (caller : Pid) (x : Nat) : (s.write caller x).procs = s.procs := by
  rcases write_slots s caller x with same | ⟨cap,zero,-,same⟩ <;> rw [same]

theorem Granted.uncut (granted : Granted cfg s e) : Uncut cfg s e := by
  intro c k carving
  cases e with
  | mmap caller len flags phys kernel =>
    have device := carving.2.2.2.1
    exact (granted.2 device).2 c k carving
  | _ => exact carving.elim

theorem step_below (below : s.Below) (steady : s.Steady cfg) (boot : cfg.Aligned) (granted : Granted cfg s e) :
    (step cfg s e).Below := by
  cases e with
  | mmap caller len flags phys k => exact mmapServe_below below steady boot granted
  | allocPhys caller len k => exact allocPhysServe_below below steady.sound granted
  | munmap caller va len => exact munmapServe_below below steady.sound caller va len
  | mprotect caller addr len prot k => exact mprotectServe_below below steady.sound caller addr len prot k
  | write caller x =>
    intro pid p there
    exact below pid p (write_procs s caller x ▸ there)

/-- Whatever is mapped, unmapped and mapped again, as long as it is granted: what a process tracks is
mapped where its trackers say, once, apart from the rest, and below the cursor from which the next range
is taken. -/
theorem run_booked (boot : cfg.Aligned) (initial : Start cfg s) (low : ∀ pid p, s.procs pid = some p →
    p.mmapTop.toNat ≤ 2 ^ 63)
    (run : Lts.Run (fun s e => some (step cfg s e)) (Granted cfg) s es t) (pid : Pid) (p : Proc)
    (there : t.procs pid = some p) :
    p.Booked := by
  obtain ⟨steady,below⟩ := run.invariant (fun s => s.Steady cfg ∧ s.Below) (fun s e u both granted taken => by
      obtain rfl := Option.some.inj taken
      exact ⟨both.1.step boot granted.uncut,step_below both.2 both.1 boot granted⟩) ⟨initial.steady,fun pid p here => by
    obtain ⟨mmap,-,frames⟩ := initial.idle pid p here
    refine ⟨low pid p here,fun cap lo hi books => ?_⟩
    obtain ⟨page,-,-,-,-,tracked⟩ := books
    rw [mmap,frames] at tracked
    exact absurd tracked (by simp)⟩
  exact (steady.sound.procs pid p there).booked (below pid p there)

theorem run_booked_board : ∃ p, (step boardConfig board boardRequest).procs 1 = some p ∧ p.Booked := by
  obtain ⟨metered,agreed⟩ := board_start.in_step
  have uncut := (step_agreed_iff boardConfig_aligned metered agreed boardRequest).mp boardRequest_agreed
  have answer : ((board.mmapServe boardConfig 1 0x1000 2 0x10001000 boardKernel).2 =
    .ok 0x2000000) := by decide +kernel
  have granted : Granted boardConfig board boardRequest := ⟨⟨_,answer⟩,fun _ => ⟨by decide,uncut⟩⟩
  have low : ∀ pid p, board.procs pid = some p → p.mmapTop.toNat ≤ 2 ^ 63 := by
    intro pid p there
    obtain rfl := board_procs there
    decide
  have known : ((step boardConfig board boardRequest).procs 1).isSome = true := by decide +kernel
  obtain ⟨p,there⟩ := Option.isSome_iff_exists.mp known
  exact ⟨p,there,run_booked boardConfig_aligned board_start low (.cons granted rfl .nil) 1 p there⟩

end Qsoe.Mem
