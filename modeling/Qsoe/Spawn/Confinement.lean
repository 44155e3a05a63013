import Qsoe.Spawn.Reads

/-! `tm_spawn` reads nothing but its image exactly where the parts it looks at lie there: the reads of the
loader are those of the stages it comes to, and it comes to each stage before which the pages fit. -/
namespace Qsoe.Spawn

open Qsoe.Path (Byte slash)
open Words (span)
open Traced (Confined andThen)

variable {img : Image} {len n m i j rounds : Nat} {a : Word} {w : Outside len} {bs : List Byte}

/-- Where the loader starts: `e_phoff` has been read. -/
def Outside.start (w : Outside len) (img : Image) : Loader := { w.child with ph := img.ePhoff.value }

theorem Outside.start_ph (w : Outside len) (img : Image) : (w.start img).ph = img.ePhoff.value := rfl

theorem placeable_iff {vs : List Word} : (w.start img).Placeable vs ↔ Fits vs := by
  constructor
  · intro placeable
    refine ⟨placeable.once,fun v member => of_decide_eq_true (placeable.vacant v member).1,?_⟩
    by_contra many
    have room := placeable.room maxFrames (by omega)
    exact absurd room (Nat.not_lt.mpr (Nat.le_add_left ..))
  · intro fits
    refine ⟨fits.once,fun v member => ⟨decide_eq_true (fits.low v member),fun p nothing =>
      absurd nothing List.not_mem_nil⟩,fun n less => ?_⟩
    show 0 + n < maxFrames
    have few := fits.few
    omega

theorem before_zero (img : Image) (i : Nat) :
    img.before i 0 = (img.pagesBefore img.ePhoff.value 0 i).map Prod.snd := by
  rw [Image.before,Phdr.firstPages,List.range_zero,List.map_nil,List.append_nil]

theorem Fits.sublist {us vs : List Word} (fits : Fits vs) (part : us.Sublist vs) : Fits us :=
  ⟨fits.once.sublist part,fun v member => fits.low v (part.subset member),part.length_le.trans fits.few⟩

theorem before_mono (img : Image) {i j : Nat} (le : i ≤ j) : (img.before i 0).Sublist (img.before j 0) := by
  rw [before_zero,before_zero]
  induction le with
  | refl => exact .refl _
  | step _ ih =>
    rw [Image.pagesBefore_succ,List.map_append]
    exact ih.trans (List.sublist_append_left _ _)

def Image.noted (img : Image) : Stage → Nat
  | .relro i => img.relroBefore i
  | _ => 0

theorem relroBefore_succ (img : Image) (i : Nat) : img.relroBefore (i + 1) =
    img.relroBefore i + if (img.header img.ePhoff.value i).type = ptGnuRelro then 1 else 0 := by
  rw [Image.relroBefore,List.range_succ,List.filter_append,List.length_append]
  congr 1
  by_cases is : (img.header img.ePhoff.value i).type = ptGnuRelro
  · simp [is]
  · simp [is]

theorem onward_noted {st st' : Stage} {r r' : List (Word × Word)}
    (onward : Loader.Onward img img.ePhoff.value 0 (st,r) (st',r'))
    (count : r.length = img.noted st ∧ img.noted st ≤ maxRelro) :
    r'.length = img.noted st' ∧ img.noted st' ≤ maxRelro := by
  cases onward with
  | skip | enter | page | leave | turn =>
    dsimp only [Image.noted] at count ⊢
    exact count
  | pass i inside other =>
    have next : img.noted (.relro (i + 1)) = img.noted (.relro i) := by
      rw [Image.noted,Image.noted,relroBefore_succ,if_neg other,Nat.add_zero]
    rw [next]
    exact count
  | note i inside is room =>
    have next : img.noted (.relro (i + 1)) = img.noted (.relro i) + 1 := by
      rw [Image.noted,Image.noted,relroBefore_succ,if_pos is]
    rw [next,List.length_append,List.length_singleton,count.1]
    rw [count.1] at room
    exact ⟨rfl,room⟩

def Outside.Comes (w : Outside len) (img : Image) (t : Loader) : Prop :=
  Traced.Reaches (Loader.step w.page img 0) { w.start img with stage := .header 0 } t

theorem Outside.Comes.loaded {t : Loader} (comes : w.Comes img t) :
    ∃ es places, Position img img.ePhoff.value 0 t.stage es ∧ Loader.Loaded w.page img 0 (w.start img)
      es places t := by
  obtain ⟨es,places,position,loaded⟩ := Loader.reaches_loaded (s := w.start img) comes
  rw [w.start_ph] at position
  exact ⟨es,places,position,loaded⟩

theorem Outside.Comes.onward {t u : Loader} (comes : w.Comes img t)
    (turn : (Loader.step w.page img 0 t).value = .inl u) :
    Loader.Onward img img.ePhoff.value 0 (t.stage,t.relro) (u.stage,u.relro) := by
  obtain ⟨es,places,position,loaded⟩ := comes.loaded
  rw [← w.start_ph] at position ⊢
  exact (Loader.step_inl position loaded turn).2

theorem Outside.Comes.noted {t : Loader} (comes : w.Comes img t) :
    t.relro.length = img.noted t.stage ∧ img.noted t.stage ≤ maxRelro := by
  induction comes with
  | start =>
    dsimp only [Image.noted]
    exact ⟨rfl,Nat.zero_le _⟩
  | next reached turn ih => exact onward_noted (Outside.Comes.onward reached turn) ih

/-- How much of a run is left at most. -/
def Image.left (img : Image) : Stage → Nat
  | .header i => (img.phnum + 1 - i) * 2 ^ 53 + (img.phnum + 2)
  | .page i seg v => (img.phnum - i) * 2 ^ 53 + (img.phnum + 3) + (seg.vend.toNat - v.toNat) / 4096
  | .relro i => img.phnum + 1 - i

theorem onward_left {st st' : Stage} {r r' : List (Word × Word)}
    (onward : Loader.Onward img img.ePhoff.value 0 (st,r) (st',r')) : img.left st' < img.left st := by
  cases onward with
  | skip i inside =>
    dsimp only [Image.left]
    omega
  | enter i inside =>
    dsimp only [Image.left]
    have bound := ((img.header img.ePhoff.value i).extent 0).vend.isLt
    omega
  | page i j inside' less =>
    have here := (img.header img.ePhoff.value i).pageAt_toNat (Nat.le_of_lt less)
    have next := (img.header img.ePhoff.value i).pageAt_toNat (j := j + 1) less
    have stop := (img.header img.ePhoff.value i).pages_end 0 (by omega)
    dsimp only [Image.left]
    omega
  | leave i inside =>
    dsimp only [Image.left]
    omega
  | turn =>
    dsimp only [Image.left]
    omega
  | pass i inside =>
    dsimp only [Image.left]
    omega
  | note i inside =>
    dsimp only [Image.left]
    omega

theorem Outside.load_ends (w : Outside len) (img : Image) :
    ∃ rounds out, Loader.loadElfSegments rounds w.page img 0 w.child = some out := by
  obtain ⟨inner,run⟩ := Traced.loop_halts (Loader.step w.page img 0) { w.start img with stage := .header 0 }
    (fun t => img.left t.stage) (fun t reached u turn => onward_left (Outside.Comes.onward reached turn))
      (Nat.lt_succ_self _)
  exact ⟨_,_,congrArg (Option.map _) run⟩

namespace Image.Readable

variable {i j : Nat}

theorem phnum_within (readable : img.Readable len) (elf : img.IsElf) : img.ePhnum.Within (Inside len) := by
  have fits := readable.header elf
  exact within_field.mpr ((holds_low (n := 56) (by omega) (by omega)).mpr (by omega))

theorem phoff_within (readable : img.Readable len) (elf : img.IsElf) : img.ePhoff.Within (Inside len) := by
  have fits := readable.header elf
  exact within_field.mpr ((holds_low (n := 32) (by omega) (by omega)).mpr (by omega))

theorem type_within (readable : img.Readable len) (elf : img.IsElf) (inside : i < img.phnum)
    (fits : Fits (img.before i 0)) :
    (img.pType (phdr img.ePhoff.value i)).Within (Inside len) :=
  within_field.mpr (readable.types elf i inside fits)

theorem step_within {t : Loader} (readable : img.Readable len) (elf : img.IsElf) (comes : w.Comes img t) :
    (Loader.step w.page img 0 t).Within (Inside len) := by
  obtain ⟨es,places,position,loaded⟩ := comes.loaded
  have noted := comes.noted
  have fits := placeable_iff.mp loaded.placeable
  have ph : t.ph = img.ePhoff.value := loaded.ph.trans (w.start_ph img)
  generalize at_eq : t.stage = stage at position noted
  unfold Loader.step
  rw [at_eq]
  cases position with
  | header i inside =>
    rw [← before_zero] at fits
    dsimp only
    rw [Traced.within_bind]
    refine ⟨readable.phnum_within elf,?_⟩
    split
    · exact Traced.within_pure _
    · rename_i more
      have less : i < img.phnum := Nat.lt_of_not_le more
      rw [Traced.within_bind,ph]
      refine ⟨readable.type_within elf less fits,?_⟩
      split
      · rename_i load
        obtain ⟨front,back⟩ := readable.loads elf i less fits load
        rw [holds_offset_vaddr] at front
        rw [holds_filesz_memsz] at back
        rw [Traced.within_bind,Loader.enter,ph]
        refine ⟨?_,Traced.within_pure _⟩
        simp only [Traced.within_bind,Traced.within_pure,and_true]
        exact ⟨within_field.mpr front.2,within_field.mpr back.2,within_field.mpr back.1,within_field.mpr front.1⟩
      · exact Traced.within_pure _
  | page i j inside load before =>
    dsimp only
    split
    · rename_i more
      have less := (Phdr.pageAt_lt before).mp more
      obtain ⟨bytes,flags⟩ := readable.pages elf i inside load j less fits
      unfold Loader.loadPage
      split
      · exact Traced.within_pure _
      · split
        · exact Traced.within_pure _
        · rw [Traced.within_bind,Traced.within_readAll]
          refine ⟨bytes,?_⟩
          split
          · exact Traced.within_pure _
          · rw [Traced.within_bind,ph]
            exact ⟨within_field.mpr flags,Traced.within_pure _⟩
    · exact Traced.within_pure _
  | relro i =>
    rw [← before_zero] at fits
    dsimp only
    rw [Traced.within_bind]
    refine ⟨readable.phnum_within elf,?_⟩
    split
    · exact Traced.within_pure _
    · rename_i more
      have less : i < img.phnum := Nat.lt_of_not_le more
      rw [Traced.within_bind,ph]
      refine ⟨readable.type_within elf less (fits.sublist (before_mono img (Nat.le_of_lt less))),?_⟩
      split
      · rename_i is
        obtain ⟨vaddr,memsz⟩ := readable.relros elf fits i less noted.2 is
        rw [Loader.noteRelro,Traced.within_bind,Traced.within_bind,ph]
        refine ⟨within_field.mpr vaddr,within_field.mpr memsz,?_⟩
        split
        · exact Traced.within_pure _
        · exact Traced.within_pure _
      · exact Traced.within_pure _

theorem load_within {out : Traced Word (Loader × Bool)} (readable : img.Readable len) (elf : img.IsElf)
    (run : Loader.loadElfSegments rounds w.page img 0 w.child = some out) : out.Within (Inside len) := by
  obtain ⟨inner,ran,rfl⟩ := Option.map_eq_some_iff.mp run
  rw [Traced.within_bind]
  refine ⟨readable.phoff_within elf,(Traced.loop_within ran).mpr fun t reached => ?_⟩
  exact readable.step_within elf reached

end Image.Readable

theorem fits_of_loaded {out : Traced Word (Loader × Bool)}
    (run : Loader.loadElfSegments rounds w.page img 0 w.child = some out)
    (zero : out.value.2 = true) : Fits (img.before img.phnum 0) := by
  obtain ⟨places,loaded⟩ := Loader.load_loaded run (t := out.value.1) (Prod.ext rfl zero)
  rw [before_zero]
  exact placeable_iff.mp loaded.placeable

/-- No script, every object there, every page mapped, interpreter and libc found. -/
def Outside.yielding (len : Nat) : Outside len where
  shebang _ := false
  objects := true
  mem _ _ := 0
  used := []
  page n := ⟨n + 1,true,true,true⟩
  dynamic _ := true
  library _ := pure true
  confined _ := Traced.within_pure true

theorem install_vacant {s : Loader} {seg : Extent} {v : Word} {frame : Nat} {rights : PageRights}
    (vacant : s.Vacant v) (room : s.frames.length < maxFrames) : s.install i seg v frame true rights =
    .inl { s with
      stage := .page i seg (v + 0x1000), pages := ⟨v,frame,rights⟩ :: s.pages, frames := s.frames ++ [(v,frame)] } := by
  unfold Loader.install recordFrame
  rw [if_neg (not_or.mpr ⟨by decide,not_not.mpr vacant⟩),if_neg (Nat.not_le_of_lt room)]

theorem loadPage_value {s : Loader} {k : PageKernel} {seg : Extent} {v : Word}
    (fresh : ¬(k.slot = 0 ∨ k.slot ∈ s.used))
    (scratch : k.scratch = true) (unscratch : k.unscratch = true) : (Loader.loadPage k img s i seg v).value =
    (s.filledWith k img seg v).install i seg v k.slot k.mapped
      (Loader.rightsOf (img.pFlags (Image.phdr s.ph i)).value) := by
  rw [Loader.loadPage,if_neg fresh,if_neg (Bool.not_eq_false _ ▸ scratch),Traced.value_bind,
    if_neg (Bool.not_eq_false _ ▸ unscratch)]
  rfl

theorem step_page {k : Nat → PageKernel} {t : Loader} {seg : Extent} {v : Word} (at' : t.stage = .page i seg v)
    (more : v < seg.vend) :
    Loader.step k img 0 t = Loader.loadPage (k t.frames.length) img t i seg v := by
  unfold Loader.step
  rw [at']
  exact if_pos more

theorem yielding_fresh {t : Loader} (comes : (Outside.yielding len).Comes img t) :
    ¬(((Outside.yielding len).page t.frames.length).slot = 0 ∨
      ((Outside.yielding len).page t.frames.length).slot ∈ t.used) := by
  obtain ⟨es,places,-,loaded⟩ := comes.loaded
  have used : t.used = (places.map Place.frame).reverse := loaded.used.trans (List.append_nil _)
  have recorded : t.frames.length = places.length := by
    rw [loaded.frames,List.length_append,List.length_map]
    exact Nat.zero_add _
  rw [used,loaded.slots,not_or,List.mem_reverse,List.mem_map]
  refine ⟨Nat.succ_ne_zero _,?_⟩
  rintro ⟨n,before,same⟩
  have slot : 0 + n + 1 = t.frames.length + 1 := same
  have below := List.mem_range.mp before
  omega

theorem pages_before {t : Loader} {es : List (Phdr × Word)} (position : Position img img.ePhoff.value 0 t.stage es)
    (at' : t.stage = .page i ((img.header img.ePhoff.value i).extent 0)
      ((img.header img.ePhoff.value i).pageAt 0 j))
    (le : j ≤ (img.header img.ePhoff.value i).pageCount 0) : es.map Prod.snd = img.before i j := by
  rw [at'] at position
  generalize stage_eq : Stage.page i ((img.header img.ePhoff.value i).extent 0)
    ((img.header img.ePhoff.value i).pageAt 0 j) = stage at position
  cases position with
  | header => cases stage_eq
  | relro => cases stage_eq
  | page i' j' inside load before =>
    obtain ⟨rfl,-,same⟩ := Stage.page.inj stage_eq
    have here := (img.header img.ePhoff.value i).pageAt_toNat le
    have there := (img.header img.ePhoff.value i).pageAt_toNat before
    obtain rfl : j = j' := by
      rw [same] at here
      omega
    rfl

theorem before_page (img : Image) (i j : Nat) :
    img.before i (j + 1) = img.before i j ++ [(img.header img.ePhoff.value i).pageAt 0 j] := by
  rw [Image.before,Image.before,Phdr.firstPages_succ,← List.append_assoc,List.map_append,List.map_singleton]

theorem before_succ (img : Image) (i : Nat) : img.before (i + 1) 0 =
    if (img.header img.ePhoff.value i).type = ptLoad then img.before i
      ((img.header img.ePhoff.value i).pageCount 0) else img.before i 0 := by
  rw [before_zero,Image.pagesBefore_succ]
  split
  · rfl
  · rw [List.append_nil,before_zero]

theorem page_next {t : Loader} (comes : (Outside.yielding len).Comes img t)
    (at' : t.stage = .page i ((img.header img.ePhoff.value i).extent 0)
      ((img.header img.ePhoff.value i).pageAt 0 j))
    (less : j < (img.header img.ePhoff.value i).pageCount 0) (fits : Fits (img.before i (j + 1))) :
    ∃ u, (Loader.step (Outside.yielding len).page img 0 t).value = .inl u ∧
      u.stage = .page i ((img.header img.ePhoff.value i).extent 0)
        ((img.header img.ePhoff.value i).pageAt 0 (j + 1)) := by
  obtain ⟨es,places,position,loaded⟩ := comes.loaded
  have vas := (Loader.filled_vas loaded.filled).trans (pages_before position at' (Nat.le_of_lt less))
  have stored : t.pages = places.reverse := loaded.pages.trans (List.append_nil _)
  have recorded : t.frames.length = (img.before i j).length := by
    rw [← vas,loaded.frames,List.length_append,List.length_map,List.length_map]
    exact Nat.zero_add _
  have once := fits.once
  have few := fits.few
  rw [before_page] at once few
  rw [List.length_append,List.length_singleton,← recorded] at few
  have vacant : t.Vacant ((img.header img.ePhoff.value i).pageAt 0 j) := by
    refine ⟨?_,fun p member same => ?_⟩
    · rw [loaded.tables]
      exact decide_eq_true (fits.low _ (before_page img i j ▸ List.mem_append_right _ List.mem_cons_self))
    · rw [stored] at member
      have earlier : p.va ∈ img.before i j := vas ▸ List.mem_map_of_mem (List.mem_reverse.mp member)
      exact (List.nodup_append.mp once).2.2 _ earlier _ List.mem_cons_self same
  rw [← Phdr.pageAt_succ]
  have room : t.frames.length < maxFrames := few
  rw [step_page at' ((Phdr.pageAt_lt (Nat.le_of_lt less)).mpr less),loadPage_value (yielding_fresh comes) rfl rfl]
  exact ⟨_,install_vacant (s := t.filledWith _ _ _ _) vacant room,rfl⟩

theorem header_load {k : Nat → PageKernel} {t : Loader} (ph : t.ph = img.ePhoff.value)
    (at' : t.stage = .header i) (inside : i < img.phnum)
    (load : (img.header img.ePhoff.value i).type = ptLoad) : (Loader.step k img 0 t).value = .inl { t with
      stage := .page i ((img.header img.ePhoff.value i).extent 0) ((img.header img.ePhoff.value i).pageAt 0 0) } := by
  have type : (img.pType (Image.phdr t.ph i)).value = ptLoad := by
    rw [ph]
    exact load
  have more : ¬img.ePhnum.value.toNat ≤ i := Nat.not_le_of_lt inside
  unfold Loader.step
  rw [at']
  dsimp only
  rw [Traced.value_bind,if_neg more,Traced.value_bind,if_pos type,Traced.value_bind,Loader.enter_value ph]
  rfl

theorem header_other {k : Nat → PageKernel} {t : Loader} (ph : t.ph = img.ePhoff.value)
    (at' : t.stage = .header i) (inside : i < img.phnum)
    (other : (img.header img.ePhoff.value i).type ≠ ptLoad) :
    (Loader.step k img 0 t).value = .inl { t with stage := .header (i + 1) } := by
  have type : (img.pType (Image.phdr t.ph i)).value ≠ ptLoad := by
    rw [ph]
    exact other
  have more : ¬img.ePhnum.value.toNat ≤ i := Nat.not_le_of_lt inside
  unfold Loader.step
  rw [at']
  dsimp only
  rw [Traced.value_bind,if_neg more,Traced.value_bind,if_neg type]
  rfl

theorem header_end {k : Nat → PageKernel} {t : Loader} (at' : t.stage = .header img.phnum) :
    (Loader.step k img 0 t).value = .inl { t with stage := .relro 0 } := by
  have done : img.ePhnum.value.toNat ≤ img.phnum := Nat.le_refl _
  unfold Loader.step
  rw [at']
  dsimp only
  rw [Traced.value_bind,if_pos done]
  rfl

theorem page_end {k : Nat → PageKernel} {t : Loader}
    (at' : t.stage = .page i ((img.header img.ePhoff.value i).extent 0)
    ((img.header img.ePhoff.value i).pageAt 0 ((img.header img.ePhoff.value i).pageCount 0))) :
    (Loader.step k img 0 t).value = .inl { t with stage := .header (i + 1) } := by
  have last : ¬(img.header img.ePhoff.value i).pageAt 0 ((img.header img.ePhoff.value i).pageCount 0) <
    ((img.header img.ePhoff.value i).extent 0).vend := by
    rw [Phdr.pageAt_lt (Nat.le_refl _)]
    exact Nat.lt_irrefl _
  unfold Loader.step
  rw [at']
  dsimp only
  rw [if_neg last]
  rfl

theorem Outside.Comes.start_ph {t : Loader} (comes : w.Comes img t) : t.ph = img.ePhoff.value := by
  obtain ⟨es,places,-,loaded⟩ := comes.loaded
  exact loaded.ph.trans (w.start_ph img)

theorem Fits.fewer (fits : Fits (img.before i (j + 1))) : Fits (img.before i j) :=
  fits.sublist (before_page img i j ▸ List.sublist_append_left _ _)

theorem fits_first (fits : Fits (img.before i n)) (le : j ≤ n) : Fits (img.before i j) := by
  induction le with
  | refl => exact fits
  | step _ ih => exact ih fits.fewer

theorem page_goes {t : Loader} (comes : (Outside.yielding len).Comes img t) (at' : t.stage = .header i)
    (inside : i < img.phnum)
    (load : (img.header img.ePhoff.value i).type = ptLoad) (le : j ≤ (img.header img.ePhoff.value i).pageCount 0)
    (fits : Fits (img.before i j)) : ∃ u, (Outside.yielding len).Comes img u ∧
      u.stage = .page i ((img.header img.ePhoff.value i).extent 0)
        ((img.header img.ePhoff.value i).pageAt 0 j) := by
  induction j with
  | zero => exact ⟨_,.next comes (header_load comes.start_ph at' inside load),rfl⟩
  | succ j ih =>
    obtain ⟨u,reached,there⟩ := ih (Nat.le_of_succ_le le) fits.fewer
    obtain ⟨v,turn,next⟩ := page_next reached there le fits
    exact ⟨v,.next reached turn,next⟩

theorem header_goes (len : Nat) (le : i ≤ img.phnum) (fits : Fits (img.before i 0)) :
    ∃ t, (Outside.yielding len).Comes img t ∧ t.stage = .header i := by
  induction i with
  | zero => exact ⟨_,.start,rfl⟩
  | succ i ih =>
    obtain ⟨t,reached,there⟩ := ih (Nat.le_of_succ_le le) (fits.sublist (before_mono img (Nat.le_succ i)))
    rw [before_succ] at fits
    split at fits
    · rename_i load
      obtain ⟨u,further,last⟩ := page_goes reached there le load (Nat.le_refl _) fits
      exact ⟨_,.next further (page_end last),rfl⟩
    · rename_i other
      exact ⟨_,.next reached (header_other reached.start_ph there le other),rfl⟩

theorem relro_pass {k : Nat → PageKernel} {t : Loader} (ph : t.ph = img.ePhoff.value) (at' : t.stage = .relro i)
    (inside : i < img.phnum)
    (other : (img.header img.ePhoff.value i).type ≠ ptGnuRelro) :
    (Loader.step k img 0 t).value = .inl { t with stage := .relro (i + 1) } := by
  have type : (img.pType (Image.phdr t.ph i)).value ≠ ptGnuRelro := by
    rw [ph]
    exact other
  have more : ¬img.ePhnum.value.toNat ≤ i := Nat.not_le_of_lt inside
  unfold Loader.step
  rw [at']
  dsimp only
  rw [Traced.value_bind,if_neg more,Traced.value_bind,if_neg type]
  rfl

theorem relro_note {k : Nat → PageKernel} {t : Loader} (ph : t.ph = img.ePhoff.value) (at' : t.stage = .relro i)
    (inside : i < img.phnum)
    (is : (img.header img.ePhoff.value i).type = ptGnuRelro) :
    (Loader.step k img 0 t).value = (Loader.noteRelro img 0 t i).value := by
  have type : (img.pType (Image.phdr t.ph i)).value = ptGnuRelro := by
    rw [ph]
    exact is
  have more : ¬img.ePhnum.value.toNat ≤ i := Nat.not_le_of_lt inside
  unfold Loader.step
  rw [at']
  dsimp only
  rw [Traced.value_bind,if_neg more,Traced.value_bind,if_pos type]

theorem relro_goes (len : Nat) (fits : Fits (img.before img.phnum 0)) (le : i ≤ img.phnum)
    (few : img.relroBefore i ≤ maxRelro) :
    ∃ t, (Outside.yielding len).Comes img t ∧ t.stage = .relro i := by
  induction i with
  | zero =>
    obtain ⟨t,reached,there⟩ := header_goes len (Nat.le_refl _) fits
    exact ⟨_,.next reached (header_end there),rfl⟩
  | succ i ih =>
    have count := relroBefore_succ img i
    obtain ⟨t,reached,there⟩ := ih (Nat.le_of_succ_le le) (by omega)
    by_cases is : (img.header img.ePhoff.value i).type = ptGnuRelro
    · have noted := (Outside.Comes.noted reached).1
      rw [there] at noted
      dsimp only [Image.noted] at noted
      rw [if_pos is] at count
      have turn : (Loader.step (Outside.yielding len).page img 0 t).value = (Loader.noteRelro img 0 t i).value :=
        relro_note reached.start_ph there le is
      rw [Loader.noteRelro,Traced.value_bind,Traced.value_bind,if_neg (by omega)] at turn
      exact ⟨_,.next reached turn,rfl⟩
    · exact ⟨_,.next reached (relro_pass reached.start_ph there le is),rfl⟩

theorem returns_zero {out : Traced Word (Loader × Bool)} (fits : Fits (img.before img.phnum 0))
    (run : Loader.loadElfSegments rounds (Outside.yielding len).page img 0 (Outside.yielding len).child =
      some out) :
    out.value.2 = true := by
  obtain ⟨inner,ran,rfl⟩ := Option.map_eq_some_iff.mp run
  obtain ⟨t,reached,answer⟩ := Traced.loop_answer ran
  have comes : (Outside.yielding len).Comes img t := reached
  have goes_on : ∀ {u : Loader}, (Loader.step (Outside.yielding len).page img 0 t).value ≠ .inl u := fun turn => by
    cases answer.symm.trans turn
  obtain ⟨es,places,position,loaded⟩ := comes.loaded
  show inner.value.2 = true
  generalize at_eq : t.stage = stage at position
  cases position with
  | header i inside =>
    rcases Nat.eq_or_lt_of_le inside with rfl | less
    · exact absurd (header_end at_eq) goes_on
    · by_cases load : (img.header img.ePhoff.value i).type = ptLoad
      · exact absurd (header_load comes.start_ph at_eq less load) goes_on
      · exact absurd (header_other comes.start_ph at_eq less load) goes_on
  | page i j inside load before =>
    rcases Nat.eq_or_lt_of_le before with rfl | less
    · exact absurd (page_end at_eq) goes_on
    · have all := fits.sublist (before_mono img inside)
      rw [before_succ,if_pos load] at all
      obtain ⟨u,turn,-⟩ := page_next comes at_eq less (fits_first all less)
      exact absurd turn goes_on
  | relro i =>
    unfold Loader.step at answer
    rw [at_eq] at answer
    dsimp only at answer
    rw [Traced.value_bind] at answer
    split at answer
    · exact (congrArg Prod.snd (Sum.inr.inj answer)).symm
    · rw [Traced.value_bind] at answer
      split at answer
      · rw [Loader.noteRelro,Traced.value_bind,Traced.value_bind] at answer
        split at answer
        · exact (congrArg Prod.snd (Sum.inr.inj answer)).symm
        · cases answer
      · cases answer

theorem confined_more {κ α β : Type} {p : κ → Prop} {m : Option (Traced κ α)} {f : α → Option (Traced κ β)}
    (first : Confined p m) (rest : ∀ x, Confined p (f x)) : Confined p (andThen m f) := by
  obtain ⟨x,run,within⟩ := first
  exact Traced.confined_andThen.mpr ⟨x,run,within,rest x.value⟩

theorem confined_pure {κ α : Type} {p : κ → Prop} (x : α) : Confined p (some (pure x : Traced κ α)) :=
  (Traced.confined_some _).mpr (Traced.within_pure x)

theorem load_more {k : Nat → PageKernel} {s : Loader} {out : Traced Word (Loader × Bool)}
    (run : Loader.loadElfSegments rounds k img 0 s = some out) (extra : Nat) :
    Loader.loadElfSegments (rounds + extra) k img 0 s = some out := by
  obtain ⟨inner,ran,rfl⟩ := Option.map_eq_some_iff.mp run
  exact congrArg (Option.map _) (Traced.loop_more ran extra)

theorem interpName_more {at' : Word} (named : Confined (Inside len) (img.interpName rounds at')) (extra : Nat) :
    Confined (Inside len) (img.interpName (rounds + extra) at') := by
  obtain ⟨x,first,one,out,run,two⟩ := Traced.confined_andThen.mp named
  exact Traced.confined_andThen.mpr ⟨x,first,one,out,Traced.loop_more run extra,two⟩

theorem isElf_iff : (img.begins 0 elfIdent).value = true ↔ img.IsElf := by
  rw [begins_value]
  have zero : ∀ x : Word, 0 + x = x := BitVec.zero_add
  simp only [zero]
  rfl

namespace Image.Readable

theorem header_within (readable : img.Readable len) (elf : img.IsElf) (fits : n + m ≤ 58) (positive : 0 < m) :
    (img.field (BitVec.ofNat 64 n) m).Within (Inside len) := by
  have long := readable.header elf
  exact within_field.mpr ((holds_low (by omega) positive).mpr (by omega))

theorem types_within (readable : img.Readable len) (elf : img.IsElf) (fits : Fits (img.before img.phnum 0))
    (less : i < img.phnum) :
    (img.pType (phdr img.ePhoff.value i)).Within (Inside len) :=
  readable.type_within elf less (fits.sublist (before_mono img (Nat.le_of_lt less)))

theorem mainPhdr_within (readable : img.Readable len) (elf : img.IsElf) (fits : Fits (img.before img.phnum 0)) :
    (img.mainPhdr img.ePhoff.value img.phnum 0).Within (Inside len) := by
  refine within_mainPhdr (fun m less => ?_) fun m less load => ?_
  · rw [Nat.zero_add]
    exact readable.types_within elf fits less
  · rw [Nat.zero_add] at load ⊢
    exact readable.loads elf m less (fits.sublist (before_mono img (Nat.le_of_lt less))) load

theorem link_confined (readable : img.Readable len) (elf : img.IsElf) (fits : Fits (img.before img.phnum 0))
    (w : Outside len) :
    ∃ rounds, ∀ extra, Confined (Inside len) (w.link (rounds + extra) img img.ePhoff.value) := by
  have front : (do
      let phnum ← img.ePhnum
      let found ← img.findInterp img.ePhoff.value phnum.toNat 0
      let _ ← img.eType
      let _ ← img.eEntry
      pure found : Traced Word (Option Nat)).Within (Inside len) := by
    simp only [Traced.within_bind,Traced.within_pure,and_true]
    refine ⟨readable.phnum_within elf,within_findInterp fun m less => ?_,readable.header_within elf (n := 16)
      (by omega) (by omega),
      readable.header_within elf (n := 24) (by omega) (by omega)⟩
    rw [Nat.zero_add]
    exact readable.types_within elf fits less
  cases found : (img.findInterp img.ePhoff.value img.phnum 0).value with
  | none =>
    refine ⟨0,fun extra => Traced.confined_andThen.mpr ⟨_,rfl,front,?_⟩⟩
    show Confined _ ((img.findInterp img.ePhoff.value img.phnum 0).value.elim _ _)
    rw [found]
    exact confined_pure ()
  | some i =>
    obtain ⟨inside,is,first⟩ := findInterp_some found
    obtain ⟨field,ends⟩ := readable.interp elf fits i (by omega) is fun n less => first n (Nat.zero_le n) less
    obtain ⟨rounds,named⟩ := interpName_confined.mpr ⟨field,ends⟩
    refine ⟨rounds,fun extra => Traced.confined_andThen.mpr ⟨_,rfl,front,?_⟩⟩
    show Confined _ ((img.findInterp img.ePhoff.value img.phnum 0).value.elim _ _)
    rw [found,Option.elim_some,Outside.linkInterp]
    refine confined_more (interpName_more named extra) fun name => ?_
    split
    · exact confined_pure ()
    · refine Traced.confined_andThen.mpr ⟨_,rfl,w.confined img,?_⟩
      split
      · exact confined_pure ()
      · rw [Traced.confined_some]
        simp only [Traced.within_bind,Traced.within_pure,and_true]
        exact ⟨readable.phnum_within elf,readable.mainPhdr_within elf fits,readable.phnum_within elf,
          readable.header_within elf (n := 24) (by omega) (by omega)⟩

theorem load_link_confined (readable : img.Readable len) (elf : img.IsElf) (w : Outside len) :
    ∃ rounds, Confined (Inside len) (w.loadAndLink rounds img) := by
  obtain ⟨rounds,out,run⟩ := w.load_ends img
  have inside := readable.load_within elf run
  cases zero : out.value.2 with
  | false =>
    refine ⟨rounds,Traced.confined_andThen.mpr ⟨_,rfl,readable.phoff_within elf,Traced.confined_andThen.mpr
      ⟨out,run,inside,?_⟩⟩⟩
    rw [if_pos zero]
    exact confined_pure ()
  | true =>
    obtain ⟨further,linked⟩ := readable.link_confined elf (fits_of_loaded run zero) w
    refine ⟨rounds + further,Traced.confined_andThen.mpr ⟨_,rfl,readable.phoff_within elf,
      Traced.confined_andThen.mpr ⟨out,load_more run further,inside,?_⟩⟩⟩
    rw [if_neg (zero ▸ Bool.noConfusion),Nat.add_comm]
    exact linked rounds

theorem spawn_confined (readable : img.Readable len) (w : Outside len) :
    ∃ rounds, Confined (Inside len) (tmSpawn rounds len w img) := by
  have zero : ∀ x : Word, 0 + x = x := BitVec.zero_add
  have scan : (do
      let line ← Traced.readAll img (span 0 (min len 256))
      pure (w.shebang line) : Traced Word Bool).Within (Inside len) := by
    rw [Traced.within_bind,Traced.within_readAll]
    refine ⟨fun x member => ?_,Traced.within_pure _⟩
    obtain ⟨i,less,rfl⟩ := List.mem_map.mp member
    have below := List.mem_range.mp less
    rw [zero,Inside,BitVec.toNat_ofNat]
    omega
  have ident : (img.begins 0 elfIdent).Within (Inside len) := by
    refine within_begins.mpr fun j less same => ?_
    have five : elfIdent.length = 5 := rfl
    have inside := readable.ident j less fun i earlier => zero (BitVec.ofNat 64 i) ▸ same i earlier
    rw [zero,Inside,BitVec.toNat_ofNat]
    omega
  by_cases elf : (img.begins 0 elfIdent).value = true
  · obtain ⟨rounds,run⟩ := readable.load_link_confined (isElf_iff.mp elf) w
    refine ⟨rounds,Traced.confined_andThen.mpr ⟨_,rfl,scan,?_⟩⟩
    split
    · exact confined_pure ()
    · refine Traced.confined_andThen.mpr ⟨_,rfl,ident,?_⟩
      split
      · exact confined_pure ()
      · exact run
  · refine ⟨0,Traced.confined_andThen.mpr ⟨_,rfl,scan,?_⟩⟩
    split
    · exact confined_pure ()
    · refine Traced.confined_andThen.mpr ⟨_,rfl,ident,?_⟩
      rw [if_pos (.inl (Bool.eq_false_iff.mpr elf))]
      exact confined_pure ()

end Image.Readable

theorem yielding_run (confined : Confined (Inside len) (tmSpawn rounds len (.yielding len) img)) :
    (img.begins 0 elfIdent).Within (Inside len) ∧ (img.IsElf →
      img.ePhoff.Within (Inside len) ∧
      (∀ t, (Outside.yielding len).Comes img t → (Loader.step (Outside.yielding len).page img 0 t).Within
        (Inside len)) ∧
      (Fits (img.before img.phnum 0) →
        Confined (Inside len) ((Outside.yielding len).link rounds img img.ePhoff.value))) := by
  obtain ⟨line,first,-,behind⟩ := Traced.confined_andThen.mp confined
  obtain rfl := Option.some.inj first
  have script : (do
      let line ← Traced.readAll img (span 0 (min len 256))
      pure ((Outside.yielding len).shebang line) : Traced Word Bool).value = false := rfl
  rw [script,if_neg Bool.noConfusion] at behind
  obtain ⟨elf,first,ident,behind⟩ := Traced.confined_andThen.mp behind
  obtain rfl := Option.some.inj first
  refine ⟨ident,fun is => ?_⟩
  have objects : (Outside.yielding len).objects = true := rfl
  rw [isElf_iff.mpr is,objects,if_neg (by decide)] at behind
  obtain ⟨ph,first,phoff,behind⟩ := Traced.confined_andThen.mp behind
  obtain rfl := Option.some.inj first
  obtain ⟨out,run,loaded,behind⟩ := Traced.confined_andThen.mp behind
  refine ⟨phoff,?_,fun fits => ?_⟩
  · obtain ⟨inner,ran,rfl⟩ := Option.map_eq_some_iff.mp run
    rw [Traced.within_bind] at loaded
    exact (Traced.loop_within ran).mp loaded.2
  · rw [returns_zero fits run,if_neg Bool.noConfusion] at behind
    exact behind

section

variable (steps : ∀ t, (Outside.yielding len).Comes img t →
    (Loader.step (Outside.yielding len).page img 0 t).Within (Inside len))
include steps

theorem phnum_of_steps : img.ePhnum.Within (Inside len) := by
  have first := steps _ .start
  unfold Loader.step at first
  dsimp only at first
  rw [Traced.within_bind] at first
  exact first.1

theorem header_of_steps (inside : i < img.phnum) (fits : Fits (img.before i 0)) :
    Holds len (Image.phdr img.ePhoff.value i) 4 ∧ ((img.header img.ePhoff.value i).type = ptLoad →
      Holds len (Image.phdr img.ePhoff.value i + 8) 16 ∧ Holds len (Image.phdr img.ePhoff.value i + 32) 16) := by
  obtain ⟨t,reached,there⟩ := header_goes len (Nat.le_of_lt inside) fits
  have ph := reached.start_ph
  have more : ¬img.ePhnum.value.toNat ≤ i := Nat.not_le_of_lt inside
  have here := steps t reached
  unfold Loader.step at here
  rw [there] at here
  dsimp only at here
  rw [Traced.within_bind,if_neg more,Traced.within_bind,ph] at here
  obtain ⟨-,type,rest⟩ := here
  refine ⟨within_field.mp type,fun load => ?_⟩
  have is : (img.pType (Image.phdr img.ePhoff.value i)).value = ptLoad := load
  rw [if_pos is,Traced.within_bind,Loader.enter,ph] at rest
  simp only [Traced.within_bind,Traced.within_pure,and_true] at rest
  obtain ⟨vaddr,memsz,filesz,offset⟩ := rest
  exact ⟨holds_offset_vaddr.mpr ⟨within_field.mp offset,within_field.mp vaddr⟩,
    holds_filesz_memsz.mpr ⟨within_field.mp filesz,within_field.mp memsz⟩⟩

theorem page_of_steps (inside : i < img.phnum) (load : (img.header img.ePhoff.value i).type = ptLoad)
    (less : j < (img.header img.ePhoff.value i).pageCount 0) (fits : Fits (img.before i j)) :
    let seg := (img.header img.ePhoff.value i).extent 0
    let v := (img.header img.ePhoff.value i).pageAt 0 j
    Holds len (seg.src + seg.fileOff v) (seg.fileBytes v).toNat ∧
      Holds len (Image.phdr img.ePhoff.value i + 4) 4 := by
  obtain ⟨t,reached,there⟩ := header_goes len (Nat.le_of_lt inside) (fits_first fits (Nat.zero_le j))
  obtain ⟨u,further,at'⟩ := page_goes reached there inside load (Nat.le_of_lt less) fits
  have here := steps u further
  rw [step_page at' ((Phdr.pageAt_lt (Nat.le_of_lt less)).mpr less),Loader.loadPage,
    if_neg (yielding_fresh further),further.start_ph] at here
  have mapped : ((Outside.yielding len).page u.frames.length).scratch = true := rfl
  have unmapped : ((Outside.yielding len).page u.frames.length).unscratch = true := rfl
  rw [mapped,unmapped,if_neg Bool.noConfusion,Traced.within_bind,Traced.within_readAll,if_neg Bool.noConfusion,
    Traced.within_bind] at here
  exact ⟨here.1,within_field.mp here.2.1⟩

theorem relro_of_steps (fits : Fits (img.before img.phnum 0)) (inside : i < img.phnum)
    (few : img.relroBefore i ≤ maxRelro) (is : (img.header img.ePhoff.value i).type = ptGnuRelro) :
    Holds len (Image.phdr img.ePhoff.value i + 16) 8 ∧ Holds len (Image.phdr img.ePhoff.value i + 40) 8 := by
  obtain ⟨t,reached,there⟩ := relro_goes len fits (Nat.le_of_lt inside) few
  have type : (img.pType (Image.phdr img.ePhoff.value i)).value = ptGnuRelro := is
  have more : ¬img.ePhnum.value.toNat ≤ i := Nat.not_le_of_lt inside
  have here := steps t reached
  unfold Loader.step at here
  rw [there] at here
  dsimp only at here
  rw [Traced.within_bind,if_neg more,Traced.within_bind,reached.start_ph,if_pos type,Loader.noteRelro,
    Traced.within_bind,Traced.within_bind,reached.start_ph] at here
  exact ⟨within_field.mp here.2.2.1,within_field.mp here.2.2.2.1⟩

end

theorem findInterp_first {ph : Word} (from' : j ≤ i) (inside : i < j + n) (is : (img.header ph i).type = ptInterp)
    (first : ∀ m, j ≤ m → m < i → (img.header ph m).type ≠ ptInterp) : (img.findInterp ph n j).value = some i := by
  induction n generalizing j with
  | zero => omega
  | succ n ih =>
    rw [Image.findInterp,Traced.value_bind]
    rcases Nat.eq_or_lt_of_le from' with rfl | later
    · have here : (img.pType (Image.phdr ph j)).value = ptInterp := is
      rw [if_pos here]
      rfl
    · have other : (img.pType (Image.phdr ph j)).value ≠ ptInterp := first j (Nat.le_refl j) later
      rw [if_neg other]
      exact ih later (by omega) fun m le => first m (Nat.le_of_succ_le le)

theorem interp_of_link (linked : Confined (Inside len)
    ((Outside.yielding len).link rounds img img.ePhoff.value)) (inside : i < img.phnum)
    (is : (img.header img.ePhoff.value i).type = ptInterp)
    (first : ∀ n < i, (img.header img.ePhoff.value n).type ≠ ptInterp) :
    Holds len (Image.phdr img.ePhoff.value i + 8) 8 ∧
      img.EndsInside len (img.header img.ePhoff.value i).offset := by
  obtain ⟨found,head,-,behind⟩ := Traced.confined_andThen.mp linked
  obtain rfl := Option.some.inj head
  have at' : (img.findInterp img.ePhoff.value img.phnum 0).value = some i :=
    findInterp_first (Nat.zero_le i) (by omega) is fun n _ less => first n less
  replace behind : Confined (Inside len)
      ((img.findInterp img.ePhoff.value img.phnum 0).value.elim (some (pure ()))
        ((Outside.yielding len).linkInterp rounds img img.ePhoff.value)) :=
    behind
  rw [at',Option.elim_some,Outside.linkInterp] at behind
  obtain ⟨name,run,within,-⟩ := Traced.confined_andThen.mp behind
  exact interpName_confined.mp ⟨rounds,name,run,within⟩

theorem readable_of_confined (confined : Confined (Inside len) (tmSpawn rounds len (.yielding len) img)) :
    img.Readable len := by
  have zero : ∀ x : Word, 0 + x = x := BitVec.zero_add
  obtain ⟨ident,elfRun⟩ := yielding_run confined
  refine ⟨fun j less same => ?_,fun elf => ?_,fun elf i inside fits => ?_,fun elf i inside fits load => ?_,
    fun elf i inside load j less fits => ?_,fun elf fits i inside few is => ?_,fun elf fits i inside is first => ?_⟩
  · have five : elfIdent.length = 5 := rfl
    have here := within_begins.mp ident j less fun i earlier => (zero (BitVec.ofNat 64 i)).symm ▸ same i earlier
    rw [zero,Inside,BitVec.toNat_ofNat] at here
    omega
  · have count := within_field.mp (phnum_of_steps (elfRun elf).2.1)
    exact (holds_low (n := 56) (by omega) (by omega)).mp count
  · exact (header_of_steps (elfRun elf).2.1 inside fits).1
  · exact (header_of_steps (elfRun elf).2.1 inside fits).2 load
  · exact page_of_steps (elfRun elf).2.1 inside load less fits
  · exact relro_of_steps (elfRun elf).2.1 fits inside few is
  · exact interp_of_link ((elfRun elf).2.2 fits) inside is first

/-- Every run of `tm_spawn`, whatever the kernel answers and whatever else is in the archive, ends and
reads nothing beside its image exactly where the parts of the image that are looked at lie in it. -/
theorem image_reads_confined (img : Image) (len : Nat) :
    (∀ w : Outside len, ∃ rounds, Confined (Inside len) (tmSpawn rounds len w img)) ↔ img.Readable len := by
  constructor
  · intro all
    obtain ⟨rounds,confined⟩ := all (.yielding len)
    exact readable_of_confined confined
  · exact fun readable w => readable.spawn_confined w

/-- An ELF file of 64 bytes whose only program header would start at its end. -/
def headerOnly : Image := fun a =>
  ([0x7f,0x45,0x4c,0x46,2] ++ List.replicate 27 0 ++ [64,0,0,0,0,0,0,0] ++ List.replicate 16 0 ++
    [1,0,0,0,0,0,0,0]).getD a.toNat 0

/-- Its program header is read behind it. -/
theorem image_reads_escape :
    ∃ out, tmSpawn 8 64 (.yielding 64) headerOnly = some out ∧ ∃ a ∈ out.reads, ¬Inside 64 a := by
  have escaped : (tmSpawn 8 64 (.yielding 64) headerOnly).map (fun out => decide ((64 : Word) ∈ out.reads)) =
    some true := by
    decide +kernel
  obtain ⟨out,run,read⟩ := Option.map_eq_some_iff.mp escaped
  exact ⟨out,run,64,of_decide_eq_true read,Nat.lt_irrefl 64⟩

end Qsoe.Spawn
