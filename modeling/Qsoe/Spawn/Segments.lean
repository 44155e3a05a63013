import Mathlib.Data.List.Forall2
import Mathlib.Data.List.Nodup
import Qsoe.Spawn.Loader

/-! Every state the loader comes to has loaded the pages before its position, so that an image it
returns 0 for is in the child byte by byte. -/
namespace Qsoe.Spawn

open Qsoe.Path (Byte)
open Words (span)

namespace Loader

variable {k : Nat → PageKernel} {a : PageKernel} {img : Image} {off v : Word} {s t u : Loader} {i j frame : Nat}
    {seg : Extent}
  {es : List (Phdr × Word)} {places : List Place} {ok mapped : Bool} {rights : PageRights} {h : Phdr}
    {bytes : List Byte}

theorem install_inl (there : s.install i seg v frame mapped rights = .inl t) :
    s.Vacant v ∧ s.frames.length < maxFrames ∧
    t = { s with
      stage := .page i seg (v + 0x1000), pages := ⟨v,frame,rights⟩ :: s.pages, frames := s.frames ++ [(v,frame)] } := by
  unfold install at there
  split at there
  · cases there
  · rename_i free
    rw [not_or,not_not] at free
    unfold recordFrame at there
    split at there
    · cases there
    · rename_i frames room
      split at room
      · cases room
      · rename_i few
        obtain rfl := Option.some.inj room
        exact ⟨free.2,Nat.lt_of_not_le few,(Sum.inl.inj there).symm⟩

theorem install_inr (there : s.install i seg v frame mapped rights = .inr (t,ok)) : ok = false := by
  unfold install at there
  split at there
  · cases there
    rfl
  · split at there
    · cases there
      rfl
    · cases there

def filledWith (s : Loader) (a : PageKernel) (img : Image) (seg : Extent) (v : Word) : Loader :=
  s.fill a.slot (seg.inPageStart v) ((span (seg.src + seg.fileOff v) (seg.fileBytes v).toNat).map img)

theorem loadPage_inl (turn : (loadPage a img s i seg v).value = .inl t) :
    a.slot ∉ s.used ∧
    (s.filledWith a img seg v).install i seg v a.slot a.mapped
      (rightsOf (img.pFlags (Image.phdr s.ph i)).value) = .inl t := by
  unfold loadPage at turn
  split at turn
  · cases turn
  · rename_i fresh
    rw [not_or] at fresh
    split at turn
    · cases turn
    · rw [Traced.value_bind,Traced.value_readAll] at turn
      split at turn
      · cases turn
      · exact ⟨fresh.2,turn⟩

theorem loadPage_inr (turn : (loadPage a img s i seg v).value = .inr (t,ok)) : ok = false := by
  unfold loadPage at turn
  split at turn
  · cases turn
    rfl
  · split at turn
    · cases turn
      rfl
    · rw [Traced.value_bind,Traced.value_readAll] at turn
      split at turn
      · cases turn
        rfl
      · exact install_inr turn

theorem filled_vas {mem : Frames} (filled : List.Forall₂ (Filled img off mem) es places) :
    places.map Place.va = es.map Prod.snd := by
  induction filled with
  | nil => rfl
  | cons first _ ih => rw [List.map_cons,List.map_cons,first.va,ih]

theorem filled_congr {mem mem' : Frames} (filled : List.Forall₂ (Filled img off mem) es places)
    (same : ∀ p ∈ places, mem' p.frame = mem p.frame) : List.Forall₂ (Filled img off mem') es places := by
  induction filled with
  | nil => exact .nil
  | cons first _ ih =>
    refine .cons ⟨first.va,first.rights,fun i below => ?_⟩
      (ih fun p member => same p (List.mem_cons_of_mem _ member))
    rw [same _ List.mem_cons_self]
    exact first.bytes i below

theorem fill_other (s : Loader) (start : Word) (bytes : List Byte) {f : Nat} (other : f ≠ frame) :
    (s.fill frame start bytes).mem f = s.mem f := by
  funext x
  show Memory.store (s.mem.clear frame) frame start bytes f x = s.mem f x
  rw [Memory.store,if_neg other,Frames.clear,Memory.store,if_neg other]

theorem Loaded.start (s : Loader) (stage : Stage) : Loaded k img off s [] [] { s with stage := stage } where
  ph := rfl
  tables := rfl
  filled := .nil
  pages := rfl
  frames := (List.append_nil _).symm
  used := rfl
  slots := rfl
  kept _ _ := rfl
  placeable := ⟨List.nodup_nil,fun _ member => absurd member List.not_mem_nil,fun _ less =>
    absurd less (Nat.not_lt_zero _)⟩

theorem Loaded.restage (loaded : Loaded k img off s es places t) (stage : Stage) :
    Loaded k img off s es places { t with stage := stage } :=
  ⟨loaded.ph,loaded.tables,loaded.filled,loaded.pages,loaded.frames,loaded.used,loaded.slots,loaded.kept,
    loaded.placeable⟩

theorem Loaded.relroed (loaded : Loaded k img off s es places t) (relro : List (Word × Word)) (stage : Stage) :
    Loaded k img off s es places { t with stage := stage, relro := relro } :=
  ⟨loaded.ph,loaded.tables,loaded.filled,loaded.pages,loaded.frames,loaded.used,loaded.slots,loaded.kept,
    loaded.placeable⟩

/-- The pages loaded since and one more can be mapped. -/
theorem Loaded.place (loaded : Loaded k img off s es places t) (vacant : t.Vacant v)
    (room : t.frames.length < maxFrames) :
    s.Placeable ((es ++ [(h,v)]).map Prod.snd) := by
  have vas := filled_vas loaded.filled
  have new : ∀ p ∈ places, p.va ≠ v := fun p member =>
    vacant.2 p (loaded.pages ▸ List.mem_append_left _ (List.mem_reverse.mpr member))
  rw [List.map_append,List.map_cons,List.map_nil]
  refine ⟨List.nodup_append.mpr ⟨loaded.placeable.once,List.nodup_singleton v,fun x member y last => ?_⟩,
    fun x member => ?_,fun n less => ?_⟩
  · obtain rfl := List.mem_singleton.mp last
    rw [← vas] at member
    obtain ⟨p,there,rfl⟩ := List.mem_map.mp member
    exact new p there
  · rcases List.mem_append.mp member with old | last
    · exact loaded.placeable.vacant x old
    · obtain rfl := List.mem_singleton.mp last
      exact ⟨loaded.tables ▸ vacant.1,fun p member => vacant.2 p (loaded.pages ▸ List.mem_append_right _ member)⟩
  · have count := congrArg List.length vas
    rw [List.length_map,List.length_map] at count
    rw [loaded.frames,List.length_append,List.length_map] at room
    rw [List.length_append,List.length_map,List.length_singleton] at less
    omega

theorem Loaded.page (loaded : Loaded k img off s es places t) (from' : (pageDown (h.base off)).toNat ≤ v.toNat)
    (aligned : v.toNat % 4096 = 0) (flags : (img.pFlags (Image.phdr t.ph i)).value = h.flags)
    (turn : (loadPage (k t.frames.length) img t i (h.extent off) v).value = .inl u) :
    u.stage = .page i (h.extent off) (v + 0x1000) ∧ u.relro = t.relro ∧
    Loaded k img off s (es ++ [(h,v)]) (places ++ [⟨v,(k t.frames.length).slot,rightsOf h.flags⟩]) u := by
  have count : t.frames.length = s.frames.length + places.length := by
    rw [loaded.frames,List.length_append,List.length_map]
  obtain ⟨fresh,installed⟩ := loadPage_inl turn
  obtain ⟨vacant,room,rfl⟩ := install_inl installed
  rw [flags]
  have other : ∀ f ∈ t.used, (t.filledWith (k t.frames.length) img (h.extent off) v).mem f = t.mem f :=
    fun f member => fill_other t _ _ fun same => fresh (same ▸ member)
  have held : ∀ p ∈ places, p.frame ∈ t.used := fun p member =>
    loaded.used ▸ List.mem_append_left _ (List.mem_reverse.mpr (List.mem_map_of_mem member))
  refine ⟨rfl,rfl,loaded.ph,loaded.tables,?_,?_,?_,?_,?_,?_,loaded.place vacant room⟩
  · refine List.rel_append (filled_congr loaded.filled fun p member => other _ (held p member))
      (.cons ⟨rfl,rfl,?_⟩ .nil)
    exact fun i below => fill_byte from' aligned below
  · show _ :: t.pages = _
    rw [loaded.pages,List.reverse_append,List.append_assoc]
    rfl
  · show t.frames ++ _ = _
    rw [loaded.frames,List.map_append,List.append_assoc]
    rfl
  · show _ :: t.used = _
    rw [loaded.used,List.map_append,List.reverse_append,List.append_assoc]
    rfl
  · rw [List.map_append,loaded.slots,List.length_append,List.length_singleton,List.range_succ,List.map_append,
      List.map_singleton,List.map_singleton,count]
  · intro f member
    exact (other f (loaded.used ▸ List.mem_append_right _ member)).trans (loaded.kept f member)

theorem enter_value (ph : s.ph = p) (img : Image) (off : Word) (i : Nat) : (enter img off s i).value =
    { s with stage := .page i ((img.header p i).extent off) ((img.header p i).pageAt off 0) } := by
  subst ph
  rw [Phdr.pageAt_zero]
  rfl

inductive Onward (img : Image) (ph off : Word) : Stage × List (Word × Word) →
    Stage × List (Word × Word) → Prop where
  | skip (i : Nat) (inside : i < img.phnum) (other : (img.header ph i).type ≠ ptLoad) :
      Onward img ph off (.header i,noted) (.header (i + 1),noted)
  | enter (i : Nat) (inside : i < img.phnum) (load : (img.header ph i).type = ptLoad) :
      Onward img ph off (.header i,noted)
        (.page i ((img.header ph i).extent off) ((img.header ph i).pageAt off 0),noted)
  | page (i j : Nat) (inside : i < img.phnum) (less : j < (img.header ph i).pageCount off) :
      Onward img ph off (.page i ((img.header ph i).extent off) ((img.header ph i).pageAt off j),noted)
        (.page i ((img.header ph i).extent off) ((img.header ph i).pageAt off (j + 1)),noted)
  | leave (i : Nat) (inside : i < img.phnum) :
      Onward img ph off (.page i ((img.header ph i).extent off)
        ((img.header ph i).pageAt off ((img.header ph i).pageCount off)),noted)
        (.header (i + 1),noted)
  | turn : Onward img ph off (.header img.phnum,noted) (.relro 0,noted)
  | pass (i : Nat) (inside : i < img.phnum) (other : (img.header ph i).type ≠ ptGnuRelro) :
      Onward img ph off (.relro i,noted) (.relro (i + 1),noted)
  | note (i : Nat) (inside : i < img.phnum) (is : (img.header ph i).type = ptGnuRelro)
      (room : noted.length < maxRelro) (range : Word × Word) :
      Onward img ph off (.relro i,noted) (.relro (i + 1),noted ++ [range])

theorem step_inl (position : Position img s.ph off t.stage es) (loaded : Loaded k img off s es places t)
    (turn : (step k img off t).value = .inl u) :
    (∃ es' places', Position img s.ph off u.stage es' ∧ Loaded k img off s es' places' u) ∧
    Onward img s.ph off (t.stage,t.relro) (u.stage,u.relro) := by
  have ph := loaded.ph
  generalize at_eq : t.stage = stage at position
  unfold step at turn
  rw [at_eq] at turn
  cases position with
  | header i inside =>
    dsimp only at turn
    rw [Traced.value_bind] at turn
    split at turn
    · rename_i done
      obtain rfl : i = img.phnum := Nat.le_antisymm inside done
      obtain rfl := Sum.inl.inj turn
      exact ⟨⟨_,places,.relro 0,loaded.restage _⟩,.turn⟩
    · rename_i more
      have next : i + 1 ≤ img.phnum := Nat.lt_of_not_le more
      rw [Traced.value_bind] at turn
      split at turn
      · rename_i load
        rw [Traced.value_bind,enter_value ph] at turn
        obtain rfl := Sum.inl.inj turn
        rw [ph] at load
        refine ⟨⟨_,places,.page i 0 next load (Nat.zero_le _),?_⟩,.enter i next load⟩
        rw [Phdr.firstPages,List.range_zero,List.map_nil,List.append_nil]
        exact loaded.restage _
      · rename_i other
        obtain rfl := Sum.inl.inj turn
        rw [ph] at other
        have skipped : ¬(img.header s.ph i).type = ptLoad := other
        refine ⟨⟨_,places,.header (i + 1) next,?_⟩,.skip i next skipped⟩
        rw [Image.pagesBefore_succ,if_neg skipped,List.append_nil]
        exact loaded.restage _
  | page i j inside load before =>
    dsimp only at turn
    have here := (img.header s.ph i).pageAt_toNat before
    have down := pageDown_toNat ((img.header s.ph i).base off)
    split at turn
    · rename_i more
      have less := (Phdr.pageAt_lt before).mp more
      obtain ⟨stage,relro,next⟩ := loaded.page (h := img.header s.ph i) (by omega) (by omega) (by rw [ph]; rfl) turn
      rw [Phdr.pageAt_succ] at stage
      rw [List.append_assoc,← Phdr.firstPages_succ] at next
      rw [stage,relro]
      exact ⟨⟨_,_,.page i (j + 1) inside load less,next⟩,.page i j inside less⟩
    · rename_i last
      obtain rfl : j = (img.header s.ph i).pageCount off := by
        rw [Phdr.pageAt_lt before] at last
        omega
      obtain rfl := Sum.inl.inj turn
      refine ⟨⟨_,places,.header (i + 1) inside,?_⟩,.leave i inside⟩
      rw [Image.pagesBefore_succ,if_pos load]
      exact loaded.restage _
  | relro i =>
    dsimp only at turn
    rw [Traced.value_bind] at turn
    split at turn
    · cases turn
    · rename_i more
      have inside : i < img.phnum := Nat.lt_of_not_le more
      rw [Traced.value_bind] at turn
      split at turn
      · rename_i is
        rw [ph] at is
        unfold noteRelro at turn
        rw [Traced.value_bind,Traced.value_bind] at turn
        split at turn
        · cases turn
        · rename_i room
          obtain rfl := Sum.inl.inj turn
          exact ⟨⟨_,places,.relro (i + 1),loaded.relroed _ _⟩,.note i inside is (Nat.lt_of_not_le room) _⟩
      · rename_i other
        rw [ph] at other
        obtain rfl := Sum.inl.inj turn
        exact ⟨⟨_,places,.relro (i + 1),loaded.restage _⟩,.pass i inside other⟩

theorem step_inr (position : Position img s.ph off t.stage es) (loaded : Loaded k img off s es places t)
    (turn : (step k img off t).value = .inr (u,true)) :
    Loaded k img off s (img.pagesBefore s.ph off img.phnum) places u := by
  generalize at_eq : t.stage = stage at position
  unfold step at turn
  rw [at_eq] at turn
  cases position with
  | header i inside =>
    dsimp only at turn
    rw [Traced.value_bind] at turn
    split at turn
    · cases turn
    · rw [Traced.value_bind] at turn
      split at turn
      · cases turn
      · cases turn
  | page i j inside load before =>
    dsimp only at turn
    split at turn
    · cases loadPage_inr turn
    · cases turn
  | relro i =>
    dsimp only at turn
    rw [Traced.value_bind] at turn
    split at turn
    · obtain ⟨rfl,-⟩ := Prod.mk.inj (Sum.inr.inj turn)
      exact loaded
    · rw [Traced.value_bind] at turn
      split at turn
      · unfold noteRelro at turn
        rw [Traced.value_bind,Traced.value_bind] at turn
        split at turn
        · obtain ⟨rfl,-⟩ := Prod.mk.inj (Sum.inr.inj turn)
          exact loaded
        · cases turn
      · cases turn

theorem reaches_loaded (reached : Traced.Reaches (step k img off) { s with stage := .header 0 } t) :
    ∃ es places, Position img s.ph off t.stage es ∧ Loaded k img off s es places t := by
  refine reached.invariant (fun t => ∃ es places, Position img s.ph off t.stage es ∧
    Loaded k img off s es places t) ?_ ?_
  · exact ⟨[],[],.header 0 (Nat.zero_le _),.start s _⟩
  · rintro t u ⟨es,places,position,loaded⟩ turn
    exact (step_inl position loaded turn).1

/-- Where it returns 0 the loader has loaded every page. -/
theorem load_loaded (run : loadElfSegments rounds k img off s = some out) (zero : out.value = (t,true)) :
    ∃ places, Loaded k img off { s with ph := img.ePhoff.value }
      (img.pagesBefore img.ePhoff.value off img.phnum) places t := by
  obtain ⟨inner,ran,rfl⟩ := Option.map_eq_some_iff.mp run
  obtain ⟨last,reached,answer⟩ := Traced.loop_answer ran
  have same : inner.value = (t,true) := zero
  rw [same] at answer
  obtain ⟨es,places,position,loaded⟩ := reaches_loaded (s := { s with ph := img.ePhoff.value }) reached
  exact ⟨places,step_inr position loaded answer⟩

theorem mem_pagesBefore {e : Phdr × Word} : e ∈ img.pagesBefore img.ePhoff.value off img.phnum ↔
    e.1 ∈ img.headers ∧ e.1.type = ptLoad ∧ e.1.Covers off e.2 := by
  unfold Image.pagesBefore
  rw [List.mem_flatMap]
  constructor
  · rintro ⟨h,member,inside⟩
    split at inside
    · rename_i load
      obtain ⟨j,less,rfl⟩ := List.mem_map.mp inside
      exact ⟨member,load,(h.covers_iff off _).mpr ⟨j,List.mem_range.mp less,rfl⟩⟩
    · cases inside
  · rintro ⟨member,load,covers⟩
    obtain ⟨j,less,same⟩ := (e.1.covers_iff off e.2).mp covers
    refine ⟨e.1,member,?_⟩
    rw [if_pos load]
    exact List.mem_map.mpr ⟨j,List.mem_range.mpr less,Prod.ext rfl same.symm⟩

theorem filled_place {mem : Frames} (filled : List.Forall₂ (Filled img off mem) es places) {e : Phdr × Word}
    (member : e ∈ es) :
    ∃ p ∈ places, Filled img off mem e p := by
  induction filled with
  | nil => cases member
  | cons first _ ih =>
    rcases List.mem_cons.mp member with rfl | later
    · exact ⟨_,List.mem_cons_self,first⟩
    · obtain ⟨p,there,holds⟩ := ih later
      exact ⟨p,List.mem_cons_of_mem _ there,holds⟩

theorem filled_source {mem : Frames} (filled : List.Forall₂ (Filled img off mem) es places) {p : Place}
    (member : p ∈ places) :
    ∃ e ∈ es, Filled img off mem e p := by
  induction filled with
  | nil => cases member
  | cons first _ ih =>
    rcases List.mem_cons.mp member with rfl | later
    · exact ⟨_,List.mem_cons_self,first⟩
    · obtain ⟨e,there,holds⟩ := ih later
      exact ⟨e,List.mem_cons_of_mem _ there,holds⟩

/-- Of the places with one address there is one, and the page tables show it. -/
theorem Loaded.find (loaded : Loaded k img off s es places t) {p : Place} (member : p ∈ places) :
    (t.pages.find? fun q => q.va = p.va) = some p := by
  have vas := filled_vas loaded.filled
  have once : (places.map Place.va).Nodup := vas ▸ loaded.placeable.once
  have there : p ∈ t.pages := loaded.pages ▸ List.mem_append_left _ (List.mem_reverse.mpr member)
  cases found : t.pages.find? fun q => q.va = p.va with
  | none => exact absurd (decide_eq_true rfl) (List.find?_eq_none.mp found p there)
  | some q =>
    have same : q.va = p.va := by simpa using List.find?_some found
    have from' := List.mem_of_find?_eq_some found
    rw [loaded.pages] at from'
    rcases List.mem_append.mp from' with new | old
    · exact congrArg some (List.inj_on_of_nodup_map once (List.mem_reverse.mp new) member same)
    · have listed : p.va ∈ es.map Prod.snd := vas ▸ List.mem_map_of_mem member
      exact absurd same ((loaded.placeable.vacant p.va listed).2 q old)

/-- The frame table shows the frame of a page that was not in it before. -/
theorem Loaded.findFrame (loaded : Loaded k img off s es places t) {p : Place} (member : p ∈ places)
    (aligned : pageDown v = p.va) (new : ∀ e ∈ s.frames, e.1 ≠ p.va) : findFrame t.frames v = some p.frame := by
  have once : (places.map Place.va).Nodup := filled_vas loaded.filled ▸ loaded.placeable.once
  have there : (p.va,p.frame) ∈ t.frames := loaded.frames ▸ List.mem_append_right _ (List.mem_map_of_mem member)
  rw [Qsoe.Spawn.findFrame,aligned]
  cases found : t.frames.find? fun e => e.1 = p.va with
  | none => exact absurd (decide_eq_true rfl) (List.find?_eq_none.mp found _ there)
  | some e =>
    have same : e.1 = p.va := by simpa using List.find?_some found
    have from' := List.mem_of_find?_eq_some found
    rw [loaded.frames] at from'
    rcases List.mem_append.mp from' with old | mapped
    · exact absurd same (new e old)
    · obtain ⟨q,inside,rfl⟩ := List.mem_map.mp mapped
      exact congrArg (fun q : Place => some q.frame) (List.inj_on_of_nodup_map once inside member same)

theorem covers_byte (fits : (h.base off).toNat + h.memsz.toNat + 0xFFF < 2 ^ 64) (less : j < h.memsz.toNat) :
    (h.base off + BitVec.ofNat 64 j).toNat = (h.base off).toNat + j ∧
      h.Covers off (pageDown (h.base off + BitVec.ofNat 64 j)) := by
  have here : (h.base off + BitVec.ofNat 64 j).toNat = (h.base off).toNat + j := by
    rw [BitVec.toNat_add,BitVec.toNat_ofNat]
    omega
  have page := pageDown_toNat (h.base off + BitVec.ofNat 64 j)
  have down := pageDown_toNat (h.base off)
  have up := pageUp_toNat (h.base off + h.memsz)
  have stop : (h.base off + h.memsz + pageMask).toNat = (h.base off).toNat + h.memsz.toNat + 0xFFF := by
    rw [BitVec.toNat_add,BitVec.toNat_add,pageMask_toNat]
    omega
  refine ⟨here,?_,?_,?_⟩
  · omega
  · rw [BitVec.le_def]
    omega
  · rw [BitVec.lt_def]
    omega

theorem Loaded.childByte (loaded : Loaded k img off s es places t)
    (fits : (h.base off).toNat + h.memsz.toNat + 0xFFF < 2 ^ 64)
    (member : (h,pageDown (h.base off + BitVec.ofNat 64 j)) ∈ es) (less : j < h.memsz.toNat) :
    t.childByte (h.base off + BitVec.ofNat 64 j) =
      some (if j < h.filesz.toNat then img (h.offset + BitVec.ofNat 64 j) else 0) := by
  have here := (covers_byte fits less).1
  have small : (BitVec.ofNat 64 j).toNat = j := by
    rw [BitVec.toNat_ofNat]
    omega
  generalize a_eq : h.base off + BitVec.ofNat 64 j = a at *
  obtain ⟨p,there,filled⟩ := filled_place loaded.filled member
  have va : p.va = pageDown a := filled.va
  have found := loaded.find there
  rw [va] at found
  have down := pageDown_toNat a
  have inPage : (a - pageDown a).toNat = a.toNat - (pageDown a).toNat := by
    rw [BitVec.toNat_sub_of_le (by rw [BitVec.le_def]; omega)]
  have byte := filled.bytes (a - pageDown a).toNat (by omega)
  dsimp only at byte
  rw [BitVec.ofNat_toNat,BitVec.setWidth_eq,BitVec.add_comm (pageDown a),BitVec.sub_add_cancel] at byte
  have distance : a - h.base off = BitVec.ofNat 64 j := by
    rw [← a_eq,BitVec.add_comm,BitVec.add_sub_cancel]
  rw [Loader.childByte,found,Option.map_some,va,byte,Phdr.byteAt,distance]
  by_cases inFile : j < h.filesz.toNat
  · rw [if_pos inFile,if_pos ⟨by rw [BitVec.le_def]; omega,by rw [BitVec.lt_def]; omega⟩]
  · rw [if_neg inFile,if_neg fun both => inFile (small ▸ BitVec.lt_def.mp both.2)]

end Loader

/-- Where `load_elf_segments` returns 0 the child finds the bytes of every segment with zeros behind them,
each page is mapped once and with the rights of its segment, and the frame table has grown by these pages. -/
theorem elf_image_loaded {rounds : Nat} (k : Nat → PageKernel) (img : Image) (off : Word) (s t : Loader)
    (out : Traced Word (Loader × Bool)) (run : Loader.loadElfSegments rounds k img off s = some out)
    (returns : out.value = (t,true))
    (fits : ∀ h ∈ img.headers, h.type = ptLoad → (h.base off).toNat + h.memsz.toNat + 0xFFF < 2 ^ 64) :
    (∀ h ∈ img.headers, h.type = ptLoad → ∀ j < h.memsz.toNat, t.childByte (h.base off + BitVec.ofNat 64 j) =
      some (if j < h.filesz.toNat then img (h.offset + BitVec.ofNat 64 j) else 0)) ∧
    ∃ places, t.pages = places ++ s.pages ∧
      (∀ v, (∃ p ∈ places, p.va = v) ↔ ∃ h ∈ img.headers, h.type = ptLoad ∧ h.Covers off v) ∧
      (places.map Place.va).Nodup ∧ (∀ p ∈ places, ∀ q ∈ s.pages, p.va ≠ q.va) ∧
      (∀ p ∈ places, ∀ h ∈ img.headers, h.type = ptLoad → h.Covers off p.va → p.rights = Loader.rightsOf h.flags) ∧
      t.frames = s.frames ++ places.reverse.map (fun p => (p.va,p.frame)) ∧
      ∀ p ∈ places, (∀ e ∈ s.frames, e.1 ≠ p.va) → findFrame t.frames p.va = some p.frame := by
  obtain ⟨places,loaded⟩ := Loader.load_loaded run returns
  have vas := Loader.filled_vas loaded.filled
  refine ⟨fun h member load j less => ?_,places.reverse,loaded.pages,fun v => ⟨?_,?_⟩,?_,?_,?_,?_,?_⟩
  · have fit := fits h member load
    exact loaded.childByte fit (Loader.mem_pagesBefore.mpr ⟨member,load,(Loader.covers_byte fit less).2⟩) less
  · rintro ⟨p,member,rfl⟩
    obtain ⟨e,listed,filled⟩ := Loader.filled_source loaded.filled (List.mem_reverse.mp member)
    obtain ⟨header,load,covers⟩ := Loader.mem_pagesBefore.mp listed
    exact ⟨e.1,header,load,filled.va ▸ covers⟩
  · rintro ⟨h,member,load,covers⟩
    obtain ⟨p,there,filled⟩ := Loader.filled_place loaded.filled (e := (h,v))
      (Loader.mem_pagesBefore.mpr ⟨member,load,covers⟩)
    exact ⟨p,List.mem_reverse.mpr there,filled.va⟩
  · rw [List.map_reverse,vas]
    exact List.nodup_reverse.mpr loaded.placeable.once
  · intro p member q old same
    have listed : p.va ∈ (img.pagesBefore img.ePhoff.value off img.phnum).map Prod.snd :=
      vas ▸ List.mem_map_of_mem (List.mem_reverse.mp member)
    exact (loaded.placeable.vacant p.va listed).2 q old same.symm
  · intro p member h header load covers
    obtain ⟨e,listed,filled⟩ := Loader.filled_source loaded.filled (List.mem_reverse.mp member)
    have same : e = (h,p.va) := List.inj_on_of_nodup_map loaded.placeable.once listed
      (Loader.mem_pagesBefore.mpr ⟨header,load,covers⟩) filled.va.symm
    rw [filled.rights,same]
  · rw [List.reverse_reverse]
    exact loaded.frames
  · intro p member new
    obtain ⟨e,listed,filled⟩ := Loader.filled_source loaded.filled (List.mem_reverse.mp member)
    obtain ⟨-,-,aligned,-,-⟩ := Loader.mem_pagesBefore.mp listed
    refine loaded.findFrame (List.mem_reverse.mp member) (BitVec.eq_of_toNat_eq ?_) new
    rw [pageDown_toNat,filled.va]
    omega

/-- A program with one segment of four bytes, of which three are in the file, across two pages. -/
def smallProgram : Image := fun a =>
  (List.replicate 32 0 ++ [64,0,0,0,0,0,0,0] ++ List.replicate 16 0 ++ [1,0,0,0,0,0,0,0] ++
    [1,0,0,0,6,0,0,0,120,0,0,0,0,0,0,0,0xfe,0x0f,1,0,0,0,0,0] ++ List.replicate 8 0 ++
    [3,0,0,0,0,0,0,0,4,0,0,0,0,0,0,0] ++ List.replicate 8 0 ++ [0x71,0x73,0x68]).getD a.toNat 0xff

/-- A loader with an empty child. -/
def emptyChild : Loader := ⟨.header 0,0,fun _ _ => 0xff,[1,2,3],fun va => va.toNat < 2 ^ 21,[],[],[]⟩

/-- A kernel that refuses nothing. -/
def willing (n : Nat) : PageKernel := ⟨n + 4,true,true,true⟩

theorem elf_image_loaded_small :
    ∃ out t, Loader.loadElfSegments 8 willing smallProgram 0 emptyChild = some out ∧ out.value = (t,true) ∧
      t.childByte 0x11000 = some 0x68 ∧ t.childByte 0x11001 = some 0 := by
  have returned : (Loader.loadElfSegments 8 willing smallProgram 0 emptyChild).map (fun out => out.value.2) =
    some true := by
    decide +kernel
  obtain ⟨out,run,zero⟩ := Option.map_eq_some_iff.mp returned
  obtain ⟨t,ok⟩ : ∃ t, out.value = (t,true) := ⟨out.value.1,Prod.ext rfl zero⟩
  have bytes := (elf_image_loaded willing smallProgram 0 emptyChild t out run ok (by decide +kernel)).1
  have header : smallProgram.header 64 0 ∈ smallProgram.headers := by decide +kernel
  have load : (smallProgram.header 64 0).type = ptLoad := by decide +kernel
  exact ⟨out,t,run,ok,bytes _ header load 2 (by decide +kernel),bytes _ header load 3 (by decide +kernel)⟩

end Qsoe.Spawn
