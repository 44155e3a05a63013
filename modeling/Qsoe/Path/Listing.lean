import Qsoe.Lib.Cursor
import Qsoe.Path.Files

/-! Listing a directory of the archive. A call looks for the next entry below the prefix and remembers the
subdirectories it has named; at the root the children of the path manager follow. -/
namespace Qsoe.Path

open Cursor (Item)
open Taskman (Word)

/-- `TM_CPIOFS_MAX_SUBDIRS_SEEN` and `TM_CPIOFS_SUBDIR_NAMELEN`. -/
def maxSubdirsSeen : Nat := 16
def subdirNamelen : Nat := 24

/-- A string that stands in a table, and whether it is one of a directory. -/
structure Listed where
  name : List Byte
  isDirectory : Bool
  deriving DecidableEq, Repr

/-- The entries of the archive as `cpio_get_entry` gives them, and the children of the root that
`tm_pathmgr_child_at` does. -/
structure Catalogue where
  entries : List Listed
  children : List Listed

/-- A row of `g_cpiofs_dirs`. -/
structure DirSlot where
  badge : Word
  text : List Byte
  nextIdx : Nat
  subdirsSeen : List (List Byte)
  pmPhase : Bool
  pmNextIdx : Nat
  deriving DecidableEq, Repr

abbrev Dirs := Fin maxDirs → DirSlot

/-- A name with its `d_type`: `DT_REG` for a single one, `DT_DIR` for that of a group. -/
abbrev Dirent := Item (List Byte)

inductive ListError where
  | of (e : Failure)
  | enotdir
  deriving DecidableEq, Repr

/-- `dir_slot_alloc`. -/
def dirSlotAlloc (dirs : Dirs) (badge : Word) (text : List Byte) : Dirs × Except Failure (Fin maxDirs) :=
  match (List.finRange maxDirs).find? fun i => (dirs i).badge == 0 with
  | none => (dirs,.error .emfile)
  | some i =>
    if 64 ≤ text.length then (dirs,.error .enametoolong)
    else (Function.update dirs i ⟨badge,text,0,[],false,0⟩,.ok i)

namespace DirSlot

def remember (s : DirSlot) (name : List Byte) : DirSlot :=
  if s.subdirsSeen.length < maxSubdirsSeen then { s with subdirsSeen := s.subdirsSeen ++ [name] } else s

/-- The body of the loop over the archive: `none` is `continue`. -/
def visit (s : DirSlot) (name : List Byte) : DirSlot × Option Dirent :=
  if s.text.isPrefixOf name = false then (s,none)
  else
    let rel := name.drop s.text.length
    if rel = [] then (s,none)
    else
      let first := rel.takeWhile (· ≠ slash)
      if first.length < rel.length then
        if subdirNamelen < first.length + 1 then (s,none)
        else if s.subdirsSeen.contains first then (s,none)
        else (s.remember first,some (.group first))
      else if 256 ≤ first.length then (s,none)
      else (s,some (.single first))

def walkArchive (entries : List Listed) : Nat → DirSlot → DirSlot × Option Dirent
  | 0, s => (s,none)
  | n + 1, s =>
    match entries[s.nextIdx]? with
    | none => (s,none)
    | some e =>
      match visit { s with nextIdx := s.nextIdx + 1 } e.name with
      | (t,none) => walkArchive entries n t
      | (t,some d) => (t,some d)

def visitChild (s : DirSlot) (name : List Byte) : DirSlot × Option Dirent :=
  if s.subdirsSeen.contains name then (s,none)
  else (if name.length + 1 ≤ subdirNamelen then s.remember name else s,some (.group name))

def walkChildren (children : List Listed) : Nat → DirSlot → DirSlot × Option Dirent
  | 0, s => (s,none)
  | n + 1, s =>
    match children[s.pmNextIdx]? with
    | none => (s,none)
    | some c =>
      match visitChild { s with pmNextIdx := s.pmNextIdx + 1 } c.name with
      | (t,none) => walkChildren children n t
      | (t,some d) => (t,some d)

/-- What `tm_cpiofs_readdir` does once it has its row. -/
def readdir (c : Catalogue) (s : DirSlot) : DirSlot × Except ListError Dirent :=
  match walkArchive c.entries (c.entries.length - s.nextIdx) s with
  | (t,some d) => (t,.ok d)
  | (t,none) =>
    if t.text ≠ [] then (t,.error (.of (.of .enoent)))
    else
      match walkChildren c.children (c.children.length - t.pmNextIdx) { t with pmPhase := true } with
      | (u,some d) => (u,.ok d)
      | (u,none) => (u,.error (.of (.of .enoent)))

end DirSlot

/-- `tm_cpiofs_readdir`: `ctx` are the words of the connection, the second the index of the row. -/
def cpiofsReaddir (c : Catalogue) (badge : Word) (ctx : Except Failure (Word × Word)) (dirs : Dirs) :
    Dirs × Except ListError Dirent :=
  match ctx with
  | .error e => (dirs,.error (.of e))
  | .ok (dataAddr,ctx1) =>
    if dataAddr ≠ 0 then (dirs,.error .enotdir)
    else if bound : (ctx1.setWidth 32).toNat < maxDirs then
      let i : Fin maxDirs := ⟨(ctx1.setWidth 32).toNat,bound⟩
      if (dirs i).badge ≠ badge then (dirs,.error (.of (.of .ebadf)))
      else
        let listed := (dirs i).readdir c
        (Function.update dirs i listed.1,listed.2)
    else (dirs,.error (.of (.of .ebadf)))

/-- The part of an entry that stands directly below the prefix: the name of a file, or of the subdirectory it
is in. -/
def childOf (text name : List Byte) : Option Dirent :=
  if text.isPrefixOf name = false then none
  else
    let rel := name.drop text.length
    let first := rel.takeWhile (· ≠ slash)
    if rel = [] then none
    else if first.length < rel.length then some (.group first)
    else some (.single first)

variable {c : Catalogue} {text : List Byte}

theorem isPrefixOf_iff {text name : List Byte} : text.isPrefixOf name = true ↔ ∃ rel, name = text ++ rel := by
  rw [List.isPrefixOf_iff_prefix]
  exact exists_congr fun _ => eq_comm

theorem childOf_append (text rel : List Byte) : childOf text (text ++ rel) =
    if rel = [] then none
    else if (rel.takeWhile (· ≠ slash)).length < rel.length then some (.group (rel.takeWhile (· ≠ slash)))
    else some (.single (rel.takeWhile (· ≠ slash))) := by
  have below : text.isPrefixOf (text ++ rel) = true := isPrefixOf_iff.mpr ⟨rel,rfl⟩
  unfold childOf
  rw [below,List.drop_left]
  rfl

theorem takeWhile_slash (rel : List Byte) :
    ((rel.takeWhile (· ≠ slash)).length < rel.length ↔ slash ∈ rel) ∧ slash ∉ rel.takeWhile (· ≠ slash) ∧
      (slash ∈ rel → ∃ rest, rel = rel.takeWhile (· ≠ slash) ++ slash :: rest) ∧
        (slash ∉ rel → rel.takeWhile (· ≠ slash) = rel) := by
  induction rel with
  | nil => simp
  | cons b rel ih =>
    obtain ⟨shorter,free,split,whole⟩ := ih
    by_cases here : b = slash
    · simp [here]
    · have other : slash ≠ b := fun same => here same.symm
      simp only [List.takeWhile_cons,ne_eq,here,not_false_eq_true,decide_true,if_true,List.length_cons,
        Nat.add_lt_add_iff_right,List.mem_cons,other,false_or,shorter,true_and]
      refine ⟨free,fun member => ?_,fun absent => congrArg _ (whole absent)⟩
      obtain ⟨rest,same⟩ := split member
      exact ⟨rest,congrArg _ same⟩

theorem childOf_single : childOf text name = some (.single n) ↔ name = text ++ n ∧ n ≠ [] ∧ slash ∉ n := by
  constructor
  · intro found
    by_cases below : text.isPrefixOf name = true
    · obtain ⟨rel,rfl⟩ := isPrefixOf_iff.mp below
      rw [childOf_append] at found
      obtain ⟨shorter,-,-,whole⟩ := takeWhile_slash rel
      split at found
      · cases found
      · rename_i nonempty
        split at found
        · cases found
        · rename_i file
          have absent := fun member => file (shorter.mpr member)
          rw [whole absent] at found
          obtain rfl := Item.single.inj (Option.some.inj found)
          exact ⟨rfl,nonempty,absent⟩
    · rw [childOf,if_pos (Bool.not_eq_true _ ▸ below)] at found
      cases found
  · rintro ⟨rfl,nonempty,absent⟩
    obtain ⟨shorter,-,-,whole⟩ := takeWhile_slash n
    rw [childOf_append,if_neg nonempty,if_neg fun less => absent (shorter.mp less),whole absent]

theorem childOf_group :
    childOf text name = some (.group n) ↔ slash ∉ n ∧ ∃ rest, name = text ++ (n ++ slash :: rest) := by
  constructor
  · intro found
    by_cases below : text.isPrefixOf name = true
    · obtain ⟨rel,rfl⟩ := isPrefixOf_iff.mp below
      rw [childOf_append] at found
      obtain ⟨shorter,free,split,-⟩ := takeWhile_slash rel
      split at found
      · cases found
      · split at found
        · rename_i less
          obtain ⟨rest,same⟩ := split (shorter.mp less)
          obtain rfl := Item.group.inj (Option.some.inj found)
          exact ⟨free,rest,congrArg _ same⟩
        · cases found
    · rw [childOf,if_pos (Bool.not_eq_true _ ▸ below)] at found
      cases found
  · rintro ⟨absent,rest,rfl⟩
    have others : ∀ b ∈ n, decide (b ≠ slash) = true := by
      intro b member
      exact decide_eq_true fun same => absent (same ▸ member)
    have front : (n ++ slash :: rest).takeWhile (· ≠ slash) = n := by
      rw [List.takeWhile_append_of_pos others,List.takeWhile_cons_of_neg (by simp),List.append_nil]
    rw [childOf_append,front,if_neg (by simp),if_pos (by simp)]

namespace DirSlot

variable {s : DirSlot}

theorem visit_eq (short : ∀ d, childOf s.text name = some d → d.key.length < subdirNamelen) :
    s.visit name = match childOf s.text name with
      | none => (s,none)
      | some (.single n) => (s,some (.single n))
      | some (.group n) => if n ∈ s.subdirsSeen then (s,none) else (s.remember n,some (.group n)) := by
  have budget : subdirNamelen = 24 := rfl
  unfold childOf at short ⊢
  unfold visit
  by_cases below : s.text.isPrefixOf name = false
  · rw [if_pos below,if_pos below]
  · rw [if_neg below] at short
    rw [if_neg below,if_neg below]
    dsimp only at short ⊢
    by_cases itself : name.drop s.text.length = []
    · rw [if_pos itself,if_pos itself]
    · rw [if_neg itself] at short
      rw [if_neg itself,if_neg itself]
      split
      · rename_i less
        rw [if_pos less] at short
        have fits := short _ rfl
        rw [if_neg (by rw [Item.key] at fits; omega)]
        simp only [List.contains_iff_mem]
      · rename_i file
        rw [if_neg file] at short
        have fits := short _ rfl
        rw [if_neg (by rw [Item.key] at fits; omega)]

def ahead (c : Catalogue) (s : DirSlot) : List Dirent :=
  (c.entries.drop s.nextIdx).filterMap fun e => childOf s.text e.name

def childrenAhead (c : Catalogue) (s : DirSlot) : List Dirent :=
  if s.text = [] then (c.children.drop s.pmNextIdx).map fun child => .group child.name else []

/-- What is left to list. -/
def left (c : Catalogue) (s : DirSlot) : List Dirent := Item.listed s.subdirsSeen (s.ahead c ++ s.childrenAhead c)

/-- There is room for the subdirectories of the archive, and every name fits. -/
structure Ready (c : Catalogue) (s : DirSlot) : Prop where
  short : ∀ e ∈ c.entries, ∀ d, childOf s.text e.name = some d → d.key.length < subdirNamelen
  once : (c.children.map Listed.name).Nodup
  distinct : s.subdirsSeen.Nodup
  room : (s.subdirsSeen ++ (s.ahead c).filterMap Item.group?).dedup.length ≤ maxSubdirsSeen

theorem dedup_length_le {l m : List (List Byte)} (less : l ⊆ m) : l.dedup.length ≤ m.dedup.length := by
  refine (List.subperm_of_subset (List.nodup_dedup l) fun k member => ?_).length_le
  exact List.mem_dedup.mpr (less (List.mem_dedup.mp member))

theorem Ready.vacant (ready : s.Ready c) (new : n ∉ s.subdirsSeen)
    (listed : n ∈ (s.ahead c).filterMap Item.group?) :
    s.subdirsSeen.length < maxSubdirsSeen := by
  have more : (n :: s.subdirsSeen).dedup.length ≤ maxSubdirsSeen := by
    refine (dedup_length_le fun k member => ?_).trans ready.room
    rcases List.mem_cons.mp member with rfl | old
    · exact List.mem_append_right _ listed
    · exact List.mem_append_left _ old
  rw [List.dedup_cons_of_notMem new,List.length_cons,ready.distinct.dedup] at more
  omega

theorem walkArchive_spec (ready : s.Ready c)
    (walk : walkArchive c.entries (c.entries.length - s.nextIdx) s = (t,d)) :
    t.Ready c ∧ s.left c = d.toList ++ t.left c ∧ (d = none → t.ahead c = []) ∧ t.text = s.text ∧
      t.badge = s.badge := by
  generalize rounds : c.entries.length - s.nextIdx = n at walk
  induction n generalizing s with
  | zero =>
    obtain ⟨rfl,rfl⟩ := Prod.mk.inj walk
    refine ⟨ready,rfl,fun _ => ?_,rfl,rfl⟩
    unfold ahead
    rw [List.drop_eq_nil_of_le (by omega)]
    rfl
  | succ n ih =>
    have range : s.nextIdx < c.entries.length := by omega
    have split : c.entries.drop s.nextIdx = c.entries[s.nextIdx] :: c.entries.drop (s.nextIdx + 1) :=
      List.drop_eq_getElem_cons range
    have member : c.entries[s.nextIdx] ∈ c.entries := List.getElem_mem range
    rw [walkArchive,List.getElem?_eq_getElem range] at walk
    generalize c.entries[s.nextIdx] = e at *
    have visited := visit_eq (s := { s with nextIdx := s.nextIdx + 1 }) (ready.short e member)
    have next : s.ahead c = (childOf s.text e.name).toList ++ ahead c { s with nextIdx := s.nextIdx + 1 } := by
      unfold ahead
      rw [split,List.filterMap_cons]
      cases childOf s.text e.name <;> rfl
    have fewer : Ready c { s with nextIdx := s.nextIdx + 1 } := by
      refine ⟨ready.short,ready.once,ready.distinct,(dedup_length_le fun k there => ?_).trans ready.room⟩
      rw [next,List.filterMap_append]
      rcases List.mem_append.mp there with old | later
      · exact List.mem_append_left _ old
      · exact List.mem_append_right _ (List.mem_append_right _ later)
    dsimp only at walk visited
    rw [visited] at walk
    have again := ih (s := { s with nextIdx := s.nextIdx + 1 }) fewer (by dsimp only; omega)
    unfold left at again ⊢
    rw [next]
    cases found : childOf s.text e.name with
    | none =>
      rw [found] at walk
      exact again walk
    | some item =>
      rw [found] at walk
      cases item with
      | single k =>
        obtain ⟨rfl,rfl⟩ := Prod.mk.inj walk
        exact ⟨fewer,rfl,fun nothing => absurd nothing (Option.some_ne_none _),rfl,rfl⟩
      | group k =>
        dsimp only at walk
        rw [Option.toList_some,List.singleton_append,List.cons_append,Item.listed]
        by_cases seen : k ∈ s.subdirsSeen
        · rw [if_pos seen] at walk ⊢
          exact again walk
        · rw [if_neg seen] at walk ⊢
          have here : k ∈ (s.ahead c).filterMap Item.group? := by
            rw [next,found]
            exact List.mem_cons_self
          rw [remember,if_pos (ready.vacant seen here)] at walk
          obtain ⟨rfl,rfl⟩ := Prod.mk.inj walk
          refine ⟨⟨ready.short,ready.once,?_,(dedup_length_le fun j there => ?_).trans ready.room⟩,?_,
            fun nothing => absurd nothing (Option.some_ne_none _),rfl,rfl⟩
          · refine List.nodup_append.mpr ⟨ready.distinct,List.nodup_singleton k,fun a old b last same => ?_⟩
            exact seen (List.mem_singleton.mp last ▸ same ▸ old)
          · rw [next,found,List.filterMap_append]
            rw [List.append_assoc] at there
            exact there
          · exact congrArg _ (Item.listed_congr fun j _ => by simp [or_comm])

theorem left_children (done : s.ahead c = []) (root : s.text = []) : s.left c =
    Item.listed s.subdirsSeen ((c.children.drop s.pmNextIdx).map fun child => .group child.name) := by
  unfold left childrenAhead
  rw [done,if_pos root,List.nil_append]

theorem walkChildren_spec (ready : s.Ready c) (root : s.text = []) (done : s.ahead c = [])
    (walk : walkChildren c.children (c.children.length - s.pmNextIdx) s = (t,d)) :
    t.Ready c ∧ s.left c = d.toList ++ t.left c ∧ (d = none → t.left c = []) ∧ t.text = s.text ∧
      t.badge = s.badge := by
  generalize rounds : c.children.length - s.pmNextIdx = n at walk
  induction n generalizing s with
  | zero =>
    obtain ⟨rfl,rfl⟩ := Prod.mk.inj walk
    refine ⟨ready,rfl,fun _ => ?_,rfl,rfl⟩
    unfold left childrenAhead
    rw [done,if_pos root,List.drop_eq_nil_of_le (by omega)]
    rfl
  | succ n ih =>
    have range : s.pmNextIdx < c.children.length := by omega
    have split : c.children.drop s.pmNextIdx = c.children[s.pmNextIdx] :: c.children.drop (s.pmNextIdx + 1) :=
      List.drop_eq_getElem_cons range
    -- a child that has been listed does not come again
    have new : ∀ child ∈ c.children.drop (s.pmNextIdx + 1), child.name ≠ c.children[s.pmNextIdx].name := by
      have once := ready.once
      rw [← List.take_append_drop s.pmNextIdx c.children,split,List.map_append,List.map_cons] at once
      have apart := (List.nodup_cons.mp (List.nodup_append.mp once).2.1).1
      exact fun child member same => apart (List.mem_map.mpr ⟨child,member,same⟩)
    rw [walkChildren,List.getElem?_eq_getElem range] at walk
    generalize c.children[s.pmNextIdx] = child at *
    have later : ∀ seen, left c { s with pmNextIdx := s.pmNextIdx + 1, subdirsSeen := seen } =
        Item.listed seen ((c.children.drop (s.pmNextIdx + 1)).map fun child => .group child.name) :=
      fun seen => left_children (s := { s with pmNextIdx := s.pmNextIdx + 1, subdirsSeen := seen }) done root
    have again := ih (s := { s with pmNextIdx := s.pmNextIdx + 1 })
      ⟨ready.short,ready.once,ready.distinct,ready.room⟩ root done
      (by dsimp only; omega)
    rw [left_children done root,split,List.map_cons,Item.listed]
    dsimp only [visitChild] at walk
    by_cases seen : child.name ∈ s.subdirsSeen
    · rw [if_pos (List.contains_iff_mem.mpr seen)] at walk
      rw [if_pos seen,← later]
      exact again walk
    · rw [if_neg fun member => seen (List.contains_iff_mem.mp member)] at walk
      rw [if_neg seen]
      have forget : Item.listed (child.name :: s.subdirsSeen)
        ((c.children.drop (s.pmNextIdx + 1)).map fun child => .group child.name) =
          left c { s with pmNextIdx := s.pmNextIdx + 1 } := by
        rw [later s.subdirsSeen]
        refine Item.listed_congr fun k there => ?_
        obtain ⟨other,member,same⟩ := List.mem_map.mp there
        obtain rfl := Item.group.inj same
        exact List.mem_cons.trans (or_iff_right (new other member))
      have ready' : Ready c { s with pmNextIdx := s.pmNextIdx + 1 } :=
        ⟨ready.short,ready.once,ready.distinct,ready.room⟩
      obtain ⟨rfl,rfl⟩ := Prod.mk.inj walk
      unfold remember
      split
      · split
        · rename_i room
          refine ⟨⟨ready.short,ready.once,?_,?_⟩,?_,fun nothing => absurd nothing (Option.some_ne_none _),rfl,rfl⟩
          · refine List.nodup_append.mpr ⟨ready.distinct,List.nodup_singleton _,fun a old b last same => ?_⟩
            exact seen (List.mem_singleton.mp last ▸ same ▸ old)
          · rw [show
                ahead c { s with pmNextIdx := s.pmNextIdx + 1, subdirsSeen := s.subdirsSeen ++ [child.name] } = []
                from done,
              List.filterMap_nil,List.append_nil]
            refine (List.Sublist.length_le (List.dedup_sublist _)).trans ?_
            rw [List.length_append]
            exact room
          · rw [later]
            exact congrArg _ (Item.listed_congr fun j _ => by simp [or_comm])
        · exact ⟨ready',congrArg _ forget,fun nothing => absurd nothing (Option.some_ne_none _),rfl,rfl⟩
      · exact ⟨ready',congrArg _ forget,fun nothing => absurd nothing (Option.some_ne_none _),rfl,rfl⟩

theorem readdir_spec (ready : s.Ready c) :
    (s.readdir c).1.Ready c ∧ (s.readdir c).2 = Cursor.answer (.of (.of .enoent)) (s.left c).head? ∧
      (s.readdir c).1.left c = (s.left c).tail ∧ (s.readdir c).1.text = s.text ∧ (s.readdir c).1.badge =
        s.badge := by
  unfold readdir
  cases archive : walkArchive c.entries (c.entries.length - s.nextIdx) s with
  | mk t d =>
    obtain ⟨ready',left,done,text,badge⟩ := walkArchive_spec ready archive
    cases d with
    | some d =>
      dsimp only
      rw [left]
      exact ⟨ready',rfl,rfl,text,badge⟩
    | none =>
      dsimp only
      rw [left,Option.toList_none,List.nil_append]
      by_cases root : t.text = []
      · rw [if_neg (not_not.mpr root)]
        cases children : walkChildren c.children (c.children.length - t.pmNextIdx) { t with pmPhase := true } with
        | mk u d =>
          have phase : Ready c { t with pmPhase := true } := ⟨ready'.short,ready'.once,ready'.distinct,ready'.room⟩
          obtain ⟨ready'',left',stop,text',badge'⟩ := walkChildren_spec phase root (done rfl) children
          have same : t.left c = d.toList ++ u.left c := left'
          rw [same]
          cases d with
          | some d => exact ⟨ready'',rfl,rfl,text'.trans text,badge'.trans badge⟩
          | none =>
            rw [Option.toList_none,List.nil_append,stop rfl]
            exact ⟨ready'',rfl,rfl,text'.trans text,badge'.trans badge⟩
      · rw [if_pos root]
        have nothing : t.left c = [] := by
          unfold DirSlot.left childrenAhead
          rw [done rfl,if_neg root]
          rfl
        rw [nothing]
        exact ⟨ready',rfl,rfl,text,badge⟩

end DirSlot

/-- The name is that of an entry directly below the prefix, or of a subdirectory an entry is in. -/
def At (text n name : List Byte) : Prop := name = text ++ n ∧ n ≠ [] ∧ slash ∉ n

def Below (text n name : List Byte) : Prop := slash ∉ n ∧ ∃ rest, name = text ++ (n ++ slash :: rest)

/-- A subdirectory: one with entries in it, one with an entry of its own, or a directory of the path manager. -/
def Catalogue.IsDirectory (c : Catalogue) (text n : List Byte) : Prop :=
  (∃ e ∈ c.entries, Below text n e.name) ∨ (∃ e ∈ c.entries, e.isDirectory = true ∧ At text n e.name) ∨
    text = [] ∧ ∃ child ∈ c.children, child.isDirectory = true ∧ child.name = n

def Catalogue.IsChild (c : Catalogue) (text n : List Byte) : Prop :=
  (∃ e ∈ c.entries, At text n e.name ∨ Below text n e.name) ∨ text = [] ∧ ∃ child ∈ c.children, child.name = n

/-- The calls list every child once, as a directory exactly if it is one, and then there is no entry. -/
def Catalogue.ListsOnce (c : Catalogue) (badge : Word) (ctx : Except Failure (Word × Word)) (dirs : Dirs)
    (text : List Byte) : Prop :=
  ∃ items, Cursor.Yields (cpiofsReaddir c badge ctx) (.of (.of .enoent)) dirs items ∧ (items.map Item.key).Nodup ∧
    (∀ n, n ∈ items.map Item.key ↔ c.IsChild text n) ∧ ∀ item ∈ items, (∃ n, item = .group n) ↔
      c.IsDirectory text item.key

/-- No name stands for two things: files have one entry each, none of a directory or of a child of the path
manager, and those children are directories. -/
structure Catalogue.Distinct (c : Catalogue) (text : List Byte) : Prop where
  once : (c.entries.filterMap fun e => (childOf text e.name).bind Item.single?).Nodup
  apart : ∀ e ∈ c.entries, ∀ n, At text n e.name →
    (∀ e' ∈ c.entries, ¬Below text n e'.name) ∧ (text = [] → ∀ child ∈ c.children, child.name ≠ n)
  regular : ∀ e ∈ c.entries, e.isDirectory = true → ∀ n, ¬At text n e.name
  directories : text = [] → ∀ child ∈ c.children, child.isDirectory = true ∨ ∃ e ∈ c.entries,
    Below text child.name e.name

def Catalogue.items (c : Catalogue) (text : List Byte) : List Dirent :=
  c.entries.filterMap (fun e => childOf text e.name) ++
    if text = [] then c.children.map fun child => .group child.name else []

theorem mem_items_single : .single n ∈ c.items text ↔ ∃ e ∈ c.entries, At text n e.name := by
  unfold Catalogue.items
  rw [List.mem_append,List.mem_filterMap]
  have nothing : ¬(Item.single n : Dirent) ∈ if text = [] then c.children.map fun child =>
    .group child.name else [] := by
    split <;> simp
  rw [or_iff_left nothing]
  exact exists_congr fun e => and_congr_right fun _ => childOf_single

theorem mem_items_group : .group n ∈ c.items text ↔
    (∃ e ∈ c.entries, Below text n e.name) ∨ text = [] ∧ ∃ child ∈ c.children, child.name = n := by
  unfold Catalogue.items
  rw [List.mem_append,List.mem_filterMap]
  refine or_congr (exists_congr fun e => and_congr_right fun _ => childOf_group) ?_
  split
  · rename_i root
    simp [root]
  · rename_i below
    simp [below]

theorem items_singles (text : List Byte) : (c.items text).filterMap Item.single? =
    c.entries.filterMap fun e => (childOf text e.name).bind Item.single? := by
  unfold Catalogue.items
  rw [List.filterMap_append,List.filterMap_filterMap]
  have nothing : (if text = [] then c.children.map fun child => (Item.group child.name : Dirent) else
    []).filterMap Item.single? = [] := by
    split
    · rw [List.filterMap_map]
      exact List.filterMap_eq_nil_iff.mpr fun child _ => rfl
    · rfl
  rw [nothing,List.append_nil]

/-- The items with each group once are what `ListsOnce` asks for exactly if the names are distinct. -/
theorem listed_distinct (once : (c.children.map Listed.name).Nodup) :
    (((Item.listed [] (c.items text)).map Item.key).Nodup ∧
      (∀ n, n ∈ (Item.listed [] (c.items text)).map Item.key ↔ c.IsChild text n) ∧
      ∀ item ∈ Item.listed [] (c.items text), (∃ n, item = .group n) ↔ c.IsDirectory text item.key) ↔ c.Distinct text := by
  have single : ∀ n, .single n ∈ Item.listed [] (c.items text) ↔ ∃ e ∈ c.entries, At text n e.name :=
    fun n => Item.mem_single.trans mem_items_single
  have group : ∀ n, .group n ∈ Item.listed [] (c.items text) ↔
      (∃ e ∈ c.entries, Below text n e.name) ∨ text = [] ∧ ∃ child ∈ c.children, child.name = n := fun n =>
    (Item.mem_group.trans (and_iff_left List.not_mem_nil)).trans mem_items_group
  have children : ∀ n, n ∈ (Item.listed [] (c.items text)).map Item.key ↔ c.IsChild text n := by
    intro n
    rw [Item.mem_key,mem_items_single,mem_items_group,and_iff_left List.not_mem_nil,← or_assoc]
    refine or_congr_left ?_
    constructor
    · rintro (⟨e,member,at_⟩ | ⟨e,member,below⟩)
      · exact ⟨e,member,.inl at_⟩
      · exact ⟨e,member,.inr below⟩
    · rintro ⟨e,member,at_ | below⟩
      · exact .inl ⟨e,member,at_⟩
      · exact .inr ⟨e,member,below⟩
  rw [Item.listed_nodup,items_singles]
  constructor
  · rintro ⟨⟨files,apart⟩,-,kinds⟩
    have plain : ∀ e ∈ c.entries, ∀ n, At text n e.name → ¬c.IsDirectory text n := by
      intro e member n at_ directory
      obtain ⟨k,same⟩ := (kinds _ ((single n).mpr ⟨e,member,at_⟩)).mpr directory
      cases same
    refine ⟨files,fun e member n at_ => ⟨fun e' member' below => ?_,fun root child there same => ?_⟩,
      fun e member directory n at_ => plain e member n at_ (.inr (.inl ⟨e,member,directory,at_⟩)),fun root child there => ?_⟩
    · exact plain e member n at_ (.inl ⟨e',member',below⟩)
    · exact absurd (apart n (mem_items_single.mpr ⟨e,member,at_⟩)
        (mem_items_group.mpr (.inr ⟨root,child,there,same⟩)))
        List.not_mem_nil
    · rcases (kinds _ ((group child.name).mpr (.inr ⟨root,child,there,rfl⟩))).mp ⟨_,rfl⟩ with
        below | ⟨e,member,-,at_⟩ | ⟨-,other,there',directory,same⟩
      · exact .inr below
      · have out := apart _ (mem_items_single.mpr ⟨e,member,at_⟩)
          (mem_items_group.mpr (.inr ⟨root,child,there,rfl⟩))
        exact absurd out List.not_mem_nil
      · rw [List.inj_on_of_nodup_map once there' there same] at directory
        exact .inl directory
  · rintro ⟨files,apart,regular,directories⟩
    refine ⟨⟨files,fun n one two => ?_⟩,children,fun item member => ?_⟩
    · obtain ⟨e,member,at_⟩ := mem_items_single.mp one
      obtain ⟨free,clear⟩ := apart e member n at_
      rcases mem_items_group.mp two with ⟨e',member',below⟩ | ⟨root,child,there,same⟩
      · exact absurd below (free e' member')
      · exact absurd same (clear root child there)
    · cases item with
      | single n =>
        obtain ⟨e,there,at_⟩ := (single n).mp member
        obtain ⟨free,clear⟩ := apart e there n at_
        constructor
        · rintro ⟨k,same⟩
          cases same
        · rintro (⟨e',there',below⟩ | ⟨e',there',directory,at'⟩ | ⟨root,child,there',-,same⟩)
          · exact absurd below (free e' there')
          · exact absurd at' (regular e' there' directory n)
          · exact absurd same (clear root child there')
      | group n =>
        refine ⟨fun _ => ?_,fun _ => ⟨n,rfl⟩⟩
        rcases (group n).mp member with below | ⟨root,child,there,rfl⟩
        · exact .inl below
        · rcases directories root child there with directory | below
          · exact .inr (.inr ⟨root,child,there,directory,rfl⟩)
          · exact .inl below

/-- The words of a connection to the directory in row `i`. -/
def dirContext (i : Fin maxDirs) : Except Failure (Word × Word) := .ok (0,BitVec.ofNat 64 i.val)

theorem cpiofsReaddir_row {dirs : Dirs} {i : Fin maxDirs} (owned : (dirs i).badge = badge) :
    cpiofsReaddir c badge (dirContext i) dirs =
      (Function.update dirs i ((dirs i).readdir c).1,((dirs i).readdir c).2) := by
  have small : i.val < 16 := i.isLt
  have index : ((BitVec.ofNat 64 i.val).setWidth 32).toNat = i.val := by
    rw [BitVec.toNat_setWidth,BitVec.toNat_ofNat]
    omega
  have range : ((BitVec.ofNat 64 i.val).setWidth 32).toNat < maxDirs := by
    rw [index]
    exact i.isLt
  have row : (⟨((BitVec.ofNat 64 i.val).setWidth 32).toNat,range⟩ : Fin maxDirs) = i := Fin.ext index
  unfold cpiofsReaddir dirContext
  dsimp only
  rw [if_neg (not_not.mpr rfl),dif_pos range,row,if_neg (not_not.mpr owned)]

theorem dirSlotAlloc_some {dirs there : Dirs} (opened : dirSlotAlloc dirs badge text = (there,.ok i)) :
    there i = ⟨badge,text,0,[],false,0⟩ := by
  unfold dirSlotAlloc at opened
  split at opened
  · cases (Prod.mk.inj opened).2
  · split at opened
    · cases (Prod.mk.inj opened).2
    · obtain ⟨rfl,same⟩ := Prod.mk.inj opened
      obtain rfl := Except.ok.inj same
      exact Function.update_self ..

theorem readdir_yields {dirs : Dirs} {i : Fin maxDirs} (fresh : dirs i = ⟨badge,text,0,[],false,0⟩)
    (ready : (dirs i).Ready c) :
    Cursor.Yields (cpiofsReaddir c badge (dirContext i)) (.of (.of .enoent)) dirs
      (Item.listed [] (c.items text)) := by
  have start : (dirs i).left c = Item.listed [] (c.items text) := by
    rw [fresh]
    rfl
  rw [← start]
  refine Cursor.yields (fun d : Dirs => (d i).badge = badge ∧ (d i).Ready c) (fun d => (d i).left c)
    _ (fun d good => ?_)
    ⟨by rw [fresh],ready⟩
  obtain ⟨owned,ready⟩ := good
  obtain ⟨ready',answer,tail,-,badge'⟩ := DirSlot.readdir_spec ready
  rw [cpiofsReaddir_row owned]
  dsimp only
  rw [Function.update_self]
  exact ⟨⟨badge'.trans owned,ready'⟩,answer,tail⟩

/-- The calls on a fresh directory list its children once exactly if their names are distinct. -/
theorem readdir_lists {dirs there : Dirs} (opened : dirSlotAlloc dirs badge text = (there,.ok i))
    (few : ((c.entries.filterMap fun e => childOf text e.name).filterMap Item.group?).dedup.length ≤ maxSubdirsSeen)
    (short : ∀ n, c.IsChild text n → n.length < subdirNamelen) (once : (c.children.map Listed.name).Nodup) :
    c.ListsOnce badge (dirContext i) there text ↔ c.Distinct text := by
  have fresh := dirSlotAlloc_some opened
  have ready : (there i).Ready c := by
    rw [fresh]
    refine ⟨fun e member d found => short d.key (.inl ⟨e,member,?_⟩),once,List.nodup_nil,few⟩
    cases d with
    | single n => exact .inl (childOf_single.mp found)
    | group n => exact .inr (childOf_group.mp found)
  have yields := readdir_yields fresh ready
  rw [← listed_distinct once]
  refine ⟨?_,fun listed => ⟨_,yields,listed⟩⟩
  rintro ⟨items,yields',listed⟩
  rw [Cursor.Yields.unique yields' yields] at listed
  exact listed

/-- A directory with an entry of its own in front of the file in it. -/
def binCatalogue : Catalogue := ⟨[⟨[0x62],true⟩,⟨[0x62,slash,0x61],false⟩],[]⟩

def emptyDirs : Dirs := fun _ => ⟨0,[],0,[],false,0⟩

theorem maxDirs_positive : 0 < maxDirs := by decide

def firstRow : Fin maxDirs := ⟨0,maxDirs_positive⟩

def openRoot : Dirs := (dirSlotAlloc emptyDirs 5 []).1

/-- It is listed as a file and once more as a directory. -/
theorem readdir_lists_twice :
    dirSlotAlloc emptyDirs 5 [] = (openRoot,.ok firstRow) ∧ ¬binCatalogue.ListsOnce 5 (dirContext firstRow)
      openRoot [] := by
  refine ⟨rfl,?_⟩
  rintro ⟨items,yields,once,-⟩
  have first : items[0]? = some (.single [0x62]) := yields.item (by decide)
  have second : items[1]? = some (.group [0x62]) := yields.item (by decide)
  refine List.nodup_iff_getElem?_ne_getElem?.mp once 0 1 Nat.zero_lt_one ?_ ?_
  · rw [List.length_map]
    exact (List.getElem?_eq_some_iff.mp second).1
  · rw [List.getElem?_map,List.getElem?_map,first,second]
    rfl

theorem binCatalogue_short : ∀ n, binCatalogue.IsChild [] n → n.length < subdirNamelen := by
  rintro n (⟨e,member,known⟩ | ⟨-,child,there,-⟩)
  · have listed : e.name ∈ binCatalogue.entries.map Listed.name := List.mem_map_of_mem member
    have bound : ∀ name ∈ binCatalogue.entries.map Listed.name, name.length < subdirNamelen := by decide
    have fits := bound _ listed
    rcases known with ⟨same,-⟩ | ⟨-,rest,same⟩
    · rw [same] at fits
      simpa using fits
    · rw [same,List.nil_append,List.length_append] at fits
      exact Nat.lt_of_le_of_lt (Nat.le_add_right ..) fits
  · cases there

theorem readdir_lists_bin : binCatalogue.ListsOnce 5 (dirContext firstRow) openRoot [] ↔ binCatalogue.Distinct [] :=
  readdir_lists (rfl : dirSlotAlloc emptyDirs 5 [] = (openRoot,.ok firstRow)) (by decide)
    binCatalogue_short List.nodup_nil

end Qsoe.Path
