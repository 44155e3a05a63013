import Qsoe.Spawn.Args

/-! The two requests that name a program with its strings. `TM_REQ_SPAWN` finds the end of every string in the
bytes of the request; `TM_REQ_PROCESS_CREATE` does so for all but the last and takes the length of the path on
trust. -/
namespace Qsoe.Spawn

open Qsoe.Path (Byte)
open Delimited (field pack unpack)

/-- The path and the strings stand in the text of the request, each with its NUL. -/
structure Creation.Within (c : Creation) (text : List Byte) : Prop where
  path : c.path ++ [0] <+: text ∧ (0 : Byte) ∉ c.path ∧ c.pathLen = c.path.length
  strings : ∀ s ∈ c.argv ++ c.envp, s ++ [0] <:+: text ∧ (0 : Byte) ∉ s
  counts : c.argv.length = c.argc ∧ c.envp.length = c.envc

/-- The text holds a path of `plen` bytes and `n` strings behind it. -/
def Terminated (text : List Byte) (plen n : Nat) : Prop :=
  plen < text.length ∧ (field 0 text).length = plen ∧ (unpack 0 n (text.drop (plen + 1))).isSome

variable {buffer text : List Byte} {total len off n plen : Nat} {c : Creation}

theorem readStrings_unpack (whole : total ≤ buffer.length) (inside : off ≤ total)
    (ends : unpack 0 n ((buffer.take total).drop off) = some (ss,rest)) :
    readStrings buffer total n off = some (ss,total - rest.length) := by
  induction n generalizing off ss with
  | zero =>
    obtain ⟨rfl,rfl⟩ := Prod.mk.inj (Option.some.inj ends)
    rw [readStrings,List.length_drop,List.length_take,Nat.min_eq_left whole,Nat.sub_sub_self inside]
  | succ n ih =>
    have length : ((buffer.take total).drop off).length = total - off := by
      rw [List.length_drop,List.length_take,Nat.min_eq_left whole]
    have same : stringAt (buffer.take total) off = field 0 ((buffer.take total).drop off) := rfl
    rw [unpack] at ends
    split at ends
    · cases ends
    · rename_i z left behind
      obtain ⟨⟨ts,last⟩,later,equal⟩ := Option.map_eq_some_iff.mp ends
      obtain ⟨rfl,rfl⟩ := Prod.mk.inj equal
      have more := congrArg List.length behind
      rw [List.length_drop,List.length_cons,length,← same] at more
      have string : stringAt buffer off = stringAt (buffer.take total) off :=
        stringAt_take buffer (by rw [length]; omega)
      have next : left = (buffer.take total).drop (skip buffer total off) := by
        have tail := congrArg List.tail behind
        rw [List.tail_cons,List.tail_drop,List.drop_drop,← same] at tail
        exact tail.symm
      rw [next] at later
      rw [readStrings,if_neg (by omega),ih (by unfold skip; omega) later,string]
      rfl

theorem strings_within (read : unpack 0 n (text.drop off) = some (ss,rest)) :
    ∀ s ∈ ss, s ++ [0] <:+: text ∧ (0 : Byte) ∉ s := by
  obtain ⟨whole,-,free⟩ := Delimited.pack_of_unpack read
  intro s member
  refine ⟨?_,free s member⟩
  have part : s ++ [0] <:+: text.drop off := by
    rw [whole]
    exact (Delimited.infix_pack member).trans (List.prefix_append ..).isInfix
  exact part.trans (List.drop_suffix off text).isInfix

theorem drop_rest (read : unpack 0 n (text.drop off) = some (ss,rest)) :
    text.drop (text.length - rest.length) = rest ∧ rest.length ≤ text.length := by
  obtain ⟨whole,-,-⟩ := Delimited.pack_of_unpack read
  have suffix : rest <:+ text := by
    have part : rest <:+ text.drop off := whole ▸ List.suffix_append ..
    exact part.trans (List.drop_suffix off text)
  exact ⟨(List.suffix_iff_eq_drop.mp suffix).symm,suffix.length_le⟩

theorem path_within (buffer : List Byte) (whole : total ≤ buffer.length)
    (ends : (field 0 (buffer.take total)).length < total) :
    stringAt buffer 0 = field 0 (buffer.take total) ∧ field 0 (buffer.take total) ++ [0] <+: buffer.take total := by
  have length : (buffer.take total).length = total := by
    rw [List.length_take,Nat.min_eq_left whole]
  have more : (field 0 (buffer.take total)).length < (buffer.take total).length := by rw [length]; exact ends
  refine ⟨?_,?_⟩
  · unfold stringAt
    rw [List.drop_zero]
    exact Delimited.field_of_prefix (List.take_prefix total buffer) more
  · obtain ⟨rest,split⟩ := Delimited.field_ends _ more
    refine ⟨rest,?_⟩
    rw [List.append_assoc,List.singleton_append]
    exact split.symm

theorem creation_within (whole : total ≤ buffer.length) (first : field 0 (buffer.take total) = path)
    (ends : path.length < total)
    (arguments : unpack 0 n ((buffer.take total).drop (path.length + 1)) = some (argv,middle))
    (environment : unpack 0 m middle = some (envp,rest)) :
    (⟨stringAt buffer 0,path.length,n,argv,m,envp⟩ : Creation).Within (buffer.take total) := by
  have length : (buffer.take total).length = total := by
    rw [List.length_take,Nat.min_eq_left whole]
  obtain ⟨known,front⟩ := path_within buffer whole (first ▸ ends)
  have place := (drop_rest arguments).1
  rw [← place] at environment
  refine ⟨?_,fun s member => ?_,(Delimited.pack_of_unpack arguments).2.1,(Delimited.pack_of_unpack environment).2.1⟩
  · dsimp only
    rw [known,first]
    exact ⟨first ▸ front,first ▸ Delimited.field_free _,rfl⟩
  · rcases List.mem_append.mp member with argument | variable_
    · exact strings_within arguments s argument
    · exact strings_within environment s variable_

theorem takeStrings_some (whole : len ≤ buffer.length) (inside : off ≤ len)
    (taken : takeStrings buffer len n off = some (ss,next)) :
    ∃ rest, unpack 0 n ((buffer.take len).drop off) = some (ss,rest) ∧ next = len - rest.length := by
  rw [takeStrings_unpack buffer whole off n inside] at taken
  obtain ⟨⟨ts,rest⟩,read,same⟩ := Option.map_eq_some_iff.mp taken
  obtain ⟨rfl,rfl⟩ := Prod.mk.inj same
  exact ⟨rest,read,rfl⟩

/-- What `TM_REQ_SPAWN` passes on stands in the page. -/
theorem readSpawn_within (r : Registers) (known : Bool) (frame : Word → Except SpawnErrno (List Byte))
    (stale page : List Byte) (shown : frame r.mr0 = .ok page) (whole : (r.mr1.setWidth 32).toNat ≤ page.length)
    (read : readSpawn r known frame stale = .ok c) : c.Within (page.take (r.mr1.setWidth 32).toNat) := by
  unfold readSpawn at read
  dsimp only at read
  rw [shown] at read
  generalize (r.mr1.setWidth 32).toNat = len at *
  have copied : (page.take len).length = len := by
    rw [List.length_take,Nat.min_eq_left whole]
  have text : (page.take len ++ stale.drop len).take len = page.take len := List.take_left' copied
  have room : len ≤ (page.take len ++ stale.drop len).length := by
    rw [List.length_append,copied]
    exact Nat.le_add_right ..
  split at read
  · cases read
  · split at read
    · cases read
    · dsimp only at read
      split at read
      · cases read
      · rename_i bounds
        split at read
        · cases read
        · rename_i argv off arguments
          split at read
          · cases read
          · rename_i envp last environment
            obtain rfl := Except.ok.inj read
            refine (congrArg (Creation.Within _) text).mp ?_
            generalize page.take len ++ stale.drop len = buffer at *
            have name : stringAt (buffer.take len) 0 = field 0 (buffer.take len) := by
              unfold stringAt
              rw [List.drop_zero]
            rw [name] at bounds arguments ⊢
            have length : (buffer.take len).length = len := by
              rw [List.length_take,Nat.min_eq_left room]
            obtain ⟨middle,first,rfl⟩ := takeStrings_some room (by omega) arguments
            obtain ⟨place,-⟩ := drop_rest first
            rw [length] at place
            obtain ⟨rest,second,-⟩ := takeStrings_some room (Nat.sub_le ..) environment
            rw [place] at second
            exact creation_within room rfl (by omega) first second

/-- What `TM_REQ_PROCESS_CREATE` passes on stands in the message if the strings that were counted end in it. -/
theorem readCreate_terminated (r : Registers) (payload : Nat → Byte) (staging text : List Byte)
    (shown : (List.range (r.mr3.setWidth 32).toNat).map payload = text)
    (ends : Terminated text (r.mr2.setWidth 32).toNat
      ((r.mr0.setWidth 32).toInt.toNat + (r.mr1.setWidth 32).toInt.toNat))
    (read : readCreate r payload staging = some c) : c.Within text := by
  obtain ⟨inside,first,strings⟩ := ends
  obtain ⟨⟨ss,rest⟩,found⟩ := Option.isSome_iff_exists.mp strings
  obtain ⟨argv,envp,middle,arguments,environment,rfl⟩ := Delimited.unpack_add found
  unfold readCreate at read
  dsimp only at read
  rw [shown] at read
  have length : text.length = (r.mr3.setWidth 32).toNat := by
    rw [← shown,List.length_map,List.length_range]
  generalize (r.mr3.setWidth 32).toNat = total at *
  have front : (text ++ staging.drop total).take total = text := List.take_left' length
  have room : total ≤ (text ++ staging.drop total).length := by
    rw [List.length_append,length]
    exact Nat.le_add_right ..
  generalize text ++ staging.drop total = buffer at *
  rw [← front] at first arguments
  obtain ⟨place,bound⟩ := drop_rest arguments
  rw [front,length] at place bound
  have one := readStrings_unpack room (by omega) arguments
  have two := readStrings_unpack (n := (r.mr1.setWidth 32).toInt.toNat) room (Nat.sub_le total middle.length)
    (by rw [front,place]; exact environment)
  split at read
  · cases read
  · rw [one] at read
    dsimp only at read
    rw [two] at read
    obtain rfl := Option.some.inj read
    rw [← first] at arguments ⊢
    refine (congrArg (Creation.Within _) front).mp ?_
    exact creation_within room rfl (by omega) arguments environment

variable {path : List Byte} {argv envp : List (List Byte)}

theorem length_le_packedSize (ss : List (List Byte)) : ss.length ≤ packedSize ss := by
  induction ss with
  | nil => exact Nat.le_refl _
  | cons s ss ih =>
    rw [packedSize_cons,List.length_cons]
    omega

theorem word_int (small : n < 2 ^ 31) : ((BitVec.ofNat 64 n).setWidth 32).toInt = n := by
  rw [BitVec.toInt_eq_toNat_cond,word_small small,if_pos (by omega)]

theorem countOk_iff (n : Nat) : countOk n = true ↔ n ≤ maxStrings := by
  unfold countOk
  rw [Bool.and_eq_true,decide_eq_true_eq,decide_eq_true_eq]
  exact ⟨fun both => Int.ofNat_le.mp both.2,fun few => ⟨Int.natCast_nonneg n,Int.ofNat_le.mpr few⟩⟩

theorem readCreate_packed (payload : Nat → Byte) (staging : List Byte)
    (shown : (List.range (packedSize (path :: argv ++ envp))).map payload = pack 0 (path :: argv ++ envp))
    (free : ∀ s ∈ path :: argv ++ envp, (0 : Byte) ∉ s) (nonempty : path ≠ []) (args : argv.length ≤ maxStrings)
    (env : envp.length ≤ maxStrings) (short : path.length < 64)
    (fits : packedSize (path :: argv ++ envp) ≤ stagingSize) :
    readCreate ⟨BitVec.ofNat 64 argv.length,BitVec.ofNat 64 envp.length,BitVec.ofNat 64 path.length,
      BitVec.ofNat 64 (packedSize (path :: argv ++ envp))⟩ payload staging =
      some ⟨path,path.length,argv.length,argv,envp.length,envp⟩ := by
  have size : stagingSize = 1024 := rfl
  have whole : pack (0 : Byte) (path :: argv ++ envp) = path ++ 0 :: (pack 0 argv ++ (pack 0 envp ++ [])) := by
    rw [List.append_nil,List.cons_append,Delimited.pack_cons,Delimited.pack_append]
  have length := length_pack (path :: argv ++ envp)
  have positive : 0 < path.length := List.length_pos_iff.mpr nonempty
  generalize packedSize (path :: argv ++ envp) = total at *
  have taken : ¬(countOk argv.length = false ∨ countOk envp.length = false ∨ path.length = 0 ∨
    64 ≤ path.length ∨ stagingSize < total) := by
    rw [(countOk_iff _).mpr args,(countOk_iff _).mpr env]
    simp only [Bool.true_eq_false,false_or]
    omega
  have front : (pack (0 : Byte) (path :: argv ++ envp) ++ staging.drop total).take total =
    pack 0 (path :: argv ++ envp) :=
    List.take_left' length
  have name : stringAt (pack (0 : Byte) (path :: argv ++ envp) ++ staging.drop total) 0 = path := by
    unfold stringAt
    rw [List.drop_zero,whole,List.append_assoc,List.cons_append]
    exact Delimited.field_append (free path (by simp)) _
  have room : total ≤ (pack (0 : Byte) (path :: argv ++ envp) ++ staging.drop total).length := by
    rw [List.length_append,length]
    exact Nat.le_add_right ..
  unfold readCreate
  dsimp only
  rw [word_count args,word_count env,word_small (by omega : path.length < 2 ^ 31),word_small
    (by omega : total < 2 ^ 31),if_neg taken,
    shown,name,Int.toNat_natCast,Int.toNat_natCast]
  generalize pack (0 : Byte) (path :: argv ++ envp) ++ staging.drop total = buffer at *
  have behind : (buffer.take total).drop (path.length + 1) = pack 0 argv ++ (pack 0 envp ++ []) := by
    have count : path.length + 1 = (path ++ [(0 : Byte)]).length := by simp
    rw [front,whole,List.append_cons path,count]
    exact List.drop_left
  have arguments : unpack 0 argv.length ((buffer.take total).drop (path.length + 1)) =
    some (argv,pack 0 envp ++ []) := by
    rw [behind]
    exact Delimited.unpack_pack (fun s member => free s (by simp [member])) _
  have inside : path.length + 1 ≤ total := by
    rw [← length,whole,List.length_append,List.length_cons]
    omega
  obtain ⟨place,-⟩ := drop_rest arguments
  have environment : unpack 0 envp.length
    ((buffer.take total).drop (total - (pack (0 : Byte) envp ++ []).length)) = some (envp,[]) := by
    have same : (buffer.take total).length = total := by rw [front,length]
    rw [same] at place
    rw [place]
    exact Delimited.unpack_pack (fun s member => free s (by simp [member])) []
  rw [readStrings_unpack room inside arguments]
  dsimp only
  rw [readStrings_unpack room (Nat.sub_le ..) environment]

theorem decoders_packed (address : Word) (old : List Byte)
    (shown : frame address = .ok (pack 0 (path :: argv ++ envp) ++ rest))
    (payload : Nat → Byte) (sent : (List.range (packedSize (path :: argv ++ envp))).map payload =
      pack 0 (path :: argv ++ envp))
    (free : ∀ s ∈ path :: argv ++ envp, (0 : Byte) ∉ s) (short : path.length < 64)
    (fits : packedSize (path :: argv ++ envp) ≤ stagingSize) (staging : List Byte) :
    readCreate ⟨BitVec.ofNat 64 argv.length,BitVec.ofNat 64 envp.length,BitVec.ofNat 64 path.length,
        BitVec.ofNat 64 (packedSize (path :: argv ++ envp))⟩ payload staging = some c ↔
      readSpawn ⟨address,BitVec.ofNat 64 (packedSize (path :: argv ++ envp)),BitVec.ofNat 64 argv.length,
        BitVec.ofNat 64 envp.length⟩ true frame old = .ok c := by
  have size : stagingSize = 1024 := rfl
  have page : pageBytes = 4096 := rfl
  have length := length_pack (path :: argv ++ envp)
  have strings := length_le_packedSize (path :: argv ++ envp)
  rw [List.length_append,List.length_cons] at strings
  by_cases good : path ≠ [] ∧ argv.length ≤ maxStrings ∧ envp.length ≤ maxStrings
  · obtain ⟨nonempty,args,env⟩ := good
    rw [readCreate_packed payload staging sent free nonempty args env short fits,← length,
      readSpawn_pack address nonempty args env free (by omega) shown]
    exact ⟨fun same => congrArg Except.ok (Option.some.inj same),fun same =>
      congrArg some (Except.ok.inj same)⟩
  · have refused : path = [] ∨ countOk argv.length = false ∨ countOk envp.length = false := by
      by_cases empty : path = []
      · exact .inl empty
      · by_cases args : argv.length ≤ maxStrings
        · exact .inr (.inr (Bool.not_eq_true _ ▸ fun ok => good ⟨empty,args,(countOk_iff _).mp ok⟩))
        · exact .inr (.inl (Bool.not_eq_true _ ▸ fun ok => args ((countOk_iff _).mp ok)))
    have create : readCreate ⟨BitVec.ofNat 64 argv.length,BitVec.ofNat 64 envp.length,BitVec.ofNat 64 path.length,
        BitVec.ofNat 64 (packedSize (path :: argv ++ envp))⟩ payload staging = none := by
      unfold readCreate
      dsimp only
      rw [word_int (by omega : argv.length < 2 ^ 31),word_int (by omega : envp.length < 2 ^ 31),
        word_small (by omega : path.length < 2 ^ 31),if_pos]
      rcases refused with empty | args | env
      · exact .inr (.inr (.inl (by rw [empty,List.length_nil])))
      · exact .inl args
      · exact .inr (.inl env)
    rw [create]
    refine ⟨nofun,fun spawned => ?_⟩
    unfold readSpawn at spawned
    dsimp only at spawned
    rw [word_int (by omega : argv.length < 2 ^ 31),word_int (by omega : envp.length < 2 ^ 31),
      word_small (by omega : packedSize (path :: argv ++ envp) < 2 ^ 31),shown] at spawned
    split at spawned
    · cases spawned
    · rename_i counts
      rcases refused with empty | args | env
      · -- the text starts with the NUL of the empty path
        split at spawned
        · cases spawned
        · dsimp only at spawned
          rw [if_pos] at spawned
          · cases spawned
          · left
            rw [List.take_left' length,List.take_left' length,empty,List.cons_append,Delimited.pack_cons]
            unfold stringAt
            rw [List.drop_zero,Delimited.field_append List.not_mem_nil]
            rfl
      · exact absurd (.inl args) counts
      · exact absurd (.inr (.inl env)) counts

/-- What `TM_REQ_SPAWN` creates from stands in its page, what `TM_REQ_PROCESS_CREATE` creates from in
its message if the strings end there, and both read packed strings alike within the limits that the
latter sets. -/
theorem decoders_agree :
    (∀ r known frame stale page c, frame r.mr0 = .ok page → (r.mr1.setWidth 32).toNat ≤ page.length →
      readSpawn r known frame stale = .ok c → c.Within (page.take (r.mr1.setWidth 32).toNat)) ∧
    (∀ r payload staging text c, (List.range (r.mr3.setWidth 32).toNat).map payload = text →
      Terminated text (r.mr2.setWidth 32).toNat
        ((r.mr0.setWidth 32).toInt.toNat + (r.mr1.setWidth 32).toInt.toNat) →
      readCreate r payload staging = some c → c.Within text) ∧
    ∀ path argv envp, (∀ s ∈ path :: argv ++ envp, (0 : Byte) ∉ s) → path.length < 64 →
      packedSize (path :: argv ++ envp) ≤ stagingSize → ∀ address frame rest payload old staging c,
      frame address = .ok (pack 0 (path :: argv ++ envp) ++ rest) →
      (List.range (packedSize (path :: argv ++ envp))).map payload = pack 0 (path :: argv ++ envp) →
      (readCreate ⟨BitVec.ofNat 64 argv.length,BitVec.ofNat 64 envp.length,BitVec.ofNat 64 path.length,
          BitVec.ofNat 64 (packedSize (path :: argv ++ envp))⟩ payload staging = some c ↔
        readSpawn ⟨address,BitVec.ofNat 64 (packedSize (path :: argv ++ envp)),BitVec.ofNat 64 argv.length,
          BitVec.ofNat 64 envp.length⟩ true frame old = .ok c) :=
  ⟨fun r known frame stale page _ shown whole read => readSpawn_within r known frame stale page shown whole read,
    fun r payload staging text _ shown ends read => readCreate_terminated r payload staging text shown ends read,
    fun _ _ _ free short fits address _ _ payload old staging _ shown sent =>
      decoders_packed address old shown payload sent free short fits staging⟩

theorem decoders_agree_init :
    Creation.Within ⟨initPath,4,1,[initPath],0,[]⟩ (pack 0 [initPath,initPath]) ∧
    readCreate ⟨1,0,4,10⟩ (fun i => (pack 0 [initPath,initPath]).getD i 0) [] =
      some ⟨initPath,4,1,[initPath],0,[]⟩ ∧
    readSpawn ⟨0x2000000,10,1,0⟩ true (fun _ => .ok (pack 0 [initPath,initPath])) [] =
      .ok ⟨initPath,4,1,[initPath],0,[]⟩ := by
  obtain ⟨spawned,created,alike⟩ := decoders_agree
  have create : readCreate ⟨1,0,4,10⟩ (fun i => (pack 0 [initPath,initPath]).getD i 0) [] =
      some ⟨initPath,4,1,[initPath],0,[]⟩ := by decide
  have spawn := (alike initPath [initPath] [] (by decide) (by decide) (by decide) 0x2000000
    (fun _ => .ok (pack 0 [initPath,initPath])) [] _ [] [] _ rfl (by decide)).mp create
  have inMessage := created _ _ _ (pack 0 [initPath,initPath]) _ (by decide) ⟨by decide,by decide,by decide⟩ create
  have inPage := spawned _ _ _ _ (pack 0 [initPath,initPath]) _ rfl (by decide) spawn
  exact ⟨inMessage,create,spawn⟩

theorem readCreate_stale (payload : Nat → Byte) (staging : List Byte) (positive : 0 < plen) (short : plen < 64) :
    readCreate ⟨0,0,BitVec.ofNat 64 plen,0⟩ payload staging = some ⟨stringAt staging 0,plen,0,[],0,[]⟩ := by
  have length : ((BitVec.ofNat 64 plen).setWidth 32).toNat = plen := word_small (by omega)
  have strings : ((0 : Word).setWidth 32).toInt = 0 := by decide
  have empty : ((0 : Word).setWidth 32).toNat = 0 := by decide
  have taken : ¬(countOk 0 = false ∨ countOk 0 = false ∨ plen = 0 ∨ 64 ≤ plen ∨ stagingSize < 0) := by
    have allowed : countOk 0 = true := by decide
    rw [allowed]
    simp only [Bool.true_eq_false,false_or]
    omega
  unfold readCreate
  dsimp only
  rw [length,strings,empty,if_neg taken]
  rfl

/-- Packed strings beyond the limits of `TM_REQ_PROCESS_CREATE` are for `TM_REQ_SPAWN` only. -/
theorem decoders_apart (path : List Byte) (argv envp : List (List Byte)) (address : Word)
    (frame : Word → Except SpawnErrno (List Byte))
    (rest : List Byte) (payload : Nat → Byte) (staging old : List Byte) (named : path ≠ [])
    (args : argv.length ≤ maxStrings) (env : envp.length ≤ maxStrings)
    (free : ∀ s ∈ path :: argv ++ envp, (0 : Byte) ∉ s) (fits : packedSize (path :: argv ++ envp) ≤ pageBytes)
    (beyond : 64 ≤ path.length ∨ stagingSize < packedSize (path :: argv ++ envp))
    (shown : frame address = .ok (pack 0 (path :: argv ++ envp) ++ rest)) :
    readCreate ⟨BitVec.ofNat 64 argv.length,BitVec.ofNat 64 envp.length,BitVec.ofNat 64 path.length,
        BitVec.ofNat 64 (packedSize (path :: argv ++ envp))⟩ payload staging = none ∧
      readSpawn ⟨address,BitVec.ofNat 64 (packedSize (path :: argv ++ envp)),BitVec.ofNat 64 argv.length,
        BitVec.ofNat 64 envp.length⟩ true frame old = .ok ⟨path,path.length,argv.length,argv,envp.length,envp⟩ := by
  have page : pageBytes = 4096 := rfl
  have inside : path.length ≤ packedSize (path :: argv ++ envp) := by
    rw [List.cons_append,packedSize_cons]
    omega
  constructor
  · unfold readCreate
    dsimp only
    rw [word_small (by omega : path.length < 2 ^ 31),word_small
      (by omega : packedSize (path :: argv ++ envp) < 2 ^ 31),if_pos]
    rcases beyond with long | large
    · exact .inr (.inr (.inr (.inl long)))
    · exact .inr (.inr (.inr (.inr large)))
  · rw [← length_pack]
    exact readSpawn_pack address named args env free fits shown

/-- A path of 64 letters. -/
def longPath : List Byte := List.replicate 64 0x61

/-- An argument of 1100 letters. -/
def longArgument : List Byte := List.replicate 1100 0x61

/-- A path of 64 letters and a payload of 1103 bytes are for one of the handlers only. -/
theorem decoders_differ :
    (readCreate ⟨0,0,64,65⟩ (fun i => (pack 0 [longPath]).getD i 0) [] = none ∧
      readSpawn ⟨0x2000000,65,0,0⟩ true (fun _ => .ok (pack 0 [longPath])) [] = .ok ⟨longPath,64,0,[],0,[]⟩) ∧
    (readCreate ⟨1,0,1,1103⟩ (fun i => (pack 0 [[0x61],longArgument]).getD i 0) [] = none ∧
      readSpawn ⟨0x2000000,1103,1,0⟩ true (fun _ => .ok (pack 0 [[0x61],longArgument])) [] =
        .ok ⟨[0x61],1,1,[longArgument],0,[]⟩) := by
  have letters : ∀ n, (0 : Byte) ∉ List.replicate n 0x61 := fun n member =>
    absurd (List.eq_of_mem_replicate member) (by decide)
  constructor
  · refine decoders_apart longPath [] [] 0x2000000 _ [] _ [] [] (by decide) (by decide)
      (by decide) ?_ (by decide) (.inl (by decide)) (by rw [List.append_nil]; rfl)
    rintro s member
    obtain rfl := List.mem_singleton.mp member
    exact letters 64
  · have length : longArgument.length = 1100 := List.length_replicate
    have size : packedSize ([0x61] :: [longArgument] ++ []) = 1103 := by
      rw [List.append_nil,packedSize_cons,packedSize_cons,length]
      rfl
    have page : pageBytes = 4096 := rfl
    have staging : stagingSize = 1024 := rfl
    have apart := decoders_apart [0x61] [longArgument] [] 0x2000000 (fun _ => .ok (pack 0 [[0x61],longArgument])) []
      (fun i => (pack 0 [[0x61],longArgument]).getD i 0) [] [] (by decide) (by decide) (by decide)
      (fun s member => ?_) (by omega) (.inr (by omega)) (by rw [List.append_nil]; rfl)
    · rw [size] at apart
      exact apart
    · rcases List.mem_cons.mp member with rfl | other
      · decide
      · obtain rfl := List.mem_singleton.mp other
        exact letters 1100

end Qsoe.Spawn
