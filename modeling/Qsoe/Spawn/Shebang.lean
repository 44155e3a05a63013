import Qsoe.Path.Lookup
import Qsoe.Spawn.Create
import Mathlib.Data.List.TakeDrop

/-! Scripts. `tm_spawn` hands an image that begins with `#!` to the interpreter its first line names, by a call of
itself. The argument vector of that call is sixteen pointers into buffers that both calls share. -/
namespace Qsoe.Spawn

open Cells
open Qsoe.Path (Archive Byte File resolved slash)

inductive LaunchErrno where
  | enoexec | enoent
  deriving DecidableEq, Repr

/-- The first line of a script; `optArg` is empty where the line has no argument. -/
structure Shebang where
  interpPath : List Byte
  optArg : List Byte
  deriving DecidableEq, Repr

/-- `tm_script_parse_shebang`, which fails on what does not begin with `#!` and then stores nothing. -/
structure ShebangParser where
  parse : List Byte → Option Shebang
  marked : ∀ text line, parse text = some line → text.take 2 = [0x23,0x21]

/-- The static buffers of `tm_spawn`. -/
structure Statics where
  interpPath : List Byte
  optArg : List Byte
  scriptPath : List Byte
  deriving DecidableEq, Repr

/-- A string of the caller, or a place in a static buffer; `interpCpio` is behind the slash of `interpPath`. -/
inductive Pointer where
  | caller (text : List Byte)
  | interpPath
  | interpCpio
  | optArg
  | scriptPath
  deriving DecidableEq, Repr

/-- The string at a pointer. -/
def Statics.text (b : Statics) : Pointer → List Byte
  | .caller text => text
  | .interpPath => b.interpPath
  | .interpCpio => b.interpPath.tail
  | .optArg => b.optArg
  | .scriptPath => b.scriptPath

/-- An error, or what `tm_spawn` goes on to load. -/
inductive Launch where
  | failed (errno : LaunchErrno)
  | loads (statics : Statics) (image : List Byte) (argv : List Pointer) (name : Pointer)
  deriving DecidableEq, Repr

/-- The sizes of `script_path` and `new_argv`. -/
def scriptPathSize : Nat := 80
def newArgvSize : Nat := 16

def elfMagic : List Byte := [0x7F,0x45,0x4C,0x46]

/-- What goes into `new_argv` before the caller's arguments. -/
def Shebang.front (line : Shebang) : List Pointer :=
  (if line.optArg = [] then [.interpPath] else [.interpPath,.optArg]) ++ [.scriptPath]

def pushArgs (newArgv : List Pointer) : List Pointer → List Pointer
  | [] => newArgv
  | arg :: rest => if newArgv.length < newArgvSize then pushArgs (newArgv ++ [arg]) rest else newArgv

/-- The bytes that `tm_cpio_lookup` finds in an archive. -/
def cpioImage (a : Archive) (name : List Byte) : Option (List Byte) :=
  (a.lookup name).map fun file => row a.mem file.1 file.2

/-- `tm_spawn` up to where it has an ELF image to load; `lookup` is `tm_cpio_lookup`, the `cpioImage` of
an archive. -/
def launch (parser : ShebangParser) (lookup : List Byte → Option (List Byte)) :
    Nat → Statics → List Byte → List Pointer → Pointer → Option Launch
  | 0, _, _, _, _ => none
  | rounds + 1, b, image, argv, name =>
    match parser.parse (image.take 256) with
    | none => some (.loads b image argv name)
    | some line =>
      if line.interpPath.head? ≠ some slash then some (.failed .enoexec)
      else
        match lookup line.interpPath.tail with
        | none => some (.failed .enoent)
        | some interp =>
          if interp.take 4 ≠ elfMagic then some (.failed .enoexec)
          else if scriptPathSize < (b.text name).length + 2 then some (.failed .enoexec)
          else launch parser lookup rounds ⟨line.interpPath,line.optArg,slash :: b.text name⟩ interp
            (pushArgs line.front argv.tail) .interpCpio

def Shebang.vector (line : Shebang) (name : List Byte) (argv : List (List Byte)) : List (List Byte) :=
  (if line.optArg = [] then [line.interpPath] else [line.interpPath,line.optArg]) ++ (slash :: name) :: argv.tail

/-- A script fails, or its interpreter is loaded with the whole vector and under its own name. -/
def Launch.Hands (out : Launch) (parser : ShebangParser) (lookup : List Byte → Option (List Byte))
    (image : List Byte) (argv : List (List Byte)) (name : List Byte) : Prop :=
  ∀ line, parser.parse (image.take 256) = some line →
    (∃ errno, out = .failed errno) ∨
      ∃ b interp newArgv newName, lookup line.interpPath.tail = some interp ∧
        out = .loads b interp newArgv newName ∧
        newArgv.map b.text = line.vector name argv ∧ b.text newName = line.interpPath.tail

/-- What `tm_spawn` asks of a script before it starts the interpreter. -/
structure Shebang.Runs (line : Shebang) (lookup : List Byte → Option (List Byte))
    (name interp : List Byte) : Prop where
  absolute : line.interpPath.head? = some slash
  found : lookup line.interpPath.tail = some interp
  elf : interp.take 4 = elfMagic
  short : name.length + 2 ≤ scriptPathSize

variable {parser : ShebangParser} {lookup : List Byte → Option (List Byte)} {image interp : List Byte}
    {name : Pointer}
  {argv front rest : List Pointer} {line : Shebang} {b : Statics} {rounds : Nat}

theorem pushArgs_eq (fits : front.length ≤ newArgvSize) :
    pushArgs front rest = front ++ rest.take (newArgvSize - front.length) := by
  induction rest generalizing front with
  | nil => rw [pushArgs,List.take_nil,List.append_nil]
  | cons arg rest ih =>
    rw [pushArgs]
    split
    · rename_i room
      have longer : (front ++ [arg]).length = front.length + 1 := by rw [List.length_append,List.length_singleton]
      have left : newArgvSize - front.length = newArgvSize - (front ++ [arg]).length + 1 := by omega
      rw [ih (by omega),left,List.take_succ_cons,List.append_assoc,List.singleton_append]
    · rename_i full
      rw [Nat.sub_eq_zero_of_le (Nat.le_of_not_lt full),List.take_zero,List.append_nil]

theorem length_front (line : Shebang) : line.front.length = if line.optArg = [] then 2 else 3 := by
  rw [Shebang.front,List.length_append,List.length_singleton]
  split
  · rfl
  · rfl

theorem front_fits (line : Shebang) : line.front.length ≤ newArgvSize := by
  rw [length_front]
  split
  · decide
  · decide

theorem front_text (line : Shebang) (script : List Byte) :
    line.front.map (Statics.text ⟨line.interpPath,line.optArg,script⟩) =
      (if line.optArg = [] then [line.interpPath] else [line.interpPath,line.optArg]) ++ [script] := by
  rw [Shebang.front,List.map_append]
  split
  · rfl
  · rfl

theorem caller_text (b : Statics) (argv : List (List Byte)) : (argv.map Pointer.caller).map b.text = argv := by
  rw [List.map_map]
  exact List.map_id argv

theorem pushArgs_text (line : Shebang) (name : List Byte) (argv : List (List Byte)) :
    (pushArgs line.front (argv.map Pointer.caller).tail).map
      (Statics.text ⟨line.interpPath,line.optArg,slash :: name⟩) =
      (if line.optArg = [] then [line.interpPath] else [line.interpPath,line.optArg]) ++
        (slash :: name) :: argv.tail.take (newArgvSize - line.front.length) := by
  rw [pushArgs_eq (front_fits line),List.map_append,front_text,List.map_take,← List.map_tail,caller_text,
    List.append_assoc,List.singleton_append]

theorem pushArgs_vector_iff (line : Shebang) (name : List Byte) (argv : List (List Byte)) :
    (pushArgs line.front (argv.map Pointer.caller).tail).map
      (Statics.text ⟨line.interpPath,line.optArg,slash :: name⟩) =
        line.vector name argv ↔
      line.front.length + (argv.length - 1) ≤ newArgvSize := by
  have fits := front_fits line
  have room : argv.tail.length ≤ newArgvSize - line.front.length ↔
    line.front.length + (argv.length - 1) ≤ newArgvSize := by
    rw [List.length_tail]
    omega
  rw [pushArgs_text,Shebang.vector,List.append_cancel_left_eq,List.cons.injEq,List.take_eq_self_iff,room]
  exact and_iff_right rfl

theorem parse_elf (parser : ShebangParser) (elf : interp.take 4 = elfMagic) :
    parser.parse (interp.take 256) = none := by
  cases found : parser.parse (interp.take 256) with
  | none => rfl
  | some line =>
    have marked := parser.marked _ _ found
    have first := congrArg (List.take 2) elf
    rw [List.take_take] at marked first
    rw [show min 2 256 = min 2 4 from rfl,first] at marked
    exact absurd marked (by decide)

theorem launch_elf (elf : interp.take 4 = elfMagic) :
    launch parser lookup (rounds + 1) b interp argv name = some (.loads b interp argv name) := by
  rw [launch,parse_elf parser elf]

theorem launch_runs (script : parser.parse (image.take 256) = some line)
    (runs : line.Runs lookup (b.text name) interp) :
    launch parser lookup (rounds + 2) b image argv name =
      some (.loads ⟨line.interpPath,line.optArg,slash :: b.text name⟩ interp (pushArgs line.front argv.tail)
        .interpCpio) := by
  rw [launch,script]
  dsimp only
  rw [if_neg (not_not.mpr runs.absolute),runs.found]
  dsimp only
  rw [if_neg (not_not.mpr runs.elf),if_neg (Nat.not_lt.mpr runs.short),launch_elf runs.elf]

theorem launch_refuses (script : parser.parse (image.take 256) = some line)
    (refuses : ¬∃ interp, line.Runs lookup (b.text name) interp) :
    ∃ errno, ∀ rounds, launch parser lookup (rounds + 1) b image argv name = some (.failed errno) := by
  by_cases absolute : line.interpPath.head? = some slash
  · cases found : lookup line.interpPath.tail with
    | none =>
      refine ⟨.enoent,fun rounds => ?_⟩
      rw [launch,script]
      dsimp only
      rw [if_neg (not_not.mpr absolute),found]
    | some interp =>
      refine ⟨.enoexec,fun rounds => ?_⟩
      rw [launch,script]
      dsimp only
      rw [if_neg (not_not.mpr absolute),found]
      dsimp only
      by_cases elf : interp.take 4 = elfMagic
      · have long : scriptPathSize < (b.text name).length + 2 := by
          by_contra short
          exact refuses ⟨interp,absolute,found,elf,Nat.le_of_not_lt short⟩
        rw [if_neg (not_not.mpr elf),if_pos long]
      · rw [if_pos elf]
  · refine ⟨.enoexec,fun rounds => ?_⟩
    rw [launch,script]
    dsimp only
    rw [if_pos absolute]

theorem launch_found (script : parser.parse (image.take 256) = some line)
    (loaded : launch parser lookup rounds b image argv name = some (.loads statics interp newArgv newName)) :
    lookup line.interpPath.tail = some interp := by
  by_cases accepted : ∃ interp, line.Runs lookup (b.text name) interp
  · obtain ⟨elf,runs⟩ := accepted
    cases rounds with
    | zero => cases loaded
    | succ rounds =>
      cases rounds with
      | zero =>
        rw [launch,script] at loaded
        dsimp only at loaded
        rw [if_neg (not_not.mpr runs.absolute),runs.found] at loaded
        dsimp only at loaded
        rw [if_neg (not_not.mpr runs.elf),if_neg (Nat.not_lt.mpr runs.short)] at loaded
        cases loaded
      | succ rounds =>
        rw [launch_runs script runs] at loaded
        obtain ⟨-,rfl,-,-⟩ := Launch.loads.inj (Option.some.inj loaded)
        exact runs.found
  · have fails : ∃ errno, ∀ rounds, launch parser lookup (rounds + 1) b image argv name = some (.failed errno) :=
      launch_refuses script accepted
    obtain ⟨errno,failed⟩ := fails
    cases rounds with
    | zero => cases loaded
    | succ rounds => cases (failed rounds).symm.trans loaded

theorem cpioImage_written {a : Archive} (start : a.start % 4 = 0)
    (written : Path.Written w files (row a.mem a.start a.len))
    (free : 0 ∉ text) : cpioImage a text = (resolved files text).map File.content := by
  have delivers := Path.Archive.lookup_written start written free
  unfold cpioImage
  cases found : resolved files text with
  | none =>
    rw [found] at delivers
    rw [show a.lookup text = none from delivers]
    rfl
  | some f =>
    rw [found] at delivers
    obtain ⟨data,there,content⟩ := delivers
    rw [there,Option.map_some,Option.map_some,content]

theorem launch_file {a : Archive} (start : a.start % 4 = 0)
    (written : Path.Written w files (row a.mem a.start a.len))
    (script : parser.parse (image.take 256) = some line) (free : 0 ∉ line.interpPath)
    (loaded : launch parser (cpioImage a) rounds b image argv name = some (.loads statics interp newArgv newName)) :
    ∃ f, resolved files line.interpPath.tail = some f ∧ f.content = interp := by
  have found := launch_found script loaded
  rw [cpioImage_written start written fun member => free (List.mem_of_mem_tail member)] at found
  exact Option.map_eq_some_iff.mp found

/-- A script is handed on with all of its arguments exactly where it is not started or `new_argv` has
room for them. -/
theorem shebang_vector_iff (parser : ShebangParser) (lookup : List Byte → Option (List Byte)) (b : Statics)
    (image : List Byte) (argv : List (List Byte)) (name : List Byte) :
    ∃ out, (∀ rounds ≥ 2, launch parser lookup rounds b image (argv.map .caller) (.caller name) = some out) ∧
      (out.Hands parser lookup image argv name ↔
        ∀ line interp, parser.parse (image.take 256) = some line → line.Runs lookup name interp →
          (if line.optArg = [] then 2 else 3) + (argv.length - 1) ≤ newArgvSize) := by
  cases script : parser.parse (image.take 256) with
  | none =>
    refine ⟨.loads b image (argv.map .caller) (.caller name),fun rounds enough => ?_,fun _ line _ found =>
      ?_,fun _ line found => ?_⟩
    · obtain ⟨rounds,rfl⟩ := Nat.exists_eq_add_of_le' enough
      rw [launch,script]
    · cases found
    · cases script.symm.trans found
  | some line =>
    by_cases accepted : ∃ interp, line.Runs lookup name interp
    · obtain ⟨interp,runs⟩ := accepted
      refine ⟨.loads ⟨line.interpPath,line.optArg,slash :: name⟩ interp
        (pushArgs line.front (argv.map Pointer.caller).tail) .interpCpio,
        fun rounds enough => ?_,fun hands => ?_,fun room => ?_⟩
      · obtain ⟨rounds,rfl⟩ := Nat.exists_eq_add_of_le' enough
        have runs' : line.Runs lookup (b.text (.caller name)) interp := runs
        exact launch_runs script runs'
      · rintro other _ found -
        obtain rfl := Option.some.inj found
        rcases hands line script with ⟨errno,failed⟩ | ⟨b',interp',newArgv,newName,-,loaded,vector,-⟩
        · cases failed
        · obtain ⟨rfl,-,rfl,-⟩ := Launch.loads.inj loaded
          rw [← length_front line]
          exact (pushArgs_vector_iff line name argv).mp vector
      · intro other found
        obtain rfl := Option.some.inj (script.symm.trans found)
        have room := room line interp rfl runs
        rw [← length_front line] at room
        exact .inr ⟨_,interp,_,_,runs.found,rfl,(pushArgs_vector_iff line name argv).mpr room,rfl⟩
    · have refuses : ¬∃ interp, line.Runs lookup (b.text (.caller name)) interp := accepted
      have fails : ∃ errno, ∀ rounds, launch parser lookup (rounds + 1) b image (argv.map .caller)
        (.caller name) = some (.failed errno) :=
        launch_refuses script refuses
      obtain ⟨errno,failed⟩ := fails
      refine ⟨.failed errno,fun rounds enough => ?_,fun _ other interp found runs => ?_,fun _ _ _ =>
        .inl ⟨errno,rfl⟩⟩
      · obtain ⟨rounds,rfl⟩ := Nat.exists_eq_add_of_le' enough
        exact failed (rounds + 1)
      · obtain rfl := Option.some.inj found
        exact absurd ⟨interp,runs⟩ accepted

theorem plain_marked (text : List Byte) (line : Shebang)
    (found : (if text.take 2 = [0x23,0x21] then some ⟨text.drop 2,[]⟩ else none) = some line) :
    text.take 2 = [0x23,0x21] := by
  split at found
  · assumption
  · cases found

/-- A line of nothing but the path behind `#!`. -/
def plainParser : ShebangParser := ⟨_,plain_marked⟩

/-- A script with sixteen arguments loses the last one. -/
theorem shebang_drops_argument : ∃ (lookup : List Byte → Option (List Byte)) (b : Statics) (image name : List Byte)
    (argv : List (List Byte)) (out : Launch), argv.length = 16 ∧
      launch plainParser lookup 2 b image (argv.map .caller) (.caller name) = some out ∧
        ¬out.Hands plainParser lookup image argv name := by
  refine ⟨fun _ => some elfMagic,⟨[],[],[]⟩,[0x23,0x21,0x2F,0x73],[0x62],List.replicate 16 [0x61],
    .loads ⟨[0x2F,0x73],[],[0x2F,0x62]⟩ elfMagic
      (pushArgs [.interpPath,.scriptPath] (List.replicate 15 (.caller [0x61]))) .interpCpio,
    by decide,by decide,fun hands => ?_⟩
  rcases hands ⟨[0x2F,0x73],[]⟩ (by decide) with ⟨errno,failed⟩ | ⟨b,interp,newArgv,newName,-,loaded,vector,-⟩
  · cases failed
  · obtain ⟨rfl,-,rfl,-⟩ := Launch.loads.inj loaded
    exact absurd (congrArg List.length vector) (by decide)

end Qsoe.Spawn
