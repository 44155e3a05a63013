import Mathlib.Data.List.Basic

/-! Computations that read a memory, kept with the addresses they read in order. A loop is a step that
answers or goes on: what it reads is what its steps read in the states it comes to. -/

structure Traced (κ : Type) (α : Type) where
  value : α
  reads : List κ
  deriving DecidableEq, Repr

namespace Traced

variable {κ α β σ ρ : Type} {p : κ → Prop} {m : Traced κ α}

instance : Monad (Traced κ) where
  pure a := ⟨a,[]⟩
  bind m f := ⟨(f m.value).value,m.reads ++ (f m.value).reads⟩

@[simp] theorem value_pure (a : α) : (pure a : Traced κ α).value = a := rfl

@[simp] theorem value_bind (m : Traced κ α) (f : α → Traced κ β) : (m >>= f).value = (f m.value).value := rfl

@[simp] theorem reads_pure (a : α) : (pure a : Traced κ α).reads = [] := rfl

@[simp] theorem reads_bind (m : Traced κ α) (f : α → Traced κ β) : (m >>= f).reads = m.reads ++
    (f m.value).reads := rfl

/-- Nothing is read but where `p` holds. -/
def Within (p : κ → Prop) (m : Traced κ α) : Prop := ∀ x ∈ m.reads, p x

@[simp] theorem within_pure (a : α) : Within p (pure a : Traced κ α) := fun _ member =>
    absurd member List.not_mem_nil

@[simp] theorem within_bind (m : Traced κ α) (f : α → Traced κ β) :
    Within p (m >>= f) ↔ Within p m ∧ Within p (f m.value) := by
  unfold Within
  rw [reads_bind]
  exact List.forall_mem_append

def read (mem : κ → α) (x : κ) : Traced κ α := ⟨mem x,[x]⟩

@[simp] theorem value_read (mem : κ → α) (x : κ) : (read mem x).value = mem x := rfl

@[simp] theorem within_read (mem : κ → α) (x : κ) : Within p (read mem x) ↔ p x := List.forall_mem_singleton

def readAll (mem : κ → α) (xs : List κ) : Traced κ (List α) := ⟨xs.map mem,xs⟩

@[simp] theorem value_readAll (mem : κ → α) (xs : List κ) : (readAll mem xs).value = xs.map mem := rfl

@[simp] theorem within_readAll (mem : κ → α) (xs : List κ) : Within p (readAll mem xs) ↔ ∀ x ∈ xs, p x := Iff.rfl

def loop (step : σ → Traced κ (σ ⊕ ρ)) : Nat → σ → Option (Traced κ ρ)
  | 0, _ => none
  | rounds + 1, s =>
    match (step s).value with
    | .inr answer => some ⟨answer,(step s).reads⟩
    | .inl t => (loop step rounds t).map fun rest => ⟨rest.value,(step s).reads ++ rest.reads⟩

inductive Reaches (step : σ → Traced κ (σ ⊕ ρ)) (s : σ) : σ → Prop where
  | start : Reaches step s s
  | next : Reaches step s t → (step t).value = .inl u → Reaches step s u

variable {step : σ → Traced κ (σ ⊕ ρ)} {s t : σ} {out : Traced κ ρ}

theorem Reaches.head (first : (step s).value = .inl t) (rest : Reaches step t u) : Reaches step s u := by
  induction rest with
  | start => exact .next .start first
  | next _ taken ih => exact .next ih taken

theorem Reaches.cases_head (reached : Reaches step s u) :
    u = s ∨ ∃ t, (step s).value = .inl t ∧ Reaches step t u := by
  induction reached with
  | start => exact .inl rfl
  | next _ taken ih =>
    rcases ih with rfl | ⟨t,first,rest⟩
    · exact .inr ⟨_,taken,.start⟩
    · exact .inr ⟨t,first,.next rest taken⟩

theorem Reaches.invariant (property : σ → Prop) (reached : Reaches step s t) (initial : property s)
    (preserved : ∀ t u, property t → (step t).value = .inl u → property u) : property t := by
  induction reached with
  | start => exact initial
  | next _ taken ih => exact preserved _ _ ih taken

theorem loop_inr (rounds : Nat) (answer : (step s).value = .inr r) :
    loop step (rounds + 1) s = some ⟨r,(step s).reads⟩ := by
  simp only [loop,answer]

theorem loop_inl (rounds : Nat) (turn : (step s).value = .inl t) :
    loop step (rounds + 1) s = (loop step rounds t).map fun rest => ⟨rest.value,(step s).reads ++ rest.reads⟩ := by
  simp only [loop,turn]

/-- A loop whose rounds make progress ends. -/
theorem loop_halts (step : σ → Traced κ (σ ⊕ ρ)) (s : σ) (measure : σ → Nat)
    (less : ∀ t, Reaches step s t → ∀ u, (step t).value = .inl u → measure u < measure t)
    (enough : measure s < rounds) : ∃ out, loop step rounds s = some out := by
  induction rounds generalizing s with
  | zero => exact absurd enough (Nat.not_lt_zero _)
  | succ rounds ih =>
    cases turn : (step s).value with
    | inr answer => exact ⟨_,loop_inr rounds turn⟩
    | inl t =>
      have down := less s .start t turn
      obtain ⟨rest,run⟩ := ih t (fun u reached => less u (reached.head turn)) (by omega)
      exact ⟨_,(loop_inl rounds turn).trans (congrArg (Option.map _) run)⟩

theorem loop_more (run : loop step rounds s = some out) (extra : Nat) :
    loop step (rounds + extra) s = some out := by
  induction rounds generalizing s out with
  | zero => cases run
  | succ rounds ih =>
    rw [show rounds + 1 + extra = rounds + extra + 1 from by omega]
    cases turn : (step s).value with
    | inr answer =>
      rw [loop_inr _ turn] at run ⊢
      exact run
    | inl t =>
      rw [loop_inl _ turn] at run ⊢
      obtain ⟨rest,later,rfl⟩ := Option.map_eq_some_iff.mp run
      rw [ih later,Option.map_some]

theorem loop_answer (run : loop step rounds s = some out) :
    ∃ t, Reaches step s t ∧ (step t).value = .inr out.value := by
  induction rounds generalizing s out with
  | zero => cases run
  | succ rounds ih =>
    cases turn : (step s).value with
    | inr answer =>
      rw [loop_inr _ turn] at run
      obtain rfl := Option.some.inj run
      exact ⟨s,.start,turn⟩
    | inl t =>
      rw [loop_inl _ turn] at run
      obtain ⟨rest,later,rfl⟩ := Option.map_eq_some_iff.mp run
      obtain ⟨u,reached,answer⟩ := ih later
      exact ⟨u,reached.head turn,answer⟩

theorem loop_within (run : loop step rounds s = some out) :
    Within p out ↔ ∀ t, Reaches step s t → Within p (step t) := by
  induction rounds generalizing s out with
  | zero => cases run
  | succ rounds ih =>
    cases turn : (step s).value with
    | inr answer =>
      rw [loop_inr _ turn] at run
      obtain rfl := Option.some.inj run
      refine ⟨fun within t reached => ?_,fun all => all s .start⟩
      rcases reached.cases_head with rfl | ⟨u,taken,-⟩
      · exact within
      · cases turn.symm.trans taken
    | inl t =>
      rw [loop_inl _ turn] at run
      obtain ⟨rest,later,rfl⟩ := Option.map_eq_some_iff.mp run
      have both : Within p ⟨rest.value,(step s).reads ++ rest.reads⟩ ↔ Within p (step s) ∧ Within p rest :=
        List.forall_mem_append
      rw [both,ih later]
      constructor
      · rintro ⟨first,rest⟩ u reached
        rcases reached.cases_head with rfl | ⟨v,taken,further⟩
        · exact first
        · obtain rfl := Sum.inl.inj (turn.symm.trans taken)
          exact rest u further
      · exact fun all => ⟨all s .start,fun u reached => all u (reached.head turn)⟩

/-- A loop that ends does so from every state it comes to, with the same answer. -/
theorem loop_from_reaches (run : loop step rounds s = some out) (reached : Reaches step s t) :
    ∃ rest rounds, loop step rounds t = some rest ∧ rest.value = out.value := by
  induction reached with
  | start => exact ⟨out,rounds,run,rfl⟩
  | next _ taken ih =>
    obtain ⟨rest,rounds,later,value⟩ := ih
    cases rounds with
    | zero => cases later
    | succ rounds =>
      rw [loop_inl _ taken] at later
      obtain ⟨tail,ran,rfl⟩ := Option.map_eq_some_iff.mp later
      exact ⟨tail,rounds,ran,value⟩

/-- It ends and reads only where `p` holds. -/
def Confined (p : κ → Prop) (m : Option (Traced κ α)) : Prop := ∃ out, m = some out ∧ out.Within p

def andThen (m : Option (Traced κ α)) (f : α → Option (Traced κ β)) : Option (Traced κ β) :=
  m.bind fun x => (f x.value).map fun y => ⟨y.value,x.reads ++ y.reads⟩

@[simp] theorem confined_some (m : Traced κ α) : Confined p (some m) ↔ Within p m := by
  constructor
  · rintro ⟨out,same,within⟩
    exact Option.some.inj same ▸ within
  · exact fun within => ⟨m,rfl,within⟩

theorem confined_andThen {m : Option (Traced κ α)} {f : α → Option (Traced κ β)} :
    Confined p (andThen m f) ↔ ∃ x, m = some x ∧ x.Within p ∧ Confined p (f x.value) := by
  constructor
  · rintro ⟨out,run,within⟩
    obtain ⟨x,first,rest⟩ := Option.bind_eq_some_iff.mp run
    obtain ⟨y,second,rfl⟩ := Option.map_eq_some_iff.mp rest
    obtain ⟨one,two⟩ := List.forall_mem_append.mp within
    exact ⟨x,first,one,y,second,two⟩
  · rintro ⟨x,first,one,y,second,two⟩
    refine ⟨⟨y.value,x.reads ++ y.reads⟩,?_,List.forall_mem_append.mpr ⟨one,two⟩⟩
    rw [andThen,first,Option.bind_some,second,Option.map_some]

end Traced
