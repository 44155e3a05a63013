import Qsoe.Lib.Delimited

/-! Paths as their components: a text is split at a separator, the empty components and the single dots
are dropped, and two dots take away what stands before them. -/
namespace Components

variable {α : Type} {sep dot : α} {ks cs : List (List α)} {c d p : List α}

def slashed (sep : α) (ks : List (List α)) : List α := sep :: Delimited.pack sep ks

theorem slashed_snoc (ks : List (List α)) (c : List α) :
    slashed sep (ks ++ [c]) = slashed sep ks ++ (c ++ [sep]) := by
  rw [slashed,Delimited.pack_append,Delimited.pack_cons,Delimited.pack_nil]
  rfl

theorem slashed_ends (sep : α) (ks : List (List α)) : ∃ before, slashed sep ks = before ++ [sep] := by
  rcases List.eq_nil_or_concat' ks with rfl | ⟨ks,c,rfl⟩
  · exact ⟨[],rfl⟩
  · refine ⟨slashed sep ks ++ c,?_⟩
    rw [slashed_snoc,List.append_assoc]

theorem one_lt_length_slashed : 1 < (slashed sep ks).length ↔ ks ≠ [] := by
  rw [slashed,List.length_cons,Delimited.length_pack]
  cases ks with
  | nil => exact ⟨fun less => absurd less (Nat.lt_irrefl 1),fun nonempty => absurd rfl nonempty⟩
  | cons c ks =>
    rw [List.map_cons,List.sum_cons]
    exact ⟨fun _ => List.cons_ne_nil c ks,fun _ => by omega⟩

theorem intercalate_cons (c : List α) (ks : List (List α)) :
    [sep].intercalate (c :: ks) ++ [sep] = Delimited.pack sep (c :: ks) := by
  induction ks generalizing c with
  | nil => rw [List.intercalate_singleton,Delimited.pack_cons,Delimited.pack_nil]
  | cons d ks ih =>
    rw [List.intercalate_cons_cons,Delimited.pack_cons,← ih,List.append_assoc,List.append_assoc]
    rfl

/-- Without its last separator this is the canonical form, at the root as it is. -/
theorem slashed_eq (nonempty : ks ≠ []) : slashed sep ks = sep :: [sep].intercalate ks ++ [sep] := by
  cases ks with
  | nil => exact absurd rfl nonempty
  | cons c ks => rw [List.cons_append,intercalate_cons,slashed]

variable [DecidableEq α]

/-- One component more. Nothing is taken away from an empty stack. -/
def push (dot : α) (ks : List (List α)) (c : List α) : List (List α) :=
  if c = [] ∨ c = [dot] then ks
  else if c = [dot,dot] then ks.dropLast
  else ks ++ [c]

def kept (dot : α) (cs : List (List α)) : List (List α) := cs.foldl (push dot) []

def canon (sep dot : α) (p : List α) : List α := sep :: [sep].intercalate (kept dot (p.splitOn sep))

def Named (dot : α) (c : List α) : Prop := c ≠ [] ∧ c ≠ [dot] ∧ c ≠ [dot,dot]

theorem push_named (named : Named dot c) (ks : List (List α)) : push dot ks c = ks ++ [c] := by
  rw [push,if_neg (not_or.mpr ⟨named.1,named.2.1⟩),if_neg named.2.2]

@[simp] theorem push_nil (ks : List (List α)) : push dot ks [] = ks := if_pos (.inl rfl)

theorem mem_push (member : c ∈ push dot ks d) : c ∈ ks ∨ c = d ∧ Named dot c := by
  unfold push at member
  split at member
  · exact .inl member
  · rename_i dotted
    obtain ⟨nonempty,one⟩ := not_or.mp dotted
    split at member
    · exact .inl ((List.dropLast_sublist ks).subset member)
    · rename_i two
      rcases List.mem_append.mp member with old | new
      · exact .inl old
      · obtain rfl := List.mem_singleton.mp new
        exact .inr ⟨rfl,nonempty,one,two⟩

theorem mem_foldl_push (member : c ∈ cs.foldl (push dot) ks) : c ∈ ks ∨ c ∈ cs ∧ Named dot c := by
  induction cs generalizing ks with
  | nil => exact .inl member
  | cons d cs ih =>
    rcases ih member with old | ⟨new,named⟩
    · rcases mem_push old with before | ⟨rfl,named⟩
      · exact .inl before
      · exact .inr ⟨List.mem_cons_self,named⟩
    · exact .inr ⟨List.mem_cons_of_mem d new,named⟩

theorem mem_kept (member : c ∈ kept dot cs) : c ∈ cs ∧ Named dot c :=
  (mem_foldl_push member).resolve_left List.not_mem_nil

theorem kept_named (named : ∀ c ∈ cs, Named dot c) : kept dot cs = cs := by
  have fold : ∀ ks, cs.foldl (push dot) ks = ks ++ cs := by
    induction cs with
    | nil => exact fun ks => (List.append_nil ks).symm
    | cons c cs ih =>
      intro ks
      rw [List.foldl_cons,push_named (named c List.mem_cons_self),
        ih (fun d member => named d (List.mem_cons_of_mem c member)),
        List.append_assoc]
      rfl
  exact fold []

theorem splitOn_free (member : c ∈ p.splitOn sep) : sep ∉ c := by
  induction p generalizing c with
  | nil =>
    rw [List.splitOn_nil] at member
    obtain rfl := List.mem_singleton.mp member
    exact List.not_mem_nil
  | cons a p ih =>
    rw [List.splitOn_cons_eq_if_modifyHead] at member
    split at member
    · rcases List.mem_cons.mp member with rfl | later
      · exact List.not_mem_nil
      · exact ih later
    · rename_i other
      cases split : p.splitOn sep with
      | nil => exact absurd split (List.splitOn_ne_nil sep p)
      | cons d ds =>
        rw [split,List.modifyHead_cons] at member
        rcases List.mem_cons.mp member with rfl | later
        · rw [List.mem_cons,not_or]
          exact ⟨fun same => other (beq_iff_eq.mpr same.symm),ih (split ▸ List.mem_cons_self)⟩
        · exact ih (split ▸ List.mem_cons_of_mem d later)

/-- A text that ends in the delimiter, or is empty, is packed from what stands between its delimiters. -/
theorem pack_splitOn (ends : p = [] ∨ p.getLast? = some sep) : Delimited.pack sep (p.splitOn sep).dropLast = p := by
  rcases ends with rfl | last
  · rfl
  · obtain ⟨q,rfl⟩ := List.getLast?_eq_some_iff.mp last
    have split := List.splitOn_append_cons_self (a := sep) q []
    rw [List.splitOn_nil] at split
    rw [split,List.dropLast_concat]
    cases parts : q.splitOn sep with
    | nil => exact absurd parts (List.splitOn_ne_nil sep q)
    | cons c cs => rw [← intercalate_cons,← parts,List.intercalate_splitOn]

theorem canon_canon (p : List α) : canon sep dot (canon sep dot p) = canon sep dot p := by
  have first : ∀ q, (sep :: q).splitOn sep = [] :: q.splitOn sep := fun q => by
    rw [List.splitOn_cons_eq_if_modifyHead,if_pos (beq_self_eq_true sep)]
  have again : kept dot ((canon sep dot p).splitOn sep) = kept dot (p.splitOn sep) := by
    rw [canon,first]
    by_cases nothing : kept dot (p.splitOn sep) = []
    · rw [nothing]
      rfl
    · rw [List.splitOn_intercalate sep (fun c member => splitOn_free (mem_kept member).1) nothing]
      exact kept_named fun c member => (mem_kept member).2
  rw [canon,again,← canon]

end Components
