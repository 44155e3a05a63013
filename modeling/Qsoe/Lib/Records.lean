import Mathlib.Data.List.Basic

/-! Records in a row: each is a header of a fixed width, which says a key and a length, and so many cells
of payload. -/
namespace Records

structure Format (κ β : Type) where
  width : Nat
  header : κ → Nat → List β
  length_header : ∀ k n, (header k n).length = width

variable {κ β : Type} (f : Format κ β)

def cells (r : κ × List β) : List β := f.header r.1 r.2.length ++ r.2

def pack (rs : List (κ × List β)) : List β := rs.flatMap (cells f)

def placed : Nat → List (κ × List β) → List (Nat × κ × List β)
  | _, [] => []
  | o, r :: rs => (o,r) :: placed (o + f.width + r.2.length) rs

def slice (bs : List β) (o n : Nat) : List β := (bs.drop o).take n

variable {f} {rs : List (κ × List β)} {before rest bs : List β} {r : κ × List β} {o n : Nat}

@[simp] theorem pack_nil : pack f [] = [] := rfl

@[simp] theorem pack_cons (r : κ × List β) (rs : List (κ × List β)) : pack f (r :: rs) =
    cells f r ++ pack f rs := List.flatMap_cons

@[simp] theorem length_cells (r : κ × List β) : (cells f r).length = f.width + r.2.length := by
  rw [cells,List.length_append,f.length_header]

theorem slice_middle (before part rest : List β) :
    slice (before ++ (part ++ rest)) before.length part.length = part := by
  rw [slice,List.drop_left,List.take_left]

theorem slice_getElem? (bs : List β) (o i : Nat) (less : i < n) : (slice bs o n)[i]? = bs[o + i]? := by
  rw [slice,List.getElem?_take_of_lt less,List.getElem?_drop]

theorem slice_record (before rest : List β) (r : κ × List β) :
    slice (before ++ (cells f r ++ rest)) before.length f.width = f.header r.1 r.2.length ∧
    slice (before ++ (cells f r ++ rest)) (before.length + f.width) r.2.length = r.2 := by
  have header := f.length_header r.1 r.2.length
  constructor
  · have found := slice_middle before (f.header r.1 r.2.length) (r.2 ++ rest)
    rw [header] at found
    rw [cells,List.append_assoc]
    exact found
  · have found := slice_middle (before ++ f.header r.1 r.2.length) r.2 rest
    rw [List.length_append,header,List.append_assoc] at found
    rw [cells,List.append_assoc]
    exact found

theorem slice_placed (before rest : List β) (member : (o,r) ∈ placed f before.length rs) :
    slice (before ++ (pack f rs ++ rest)) o f.width = f.header r.1 r.2.length ∧
    slice (before ++ (pack f rs ++ rest)) (o + f.width) r.2.length = r.2 := by
  induction rs generalizing before with
  | nil => cases member
  | cons s rs ih =>
    rw [pack_cons,List.append_assoc]
    rcases List.mem_cons.mp member with same | later
    · obtain ⟨rfl,rfl⟩ := Prod.mk.inj same
      exact slice_record before (pack f rs ++ rest) r
    · have moved : (before ++ cells f s).length = before.length + f.width + s.2.length := by
        rw [List.length_append,length_cells,Nat.add_assoc]
      rw [← moved] at later
      have found := ih (before ++ cells f s) later
      rwa [List.append_assoc] at found

theorem placed_end (member : (o,r) ∈ placed f n rs) : o + f.width + r.2.length ≤ n + (pack f rs).length := by
  induction rs generalizing n with
  | nil => cases member
  | cons s rs ih =>
    rw [pack_cons,List.length_append,length_cells]
    rcases List.mem_cons.mp member with same | later
    · obtain ⟨rfl,rfl⟩ := Prod.mk.inj same
      omega
    · have inside := ih later
      omega

theorem map_placed (rs : List (κ × List β)) (n : Nat) : (placed f n rs).map Prod.snd = rs := by
  induction rs generalizing n with
  | nil => rfl
  | cons r rs ih => rw [placed,List.map_cons,ih]

end Records
