namespace FilterQuery

-- Sets of names are kept sorted and without repetition.
def insertName (name : String) : List String → List String
  | [] => [name]
  | n :: rest =>
    if name = n then n :: rest
    else if name < n then name :: n :: rest
    else n :: insertName name rest

theorem mem_insertName : other ∈ insertName name names ↔ other = name ∨ other ∈ names := by
  induction names with
  | nil => simp [insertName]
  | cons n rest ih =>
    unfold insertName
    split
    · rename_i same
      simp [same]
    · split
      · simp
      · rw [List.mem_cons, ih, List.mem_cons]
        exact or_left_comm

theorem sorted_insertName {names : List String} (sorted : names.Pairwise (· < ·)) (name : String) :
    (insertName name names).Pairwise (· < ·) := by
  induction names with
  | nil => exact List.pairwise_singleton _ name
  | cons n rest ih =>
    obtain ⟨least, restSorted⟩ := List.pairwise_cons.mp sorted
    unfold insertName
    split
    · exact sorted
    · rename_i apart
      split
      · rename_i before
        refine List.pairwise_cons.mpr ⟨?_, sorted⟩
        intro other there
        rcases List.mem_cons.mp there with rfl | later
        · exact before
        · exact String.lt_trans before (least other later)
      · rename_i notBefore
        have behind : n < name := Std.lt_of_le_of_ne (String.not_lt.mp notBefore) (Ne.symm apart)
        refine List.pairwise_cons.mpr ⟨?_, ih restSorted⟩
        intro other there
        rcases mem_insertName.mp there with rfl | later
        · exact behind
        · exact least other later

structure NameSet where
  names : List String
  deriving DecidableEq, Repr

namespace NameSet

def empty : NameSet := ⟨[]⟩

def insert (s : NameSet) (name : String) : NameSet := ⟨insertName name s.names⟩

def erase (s : NameSet) (name : String) : NameSet := ⟨s.names.filter (· != name)⟩

def contains (s : NameSet) (name : String) : Bool := s.names.contains name

def ofList (names : List String) : NameSet := names.foldl insert empty

theorem contains_insert {s : NameSet} :
    (s.insert name).contains other = true ↔ other = name ∨ s.contains other = true := by
  simp only [contains, insert, List.contains_iff_mem, mem_insertName]

theorem contains_ofList {given : List String} : (ofList given).contains name = true ↔ name ∈ given := by
  have gathered : ∀ s : NameSet,
      (given.foldl insert s).contains name = true ↔ name ∈ given ∨ s.contains name = true := by
    induction given with
    | nil => simp
    | cons n rest ih =>
      intro s
      rw [List.foldl_cons, ih, contains_insert, List.mem_cons, or_left_comm, or_assoc]
  simpa [ofList, empty, contains] using gathered empty

end NameSet
end FilterQuery
