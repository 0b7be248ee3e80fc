import FilterQuery.Proofs.LeafPredicate
import FilterQuery.Proofs.SettledJson

namespace FilterQuery

namespace Json

mutual
-- Leaf clauses weighed one way and nested clauses another.
def tally (leaf nested : Nat) : Json → Nat
  | .obj ((key, value) :: _) =>
    if key = "match_all" ∨ key = "match_none" then 0
    else if key = "bool" then tallyMembers leaf nested value
    else if key = "nested" then nested + tallyWithin leaf nested value
    else leaf
  | _ => 0

-- A connective has its members in the first member of its object.
def tallyMembers (leaf nested : Nat) : Json → Nat
  | .obj ((_, .arr items) :: _) => tallyItems leaf nested items
  | _ => 0

def tallyItems (leaf nested : Nat) : List Json → Nat
  | [] => 0
  | item :: rest => tally leaf nested item + tallyItems leaf nested rest

-- A nested clause has its query behind its path.
def tallyWithin (leaf nested : Nat) : Json → Nat
  | .obj (_ :: (_, query) :: _) => tally leaf nested query
  | _ => 0
end

end Json

namespace Clause

-- Each query is of a kind that is not a connective, a constant or a nested clause.
inductive Leafy : Clause → Prop
  | constant (b : Bool) : Leafy (.constant b)
  | query (body : Json) (other : kind ∉ ["match_all", "match_none", "bool", "nested"]) :
    Leafy (.query (.single kind body))
  | and (each : ∀ c ∈ members, Leafy c) : Leafy (.and members)
  | or (each : ∀ c ∈ members, Leafy c) : Leafy (.or members)
  | not (inner : Leafy c) : Leafy (.not c)
  | nested (path : String) (inner : Leafy c) : Leafy (.nested path c)

variable {c : Clause} {members : List Clause} (leaf nested : Nat)

theorem tally_list
    (each : ∀ c ∈ members, c.toJson.settled.tally leaf nested = c.leafCount * leaf + c.nestedCount * nested) :
    Json.tallyItems leaf nested (Json.settledItems (listToJson members)) =
      listLeafCount members * leaf + listNestedCount members * nested := by
  induction members with
  | nil => simp [listToJson, Json.settledItems, Json.tallyItems, listLeafCount, listNestedCount]
  | cons c rest ih =>
    rw [List.forall_mem_cons] at each
    rw [listToJson, Json.settledItems, Json.tallyItems, each.1, ih each.2, listLeafCount, listNestedCount, Nat.add_mul,
      Nat.add_mul]
    omega

-- The counts of a clause stand in what its text tells.
theorem Leafy.tally (leafy : c.Leafy) :
    c.toJson.settled.tally leaf nested = c.leafCount * leaf + c.nestedCount * nested := by
  induction leafy with
  | constant b =>
    cases b <;> simp [toJson, Json.single, Json.settled, Json.settledMembers, Json.tally, leafCount, nestedCount]
  | query body other =>
    simp only [List.mem_cons, List.not_mem_nil, or_false, not_or] at other
    simp [toJson, Json.single, Json.settled, Json.settledMembers, Json.tally, leafCount, nestedCount, other]
  | and each ih | or each ih =>
    rw [leafCount, nestedCount, ← tally_list leaf nested ih]
    simp [toJson, Json.single, Json.settled, Json.settledMembers, Json.tally, Json.tallyMembers]
  | not inner ih =>
    rw [leafCount, nestedCount, ← ih]
    simp [toJson, Json.single, Json.settled, Json.settledMembers, Json.settledItems, Json.tally, Json.tallyMembers,
      Json.tallyItems]
  | @nested c path inner ih =>
    have one : (Clause.nested path c).nestedCount * nested = nested + c.nestedCount * nested := by
      rw [nestedCount, Nat.add_mul, Nat.one_mul]
    rw [one, leafCount, Nat.add_left_comm, ← ih]
    simp [toJson, Json.single, Json.settled, Json.settledMembers, Json.tally, Json.tallyWithin]

namespace Leafy

theorem negate (leafy : c.Leafy) : c.negate.Leafy := by
  cases leafy with
  | constant b => exact .constant _
  | not inner => exact inner
  | query body other => exact .not (.query body other)
  | and each => exact .not (.and each)
  | or each => exact .not (.or each)
  | nested path inner => exact .not (.nested path inner)

theorem andParts (leafy : c.Leafy) : ∀ part ∈ c.andParts, part.Leafy := by
  unfold Clause.andParts
  split
  · simp
  · cases leafy with
    | and each => exact each
  · simpa using leafy

theorem orParts (leafy : c.Leafy) : ∀ part ∈ c.orParts, part.Leafy := by
  unfold Clause.orParts
  split
  · simp
  · cases leafy with
    | or each => exact each
  · simpa using leafy

theorem conjunction (each : ∀ c ∈ members, c.Leafy) : (Clause.conjunction members).Leafy := by
  unfold Clause.conjunction
  split
  · exact .constant true
  · exact each _ (by simp)
  · exact .and each

theorem disjunction (each : ∀ c ∈ members, c.Leafy) : (Clause.disjunction members).Leafy := by
  unfold Clause.disjunction
  split
  · exact .constant false
  · exact each _ (by simp)
  · exact .or each

theorem all (each : ∀ c ∈ members, c.Leafy) : (Clause.all members).Leafy := by
  unfold Clause.all
  split
  · exact .constant false
  · refine conjunction fun part member => ?_
    obtain ⟨c, among, inside⟩ := List.mem_flatMap.mp member
    exact (each c among).andParts part inside

theorem any (each : ∀ c ∈ members, c.Leafy) : (Clause.any members).Leafy := by
  unfold Clause.any
  split
  · exact .constant true
  · refine disjunction fun part member => ?_
    obtain ⟨c, among, inside⟩ := List.mem_flatMap.mp member
    exact (each c among).orParts part inside

theorem conjuncts_each (each : ∀ c ∈ members, ∀ part ∈ c.conjuncts, part.Leafy) :
    ∀ part ∈ listConjuncts members, part.Leafy := by
  induction members with
  | nil => simp [listConjuncts]
  | cons c rest ih =>
    rw [List.forall_mem_cons] at each
    rw [listConjuncts, List.forall_mem_append]
    exact ⟨each.1, ih each.2⟩

theorem conjuncts (leafy : c.Leafy) : ∀ part ∈ c.conjuncts, part.Leafy := by
  have alone : ∀ {c : Clause}, c.Leafy → c.conjuncts = [c] → ∀ part ∈ c.conjuncts, part.Leafy := by
    intro c leafy same
    simpa [same] using leafy
  induction leafy with
  | constant b =>
    cases b with
    | true => simp [Clause.conjuncts]
    | false => exact alone (.constant false) rfl
  | query body other => exact alone (.query body other) rfl
  | and each ih => exact conjuncts_each ih
  | or each => exact alone (.or each) rfl
  | not inner => exact alone (.not inner) rfl
  | nested path inner => exact alone (.nested path inner) rfl

end Leafy

theorem closeNested_leafy (binding : String) (mode : ToManyMode) (leafy : c.Leafy) :
    (CompiledQuery.closeNested binding mode c).Leafy := by
  cases mode with
  | anyMatch => exact .nested binding leafy
  | allMatch => exact (Leafy.nested binding leafy.negate).negate

end Clause

namespace SearchEngine

theorem leaf_leafy {kind : String} (known : kind ∈ ["term", "terms", "range", "wildcard", "exists", "prefix", "regexp",
    "match", "geo_distance", "geo_bounding_box"]) (body : Json) : (Clause.leaf kind body).Leafy := by
  refine .query body ?_
  simp only [List.mem_cons, List.not_mem_nil, or_false] at known
  rcases known with rfl | rfl | rfl | rfl | rfl | rfl | rfl | rfl | rfl | rfl <;> decide

theorem textClause_leafy (field : String) (op : Operator) (operand : Operand) :
    ∀ c ∈ textClause field op operand, c.Leafy := by
  have matched : ∀ {f : String → Clause}, (∀ p, (f p).Leafy) → ∀ c ∈ operand.pattern?.map f, c.Leafy :=
    fun each => good_map each _
  have pattern : ∀ ignore, ∀ c ∈ like field ignore operand, c.Leafy :=
    fun ignore => matched fun p => leaf_leafy (by decide) _
  have refused : ∀ ignore, ∀ c ∈ (like field ignore operand).map Clause.negate, c.Leafy := by
    intro ignore c built
    obtain ⟨inner, from_, rfl⟩ := Option.map_eq_some_iff.mp built
    exact (pattern ignore inner from_).negate
  unfold textClause
  split
  case h_1 | h_3 => exact pattern _
  case h_2 | h_4 => exact refused _
  case h_11 => simp
  all_goals exact matched fun p => leaf_leafy (by decide) _

theorem geoClause_leafy (field : String) (op : Operator) (operand : Operand) (options : ApplyOptions) :
    ∀ c ∈ geoClause field op operand options, c.Leafy := by
  unfold geoClause
  split
  · exact good_map (fun p => leaf_leafy (by decide) _) _
  · exact good_map (fun p => leaf_leafy (by decide) _) _
  · simp

theorem clause_leafy (field : String) (options : ApplyOptions) (op : Operator) (operand : Operand) :
    ∀ c ∈ clause field options op operand, c.Leafy := by
  have existing : ∀ name, (Clause.existing name).Leafy := fun name => leaf_leafy (by decide) _
  have one : ∀ {c : Clause}, c.Leafy → ∀ built ∈ some c, built.Leafy := by
    rintro c leafy _ ⟨⟩
    exact leafy
  have members : ∀ (keys : List String), ∀ c ∈ keys.map (member field), c.Leafy :=
    fun keys => List.forall_mem_map.mpr fun key _ => existing _
  unfold clause
  split
  case h_1 | h_13 => exact one (existing _).negate
  case h_2 | h_14 => exact one (existing _)
  case h_4 | h_12 => exact one (leaf_leafy (by decide) _).negate
  case h_9 | h_10 | h_19 => exact one (.constant _)
  case h_15 => exact good_map (fun key => existing _) _
  case h_16 => exact good_map (fun keys => .any (members keys)) _
  case h_17 => exact good_map (fun keys => .all (members keys)) _
  case h_18 => exact one (.all (List.forall_mem_map.mpr fun v _ => leaf_leafy (by decide) _))
  case h_21 | h_22 => exact geoClause_leafy _ _ _ _
  case h_23 => exact textClause_leafy _ _ _
  all_goals exact one (leaf_leafy (by decide) _)

end SearchEngine

namespace Json

theorem lookup_settled (key : String) (members : List (String × Json)) :
    lookup key (settledMembers members) = (lookup key members).map settled := by
  induction members with
  | nil => rfl
  | cons member rest ih =>
    obtain ⟨k, v⟩ := member
    rw [settledMembers, lookup, lookup]
    split
    · rfl
    · exact ih

theorem get_settled (key : String) (j : Json) : j.settled.get? key = (j.get? key).map settled := by
  cases j with
  | obj members => exact lookup_settled key members
  | num n =>
    cases n with
    | int i => rfl
    | double x =>
      rw [settled, double]
      split <;> rfl
  | null | bool | str | arr => rfl

end Json

namespace SearchRequest

variable {r r' : SearchRequest}

-- Nothing that counts stands beside a condition that no document meets.
def Frank (r : SearchRequest) : Prop :=
  .constant false ∈ r.filters → r.leafCount = 0 ∧ Clause.listNestedCount r.filters = 0

theorem counts_andParts (c : Clause) : Clause.listLeafCount c.andParts = c.leafCount ∧
    Clause.listNestedCount c.andParts = c.nestedCount := by
  unfold Clause.andParts
  split
  · exact ⟨rfl, rfl⟩
  · exact ⟨rfl, rfl⟩
  · exact ⟨rfl, rfl⟩

theorem counts_append (left right : List Clause) :
    Clause.listLeafCount (left ++ right) = Clause.listLeafCount left + Clause.listLeafCount right ∧
      Clause.listNestedCount (left ++ right) = Clause.listNestedCount left + Clause.listNestedCount right := by
  induction left with
  | nil => simp [Clause.listLeafCount, Clause.listNestedCount]
  | cons c rest ih => simp [Clause.listLeafCount, Clause.listNestedCount, ih, Nat.add_assoc]

theorem counts_flat (members : List Clause) :
    Clause.listLeafCount (members.flatMap Clause.andParts) = Clause.listLeafCount members ∧
      Clause.listNestedCount (members.flatMap Clause.andParts) = Clause.listNestedCount members := by
  induction members with
  | nil => exact ⟨rfl, rfl⟩
  | cons c rest ih =>
    have own := counts_andParts c
    have both := counts_append c.andParts (rest.flatMap Clause.andParts)
    rw [List.flatMap_cons, both.1, both.2, own.1, own.2, ih.1, ih.2]
    exact ⟨rfl, rfl⟩

theorem counts_conjunction (members : List Clause) :
    (Clause.conjunction members).leafCount = Clause.listLeafCount members ∧
      (Clause.conjunction members).nestedCount = Clause.listNestedCount members := by
  unfold Clause.conjunction
  split <;> exact ⟨rfl, rfl⟩

theorem filterClause_counts (frank : r.Frank) :
    r.filterClause.leafCount = r.leafCount ∧ r.filterClause.nestedCount = Clause.listNestedCount r.filters := by
  unfold filterClause Clause.all
  split
  · rename_i refused
    obtain ⟨c, member, false_⟩ := List.any_eq_true.mp refused
    have same : c = .constant false := by
      cases c <;> simp_all [Clause.isConstant]
    obtain ⟨leaves, below⟩ := frank (same ▸ member)
    exact ⟨leaves.symm, below.symm⟩
  · have whole := counts_conjunction (r.filters.flatMap Clause.andParts)
    have flat := counts_flat r.filters
    exact ⟨whole.1.trans flat.1, whole.2.trans flat.2⟩

-- The members of a body, by their names.
theorem body_members (r : SearchRequest) : r.body.get? "query" = some r.filterClause.toJson ∧
    r.body.get? "from" = r.from?.map (fun n => .int n) ∧ r.body.get? "size" = r.size?.map fun n => .int n := by
  obtain ⟨index, filters, sort, from_, size⟩ := r
  cases sort <;> cases from_ <;> cases size <;> exact ⟨rfl, rfl, rfl⟩

theorem sort_of_body (r : SearchRequest) :
    (((r.body.get? "sort").map Json.settled).bind Json.items?).getD [] = r.sort.map Json.settled := by
  rw [← Json.settledItems_eq]
  obtain ⟨index, filters, sort, from_, size⟩ := r
  cases sort <;> cases from_ <;> cases size <;> rfl

theorem body_chars (r : SearchRequest) : ∃ rest, r.body.chars = '\x7b' :: '"' :: 'q' :: rest := by
  rw [body, List.cons_append, List.cons_append, Json.chars, Json.memberChars_cons]
  exact ⟨_, rfl⟩

theorem sortsNested_settled (j : Json) : sortsNested j.settled = sortsNested j := by
  cases j with
  | obj members =>
    cases members with
    | nil => rfl
    | cons member rest =>
      obtain ⟨field, spec⟩ := member
      show (spec.settled.get? "nested").isSome = (spec.get? "nested").isSome
      rw [Json.get_settled, Option.isSome_map]
  | num n =>
    cases n with
    | int i => rfl
    | double x =>
      rw [Json.settled, Json.double]
      split <;> rfl
  | null | bool | str | arr => rfl

-- The index ends where the body is opened.
theorem body_of_text (same : r.text = r'.text) : r.body.settled = r'.body.settled := by
  have chars : r.index.toList ++ ' ' :: r.body.chars = r'.index.toList ++ ' ' :: r'.body.chars := by
    have lists := congrArg String.toList same
    simpa [text, Json.text] using lists
  refine Json.text_settled (congrArg String.ofList ?_)
  obtain ⟨rest, opened⟩ := r.body_chars
  obtain ⟨rest', opened'⟩ := r'.body_chars
  rcases List.append_eq_append_iff.mp chars with ⟨more, -, back⟩ | ⟨more, -, back⟩
  · cases more with
    | nil => exact (List.cons.inj back).2
    | cons c more =>
      obtain ⟨rfl, behind⟩ := List.cons.inj back
      rw [opened'] at behind
      exact absurd behind (Json.not_opened _ _ _)
  · cases more with
    | nil => exact (List.cons.inj back).2.symm
    | cons c more =>
      obtain ⟨rfl, behind⟩ := List.cons.inj back
      rw [opened] at behind
      exact absurd behind (Json.not_opened _ _ _)

-- Requests of one text have the same counts, sort or do not, and page alike.
theorem counts_of_text (leafy : ∀ c ∈ r.filters, c.Leafy) (leafy' : ∀ c ∈ r'.filters, c.Leafy) (frank : r.Frank)
    (frank' : r'.Frank) (same : r.text = r'.text) :
    r.leafCount = r'.leafCount ∧ r.nestedCount = r'.nestedCount ∧ r.sort.isEmpty = r'.sort.isEmpty ∧
      r.from? = r'.from? ∧ r.size? = r'.size? := by
  have bodies := body_of_text same
  obtain ⟨query, from_, size⟩ := r.body_members
  obtain ⟨query', from', size'⟩ := r'.body_members
  have members : ∀ key, (r.body.get? key).map Json.settled = (r'.body.get? key).map Json.settled := by
    intro key
    rw [← Json.get_settled, bodies, Json.get_settled]
  have clauses := members "query"
  have froms := members "from"
  have sizes := members "size"
  rw [query, query', Option.map_some, Option.map_some, Option.some.injEq] at clauses
  rw [from_, from', Option.map_map, Option.map_map] at froms
  rw [size, size', Option.map_map, Option.map_map] at sizes
  have counted : Function.Injective (Json.settled ∘ fun n : Nat => Json.int n) := by
    intro m n same
    injection same with same
    injection same with same
    exact Int.ofNat.inj same
  have filters := filterClause_counts frank
  have filters' := filterClause_counts frank'
  have whole : r.filterClause.Leafy := .all leafy
  have whole' : r'.filterClause.Leafy := .all leafy'
  have tallies : ∀ leaf nested, r.filterClause.leafCount * leaf + r.filterClause.nestedCount * nested =
      r'.filterClause.leafCount * leaf + r'.filterClause.nestedCount * nested := by
    intro leaf nested
    rw [← whole.tally, ← whole'.tally, clauses]
  -- Each count alone, by weighing the other with nothing.
  have leaves := tallies 1 0
  have below := tallies 0 1
  have keys : r.sort.map Json.settled = r'.sort.map Json.settled := by
    rw [← sort_of_body, ← sort_of_body, members]
  have nestedKeys : ∀ sort : List Json,
      (sort.filter sortsNested).length = ((sort.map Json.settled).filter sortsNested).length := by
    intro sort
    rw [List.filter_map, List.length_map]
    simp only [Function.comp_def, sortsNested_settled]
  have empties := congrArg List.isEmpty keys
  rw [List.isEmpty_map, List.isEmpty_map] at empties
  refine ⟨by omega, ?_, empties, Option.map_injective counted froms, Option.map_injective counted sizes⟩
  unfold nestedCount
  rw [nestedKeys r.sort, nestedKeys r'.sort, keys]
  omega

end SearchRequest
end FilterQuery
