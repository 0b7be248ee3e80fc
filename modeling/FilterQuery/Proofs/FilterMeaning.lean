import FilterQuery.Proofs.Layout
import FilterQuery.Proofs.PredicateTruth
import FilterQuery.Proofs.RouteRuns

namespace FilterQuery

namespace Resolver

-- Every association before the last name is to-one, as far as the path leads.
def CrossesToOne (r : Resolver) (a : Adapter) : Queryable → List String → Prop
  | q, name :: next :: rest => ∀ hop, r.cross? a q name = some hop →
    hop.link.cardinality = .one ∧ r.CrossesToOne a hop.related (next :: rest)
  | _, _ => True

end Resolver

-- What the adapter builds for the leaf at the binding of its own association path.
def FilterContext.leafPredicate? (c : FilterContext) (root : Queryable) (base : CompiledQuery) (l : Leaf) :
    Option Predicate := do
  let name ← l.field.segments.getLast?
  let owner ← c.resolver.reach? c.adapter root l.field.segments.dropLast
  let f ← (c.adapter.fields owner).find? (·.name == name)
  let ty ← f.type?
  let operand ← (Operand.coerce l.field.dotted l.operator ty f.enumMembers l.value).toOption
  c.adapter.predicate? f l.operator operand ⟨some (base.bindingAt ⟨l.field.segments.dropLast⟩), c.options.unit⟩

-- Unknown where the adapter builds nothing.
def FilterContext.leafTruth (c : FilterContext) (root : Queryable) (base : CompiledQuery) (v : Valuation)
    (l : Leaf) : Truth :=
  (c.leafPredicate? root base l).elim .unknown (Predicate.truth v)

theorem FieldPath.single_of_flat {path : FieldPath} (named : path.head? = some name) (flat : path.firstHop? = none) :
    path.segments = [name] := by
  unfold head? at named
  cases shape : path.segments with
  | nil => simp [shape] at named
  | cons first later =>
    rw [shape, List.head?_cons, Option.some.injEq] at named
    cases later with
    | nil => rw [named]
    | cons next rest =>
      rw [FieldPath.firstHop_exact.mpr ⟨next, rest, shape⟩] at flat
      cases flat

namespace Route

mutual
-- Every test is of a field right where it stands, and only to-one associations are on the way.
def Direct (r : Resolver) (a : Adapter) (q : Queryable) : Route → Prop
  | test l => l.field.firstHop? = none
  | negate inner => inner.Direct r a q
  | join _ parts => AllDirect r a q parts
  | through head inner => ∀ hop, r.cross? a q head = some hop →
    hop.link.cardinality = .one ∧ inner.Direct r a hop.related

def AllDirect (r : Resolver) (a : Adapter) (q : Queryable) : List Route → Prop
  | [] => True
  | part :: rest => part.Direct r a q ∧ AllDirect r a q rest
end

mutual
-- Every test is of a field right where it stands.
def Flat : Route → Prop
  | test l => l.field.firstHop? = none
  | negate inner => inner.Flat
  | join _ parts => AllFlat parts
  | through _ inner => inner.Flat

def AllFlat : List Route → Prop
  | [] => True
  | part :: rest => part.Flat ∧ AllFlat rest
end

theorem layout_flat (reorder : Bool) : ∀ n, (ofNode reorder n).Flat := by
  apply ofNode.induct reorder (fun n => (ofNode reorder n).Flat) (fun op ns => (ofNodes reorder op ns).Flat)
    (fun op siblings => AllFlat (ofSiblings reorder op siblings))
  case case1 =>
    intro l flat
    rw [ofNode_flat reorder flat]
    exact flat
  case case2 =>
    intro l head nested ih
    rw [ofNode_nested reorder nested]
    exact ih
  case case3 =>
    intro child rest ih
    rw [ofNode]
    exact ih
  case case4 =>
    intro op children plain ih
    rw [ofNode_connective reorder plain]
    exact ih
  case case5 =>
    intro op ns ih
    rw [ofNodes]
    exact ih
  case case6 =>
    intro op
    rw [ofSiblings]
    trivial
  case case7 =>
    intro op n rest here later
    rw [ofSiblings]
    exact ⟨here, later⟩
  case case8 =>
    intro op head group rest here later
    rw [ofSiblings]
    exact ⟨here, later⟩

theorem ofNode_direct (r : Resolver) (a : Adapter) (reorder : Bool) :
    ∀ n q, (∀ l ∈ n.leaves, r.CrossesToOne a q l.field.segments) → (ofNode reorder n).Direct r a q := by
  apply ofNode.induct reorder
    (fun n => ∀ q, (∀ l ∈ n.leaves, r.CrossesToOne a q l.field.segments) → (ofNode reorder n).Direct r a q)
    (fun op ns => ∀ q, (∀ l ∈ FilterNode.listLeaves ns, r.CrossesToOne a q l.field.segments) →
      (ofNodes reorder op ns).Direct r a q)
    (fun op siblings => ∀ q,
      (∀ l ∈ FilterNode.listLeaves (Sibling.nodes siblings), r.CrossesToOne a q l.field.segments) →
        AllDirect r a q (ofSiblings reorder op siblings))
  case case1 =>
    intro l flat q _
    rw [ofNode_flat reorder flat]
    exact flat
  case case2 =>
    intro l head nested ih q toOne
    rw [ofNode_nested reorder nested]
    intro hop crossed
    obtain ⟨next, rest, shape, left⟩ := l.strip_parts nested
    have here := toOne l (by simp [FilterNode.leaves])
    rw [shape] at here
    obtain ⟨one, below⟩ := here hop crossed
    refine ⟨one, ih hop.related ?_⟩
    simpa [FilterNode.listLeaves, FilterNode.leaves, left] using below
  case case3 =>
    intro child rest ih q toOne
    rw [ofNode]
    refine ih q fun l member => toOne l ?_
    simp [FilterNode.leaves, FilterNode.listLeaves, member]
  case case4 =>
    intro op children plain ih q toOne
    rw [ofNode_connective reorder plain]
    exact ih q (by simpa only [FilterNode.leaves] using toOne)
  case case5 =>
    intro op ns ih q toOne
    have moved := FilterNode.listLeaves_perm (Sibling.nodes_arranged reorder ns)
    rw [ofNodes]
    exact ih q fun l member => toOne l (moved.mem_iff.mp member)
  case case6 =>
    intro op q _
    rw [ofSiblings]
    trivial
  case case7 =>
    intro op n rest here later q toOne
    simp only [Sibling.nodes, FilterNode.listLeaves, List.mem_append] at toOne
    rw [ofSiblings]
    exact ⟨here q fun l member => toOne l (.inl member), later q fun l member => toOne l (.inr member)⟩
  case case8 =>
    intro op head group rest here later q toOne
    simp only [Sibling.nodes, FilterNode.listLeaves_append, List.mem_append] at toOne
    rw [ofSiblings]
    refine ⟨?_, later q fun l member => toOne l (.inr member)⟩
    intro hop crossed
    have crossing : ∀ l ∈ FilterNode.listLeaves group.nodes,
        hop.link.cardinality = .one ∧ r.CrossesToOne a hop.related l.strip.field.segments := by
      intro l member
      obtain ⟨next, others, shape, left⟩ := l.strip_parts (group.nested member)
      have way := toOne l (.inl member)
      rw [shape] at way
      rw [left]
      exact way hop crossed
    obtain ⟨l, leaf⟩ := group.some_leaf
    refine ⟨(crossing l leaf).1, here hop.related ?_⟩
    rw [FilterNode.listLeaves_stripAll]
    intro stripped member
    obtain ⟨l, leaf, rfl⟩ := List.mem_map.mp member
    exact (crossing l leaf).2

section Compiled

variable {c : FilterContext} {root : Queryable} {base : CompiledQuery}

theorem test_leafPredicate {scope : Scope} (placed : scope.Placed c.resolver c.adapter root base) (flat : l.field.firstHop? = none)
    (tested : c.test scope l = .ok p) : c.leafPredicate? root base (l.under scope.path) = some p := by
  obtain ⟨name, f, ty, named, found, scalar, typed⟩ := FilterContext.test_parts.mp tested
  obtain ⟨_, _, operand, coerced, built⟩ := FilterContext.typed_parts.mp typed
  have shape := FieldPath.single_of_flat named flat
  have hops : (l.under scope.path).field.segments = scope.path.segments ++ [name] := by
    simp [Leaf.under, FieldPath.append, shape]
  have dotted : (l.under scope.path).field.dotted = (scope.path.append l.field).dotted := rfl
  unfold FilterContext.leafPredicate?
  rw [hops, List.getLast?_concat, List.dropLast_concat, placed.reached, ← placed.bound, dotted]
  simp only [Option.bind_eq_bind, Option.bind_some, found, scalar]
  simp only [Leaf.under, coerced, Except.toOption, Option.bind_some, built]

mutual
theorem compile_leaves (route : Route) {scope : Scope} {q joined : CompiledQuery} {p : Predicate}
    (placed : scope.Placed c.resolver c.adapter root base) (same : q.kind = base.kind) (flat : route.Flat)
    (compiled : route.compile c scope q = .ok (p, joined)) :
    ∀ l ∈ route.leaves scope.path, ∃ built, c.leafPredicate? root base l = some built := by
  cases route with
  | test l =>
    obtain ⟨tested, _⟩ := test_parts.mp compiled
    intro told member
    rw [List.mem_singleton.mp member]
    exact ⟨p, test_leafPredicate placed flat tested⟩
  | negate inner =>
    obtain ⟨plain, inside, _⟩ := negate_parts.mp compiled
    exact compile_leaves inner placed same flat inside
  | join op parts =>
    obtain ⟨ps, inside, _⟩ := join_parts.mp compiled
    exact compileAll_leaves parts placed same flat inside
  | through head inner =>
    obtain ⟨hop, crossed, way⟩ := through_parts.mp compiled
    have entered := placed.enter_placed crossed same
    rcases way with ⟨_, inside⟩ | ⟨_, _, plain, below, inside, _⟩
    · exact compile_leaves inner entered (by simpa using same) flat inside
    · exact compile_leaves inner entered (by simpa using same) flat inside

theorem compileAll_leaves (parts : List Route) {scope : Scope} {q joined : CompiledQuery} {ps : List Predicate}
    (placed : scope.Placed c.resolver c.adapter root base) (same : q.kind = base.kind) (flat : AllFlat parts)
    (compiled : compileAll c scope parts q = .ok (ps, joined)) :
    ∀ l ∈ listLeaves scope.path parts, ∃ built, c.leafPredicate? root base l = some built := by
  cases parts with
  | nil => simp [listLeaves]
  | cons part rest =>
    obtain ⟨p, mid, others, here, later, _⟩ := cons_parts.mp compiled
    intro l member
    rcases List.mem_append.mp member with among | among
    · exact compile_leaves part placed same flat.1 here l among
    · exact compileAll_leaves rest placed ((joined_kind here).trans same) flat.2 later l among
end

mutual
-- The joins that a part adds are there for the parts after it, so the query grows along the parts.
theorem compile_truth (v : Valuation) (route : Route) {scope : Scope} {q joined : CompiledQuery} {p : Predicate}
    (own : c.adapter.kind = base.kind) (placed : scope.Placed c.resolver c.adapter root base) (same : q.kind = base.kind)
    (direct : route.Direct c.resolver c.adapter scope.queryable)
    (compiled : route.compile c scope q = .ok (p, joined)) :
    p.truth v = route.truth (c.leafTruth root base v) scope.path := by
  cases route with
  | test l =>
    obtain ⟨tested, _⟩ := test_parts.mp compiled
    rw [truth, FilterContext.leafTruth, test_leafPredicate placed direct tested]
    rfl
  | negate inner =>
    obtain ⟨plain, inside, rfl⟩ := negate_parts.mp compiled
    rw [Predicate.truth_negate, truth, compile_truth v inner own placed same direct inside]
  | join op parts =>
    obtain ⟨ps, inside, rfl⟩ := join_parts.mp compiled
    rw [Predicate.truth_join v op (compileAll_own parts (own.trans same.symm) inside), truth,
      compileAll_truth v parts own placed same direct inside]
  | through head inner =>
    obtain ⟨hop, crossed, way⟩ := through_parts.mp compiled
    obtain ⟨one, below⟩ := direct hop crossed
    rcases way with ⟨_, inside⟩ | ⟨many, _⟩
    · rw [truth]
      exact compile_truth v inner own (placed.enter_placed crossed same) (by simpa using same) below inside
    · rw [one] at many
      cases many

theorem compileAll_truth (v : Valuation) (parts : List Route) {scope : Scope} {q joined : CompiledQuery}
    {ps : List Predicate} (own : c.adapter.kind = base.kind) (placed : scope.Placed c.resolver c.adapter root base)
    (same : q.kind = base.kind) (direct : AllDirect c.resolver c.adapter scope.queryable parts)
    (compiled : compileAll c scope parts q = .ok (ps, joined)) :
    ps.map (Predicate.truth v) = truths (c.leafTruth root base v) scope.path parts := by
  cases parts with
  | nil =>
    obtain ⟨rfl, _⟩ := nil_parts.mp compiled
    rfl
  | cons part rest =>
    obtain ⟨p, mid, others, here, later, rfl⟩ := cons_parts.mp compiled
    rw [List.map_cons, truths, compile_truth v part own placed same direct.1 here,
      compileAll_truth v rest own placed ((joined_kind here).trans same) direct.2 later]
end

end Compiled
end Route

namespace CompiledQuery

theorem truth_unjoined (v : Valuation) (q : CompiledQuery) : q.unjoined.truth v = q.truth v := by cases q <;> rfl

theorem truth_forQueryable (v : Valuation) (q : Queryable) : (forQueryable q).truth v = .true := by
  unfold forQueryable
  split <;> rfl

theorem truth_definite (v : Valuation) (r : SearchRequest) : ∃ b, (search r).truth v = .ofBool b := by
  rw [truth, ← Clause.truths_eq_map]
  exact Clause.fold_definite v .and r.filters

end CompiledQuery

theorem Resolver.applyFilter_truth {r : Resolver} {base narrowed : CompiledQuery} {q : Queryable}
    {filter : FilterNode} {options : CompileOptions} (accepted : r.applyFilter base q filter options = .ok narrowed)
    (own : q.adapter.kind = base.kind) (toOne : ∀ l ∈ filter.leaves, r.CrossesToOne q.adapter q l.field.segments) :
    ∃ leafOf : Leaf → Predicate,
      (∀ l ∈ filter.leaves, FilterContext.leafPredicate? ⟨r, q.adapter, options⟩ q base l = some (leafOf l)) ∧
      ∀ v, narrowed.truth v = (base.truth v).and (filter.kleene fun l => (leafOf l).truth v) := by
  obtain ⟨valid, _, _, ⟨empty, rfl⟩ | ⟨_, a, served, p, joined, compiled, narrows⟩⟩ := applyFilter_parts.mp accepted
  · refine ⟨fun _ => .constant .sql true, by simp [filter.leaves_of_empty empty], ?_⟩
    intro v
    rw [filter.kleene_of_empty _ empty, Truth.and_true]
  · have same := AdapterSet.forQueryable_exact served
    subst same
    let c : FilterContext := ⟨r, q.adapter, options⟩
    have placed : (Scope.root q base.rootBinding).Placed c.resolver c.adapter q base := Scope.Placed.root_placed
    have direct := Route.ofNode_direct r q.adapter r.settings.reorder filter q toOne
    have known : ∃ leafOf : Leaf → Predicate, ∀ l ∈ filter.leaves, c.leafPredicate? q base l = some (leafOf l) := by
      refine ⟨fun l => (c.leafPredicate? q base l).getD (.constant .sql true), ?_⟩
      intro l member
      obtain ⟨built, found⟩ := Route.compile_leaves _ placed rfl (Route.layout_flat ..) compiled l
        ((Route.ofNode_leaves _ valid).mem_iff.mpr member)
      have found : c.leafPredicate? q base l = some built := found
      simp only [found, Option.getD_some]
    obtain ⟨leafOf, known⟩ := known
    refine ⟨leafOf, known, ?_⟩
    intro v
    rw [CompiledQuery.truth_andPredicate v narrows, ← CompiledQuery.truth_unjoined v joined,
      Route.compile_joins _ compiled, CompiledQuery.truth_unjoined,
      Route.compile_truth v _ own placed rfl direct compiled]
    refine congrArg (base.truth v).and ?_
    refine (Route.ofNode_truth ..).trans (filter.kleene_congr ?_)
    intro l member
    rw [FilterContext.leafTruth, known l member]
    rfl

-- Filters over the same leaves that come to the same over any of their truths do so once they are compiled.
theorem Resolver.truth_of_kleene {r : Resolver} {q : Queryable} {filter other : FilterNode} {options : CompileOptions}
    {query moved : CompiledQuery} (toOne : ∀ l ∈ filter.leaves, r.CrossesToOne q.adapter q l.field.segments)
    (accepted : r.compileFilter q filter options = .ok query) (accepted' : r.compileFilter q other options = .ok moved)
    (fewer : ∀ l ∈ other.leaves, l ∈ filter.leaves) (same : ∀ truth, other.kleene truth = filter.kleene truth)
    (v : Valuation) : moved.truth v = query.truth v := by
  have own := (CompiledQuery.kind_forQueryable q).symm
  obtain ⟨leafOf, known, means⟩ := applyFilter_truth (compileFilter_parts.mp accepted).2 own toOne
  obtain ⟨leafOf', known', means'⟩ := applyFilter_truth (compileFilter_parts.mp accepted').2 own
    fun l member => toOne l (fewer l member)
  rw [means v, means' v, ← same]
  refine congrArg (Truth.and _) (other.kleene_congr ?_)
  intro l member
  have leaf := known l (fewer l member)
  rw [known' l member] at leaf
  rw [Option.some.inj leaf]

-- The conditions come to the filter over what its leaves come to, each told by its own path; those of a
-- search request are true or false.
theorem Resolver.compileFilter_truth {r : Resolver} {q : Queryable} {filter : FilterNode} {options : CompileOptions}
    {query : CompiledQuery} (accepted : r.compileFilter q filter options = .ok query)
    (toOne : ∀ l ∈ filter.leaves, r.CrossesToOne q.adapter q l.field.segments) :
    ∃ leafOf : Leaf → Predicate,
      (∀ l ∈ filter.leaves,
        FilterContext.leafPredicate? ⟨r, q.adapter, options⟩ q (.forQueryable q) l = some (leafOf l)) ∧
      (∀ v, query.truth v = filter.kleene fun l => (leafOf l).truth v) ∧
      (q.adapter = .search → ∀ v, ∃ b, query.truth v = .ofBool b) := by
  obtain ⟨_, applied⟩ := compileFilter_parts.mp accepted
  obtain ⟨leafOf, known, means⟩ := applyFilter_truth applied (CompiledQuery.kind_forQueryable q).symm toOne
  refine ⟨leafOf, known, ?_, ?_⟩
  · intro v
    rw [means v, CompiledQuery.truth_forQueryable, Truth.true_and]
  · intro searched v
    have kept := applyFilter_kind applied
    rw [CompiledQuery.kind_forQueryable, searched] at kept
    cases query with
    | sql d s => cases kept
    | search request => exact CompiledQuery.truth_definite v request

-- People and who they report to.
def staff : Queryable :=
  ((Queryable.new "Staff" "staff" .postgres).withColumn "name" "text" false).belongsTo "manager" "Staff" "manager_id"

def staffResolver : Resolver :=
  { Resolver.ofAdapters .standard .standard with registry := Registry.empty.register staff }

def notLedByAnn : FilterNode :=
  .combine .and [
    .combine .not [.leaf ⟨⟨["manager", "name"]⟩, .eq, .str "Ann"⟩],
    .combine .or [.leaf ⟨⟨["name"]⟩, .eq, .str "Bo"⟩, .leaf ⟨⟨["name"]⟩, .eq, .str "Cy"⟩]]

theorem staff_manager : (staffResolver.cross? .postgres staff "manager").map (·.link.cardinality) = some .one := by
  decide +kernel

theorem notLedByAnn_toOne : ∀ l ∈ notLedByAnn.leaves,
    staffResolver.CrossesToOne staff.adapter staff l.field.segments := by
  intro l member
  simp only [notLedByAnn, FilterNode.leaves, FilterNode.listLeaves, List.append_nil, List.singleton_append,
    List.mem_cons, List.not_mem_nil, or_false] at member
  rcases member with rfl | rfl | rfl
  · intro hop crossed
    have one := staff_manager
    rw [show staffResolver.cross? .postgres staff "manager" = some hop from crossed] at one
    exact ⟨Option.some.inj one, trivial⟩
  · trivial
  · trivial

theorem notLedByAnn_truth : ∃ query, staffResolver.compileFilter staff notLedByAnn .standard = .ok query ∧
    ∃ leafOf : Leaf → Predicate,
      (∀ l ∈ notLedByAnn.leaves, FilterContext.leafPredicate? ⟨staffResolver, staff.adapter, .standard⟩ staff
        (.forQueryable staff) l = some (leafOf l)) ∧
      (∀ v, query.truth v = notLedByAnn.kleene fun l => (leafOf l).truth v) ∧
      (staff.adapter = .search → ∀ v, ∃ b, query.truth v = .ofBool b) := by
  have succeeded : (staffResolver.compileFilter staff notLedByAnn .standard).isOk = true := by decide +kernel
  obtain ⟨query, accepted⟩ := ok_of_isOk succeeded
  exact ⟨query, accepted, Resolver.compileFilter_truth accepted notLedByAnn_toOne⟩

end FilterQuery
