import FilterQuery.Proofs.ExtentRuns
import FilterQuery.Proofs.FilterMeaning

namespace FilterQuery

namespace FilterNode

theorem validate_wrapped (op : Combinator) (n : FilterNode) : (combine op [n]).validate = n.validate := by
  have alone : validateAll [n] = n.validate := by
    rw [validateAll, validateAll]
    cases n.validate <;> rfl
  cases op with
  | not => rw [validate, List.length_singleton, if_pos rfl, alone]
  | and => exact alone
  | or => exact alone

theorem kleene_wrapped (connective : op ≠ .not) (n : FilterNode) (truth : Leaf → Truth) :
    (combine op [n]).kleene truth = n.kleene truth := by
  rw [kleene_connective truth op [n] fun _ _ negation _ => connective negation, List.map_singleton,
    Connective.value_singleton]

theorem referencedPaths_wrapped (op : Combinator) (n : FilterNode) :
    (combine op [n]).referencedPaths = n.referencedPaths := by
  simp [referencedPaths, leaves, listLeaves]

end FilterNode

theorem Resolver.compileFilter_wrapped {filter : FilterNode} (r : Resolver) (q : Queryable) (options : CompileOptions)
    (connective : op ≠ .not) (whole : filter.sharedHead? = none ∨ filter.extent = .one true) :
    r.compileFilter q (.combine op [filter]) options = r.compileFilter q filter options := by
  refine compileFilter_congr (filter.validate_wrapped op) (filter.referencedPaths_wrapped op) ?_
  rw [Route.ofNode_connective r.settings.reorder fun _ _ negation _ => connective negation]
  exact Route.alike_wrapped r.settings.reorder (.ofCombinator op) filter whole

namespace CompiledQuery

theorem predicates_unjoined (q : CompiledQuery) : q.unjoined.predicates = q.predicates := by cases q <;> rfl

theorem predicates_forQueryable (q : Queryable) : (forQueryable q).predicates = [] := by
  unfold forQueryable
  split <;> rfl

end CompiledQuery

-- The conditions of the query are those of the predicate that the filter compiles to.
theorem Resolver.compileFilter_predicates {r : Resolver} {q : Queryable} {filter : FilterNode} {options : CompileOptions}
    {query : CompiledQuery} (leafy : filter.leaves ≠ []) (accepted : r.compileFilter q filter options = .ok query) :
    ∃ p joined, (Route.ofNode r.settings.reorder filter).compile ⟨r, q.adapter, options⟩
      (.root q (CompiledQuery.forQueryable q).rootBinding) (.forQueryable q) = .ok (p, joined) ∧
        query.predicates = p.conjuncts := by
  obtain ⟨_, applied⟩ := compileFilter_parts.mp accepted
  obtain ⟨_, _, _, ⟨empty, _⟩ | ⟨_, a, served, p, joined, compiled, narrows⟩⟩ := applyFilter_parts.mp applied
  · exact absurd (filter.leaves_of_empty empty) leafy
  · cases AdapterSet.forQueryable_exact served
    refine ⟨p, joined, compiled, ?_⟩
    rw [CompiledQuery.predicates_andPredicate narrows, ← CompiledQuery.predicates_unjoined joined,
      Route.compile_joins _ compiled, CompiledQuery.predicates_unjoined, CompiledQuery.predicates_forQueryable,
      List.nil_append]

namespace Predicate

theorem conjuncts_of_scope {p : Predicate} (scope : p.scope? = some b) : p.conjuncts = [p] := by
  unfold scope? at scope
  split at scope <;> cases scope <;> rfl

-- A single scope, closed as scopes are, is what comes to one.
theorem one_of_conjuncts {p lone : Predicate} (comes : p.ComesTo mode e) (sure : e ≠ .lossy)
    (single : p.conjuncts = [lone]) (scope : lone.scope? = some mode.negated) : e = .one true := by
  have count : p.atoms = 1 := by
    rw [← p.atoms_conjuncts, single, total, total, atoms_of_scope scope]
  cases e with
  | constant b =>
    rw [show p = constant p.kind b from comes, atoms_constant] at count
    cases count
  | one positive =>
    have own : p.scope? = some (positive == mode.negated) := comes
    rw [conjuncts_of_scope own] at single
    cases single
    rw [own] at scope
    cases positive <;> cases mode <;> first | rfl | cases scope
  | several =>
    have many : 2 ≤ p.atoms := comes
    omega
  | lossy => exact absurd rfl sure

end Predicate

-- All leaves go through the associations down to one that is to-many, and the filter is no negation.
def FilterNode.SharesToMany (r : Resolver) (a : Adapter) (q : Queryable) (n : FilterNode) : Prop :=
  n.standsAlone = false ∧ ∃ names, r.ToMany a q names ∧ ∀ l ∈ n.leaves, l.Behind names

theorem FilterNode.leaves_of_shares {n : FilterNode} (shares : n.standsAlone = false) : n.leaves ≠ [] := by
  intro leafless
  simp [standsAlone, leafy, leafless] at shares

-- Wrapped, everything ends up in one scope.
theorem Resolver.one_of_wrapped {r : Resolver} {q : Queryable} {filter : FilterNode} {options : CompileOptions}
    {query : CompiledQuery} (connective : op ≠ .not) (shares : filter.SharesToMany r q.adapter q)
    (sure : filter.extent ≠ .lossy) (accepted : r.compileFilter q filter options = .ok query)
    (wrapped : r.compileFilter q (.combine op [filter]) options = .ok query) : filter.extent = .one true := by
  obtain ⟨alone, names, toMany, behind⟩ := shares
  have own : q.adapter.kind = (CompiledQuery.forQueryable q).kind := (CompiledQuery.kind_forQueryable q).symm
  have plain : ∀ child rest, op = .not → [filter] = child :: rest → False := fun _ _ negation _ => connective negation
  have leafy := FilterNode.leaves_of_shares alone
  have leafy' : (FilterNode.combine op [filter]).leaves ≠ [] := by
    simpa [FilterNode.leaves, FilterNode.listLeaves] using leafy
  obtain ⟨p, _, compiled, parts⟩ := compileFilter_predicates leafy accepted
  obtain ⟨p', _, compiled', parts'⟩ := compileFilter_predicates leafy' wrapped
  rw [Route.ofNode_connective r.settings.reorder plain] at compiled'
  have comes := Route.compile_comesTo r.settings.reorder filter (fun l member => ⟨toMany, behind l member⟩) own compiled
  have shares : ∀ n ∈ [filter], n.standsAlone = false := by simpa using alone
  have scope := Route.compile_together r.settings.reorder (.ofCombinator op) (List.cons_ne_nil _ _) shares
    (by simpa [FilterNode.listLeaves] using behind) toMany own compiled'
  have single : p.conjuncts = [p'] := by
    rw [← parts, parts', Predicate.conjuncts_of_scope scope]
  exact Predicate.one_of_conjuncts comes sure single scope

theorem Resolver.truth_wrapped {r : Resolver} {q : Queryable} {filter : FilterNode} {options : CompileOptions}
    {query wrapped : CompiledQuery} (connective : op ≠ .not)
    (toOne : ∀ l ∈ filter.leaves, r.CrossesToOne q.adapter q l.field.segments)
    (accepted : r.compileFilter q filter options = .ok query)
    (accepted' : r.compileFilter q (.combine op [filter]) options = .ok wrapped) (v : Valuation) :
    wrapped.truth v = query.truth v := by
  refine truth_of_kleene toOne accepted accepted' ?_ ?_ v
  · simp [FilterNode.leaves, FilterNode.listLeaves]
  · exact FilterNode.kleene_wrapped connective filter

-- Wrapping changes nothing where no association is shared, and where the filter comes to one scope. When its
-- leaves share a to-many association, anything else is pulled into one scope by the wrapping.
theorem Resolver.wrapping_exact {r : Resolver} {q : Queryable} {filter : FilterNode} {options : CompileOptions}
    {op : Combinator} (connective : op ≠ .not) :
    (filter.sharedHead? = none ∨ filter.extent = .one true →
      r.compileFilter q (.combine op [filter]) options = r.compileFilter q filter options) ∧
    (filter.SharesToMany r q.adapter q → filter.extent ≠ .lossy →
      (∃ query, r.compileFilter q filter options = .ok query) →
        (r.compileFilter q (.combine op [filter]) options = r.compileFilter q filter options ↔
          filter.extent = .one true)) ∧
    ((∀ l ∈ filter.leaves, r.CrossesToOne q.adapter q l.field.segments) →
      ∀ query wrapped, r.compileFilter q filter options = .ok query →
        r.compileFilter q (.combine op [filter]) options = .ok wrapped → ∀ v, wrapped.truth v = query.truth v) := by
  refine ⟨compileFilter_wrapped r q options connective, ?_, ?_⟩
  · intro shares sure compiles
    obtain ⟨query, accepted⟩ := compiles
    constructor
    · intro same
      rw [accepted] at same
      exact one_of_wrapped connective shares sure accepted same
    · intro single
      exact compileFilter_wrapped r q options connective (.inr single)
  · intro toOne query wrapped accepted accepted'
    exact truth_wrapped connective toOne accepted accepted'

def post : Queryable :=
  ((Queryable.new "Post" "posts" .postgres).withColumn "title" "text" false).withColumn "stars" "integer" false

def author : Queryable :=
  ((Queryable.new "Author" "authors" .postgres).withColumn "name" "text" false).hasMany "posts" "Post" "author_id"

def authorResolver : Resolver :=
  { Resolver.ofAdapters .standard .standard with registry := (Registry.empty.register author).register post }

-- A post of that title, and none of many stars.
def titledNoneStarred : FilterNode :=
  .combine .and [
    .leaf ⟨⟨["posts", "title"]⟩, .eq, .str "a"⟩,
    .combine .not [.leaf ⟨⟨["posts", "stars"]⟩, .gt, .int 3⟩]]

theorem author_posts : (authorResolver.cross? .postgres author "posts").map (·.link.cardinality) = some .many := by
  decide +kernel

theorem titledNoneStarred_shares : titledNoneStarred.SharesToMany authorResolver author.adapter author := by
  obtain ⟨hop, crossed, many⟩ := Option.map_eq_some_iff.mp author_posts
  refine ⟨by decide, ["posts"], ⟨hop, crossed, .inl ⟨many, rfl⟩⟩, ?_⟩
  intro l member
  simp only [titledNoneStarred, FilterNode.leaves, FilterNode.listLeaves, List.append_nil, List.singleton_append,
    List.mem_cons, List.not_mem_nil, or_false] at member
  rcases member with rfl | rfl
  · exact ⟨"title", [], rfl⟩
  · exact ⟨"stars", [], rfl⟩

theorem titledNoneStarred_wrapping :
    Combinator.or ≠ .not ∧
    (titledNoneStarred.SharesToMany authorResolver author.adapter author ∧ titledNoneStarred.extent ≠ .lossy ∧
      (∃ query, authorResolver.compileFilter author titledNoneStarred .standard = .ok query) ∧
      (authorResolver.compileFilter author (.combine .or [titledNoneStarred]) .standard =
        authorResolver.compileFilter author titledNoneStarred .standard ↔ titledNoneStarred.extent = .one true)) ∧
    (notLedByAnn.sharedHead? = none ∧ staffResolver.compileFilter staff (.combine .or [notLedByAnn]) .standard =
      staffResolver.compileFilter staff notLedByAnn .standard) ∧
    ((∀ l ∈ notLedByAnn.leaves, staffResolver.CrossesToOne staff.adapter staff l.field.segments) ∧
      ∃ query wrapped, staffResolver.compileFilter staff notLedByAnn .standard = .ok query ∧
        staffResolver.compileFilter staff (.combine .or [notLedByAnn]) .standard = .ok wrapped ∧
          ∀ v, wrapped.truth v = query.truth v) := by
  have connective : Combinator.or ≠ .not := by decide
  refine ⟨connective, ?_, ?_, ?_⟩
  · have sure : titledNoneStarred.extent ≠ .lossy := by decide
    have succeeded : (authorResolver.compileFilter author titledNoneStarred .standard).isOk = true := by
      decide +kernel
    have compiles := ok_of_isOk succeeded
    exact ⟨titledNoneStarred_shares, sure, compiles,
      (Resolver.wrapping_exact connective).2.1 titledNoneStarred_shares sure compiles⟩
  · have unshared : notLedByAnn.sharedHead? = none := by decide
    exact ⟨unshared, (Resolver.wrapping_exact connective).1 (.inl unshared)⟩
  · have succeeded : (staffResolver.compileFilter staff notLedByAnn .standard).isOk = true := by decide +kernel
    have succeeded' : (staffResolver.compileFilter staff (.combine .or [notLedByAnn]) .standard).isOk = true := by
      decide +kernel
    obtain ⟨query, accepted⟩ := ok_of_isOk succeeded
    obtain ⟨wrapped, accepted'⟩ := ok_of_isOk succeeded'
    exact ⟨notLedByAnn_toOne, query, wrapped, accepted, accepted',
      (Resolver.wrapping_exact connective).2.2 notLedByAnn_toOne query wrapped accepted accepted'⟩

-- Two subqueries become one, with the negation inside.
theorem wrapping_changes : ¬∀ (r : Resolver) (q : Queryable) (filter : FilterNode) (options : CompileOptions),
    filter.validate = .ok () →
      r.compileFilter q (.combine .and [filter]) options = r.compileFilter q filter options := by
  intro all
  have same := all authorResolver author titledNoneStarred .standard rfl
  have one : (authorResolver.compileFilter author (.combine .and [titledNoneStarred]) .standard).toOption.map
      CompiledQuery.joinCount = some 1 := by
    decide +kernel
  have two : (authorResolver.compileFilter author titledNoneStarred .standard).toOption.map
      CompiledQuery.joinCount = some 2 := by
    decide +kernel
  rw [same, two] at one
  cases one

theorem FilterNode.validate_twice (n : FilterNode) : (combine .not [combine .not [n]]).validate = n.validate := by
  rw [validate_wrapped, validate_wrapped]

theorem FilterNode.referencedPaths_twice (n : FilterNode) :
    (combine .not [combine .not [n]]).referencedPaths = n.referencedPaths := by
  rw [referencedPaths_wrapped, referencedPaths_wrapped]

theorem Route.ofNode_twice (reorder : Bool) (n : FilterNode) :
    (ofNode reorder (.combine .not [.combine .not [n]])).Alike (ofNode reorder n) := by
  rw [ofNode, ofNode]
  exact alike_twice _

namespace Resolver

variable {r : Resolver} {q : Queryable} {filter : FilterNode} {options : CompileOptions} {query : CompiledQuery}

theorem applyFilter_normal {base : CompiledQuery} (normal : base.Normal)
    (accepted : r.applyFilter base q filter options = .ok query) : query.Normal := by
  obtain ⟨_, _, _, ⟨_, rfl⟩ | ⟨_, a, _, p, joined, compiled, narrows⟩⟩ := applyFilter_parts.mp accepted
  · exact normal
  · have around : joined.Normal := CompiledQuery.normal_of_unjoined (Route.compile_joins _ compiled) normal
    exact CompiledQuery.andPredicate_normal around (Route.compile_normal _ compiled) narrows

theorem compileFilter_normal (accepted : r.compileFilter q filter options = .ok query) : query.Normal :=
  applyFilter_normal (CompiledQuery.normal_forQueryable q) (compileFilter_parts.mp accepted).2

-- The two negations change nothing, since every predicate that is compiled on the way is in normal form.
theorem compileFilter_twice (r : Resolver) (q : Queryable) (filter : FilterNode) (options : CompileOptions) :
    r.compileFilter q (.combine .not [.combine .not [filter]]) options = r.compileFilter q filter options ∧
    (∀ query, r.compileFilter q filter options = .ok query → query.Normal) ∧
    (∀ (route : Route) (c : FilterContext) (scope : Scope) (base joined : CompiledQuery) (p : Predicate),
      route.compile c scope base = .ok (p, joined) → p.Normal) ∧
    ∀ p : Predicate, p.Normal → p.negate.Normal ∧ p.negate.negate = p := by
  refine ⟨?_, ?_, ?_, ?_⟩
  · exact compileFilter_congr filter.validate_twice filter.referencedPaths_twice (Route.ofNode_twice _ filter)
  · intro query accepted
    exact compileFilter_normal accepted
  · intro route c scope base joined p compiled
    exact Route.compile_normal route compiled
  · intro p normal
    exact ⟨Predicate.normal_negate normal, Predicate.negate_negate (Predicate.steady_of_normal normal)⟩

end Resolver

theorem titledNoneStarred_twice : ∃ query,
    authorResolver.compileFilter author titledNoneStarred .standard = .ok query ∧
      authorResolver.compileFilter author (.combine .not [.combine .not [titledNoneStarred]]) .standard = .ok query ∧
      query.Normal ∧ ∃ p joined,
        (Route.ofNode authorResolver.settings.reorder titledNoneStarred).compile ⟨authorResolver, author.adapter, .standard⟩
          (.root author (CompiledQuery.forQueryable author).rootBinding) (.forQueryable author) = .ok (p, joined) ∧
        p.Normal ∧ p.negate.Normal ∧ p.negate.negate = p := by
  have succeeded : (authorResolver.compileFilter author titledNoneStarred .standard).isOk = true := by decide +kernel
  obtain ⟨query, accepted⟩ := ok_of_isOk succeeded
  obtain ⟨same, whole, normal, twice⟩ := Resolver.compileFilter_twice authorResolver author titledNoneStarred .standard
  have leafy : titledNoneStarred.leaves ≠ [] := FilterNode.leaves_of_shares titledNoneStarred_shares.1
  obtain ⟨p, joined, compiled, _⟩ := Resolver.compileFilter_predicates leafy accepted
  have own := normal _ _ _ _ joined p compiled
  exact ⟨query, accepted, same.trans accepted, whole query accepted, p, joined, compiled, own, twice p own⟩

-- Negating twice does not give back what is no normal form.
example : (Expr.not (.constant true)).negate.negate = .constant false := by rfl

end FilterQuery
