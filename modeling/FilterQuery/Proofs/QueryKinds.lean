import FilterQuery.Proofs.Layout
import FilterQuery.Proofs.RouteRuns

namespace FilterQuery

-- One test of a field of the root, or negations of one.
def FilterNode.bare : FilterNode → Bool
  | leaf l => l.field.firstHop?.isNone
  | combine .not (child :: _) => child.bare
  | _ => false

-- Whether a leaf is accepted depends on the definition it is tested on, not on the path to it or its binding.
theorem FilterContext.test_elsewhere {c : FilterContext} {scope : Scope} (other : Scope)
    (same : scope.queryable = other.queryable) (tested : c.test scope l = .ok p) : ∃ p', c.test other l = .ok p' := by
  obtain ⟨name, f, ty, named, found, scalar, typed⟩ := test_parts.mp tested
  obtain ⟨offered, held, operand, coerced, built⟩ := typed_parts.mp typed
  have alike : BuiltAlike Predicate.Normal
      (c.adapter.predicate? f l.operator operand ⟨some scope.binding, c.options.unit⟩)
      (c.adapter.predicate? f l.operator operand ⟨some other.binding, c.options.unit⟩) :=
    c.adapter.predicate_alike f l.operator operand rfl
  have both := alike.together
  rw [built, Option.isSome_some, eq_comm, Option.isSome_iff_exists] at both
  obtain ⟨p', built'⟩ := both
  rw [same] at found
  have coerced' : Operand.coerce (other.path.append l.field).dotted l.operator ty f.enumMembers l.value = .ok operand :=
    Operand.coerce_exact.mpr (Operand.coerce_exact.mp coerced)
  exact ⟨p', test_parts.mpr ⟨name, f, ty, named, found, scalar,
    typed_parts.mpr ⟨offered, held, operand, coerced', built'⟩⟩⟩

namespace Route

mutual
-- What is walked together is a connective, so a scope always closes over a predicate of its kind.
def Grouped : Route → Prop
  | test _ => True
  | negate inner => inner.Grouped
  | join _ parts => AllGrouped parts
  | through _ inner => inner.bare = false ∧ inner.Grouped

def AllGrouped : List Route → Prop
  | [] => True
  | part :: rest => part.Grouped ∧ AllGrouped rest
end

theorem ofNode_grouped (reorder : Bool) (n : FilterNode) :
    (ofNode reorder n).Grouped ∧ (ofNode reorder n).bare = n.bare := by
  refine ofNode.induct reorder (fun n => (ofNode reorder n).Grouped ∧ (ofNode reorder n).bare = n.bare)
    (fun op ns => (ofNodes reorder op ns).Grouped ∧ (ofNodes reorder op ns).bare = false)
    (fun op siblings => AllGrouped (ofSiblings reorder op siblings)) ?_ ?_ ?_ ?_ ?_ ?_ ?_ ?_ n
  case refine_1 =>
    intro l flat
    rw [ofNode_flat reorder flat, FilterNode.bare, flat]
    exact ⟨trivial, rfl⟩
  case refine_2 =>
    intro l head nested ih
    rw [ofNode_nested reorder nested, FilterNode.bare, nested]
    exact ⟨⟨ih.2, ih.1⟩, ih.2⟩
  case refine_3 =>
    intro child rest ih
    rw [ofNode]
    exact ih
  case refine_4 =>
    intro op children plain ih
    rw [ofNode_connective reorder plain, ih.2]
    refine ⟨ih.1, ?_⟩
    unfold FilterNode.bare
    split
    · rename_i same
      cases same
    · rename_i child rest same
      cases same
      exact absurd rfl (plain child rest rfl)
    · rfl
  case refine_5 =>
    intro op ns ih
    rw [ofNodes]
    exact ⟨ih, rfl⟩
  case refine_6 =>
    intro op
    rw [ofSiblings]
    trivial
  case refine_7 =>
    intro op n rest here later
    rw [ofSiblings]
    exact ⟨here.1, later⟩
  case refine_8 =>
    intro op head group rest here later
    rw [ofSiblings]
    exact ⟨⟨here.2, here.1⟩, later⟩

section Compiled

variable {c : FilterContext}

mutual
-- Every association leads somewhere, and every leaf is accepted where the route takes it.
def Cleared (c : FilterContext) (owner : Queryable) : Route → Prop
  | test l => ∃ p, c.test (.root owner "") l = .ok p
  | negate inner => inner.Cleared c owner
  | join _ parts => AllCleared c owner parts
  | through head inner => ∃ hop, c.resolver.cross? c.adapter owner head = some hop ∧ inner.Cleared c hop.related

def AllCleared (c : FilterContext) (owner : Queryable) : List Route → Prop
  | [] => True
  | part :: rest => part.Cleared c owner ∧ AllCleared c owner rest
end

mutual
-- Whether a route compiles depends on the definitions, not on the query or the bindings.
theorem compile_exact (route : Route) (grouped : route.Grouped) (scope : Scope) (q : CompiledQuery) :
    (∃ p joined, route.compile c scope q = .ok (p, joined)) ↔ route.Cleared c scope.queryable := by
  cases route with
  | test l =>
    have same : scope.queryable = (Scope.root scope.queryable "").queryable := rfl
    constructor
    · rintro ⟨p, joined, compiled⟩
      obtain ⟨tested, _⟩ := test_parts.mp compiled
      exact FilterContext.test_elsewhere _ same tested
    · rintro ⟨p, tested⟩
      obtain ⟨p', tested'⟩ := FilterContext.test_elsewhere _ same.symm tested
      exact ⟨p', q, test_parts.mpr ⟨tested', rfl⟩⟩
  | negate inner =>
    refine Iff.trans ?_ (compile_exact inner grouped scope q)
    constructor
    · rintro ⟨p, joined, compiled⟩
      obtain ⟨plain, inside, _⟩ := negate_parts.mp compiled
      exact ⟨plain, joined, inside⟩
    · rintro ⟨plain, joined, inside⟩
      exact ⟨plain.negate, joined, negate_parts.mpr ⟨plain, inside, rfl⟩⟩
  | join op parts =>
    refine Iff.trans ?_ (compileAll_exact parts grouped scope q)
    constructor
    · rintro ⟨p, joined, compiled⟩
      obtain ⟨ps, inside, _⟩ := join_parts.mp compiled
      exact ⟨ps, joined, inside⟩
    · rintro ⟨ps, joined, inside⟩
      exact ⟨_, joined, join_parts.mpr ⟨ps, inside, rfl⟩⟩
  | through head inner =>
    obtain ⟨joins, grouped⟩ := grouped
    constructor
    · rintro ⟨p, joined, compiled⟩
      obtain ⟨hop, crossed, ⟨_, inside⟩ | ⟨_, _, plain, below, inside, _⟩⟩ := through_parts.mp compiled
      · exact ⟨hop, crossed, (compile_exact inner grouped _ _).mp ⟨p, joined, inside⟩⟩
      · exact ⟨hop, crossed, (compile_exact inner grouped _ _).mp ⟨plain, below, inside⟩⟩
    · rintro ⟨hop, crossed, cleared⟩
      have inside : ∀ q', ∃ p joined, inner.compile c (scope.enter q head hop) q' = .ok (p, joined) :=
        fun _ => (compile_exact inner grouped _ _).mpr cleared
      cases cardinality : hop.link.cardinality with
      | one =>
        obtain ⟨p, joined, compiled⟩ := inside _
        exact ⟨p, joined, through_parts.mpr ⟨hop, crossed, .inl ⟨cardinality, compiled⟩⟩⟩
      | many =>
        obtain ⟨plain, below, compiled⟩ := inside _
        have agree : plain.kind = below.kind := by
          rw [compile_kind inner compiled, joined_kind compiled, joins, if_neg Bool.false_ne_true]
        obtain ⟨closed, accepted⟩ := CompiledQuery.closeScope_exact.mpr agree
        exact ⟨closed, q, through_parts.mpr ⟨hop, crossed, .inr ⟨cardinality, rfl, plain, below, compiled, accepted⟩⟩⟩

theorem compileAll_exact (parts : List Route) (grouped : AllGrouped parts) (scope : Scope) (q : CompiledQuery) :
    (∃ ps joined, compileAll c scope parts q = .ok (ps, joined)) ↔ AllCleared c scope.queryable parts := by
  cases parts with
  | nil => exact ⟨fun _ => trivial, fun _ => ⟨[], q, nil_parts.mpr ⟨rfl, rfl⟩⟩⟩
  | cons part rest =>
    constructor
    · rintro ⟨ps, joined, compiled⟩
      obtain ⟨p, mid, others, here, later, _⟩ := cons_parts.mp compiled
      exact ⟨(compile_exact part grouped.1 _ _).mp ⟨p, mid, here⟩,
        (compileAll_exact rest grouped.2 _ _).mp ⟨others, joined, later⟩⟩
    · rintro ⟨here, later⟩
      obtain ⟨p, mid, compiled⟩ := (compile_exact part grouped.1 scope q).mpr here
      obtain ⟨others, joined, compiled'⟩ := (compileAll_exact rest grouped.2 scope mid).mpr later
      exact ⟨p :: others, joined, cons_parts.mpr ⟨p, mid, others, compiled, compiled', rfl⟩⟩
end

theorem compile_root (route : Route) (grouped : route.Grouped) {q : Queryable} {binding : String} (binding' : String)
    {base joined : CompiledQuery} (base' : CompiledQuery) {p : Predicate}
    (compiled : route.compile c (.root q binding) base = .ok (p, joined)) :
    ∃ p' joined', route.compile c (.root q binding') base' = .ok (p', joined') := by
  have cleared : route.Cleared c q := (compile_exact route grouped _ _).mp ⟨p, joined, compiled⟩
  exact (compile_exact route grouped _ _).mpr cleared

end Compiled
end Route

namespace Resolver

variable {r : Resolver} {base : CompiledQuery} {q : Queryable} {filter : FilterNode} {options : CompileOptions}

-- What compiles is of the kind that the query starts with, so it always narrows.
theorem compileFilter_of_route (served : r.adapterFor q = .ok a) (valid : filter.validate = .ok ())
    (permitted : options.access.check filter.referencedPaths = .ok ())
    (shallow : r.checkDepths filter.referencedPaths = .ok ())
    (compiled : (Route.ofNode r.settings.reorder filter).compile ⟨r, a, options⟩
      (.root q (CompiledQuery.forQueryable q).rootBinding) (.forQueryable q) = .ok (p, joined)) :
    ∃ query, r.compileFilter q filter options = .ok query := by
  cases empty : filter.isEmpty with
  | true =>
    exact ⟨_, compileFilter_parts.mpr ⟨⟨a, served⟩, applyFilter_parts.mpr
      ⟨valid, permitted, shallow, .inl ⟨empty, rfl⟩⟩⟩⟩
  | false =>
    have own : a.kind = (CompiledQuery.forQueryable q).kind := by
      rw [CompiledQuery.kind_forQueryable, AdapterSet.forQueryable_exact served]
    have agree := Route.compile_own (c := ⟨r, a, options⟩) own compiled
    rw [← Route.joined_kind compiled] at agree
    obtain ⟨query, narrows⟩ := CompiledQuery.andPredicate_exact.mpr agree
    exact ⟨query, compileFilter_parts.mpr ⟨⟨a, served⟩, applyFilter_parts.mpr
      ⟨valid, permitted, shallow, .inr ⟨empty, a, served, p, joined, compiled, narrows⟩⟩⟩⟩

-- A filter with leaves compiles when its route does from the rows of the definition.
theorem compileFilter_exact (leafy : filter.leaves ≠ []) (served : r.adapterFor q = .ok a) :
    (∃ query, r.compileFilter q filter options = .ok query) ↔
      filter.validate = .ok () ∧ options.access.check filter.referencedPaths = .ok () ∧
        r.checkDepths filter.referencedPaths = .ok () ∧ ∃ p joined,
          (Route.ofNode r.settings.reorder filter).compile ⟨r, a, options⟩
            (.root q (CompiledQuery.forQueryable q).rootBinding) (.forQueryable q) = .ok (p, joined) := by
  constructor
  · intro given
    obtain ⟨query, accepted⟩ := given
    obtain ⟨_, applied⟩ := compileFilter_parts.mp accepted
    obtain ⟨valid, permitted, shallow, ⟨empty, _⟩ | ⟨_, a', served', p, joined, compiled, _⟩⟩ :=
      applyFilter_parts.mp applied
    · exact absurd (filter.leaves_of_empty empty) leafy
    · rw [served] at served'
      cases served'
      exact ⟨valid, permitted, shallow, p, joined, compiled⟩
  · intro given
    obtain ⟨valid, permitted, shallow, p, joined, compiled⟩ := given
    exact compileFilter_of_route served valid permitted shallow compiled

-- A query of the other kind refuses a bare test. Whatever else compiles for the definition is accepted, and
-- the tests in it are passed over.
theorem applyFilter_mismatch (served : r.adapterFor q = .ok a) (mismatch : a.kind ≠ base.kind)
    (leafy : filter.leaves ≠ []) :
    (∃ narrowed, r.applyFilter base q filter options = .ok narrowed) ↔
      filter.bare = false ∧ ∃ query, r.compileFilter q filter options = .ok query := by
  obtain ⟨grouped, bareness⟩ := Route.ofNode_grouped r.settings.reorder filter
  rw [compileFilter_exact leafy served]
  constructor
  · intro given
    obtain ⟨narrowed, accepted⟩ := given
    obtain ⟨valid, permitted, shallow, ⟨empty, _⟩ | ⟨_, a', served', p, joined, compiled, narrows⟩⟩ :=
      applyFilter_parts.mp accepted
    · exact absurd (filter.leaves_of_empty empty) leafy
    · rw [served] at served'
      cases served'
      have agree := CompiledQuery.andPredicate_exact.mp ⟨narrowed, narrows⟩
      rw [Route.compile_kind _ compiled, Route.joined_kind compiled, bareness] at agree
      refine ⟨?_, valid, permitted, shallow, Route.compile_root _ grouped _ _ compiled⟩
      cases bare : filter.bare with
      | true =>
        rw [bare, if_pos rfl] at agree
        exact absurd agree mismatch
      | false => rfl
  · intro given
    obtain ⟨bare, valid, permitted, shallow, p, joined, compiled⟩ := given
    obtain ⟨p', joined', compiled'⟩ := Route.compile_root _ grouped base.rootBinding base compiled
    have agree : p'.kind = joined'.kind := by
      rw [Route.compile_kind _ compiled', Route.joined_kind compiled', bareness, bare, if_neg Bool.false_ne_true]
    obtain ⟨narrowed, narrows⟩ := CompiledQuery.andPredicate_exact.mpr agree
    have filled : filter.isEmpty = false := by
      cases empty : filter.isEmpty with
      | true => exact absurd (filter.leaves_of_empty empty) leafy
      | false => rfl
    exact ⟨narrowed, applyFilter_parts.mpr
      ⟨valid, permitted, shallow, .inr ⟨filled, a, served, p', joined', compiled', narrows⟩⟩⟩

end Resolver

def article : Queryable := (Queryable.new "Article" "articles" .search).withColumn "title" "text" false

def reader : Queryable := (Queryable.new "Reader" "readers" .postgres).withColumn "name" "text" false

def shelfResolver : Resolver :=
  { Resolver.ofAdapters .standard .standard with registry := (Registry.empty.register article).register reader }

def titled : FilterNode := .combine .and [.leaf ⟨⟨["title"]⟩, .eq, .str "a"⟩]

theorem titled_mismatch :
    shelfResolver.adapterFor article = .ok .search ∧ Adapter.search.kind ≠ (CompiledQuery.forQueryable reader).kind ∧
      titled.leaves ≠ [] ∧
      ((∃ narrowed, shelfResolver.applyFilter (.forQueryable reader) article titled .standard = .ok narrowed) ↔
        titled.bare = false ∧ ∃ query, shelfResolver.compileFilter article titled .standard = .ok query) := by
  have served : shelfResolver.adapterFor article = .ok .search := by rfl
  have mismatch : Adapter.search.kind ≠ (CompiledQuery.forQueryable reader).kind := by decide
  have leafy : titled.leaves ≠ [] := by simp [titled, FilterNode.leaves, FilterNode.listLeaves]
  exact ⟨served, mismatch, leafy, Resolver.applyFilter_mismatch served mismatch leafy⟩

-- The SELECT over readers comes back without the test of the title.
theorem mismatch_accepted : ¬∀ (r : Resolver) (base : CompiledQuery) (q : Queryable) (filter : FilterNode)
    (options : CompileOptions) (a : Adapter), r.adapterFor q = .ok a → a.kind ≠ base.kind → filter.leaves ≠ [] →
      filter.validate = .ok () → ¬∃ narrowed, r.applyFilter base q filter options = .ok narrowed := by
  intro never
  have leafy : titled.leaves ≠ [] := by simp [titled, FilterNode.leaves, FilterNode.listLeaves]
  have accepted : (shelfResolver.applyFilter (.forQueryable reader) article titled .standard).isOk = true := by
    decide +kernel
  exact never shelfResolver (.forQueryable reader) article titled .standard .search rfl (by decide) leafy rfl
    (ok_of_isOk accepted)

end FilterQuery
