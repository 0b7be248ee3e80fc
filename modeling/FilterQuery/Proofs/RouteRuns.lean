import FilterQuery.Proofs.LeafPredicate
import FilterQuery.Proofs.RouteParts

namespace FilterQuery

namespace Predicate

@[simp] theorem kind_negate (p : Predicate) : p.negate.kind = p.kind := by cases p <;> rfl

@[simp] theorem kind_join (k : QueryKind) (op : Connective) (members : List Predicate) :
    (join k op members).kind = k := by
  cases k <;> cases op <;> rfl

end Predicate

namespace CompiledQuery

-- The query without its joins.
def unjoined : CompiledQuery → CompiledQuery
  | sql d s => sql d { s with joins := [] }
  | search r => search r

@[simp] theorem kind_unjoined (q : CompiledQuery) : q.unjoined.kind = q.kind := by cases q <;> rfl

@[simp] theorem rootBinding_unjoined (q : CompiledQuery) : q.unjoined.rootBinding = q.rootBinding := by
  cases q <;> rfl

theorem unjoined_bindToOne (q : CompiledQuery) (parent binding : String) (link : Link) (related : Queryable) :
    (q.bindToOne parent binding link related).unjoined = q.unjoined := by
  cases q with
  | search r => rfl
  | sql d s =>
    simp only [bindToOne, unjoined, Select.join]
    split <;> rfl

theorem kind_of_unjoined {q joined : CompiledQuery} (same : joined.unjoined = q.unjoined) : joined.kind = q.kind := by
  rw [← kind_unjoined joined, same, kind_unjoined]

@[simp] theorem kind_bindToOne (q : CompiledQuery) (parent binding : String) (link : Link) (related : Queryable) :
    (q.bindToOne parent binding link related).kind = q.kind :=
  kind_of_unjoined (q.unjoined_bindToOne parent binding link related)

@[simp] theorem kind_openScope (q : CompiledQuery) (related : Queryable) (binding : String) :
    (q.openScope related binding).kind = q.kind := by
  cases q <;> rfl

theorem bindingFor_of_kind {q q' : CompiledQuery} (same : q.kind = q'.kind) (path : FieldPath) :
    q.bindingFor path = q'.bindingFor path := by
  cases q <;> cases q' <;> first | rfl | cases same

theorem kind_forQueryable (q : Queryable) : (forQueryable q).kind = q.adapter.kind := by
  unfold forQueryable
  cases q.adapter <;> rfl

theorem andPredicate_exact {q : CompiledQuery} {p : Predicate} :
    (∃ narrowed, q.andPredicate? p = some narrowed) ↔ p.kind = q.kind := by
  cases q <;> cases p <;> simp [andPredicate?, kind, Predicate.kind]

theorem andPredicate_kind {q narrowed : CompiledQuery} {p : Predicate}
    (accepted : q.andPredicate? p = some narrowed) : narrowed.kind = q.kind := by
  cases q <;> cases p <;> first | cases Option.some.inj accepted; rfl | cases accepted

theorem closeScope_exact {below : CompiledQuery} {p : Predicate} :
    (∃ closed, below.closeScope? parent binding link p mode = some closed) ↔ p.kind = below.kind := by
  cases below <;> cases p <;> simp [closeScope?, kind, Predicate.kind]

theorem closeScope_kind {below : CompiledQuery} {p : Predicate}
    (accepted : below.closeScope? parent binding link p mode = some closed) : closed.kind = below.kind := by
  cases below <;> cases p <;> first | cases Option.some.inj accepted; rfl | cases accepted

theorem normal_of_unjoined {q joined : CompiledQuery} (same : joined.unjoined = q.unjoined) (normal : q.Normal) :
    joined.Normal := by
  cases q <;> cases joined <;> simp only [unjoined, sql.injEq, search.injEq, reduceCtorEq] at same
  · rename_i s _ s'
    have conditions : s'.conditions = s.conditions := (Select.mk.inj same.2).2.2.2.2.1
    rw [Normal, Expr.selectNormal_exact] at normal ⊢
    rwa [conditions]
  · rw [same]
    exact normal

end CompiledQuery

-- What the fields at the end of the path are addressed under.
def CompiledQuery.bindingAt (q : CompiledQuery) (path : FieldPath) : String :=
  if path.isEmpty then q.rootBinding else q.bindingFor path

-- The scope stands where its path leads from the root.
structure Scope.Placed (r : Resolver) (a : Adapter) (root : Queryable) (base : CompiledQuery) (scope : Scope) : Prop where
  reached : r.reach? a root scope.path.segments = some scope.queryable
  bound : scope.binding = base.bindingAt scope.path

namespace Scope.Placed

variable {r : Resolver} {a : Adapter} {root : Queryable} {base q : CompiledQuery} {scope : Scope}

theorem root_placed : (Scope.root root base.rootBinding).Placed r a root base := ⟨rfl, rfl⟩

theorem enter_placed (placed : scope.Placed r a root base)
    (crossed : r.cross? a scope.queryable head = some hop) (same : q.kind = base.kind) :
    (scope.enter q head hop).Placed r a root base := by
  refine ⟨Resolver.reach_child placed.reached crossed, ?_⟩
  have named : (scope.path.child head).isEmpty = false := by simp [FieldPath.isEmpty, FieldPath.child]
  simp only [Scope.enter, CompiledQuery.bindingAt, named, Bool.false_eq_true, if_false]
  exact CompiledQuery.bindingFor_of_kind same _

end Scope.Placed

theorem AdapterSet.forQueryable_exact {s : AdapterSet} {q : Queryable} {a : Adapter}
    (served : s.forQueryable q = .ok a) : q.adapter = a := by
  unfold forQueryable at served
  split at served
  · rename_i found handled
    cases served
    simpa [Adapter.handles] using List.find?_some handled
  · cases served

namespace Route

variable {c : FilterContext}

-- A test of its own or the negation of one, with no connective that could pass over it.
def bare : Route → Bool
  | test _ => true
  | negate inner => inner.bare
  | join _ _ => false
  | through _ inner => inner.bare

theorem test_predicate {scope : Scope} (tested : c.test scope l = .ok p) :
    p.kind = c.adapter.kind ∧ p.Normal := by
  obtain ⟨name, f, ty, _, _, _, typed⟩ := FilterContext.test_parts.mp tested
  obtain ⟨_, _, operand, _, built⟩ := FilterContext.typed_parts.mp typed
  exact ⟨Adapter.predicate_kind built, Adapter.predicate_normal built⟩

mutual
-- A compilation adds joins to the query and changes nothing else in it.
theorem compile_joins (route : Route) {scope : Scope} {q joined : CompiledQuery} {p : Predicate}
    (compiled : route.compile c scope q = .ok (p, joined)) : joined.unjoined = q.unjoined := by
  cases route with
  | test l =>
    obtain ⟨_, rfl⟩ := test_parts.mp compiled
    rfl
  | negate inner =>
    obtain ⟨plain, inside, _⟩ := negate_parts.mp compiled
    exact compile_joins inner inside
  | join op parts =>
    obtain ⟨ps, inside, _⟩ := join_parts.mp compiled
    exact compileAll_joins parts inside
  | through head inner =>
    obtain ⟨hop, _, ⟨_, inside⟩ | ⟨_, rfl, _⟩⟩ := through_parts.mp compiled
    · rw [compile_joins inner inside, CompiledQuery.unjoined_bindToOne]
    · rfl

theorem compileAll_joins (parts : List Route) {scope : Scope} {q joined : CompiledQuery} {ps : List Predicate}
    (compiled : compileAll c scope parts q = .ok (ps, joined)) : joined.unjoined = q.unjoined := by
  cases parts with
  | nil =>
    obtain ⟨_, rfl⟩ := nil_parts.mp compiled
    rfl
  | cons part rest =>
    obtain ⟨p, mid, others, here, later, _⟩ := cons_parts.mp compiled
    rw [compileAll_joins rest later, compile_joins part here]
end

theorem joined_kind {route : Route} {scope : Scope} {q joined : CompiledQuery} {p : Predicate}
    (compiled : route.compile c scope q = .ok (p, joined)) : joined.kind = q.kind :=
  CompiledQuery.kind_of_unjoined (compile_joins route compiled)

-- A bare test is of the adapter's kind, anything else is of the query's.
theorem compile_kind (route : Route) {scope : Scope} {q joined : CompiledQuery} {p : Predicate}
    (compiled : route.compile c scope q = .ok (p, joined)) :
    p.kind = if route.bare then c.adapter.kind else q.kind := by
  cases route with
  | test l =>
    obtain ⟨tested, _⟩ := test_parts.mp compiled
    exact (test_predicate tested).1
  | negate inner =>
    obtain ⟨plain, inside, rfl⟩ := negate_parts.mp compiled
    rw [Predicate.kind_negate]
    exact compile_kind inner inside
  | join op parts =>
    obtain ⟨ps, _, rfl⟩ := join_parts.mp compiled
    exact Predicate.kind_join ..
  | through head inner =>
    obtain ⟨hop, _, ⟨_, inside⟩ | ⟨_, _, plain, below, inside, closed⟩⟩ := through_parts.mp compiled
    · rw [← q.kind_bindToOne scope.binding (q.bindingFor (scope.path.child head)) hop.link hop.related]
      exact compile_kind inner inside
    · have within : below.kind = if inner.bare then c.adapter.kind else q.kind := by
        rw [← CompiledQuery.closeScope_exact.mp ⟨p, closed⟩]
        simpa using compile_kind inner inside
      rw [CompiledQuery.closeScope_kind closed]
      exact within

mutual
theorem compile_normal (route : Route) {scope : Scope} {q joined : CompiledQuery} {p : Predicate}
    (compiled : route.compile c scope q = .ok (p, joined)) : p.Normal := by
  cases route with
  | test l =>
    obtain ⟨tested, _⟩ := test_parts.mp compiled
    exact (test_predicate tested).2
  | negate inner =>
    obtain ⟨plain, inside, rfl⟩ := negate_parts.mp compiled
    exact Predicate.normal_negate (compile_normal inner inside)
  | join op parts =>
    obtain ⟨ps, inside, rfl⟩ := join_parts.mp compiled
    exact Predicate.normal_join op (compileAll_normal parts inside)
  | through head inner =>
    obtain ⟨hop, _, ⟨_, inside⟩ | ⟨_, _, plain, below, inside, closed⟩⟩ := through_parts.mp compiled
    · exact compile_normal inner inside
    · have opened : below.Normal :=
        CompiledQuery.normal_of_unjoined (compile_joins inner inside) (q.normal_openScope ..)
      exact CompiledQuery.closeScope_normal opened (compile_normal inner inside) closed

theorem compileAll_normal (parts : List Route) {scope : Scope} {q joined : CompiledQuery} {ps : List Predicate}
    (compiled : compileAll c scope parts q = .ok (ps, joined)) : ∀ p ∈ ps, p.Normal := by
  cases parts with
  | nil =>
    obtain ⟨rfl, _⟩ := nil_parts.mp compiled
    simp
  | cons part rest =>
    obtain ⟨p, mid, others, here, later, rfl⟩ := cons_parts.mp compiled
    intro p' member
    rcases List.mem_cons.mp member with rfl | among
    · exact compile_normal part here
    · exact compileAll_normal rest later p' among
end

theorem compile_steady (route : Route) {scope : Scope} {q joined : CompiledQuery} {p : Predicate}
    (compiled : route.compile c scope q = .ok (p, joined)) : p.Steady :=
  Predicate.steady_of_normal (compile_normal route compiled)

theorem compileAll_steady (parts : List Route) {scope : Scope} {q joined : CompiledQuery} {ps : List Predicate}
    (compiled : compileAll c scope parts q = .ok (ps, joined)) : ∀ p ∈ ps, p.Steady :=
  fun p member => Predicate.steady_of_normal (compileAll_normal parts compiled p member)

-- Where adapter and query agree, every predicate is of their kind.
theorem compile_own {route : Route} {scope : Scope} {q joined : CompiledQuery} {p : Predicate}
    (own : c.adapter.kind = q.kind) (compiled : route.compile c scope q = .ok (p, joined)) : p.kind = q.kind := by
  rw [compile_kind route compiled, own, ite_self]

theorem compileAll_own (parts : List Route) {scope : Scope} {q joined : CompiledQuery} {ps : List Predicate}
    (own : c.adapter.kind = q.kind) (compiled : compileAll c scope parts q = .ok (ps, joined)) :
    ∀ p ∈ ps, p.kind = q.kind := by
  induction parts generalizing q ps with
  | nil =>
    obtain ⟨rfl, _⟩ := nil_parts.mp compiled
    simp
  | cons part rest ih =>
    obtain ⟨p, mid, others, here, later, rfl⟩ := cons_parts.mp compiled
    have kept := joined_kind here
    intro p' member
    rcases List.mem_cons.mp member with rfl | among
    · exact compile_own own here
    · rw [← kept]
      exact ih (own.trans kept.symm) later p' among

end Route

theorem Resolver.applyFilter_kind {r : Resolver} {base narrowed : CompiledQuery} {q : Queryable}
    {filter : FilterNode} {options : CompileOptions} (accepted : r.applyFilter base q filter options = .ok narrowed) :
    narrowed.kind = base.kind := by
  obtain ⟨_, _, _, ⟨_, rfl⟩ | ⟨_, a, _, p, joined, compiled, narrows⟩⟩ := applyFilter_parts.mp accepted
  · rfl
  · rw [CompiledQuery.andPredicate_kind narrows, Route.joined_kind compiled]

end FilterQuery
