import FilterQuery.Proofs.BindingTrace
import FilterQuery.Proofs.Shuffling

namespace FilterQuery

namespace CompiledQuery

-- Compiling a route does nothing else to the query around it.
def addJoin (q : CompiledQuery) (j : Join) : CompiledQuery :=
  match q with
  | sql d s => sql d (s.join j)
  | search r => search r

theorem bindToOne_eq (q : CompiledQuery) (parent binding : String) (link : Link) (related : Queryable) :
    q.bindToOne parent binding link related =
      q.addJoin ⟨.left, related.source, binding, correlation parent binding link⟩ := by
  cases q <;> rfl

theorem unjoined_addJoin (q : CompiledQuery) (j : Join) : (q.addJoin j).unjoined = q.unjoined := by
  cases q with
  | search r => rfl
  | sql d s =>
    simp only [addJoin, unjoined, Select.join]
    split <;> rfl

def dialect? : CompiledQuery → Option Dialect
  | sql d _ => some d
  | search _ => none

theorem dialect_of_unjoined {q other : CompiledQuery} (same : q.unjoined = other.unjoined) :
    q.dialect? = other.dialect? := by
  cases q <;> cases other <;> try cases same
  · simp only [unjoined, sql.injEq] at same
    exact congrArg some same.1
  · rfl

theorem kind_of_dialect {q other : CompiledQuery} (same : q.dialect? = other.dialect?) : q.kind = other.kind := by
  cases q <;> cases other <;> first | rfl | cases same

-- A scope of its own has nothing of the query but the dialect.
theorem openScope_of_dialect {q other : CompiledQuery} (same : q.dialect? = other.dialect?) (related : Queryable)
    (binding : String) : q.openScope related binding = other.openScope related binding := by
  cases q <;> cases other <;> first | cases same; done | skip
  · rw [openScope, openScope, Option.some.inj same]
  · rfl

theorem openScope_unjoined {q other : CompiledQuery} (same : q.unjoined = other.unjoined) (related : Queryable)
    (binding : String) : q.openScope related binding = other.openScope related binding :=
  openScope_of_dialect (dialect_of_unjoined same) related binding

end CompiledQuery

namespace Route

mutual
-- To-many associations are joined in a query of their own, along with what they lead to.
def needs (c : FilterContext) (scope : Scope) (q : CompiledQuery) : Route → List Join
  | test _ => []
  | negate inner => inner.needs c scope q
  | join _ parts => allNeeds c scope q parts
  | through head inner =>
    match c.resolver.cross? c.adapter scope.queryable head with
    | none => []
    | some hop =>
      match hop.link.cardinality with
      | .one => (Bound.of scope.queryable scope [] q head hop).join :: inner.needs c (scope.enter q head hop) q
      | .many => []

def allNeeds (c : FilterContext) (scope : Scope) (q : CompiledQuery) : List Route → List Join
  | [] => []
  | part :: rest => part.needs c scope q ++ allNeeds c scope q rest
end

variable {c : FilterContext}

theorem needs_one {scope : Scope} {q : CompiledQuery} (inner : Route)
    (crossed : c.resolver.cross? c.adapter scope.queryable head = some hop) (one : hop.link.cardinality = .one) :
    (through head inner).needs c scope q =
      (Bound.of scope.queryable scope [] q head hop).join :: inner.needs c (scope.enter q head hop) q := by
  rw [needs, crossed]
  simp only [one]

theorem needs_many {scope : Scope} {q : CompiledQuery} (inner : Route)
    (crossed : c.resolver.cross? c.adapter scope.queryable head = some hop) (many : hop.link.cardinality = .many) :
    (through head inner).needs c scope q = [] := by
  rw [needs, crossed]
  simp only [many]

mutual
-- Bindings go by the kind of the query.
theorem needs_of_kind (route : Route) (scope : Scope) {q other : CompiledQuery} (same : q.kind = other.kind) :
    route.needs c scope q = route.needs c scope other := by
  cases route with
  | test l => rfl
  | negate inner => exact needs_of_kind inner scope same
  | join op parts => exact allNeeds_of_kind parts scope same
  | through head inner =>
    have binding := CompiledQuery.bindingFor_of_kind same (scope.path.child head)
    simp only [needs, Scope.enter, Bound.of, Bound.join, binding, needs_of_kind inner _ same]

theorem allNeeds_of_kind (parts : List Route) (scope : Scope) {q other : CompiledQuery} (same : q.kind = other.kind) :
    allNeeds c scope q parts = allNeeds c scope other parts := by
  cases parts with
  | nil => rfl
  | cons part rest => rw [allNeeds, allNeeds, needs_of_kind part scope same, allNeeds_of_kind rest scope same]
end

mutual
theorem compile_needs (route : Route) {scope : Scope} {q joined : CompiledQuery} {p : Predicate}
    (compiled : route.compile c scope q = .ok (p, joined)) : joined = (route.needs c scope q).foldl .addJoin q := by
  cases route with
  | test l =>
    obtain ⟨_, rfl⟩ := test_parts.mp compiled
    rfl
  | negate inner =>
    obtain ⟨plain, inside, _⟩ := negate_parts.mp compiled
    exact compile_needs inner inside
  | join op parts =>
    obtain ⟨ps, inside, _⟩ := join_parts.mp compiled
    exact compileAll_needs parts inside
  | through head inner =>
    obtain ⟨hop, crossed, ⟨one, inside⟩ | ⟨many, rfl, _⟩⟩ := through_parts.mp compiled
    · have kind := q.kind_bindToOne scope.binding (q.bindingFor (scope.path.child head)) hop.link hop.related
      rw [needs_one inner crossed one, List.foldl_cons, ← inner.needs_of_kind _ kind]
      rw [compile_needs inner inside, CompiledQuery.bindToOne_eq]
      rfl
    · rw [needs_many inner crossed many, List.foldl_nil]

theorem compileAll_needs (parts : List Route) {scope : Scope} {q joined : CompiledQuery} {ps : List Predicate}
    (compiled : compileAll c scope parts q = .ok (ps, joined)) :
    joined = (allNeeds c scope q parts).foldl .addJoin q := by
  cases parts with
  | nil =>
    obtain ⟨_, rfl⟩ := nil_parts.mp compiled
    rfl
  | cons part rest =>
    obtain ⟨p, mid, others, here, later, _⟩ := cons_parts.mp compiled
    rw [allNeeds, List.foldl_append, ← compile_needs part here, ← allNeeds_of_kind rest scope (joined_kind here)]
    exact compileAll_needs rest later
end

-- The predicate, whatever comes of the query.
def gives? (c : FilterContext) (scope : Scope) (q : CompiledQuery) (route : Route) : Option Predicate :=
  (route.compile c scope q).toOption.map Prod.fst

theorem gives_exact {scope : Scope} {q : CompiledQuery} {route : Route} {p : Predicate} :
    route.gives? c scope q = some p ↔ ∃ joined, route.compile c scope q = .ok (p, joined) := by
  unfold gives?
  cases route.compile c scope q with
  | error fault => simp [Except.toOption]
  | ok outcome =>
    obtain ⟨p', joined⟩ := outcome
    simp [Except.toOption]

mutual
theorem compile_elsewhere (route : Route) {scope : Scope} {q joined other : CompiledQuery} {p : Predicate}
    (same : q.dialect? = other.dialect?) (compiled : route.compile c scope q = .ok (p, joined)) :
    ∃ after, route.compile c scope other = .ok (p, after) := by
  cases route with
  | test l =>
    obtain ⟨tested, _⟩ := test_parts.mp compiled
    exact ⟨other, test_parts.mpr ⟨tested, rfl⟩⟩
  | negate inner =>
    obtain ⟨plain, inside, rfl⟩ := negate_parts.mp compiled
    obtain ⟨after, there⟩ := compile_elsewhere inner same inside
    exact ⟨after, negate_parts.mpr ⟨plain, there, rfl⟩⟩
  | join op parts =>
    obtain ⟨ps, inside, rfl⟩ := join_parts.mp compiled
    obtain ⟨after, there⟩ := compileAll_elsewhere parts same inside
    rw [CompiledQuery.kind_of_dialect same]
    exact ⟨after, join_parts.mpr ⟨ps, there, rfl⟩⟩
  | through head inner =>
    obtain ⟨hop, crossed, way⟩ := through_parts.mp compiled
    have binding := CompiledQuery.bindingFor_of_kind (CompiledQuery.kind_of_dialect same) (scope.path.child head)
    have entered : scope.enter q head hop = scope.enter other head hop := by rw [Scope.enter, Scope.enter, binding]
    rcases way with ⟨one, inside⟩ | ⟨many, _, plain, below, inside, closed⟩
    · rw [entered, binding] at inside
      have bound : (q.bindToOne scope.binding (other.bindingFor (scope.path.child head)) hop.link hop.related).dialect? =
          (other.bindToOne scope.binding (other.bindingFor (scope.path.child head)) hop.link hop.related).dialect? := by
        rw [CompiledQuery.dialect_of_unjoined (q.unjoined_bindToOne ..),
          CompiledQuery.dialect_of_unjoined (other.unjoined_bindToOne ..), same]
      obtain ⟨after, there⟩ := compile_elsewhere inner bound inside
      exact ⟨after, through_parts.mpr ⟨hop, crossed, .inl ⟨one, there⟩⟩⟩
    · rw [entered, binding, CompiledQuery.openScope_of_dialect same] at inside
      rw [binding] at closed
      exact ⟨other, through_parts.mpr ⟨hop, crossed, .inr ⟨many, rfl, plain, below, inside, closed⟩⟩⟩

theorem compileAll_elsewhere (parts : List Route) {scope : Scope} {q joined other : CompiledQuery} {ps : List Predicate}
    (same : q.dialect? = other.dialect?) (compiled : compileAll c scope parts q = .ok (ps, joined)) :
    ∃ after, compileAll c scope parts other = .ok (ps, after) := by
  cases parts with
  | nil =>
    obtain ⟨rfl, _⟩ := nil_parts.mp compiled
    exact ⟨other, rfl⟩
  | cons part rest =>
    obtain ⟨p, mid, others, here, later, rfl⟩ := cons_parts.mp compiled
    obtain ⟨mid', there⟩ := compile_elsewhere part same here
    have left : mid.dialect? = mid'.dialect? := by
      rw [CompiledQuery.dialect_of_unjoined (compile_joins part here),
        CompiledQuery.dialect_of_unjoined (compile_joins part there), same]
    obtain ⟨after, further⟩ := compileAll_elsewhere rest left later
    exact ⟨after, cons_parts.mpr ⟨p, mid', others, there, further, rfl⟩⟩
end

theorem gives_of_dialect (route : Route) {scope : Scope} {q other : CompiledQuery} (same : q.dialect? = other.dialect?) :
    route.gives? c scope q = route.gives? c scope other := by
  refine Option.ext fun p => ?_
  rw [gives_exact, gives_exact]
  constructor
  · rintro ⟨joined, compiled⟩
    exact compile_elsewhere route same compiled
  · rintro ⟨joined, compiled⟩
    exact compile_elsewhere route same.symm compiled

theorem gives_of_unjoined (route : Route) {scope : Scope} {q other : CompiledQuery}
    (same : q.unjoined = other.unjoined) : route.gives? c scope q = route.gives? c scope other :=
  route.gives_of_dialect (CompiledQuery.dialect_of_unjoined same)

-- Each part gives what it gives alone.
theorem compileAll_gives (parts : List Route) {scope : Scope} {q joined : CompiledQuery} {ps : List Predicate}
    (compiled : compileAll c scope parts q = .ok (ps, joined)) : parts.map (gives? c scope q) = ps.map some := by
  induction parts generalizing q ps with
  | nil =>
    obtain ⟨rfl, _⟩ := nil_parts.mp compiled
    rfl
  | cons part rest ih =>
    obtain ⟨p, mid, others, here, later, rfl⟩ := cons_parts.mp compiled
    rw [List.map_cons, List.map_cons, gives_exact.mpr ⟨mid, here⟩, ← ih later]
    refine congrArg _ (List.map_congr_left ?_)
    exact fun part _ => part.gives_of_unjoined (compile_joins _ here).symm

mutual
-- What is joined is bound along a path that the route crosses, and goes by it.
theorem needs_byPath (route : Route) {root : Queryable} {base : CompiledQuery} {scope : Scope} {q : CompiledQuery}
    (served : c.adapter = root.adapter) (placed : scope.Placed c.resolver root.adapter root base)
    (kind : q.kind = base.kind) :
    ∀ j ∈ route.needs c scope q, ∃ b : Bound, b.root = root ∧ b.path ∈ route.hops scope.path ∧
      b.ByPath c.resolver base ∧ j = b.join := by
  cases route with
  | test l => simp [needs]
  | negate inner => exact needs_byPath inner served placed kind
  | join op parts => exact allNeeds_byPath parts served placed kind
  | through head inner =>
    intro j member
    cases crossed : c.resolver.cross? c.adapter scope.queryable head with
    | none => simp [needs, crossed] at member
    | some hop =>
      cases cardinality : hop.link.cardinality with
      | many => simp [needs_many inner crossed cardinality] at member
      | one =>
        rw [needs_one inner crossed cardinality] at member
        rw [served] at crossed
        rcases List.mem_cons.mp member with rfl | deeper
        · refine ⟨Bound.of root scope [] q head hop, rfl, List.mem_cons_self .., ?_, rfl⟩
          exact ⟨scope.path, head, scope.queryable, rfl, placed.reached, crossed, placed.bound,
            CompiledQuery.bindingFor_of_kind kind _⟩
        · obtain ⟨b, led, among, byPath, same⟩ := needs_byPath inner served (placed.enter_placed crossed kind) kind j deeper
          exact ⟨b, led, List.mem_cons_of_mem _ among, byPath, same⟩

theorem allNeeds_byPath (parts : List Route) {root : Queryable} {base : CompiledQuery} {scope : Scope}
    {q : CompiledQuery} (served : c.adapter = root.adapter)
    (placed : scope.Placed c.resolver root.adapter root base) (kind : q.kind = base.kind) :
    ∀ j ∈ allNeeds c scope q parts, ∃ b : Bound, b.root = root ∧ b.path ∈ listHops scope.path parts ∧
      b.ByPath c.resolver base ∧ j = b.join := by
  cases parts with
  | nil => simp [allNeeds]
  | cons part rest =>
    intro j member
    rcases List.mem_append.mp member with here | later
    · obtain ⟨b, led, among, rest⟩ := needs_byPath part served placed kind j here
      exact ⟨b, led, List.mem_append_left _ among, rest⟩
    · obtain ⟨b, led, among, rest⟩ := allNeeds_byPath rest served placed kind j later
      exact ⟨b, led, List.mem_append_right _ among, rest⟩
end

-- Where no two paths have the same binding, a binding is needed for one join only.
theorem needs_distinct (route : Route) {root : Queryable} {base : CompiledQuery} {scope : Scope} {q : CompiledQuery}
    (served : c.adapter = root.adapter) (placed : scope.Placed c.resolver root.adapter root base)
    (kind : q.kind = base.kind) (apart : ∀ path ∈ route.hops scope.path, ∀ other ∈ route.hops scope.path,
      base.bindingFor path = base.bindingFor other → path = other) :
    ∀ j ∈ route.needs c scope q, ∀ k ∈ route.needs c scope q, j.binding = k.binding → j = k := by
  intro j member k member' same
  obtain ⟨b, led, among, byPath, rfl⟩ := route.needs_byPath served placed kind j member
  obtain ⟨b', led', among', byPath', rfl⟩ := route.needs_byPath served placed kind k member'
  obtain ⟨_, _, _, _, _, _, _, named⟩ := id byPath
  obtain ⟨_, _, _, _, _, _, _, named'⟩ := id byPath'
  have path : b.path = b'.path := by
    refine apart _ among _ among' ?_
    rw [← named, ← named']
    exact same
  exact Bound.join_of_path byPath byPath' (led.trans led'.symm) path

end Route
end FilterQuery
