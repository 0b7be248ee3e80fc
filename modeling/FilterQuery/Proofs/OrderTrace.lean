import FilterQuery.Proofs.BindingTrace

namespace FilterQuery

namespace CompiledQuery

-- Neither what a query sorts by nor its conditions are joins.
structure SameFrame (q other : CompiledQuery) : Prop where
  kind : other.kind = q.kind
  rootBinding : other.rootBinding = q.rootBinding
  joins : other.joins = q.joins

theorem sameFrame_pushOrder (q : CompiledQuery) (binding column : String) (direction : Direction) (nulls : Nulls) :
    q.SameFrame (q.pushOrder binding column direction nulls) := by
  cases q <;> exact ⟨rfl, rfl, rfl⟩

theorem sameFrame_pushAggregateOrder (q : CompiledQuery) (parent binding : String) (link : Link) (related : Queryable)
    (column : String) (direction : Direction) (nulls : Nulls) :
    q.SameFrame (q.pushAggregateOrder parent binding link related column direction nulls) := by
  cases q <;> exact ⟨rfl, rfl, rfl⟩

theorem sameFrame_andPredicate {q narrowed : CompiledQuery} {p : Predicate}
    (accepted : q.andPredicate? p = some narrowed) : q.SameFrame narrowed := by
  cases q <;> cases p <;> cases accepted
  · exact ⟨rfl, rfl, rfl⟩
  · exact ⟨rfl, rfl, rfl⟩

theorem rootBinding_bindToOne (q : CompiledQuery) (parent binding : String) (link : Link) (related : Queryable) :
    (q.bindToOne parent binding link related).rootBinding = q.rootBinding := by
  rw [← rootBinding_unjoined, unjoined_bindToOne, rootBinding_unjoined]

end CompiledQuery

namespace OrderContext

variable {c : OrderContext} {scope : Scope} {q sorted : CompiledQuery}

def trace (c : OrderContext) (root : Queryable) (scope : Scope) (selects : List String) :
    List String → CompiledQuery → List Bound
  | name :: next :: rest, q =>
    match c.resolver.cross? c.adapter scope.queryable name with
    | none => []
    | some hop =>
      Bound.of root scope selects q name hop ::
        match hop.link.cardinality with
        | .one => c.trace root (scope.enter q name hop) selects (next :: rest)
            (q.bindToOne scope.binding (q.bindingFor (scope.path.child name)) hop.link hop.related)
        | .many => []
  | _, _ => []

theorem flat_parts (accepted : c.walk scope q [name] = .ok sorted) : q.SameFrame sorted := by
  rw [walk] at accepted
  obtain ⟨f, _, pushed⟩ := bind_exact.mp accepted
  cases pushed
  exact q.sameFrame_pushOrder ..

theorem aggregate_parts {path : FieldPath} (accepted : c.aggregate scope path hop rest q = .ok sorted) :
    (∃ name, rest = [name]) ∧ q.SameFrame sorted := by
  unfold aggregate at accepted
  split at accepted
  · cases accepted
  · split at accepted
    · rename_i name
      obtain ⟨f, _, pushed⟩ := bind_exact.mp accepted
      cases pushed
      exact ⟨⟨name, rfl⟩, q.sameFrame_pushAggregateOrder ..⟩
    · cases accepted

theorem walk_parts : c.walk scope q (name :: next :: rest) = .ok sorted ↔
    ∃ hop, c.resolver.cross? c.adapter scope.queryable name = some hop ∧
      (hop.link.cardinality = .one ∧ c.walk (scope.enter q name hop)
          (q.bindToOne scope.binding (q.bindingFor (scope.path.child name)) hop.link hop.related) (next :: rest) =
            .ok sorted ∨
        hop.link.cardinality = .many ∧ c.aggregate scope (scope.path.child name) hop (next :: rest) q = .ok sorted) := by
  rw [walk]
  simp only [bind_exact]
  constructor
  · intro given
    obtain ⟨f, named, hop, led, way⟩ := given
    refine ⟨hop, (Resolver.cross_exact c.term.path).mp ⟨f, named, led⟩, ?_⟩
    cases cardinality : hop.link.cardinality with
    | one =>
      rw [cardinality] at way
      exact .inl ⟨rfl, way⟩
    | many =>
      rw [cardinality] at way
      exact .inr ⟨rfl, way⟩
  · intro given
    obtain ⟨hop, crossed, way⟩ := given
    obtain ⟨f, named, led⟩ := (Resolver.cross_exact c.term.path).mpr crossed
    refine ⟨f, named, hop, led, ?_⟩
    rcases way with ⟨one, further⟩ | ⟨many, further⟩
    · rw [one]
      exact further
    · rw [many]
      exact further
  · simp

theorem trace_through (root : Queryable) (selects : List String) (next : String) (rest : List String)
    (crossed : c.resolver.cross? c.adapter scope.queryable name = some hop) :
    c.trace root scope selects (name :: next :: rest) q =
      Bound.of root scope selects q name hop ::
        match hop.link.cardinality with
        | .one => c.trace root (scope.enter q name hop) selects (next :: rest)
            (q.bindToOne scope.binding (q.bindingFor (scope.path.child name)) hop.link hop.related)
        | .many => [] := by
  rw [trace, crossed]

-- A term binds what it crosses on the way to its field.
theorem trace_paths {root : Queryable} {selects names : List String} (accepted : c.walk scope q names = .ok sorted) :
    (c.trace root scope selects names q).map Bound.path = scope.path.hopsTo names := by
  induction names generalizing scope q with
  | nil => rfl
  | cons name later ih =>
    cases later with
    | nil => rfl
    | cons next rest =>
      obtain ⟨hop, crossed, way⟩ := walk_parts.mp accepted
      rw [trace_through root selects next rest crossed, List.map_cons, FieldPath.hopsTo]
      rcases way with ⟨one, further⟩ | ⟨many, further⟩
      · rw [one]
        exact congrArg (scope.path.child name :: ·) (ih further)
      · obtain ⟨⟨last, shape⟩, _⟩ := aggregate_parts further
        cases shape
        rw [many]
        rfl

section Traced

variable {all : Bound → Prop} {base : CompiledQuery} {root : Queryable} {selects : List String}

theorem walk_registered {names : List String} (served : c.adapter = root.adapter)
    (around : Surroundings all c.resolver base root scope selects q)
    (known : ∀ b ∈ c.trace root scope selects names q, all b) (accepted : c.walk scope q names = .ok sorted) :
    sorted.kind = q.kind ∧ sorted.rootBinding = q.rootBinding ∧ Registered all sorted.joins := by
  induction names generalizing scope q with
  | nil => cases accepted
  | cons name later ih =>
    cases later with
    | nil =>
      have same := flat_parts accepted
      exact ⟨same.kind, same.rootBinding, same.joins ▸ around.registered⟩
    | cons next rest =>
      obtain ⟨hop, crossed, way⟩ := walk_parts.mp accepted
      rw [trace_through root selects next rest crossed] at known
      have here := known _ (List.mem_cons_self ..)
      rw [served] at crossed
      rcases way with ⟨one, further⟩ | ⟨_, further⟩
      · rw [one] at known
        obtain ⟨kind, rooted, registered⟩ := ih (around.enter_one crossed here)
          (fun b member => known b (List.mem_cons_of_mem _ member)) further
        exact ⟨kind.trans (CompiledQuery.kind_bindToOne ..), rooted.trans (CompiledQuery.rootBinding_bindToOne ..),
          registered⟩
      · obtain ⟨_, same⟩ := aggregate_parts further
        exact ⟨same.kind, same.rootBinding, same.joins ▸ around.registered⟩

theorem trace_traced {names : List String} (served : c.adapter = root.adapter)
    (around : Surroundings all c.resolver base root scope selects q)
    (known : ∀ b ∈ c.trace root scope selects names q, all b) :
    ∀ b ∈ c.trace root scope selects names q, b.root = root ∧ b.Traced all c.resolver base := by
  induction names generalizing scope q with
  | nil => simp [trace]
  | cons name later ih =>
    cases later with
    | nil => simp [trace]
    | cons next rest =>
      cases found : c.resolver.cross? c.adapter scope.queryable name with
      | none => simp [trace, found]
      | some hop =>
        rw [trace_through root selects next rest found] at known ⊢
        have here := known _ (List.mem_cons_self ..)
        have crossed := found
        rw [served] at crossed
        intro b member
        rcases List.mem_cons.mp member with rfl | deeper
        · exact ⟨rfl, around.bound_traced crossed⟩
        · cases cardinality : hop.link.cardinality with
          | one =>
            rw [cardinality] at known deeper
            exact ih (around.enter_one crossed here) (fun b member => known b (List.mem_cons_of_mem _ member)) b deeper
          | many =>
            rw [cardinality] at deeper
            cases deeper

end Traced
end OrderContext
end FilterQuery
