import FilterQuery.Compile.Order
import FilterQuery.Proofs.Layout
import FilterQuery.Proofs.RouteRuns

namespace FilterQuery

def CompiledQuery.joins : CompiledQuery → List Join
  | sql _ s => s.joins
  | search _ => []

structure Bound where
  -- The definition that the path is told from.
  root : Queryable
  path : FieldPath
  hop : Hop
  binding : String
  parent : String
  -- The SELECTs that the association is bound in, innermost first.
  selects : List String
  -- What the innermost of them joins already.
  joins : List Join

def Bound.join (b : Bound) : Join := ⟨.left, b.hop.related.source, b.binding, correlation b.parent b.binding b.hop.link⟩

-- Crossing the association from the scope.
def Bound.of (root : Queryable) (scope : Scope) (selects : List String) (q : CompiledQuery) (head : String)
    (hop : Hop) : Bound :=
  ⟨root, scope.path.child head, hop, q.bindingFor (scope.path.child head), scope.binding, selects, q.joins⟩

namespace Route

mutual
-- To-many associations open a SELECT of their own, which is around whatever they lead to.
def trace (c : FilterContext) (root : Queryable) (scope : Scope) (selects : List String) :
    Route → CompiledQuery → List Bound
  | test _, _ => []
  | negate inner, q => inner.trace c root scope selects q
  | join _ parts, q => traceAll c root scope selects parts q
  | through head inner, q =>
    match c.resolver.cross? c.adapter scope.queryable head with
    | none => []
    | some hop =>
      let b := Bound.of root scope selects q head hop
      b :: match hop.link.cardinality with
        | .one =>
          inner.trace c root (scope.enter q head hop) selects
            (q.bindToOne scope.binding b.binding hop.link hop.related)
        | .many =>
          inner.trace c root (scope.enter q head hop) (b.binding :: selects) (q.openScope hop.related b.binding)

def traceAll (c : FilterContext) (root : Queryable) (scope : Scope) (selects : List String) :
    List Route → CompiledQuery → List Bound
  | [], _ => []
  | part :: rest, q =>
    part.trace c root scope selects q ++
      match part.compile c scope q with
      | .ok (_, joined) => traceAll c root scope selects rest joined
      | .error _ => []
end

mutual
-- The paths of associations that the route crosses when it starts at the end of the path.
def hops (path : FieldPath) : Route → List FieldPath
  | test _ => []
  | negate inner => inner.hops path
  | join _ parts => listHops path parts
  | through head inner => path.child head :: inner.hops (path.child head)

def listHops (path : FieldPath) : List Route → List FieldPath
  | [] => []
  | part :: rest => part.hops path ++ listHops path rest
end

theorem trace_through {c : FilterContext} {root : Queryable} {scope : Scope} {selects : List String}
    {q : CompiledQuery} (inner : Route) (crossed : c.resolver.cross? c.adapter scope.queryable head = some hop) :
    (through head inner).trace c root scope selects q =
      Bound.of root scope selects q head hop :: match hop.link.cardinality with
        | .one => inner.trace c root (scope.enter q head hop) selects
            (q.bindToOne scope.binding (q.bindingFor (scope.path.child head)) hop.link hop.related)
        | .many => inner.trace c root (scope.enter q head hop) (q.bindingFor (scope.path.child head) :: selects)
            (q.openScope hop.related (q.bindingFor (scope.path.child head))) := by
  rw [trace, crossed]
  rfl

theorem traceAll_cons {c : FilterContext} {root : Queryable} {scope : Scope} {selects : List String}
    {q mid : CompiledQuery} (rest : List Route) (compiled : part.compile c scope q = .ok (p, mid)) :
    traceAll c root scope selects (part :: rest) q =
      part.trace c root scope selects q ++ traceAll c root scope selects rest mid := by
  rw [traceAll, compiled]

mutual
-- What is bound is what the route crosses, in that order.
theorem trace_paths {c : FilterContext} {root : Queryable} (route : Route) {scope : Scope} {selects : List String}
    {q joined : CompiledQuery} {p : Predicate} (compiled : route.compile c scope q = .ok (p, joined)) :
    (route.trace c root scope selects q).map Bound.path = route.hops scope.path := by
  cases route with
  | test l => rfl
  | negate inner =>
    obtain ⟨plain, inside, _⟩ := negate_parts.mp compiled
    exact trace_paths inner inside
  | join op parts =>
    obtain ⟨ps, inside, _⟩ := join_parts.mp compiled
    exact traceAll_paths parts inside
  | through head inner =>
    obtain ⟨hop, crossed, way⟩ := through_parts.mp compiled
    rw [trace_through inner crossed, List.map_cons, hops]
    rcases way with ⟨one, inside⟩ | ⟨many, _, plain, below, inside, _⟩
    · rw [one]
      exact congrArg (scope.path.child head :: ·) (trace_paths inner inside)
    · rw [many]
      exact congrArg (scope.path.child head :: ·) (trace_paths inner inside)

theorem traceAll_paths {c : FilterContext} {root : Queryable} (parts : List Route) {scope : Scope}
    {selects : List String} {q joined : CompiledQuery} {ps : List Predicate}
    (compiled : compileAll c scope parts q = .ok (ps, joined)) :
    (traceAll c root scope selects parts q).map Bound.path = listHops scope.path parts := by
  cases parts with
  | nil => rfl
  | cons part rest =>
    obtain ⟨p, mid, others, here, later, _⟩ := cons_parts.mp compiled
    rw [traceAll_cons rest here, List.map_append, listHops, trace_paths part here, traceAll_paths rest later]
end

end Route

-- The associations on the way to the field that the names lead to.
def FieldPath.hopsTo (path : FieldPath) : List String → List FieldPath
  | name :: next :: rest => path.child name :: (path.child name).hopsTo (next :: rest)
  | _ => []

theorem Leaf.hopsTo_nested {l : Leaf} (path : FieldPath) (nested : l.field.firstHop? = some head) :
    path.hopsTo l.field.segments = path.child head :: (path.child head).hopsTo l.strip.field.segments := by
  obtain ⟨next, rest, shape, left⟩ := l.strip_parts nested
  rw [shape, left, FieldPath.hopsTo]

theorem FieldPath.hopsTo_flat {path field : FieldPath} (flat : field.firstHop? = none) :
    path.hopsTo field.segments = [] := by
  unfold hopsTo
  split
  · rename_i name next rest shape
    rw [firstHop_exact.mpr ⟨next, rest, shape⟩] at flat
    cases flat
  · rfl

namespace Route

-- Whatever the grouping, the associations crossed are those on the way to the leaves.
theorem layout_hops (reorder : Bool) (target : FieldPath) : ∀ n path, n.NegatesOne →
    (target ∈ (ofNode reorder n).hops path ↔ ∃ l ∈ n.leaves, target ∈ path.hopsTo l.field.segments) := by
  apply ofNode.induct reorder
    (fun n => ∀ path, n.NegatesOne →
      (target ∈ (ofNode reorder n).hops path ↔ ∃ l ∈ n.leaves, target ∈ path.hopsTo l.field.segments))
    (fun op ns => ∀ path, FilterNode.AllNegateOne ns → (target ∈ (ofNodes reorder op ns).hops path ↔
      ∃ l ∈ FilterNode.listLeaves ns, target ∈ path.hopsTo l.field.segments))
    (fun op siblings => ∀ path, FilterNode.AllNegateOne (Sibling.nodes siblings) →
      (target ∈ listHops path (ofSiblings reorder op siblings) ↔
        ∃ l ∈ FilterNode.listLeaves (Sibling.nodes siblings), target ∈ path.hopsTo l.field.segments))
  case case1 =>
    intro l flat path _
    rw [ofNode_flat reorder flat]
    simp [hops, FilterNode.leaves, FieldPath.hopsTo_flat flat]
  case case2 =>
    intro l head nested ih path _
    rw [ofNode_nested reorder nested, hops, List.mem_cons, ih _ ⟨trivial, trivial⟩]
    simp [FilterNode.leaves, FilterNode.listLeaves, l.hopsTo_nested path nested]
  case case3 =>
    intro child rest ih path sound
    obtain ⟨one, below⟩ := sound
    have alone : rest = [] := by simpa using one rfl
    subst alone
    rw [ofNode, hops, ih path below.1]
    simp [FilterNode.leaves, FilterNode.listLeaves]
  case case4 =>
    intro op children plain ih path sound
    rw [ofNode_connective reorder plain, ih path sound.2, FilterNode.leaves]
  case case5 =>
    intro op ns ih path sound
    have moved := Sibling.nodes_arranged reorder ns
    rw [ofNodes, hops, ih path (FilterNode.allNegateOne_perm moved.symm sound)]
    simp only [(FilterNode.listLeaves_perm moved).mem_iff]
  case case6 =>
    intro op path _
    rw [ofSiblings]
    simp [listHops, Sibling.nodes, FilterNode.listLeaves]
  case case7 =>
    intro op n rest here later path sound
    rw [ofSiblings, listHops, List.mem_append, here path sound.1, later path sound.2, Sibling.nodes,
      FilterNode.listLeaves]
    simp only [List.mem_append, or_and_right, exists_or]
  case case8 =>
    intro op head group rest here later path sound
    obtain ⟨grouped, others⟩ := FilterNode.allNegateOne_append.mp sound
    have crossing : target ∈ (through head (ofNodes reorder op (FilterNode.stripAll group.nodes))).hops path ↔
        ∃ l ∈ FilterNode.listLeaves group.nodes, target ∈ path.hopsTo l.field.segments := by
      rw [hops, List.mem_cons, here _ (FilterNode.allNegateOne_stripAll grouped), FilterNode.listLeaves_stripAll]
      constructor
      · intro given
        rcases given with rfl | ⟨stripped, member, below⟩
        · obtain ⟨l, leaf⟩ := group.some_leaf
          exact ⟨l, leaf, by simp [l.hopsTo_nested path (group.nested leaf)]⟩
        · obtain ⟨l, leaf, rfl⟩ := List.mem_map.mp member
          exact ⟨l, leaf, by simp [l.hopsTo_nested path (group.nested leaf), below]⟩
      · intro given
        obtain ⟨l, leaf, below⟩ := given
        rw [l.hopsTo_nested path (group.nested leaf), List.mem_cons] at below
        rcases below with same | deeper
        · exact .inl same
        · exact .inr ⟨l.strip, List.mem_map_of_mem leaf, deeper⟩
    rw [ofSiblings, listHops, List.mem_append, crossing, later path others, Sibling.nodes,
      FilterNode.listLeaves_append]
    simp only [List.mem_append, or_and_right, exists_or]

end Route

-- The bindings go by the path: where it leads and what its parts are bound to decide everything.
def Bound.ByPath (r : Resolver) (base : CompiledQuery) (b : Bound) : Prop :=
  ∃ (before : FieldPath) (name : String) (owner : Queryable), b.path = before.child name ∧
    r.reach? b.root.adapter b.root before.segments = some owner ∧ r.cross? b.root.adapter owner name = some b.hop ∧
    b.parent = base.bindingAt before ∧ b.binding = base.bindingFor b.path

theorem FieldPath.child_inj {path other : FieldPath} (same : path.child name = other.child name') :
    path = other ∧ name = name' := by
  cases path
  cases other
  simpa [child] using same

theorem Bound.join_of_path {r : Resolver} {base : CompiledQuery} {b b' : Bound} (own : b.ByPath r base)
    (own' : b'.ByPath r base) (root : b.root = b'.root) (path : b.path = b'.path) : b.join = b'.join := by
  obtain ⟨before, name, owner, shape, reached, crossed, parent, binding⟩ := own
  obtain ⟨before', name', owner', shape', reached', crossed', parent', binding'⟩ := own'
  obtain ⟨rfl, rfl⟩ := FieldPath.child_inj (shape.symm.trans (path.trans shape'))
  rw [root, reached', Option.some.injEq] at reached
  subst reached
  rw [root, crossed', Option.some.injEq] at crossed
  simp only [Bound.join, crossed, parent, parent', binding, binding', path]

-- The name at the end of a path is the root's or that of the association that the path ends with.
def Stands (all : Bound → Prop) (base : CompiledQuery) (root : Queryable) (path : FieldPath) (name : String) : Prop :=
  path = .empty ∧ name = base.rootBinding ∨ ∃ b, all b ∧ b.root = root ∧ b.path = path ∧ b.binding = name

-- A SELECT around is that of the root or of an association bound nearer to the root.
def Nearer (all : Bound → Prop) (base : CompiledQuery) (root : Queryable) (limit : Nat) (name : String) : Prop :=
  name = base.rootBinding ∨
    ∃ near, all near ∧ near.root = root ∧ near.binding = name ∧ near.path.length < limit

theorem Nearer.mono {all : Bound → Prop} (near : Nearer all base root limit name) (wider : limit ≤ further) :
    Nearer all base root further name := by
  rcases near with rfl | ⟨b, known, led, named, short⟩
  · exact .inl rfl
  · exact .inr ⟨b, known, led, named, by omega⟩

-- Every join is that of something bound.
def Registered (all : Bound → Prop) (joins : List Join) : Prop := ∀ j ∈ joins, ∃ b, all b ∧ j = b.join

structure Bound.Traced (all : Bound → Prop) (r : Resolver) (base : CompiledQuery) (b : Bound) : Prop where
  byPath : b.ByPath r base
  parent : ∃ before name, b.path = before.child name ∧ Stands all base b.root before b.parent
  rooted : base.rootBinding ∈ b.selects
  nearer : ∀ name ∈ b.selects, Nearer all base b.root b.path.length name
  registered : Registered all b.joins

-- What holds around a scope while associations are bound from it.
structure Surroundings (all : Bound → Prop) (r : Resolver) (base : CompiledQuery) (root : Queryable) (scope : Scope)
    (selects : List String) (q : CompiledQuery) : Prop where
  kind : q.kind = base.kind
  placed : scope.Placed r root.adapter root base
  stands : Stands all base root scope.path scope.binding
  rooted : base.rootBinding ∈ selects
  nearer : ∀ name ∈ selects, Nearer all base root (scope.path.length + 1) name
  registered : Registered all q.joins

namespace Surroundings

variable {all : Bound → Prop} {r : Resolver} {base q : CompiledQuery} {root : Queryable} {scope : Scope}
  {selects : List String}

theorem length_child (path : FieldPath) (name : String) : (path.child name).length = path.length + 1 := by
  simp [FieldPath.child, FieldPath.length]

theorem bound_traced (around : Surroundings all r base root scope selects q)
    (crossed : r.cross? root.adapter scope.queryable head = some hop) :
    (Bound.of root scope selects q head hop).Traced all r base := by
  refine ⟨⟨scope.path, head, scope.queryable, rfl, around.placed.reached, crossed, around.placed.bound, ?_⟩,
    ⟨scope.path, head, rfl, around.stands⟩, around.rooted, ?_, around.registered⟩
  · exact CompiledQuery.bindingFor_of_kind around.kind _
  · simp only [Bound.of, length_child]
    exact around.nearer

theorem registered_bindToOne (around : Surroundings all r base root scope selects q)
    (known : all (Bound.of root scope selects q head hop)) :
    Registered all (q.bindToOne scope.binding (q.bindingFor (scope.path.child head)) hop.link hop.related).joins := by
  have before := around.registered
  cases q with
  | search request => exact before
  | sql d s =>
    simp only [CompiledQuery.bindToOne, CompiledQuery.joins, Select.join] at before ⊢
    split
    · exact before
    · intro j member
      rcases List.mem_append.mp member with old | new
      · exact before j old
      · exact ⟨_, known, List.mem_singleton.mp new⟩

theorem enter_stands (known : all (Bound.of root scope selects q head hop)) :
    Stands all base root (scope.enter q head hop).path (scope.enter q head hop).binding :=
  .inr ⟨_, known, rfl, rfl, rfl⟩

theorem enter_nearer (around : Surroundings all r base root scope selects q) :
    ∀ name ∈ selects, Nearer all base root ((scope.path.child head).length + 1) name := by
  intro name member
  rw [length_child]
  exact (around.nearer name member).mono (by omega)

theorem enter_one (around : Surroundings all r base root scope selects q)
    (crossed : r.cross? root.adapter scope.queryable head = some hop)
    (known : all (Bound.of root scope selects q head hop)) :
    Surroundings all r base root (scope.enter q head hop) selects
      (q.bindToOne scope.binding (q.bindingFor (scope.path.child head)) hop.link hop.related) :=
  ⟨by simpa using around.kind, around.placed.enter_placed crossed around.kind, enter_stands known, around.rooted,
    around.enter_nearer, around.registered_bindToOne known⟩

theorem enter_many (around : Surroundings all r base root scope selects q)
    (crossed : r.cross? root.adapter scope.queryable head = some hop)
    (known : all (Bound.of root scope selects q head hop)) :
    Surroundings all r base root (scope.enter q head hop) (q.bindingFor (scope.path.child head) :: selects)
      (q.openScope hop.related (q.bindingFor (scope.path.child head))) := by
  refine ⟨by simpa using around.kind, around.placed.enter_placed crossed around.kind, enter_stands known,
    List.mem_cons_of_mem _ around.rooted, ?_, ?_⟩
  · intro name member
    rcases List.mem_cons.mp member with rfl | outer
    · exact .inr ⟨_, known, rfl, rfl, by simp [Bound.of, Scope.enter, length_child]⟩
    · exact around.enter_nearer name outer
  · intro j member
    cases q <;> simp [CompiledQuery.openScope, CompiledQuery.joins, Select.new] at member

theorem grown (around : Surroundings all r base root scope selects q) {joined : CompiledQuery}
    (kind : joined.kind = q.kind) (registered : Registered all joined.joins) :
    Surroundings all r base root scope selects joined :=
  ⟨kind.trans around.kind, around.placed, around.stands, around.rooted, around.nearer, registered⟩

end Surroundings

namespace Route

variable {all : Bound → Prop} {c : FilterContext} {base : CompiledQuery} {root : Queryable}

mutual
theorem compile_registered (route : Route) {scope : Scope} {selects : List String} {q joined : CompiledQuery}
    {p : Predicate} (served : c.adapter = root.adapter)
    (around : Surroundings all c.resolver base root scope selects q)
    (known : ∀ b ∈ route.trace c root scope selects q, all b)
    (compiled : route.compile c scope q = .ok (p, joined)) : Registered all joined.joins := by
  cases route with
  | test l =>
    obtain ⟨_, rfl⟩ := test_parts.mp compiled
    exact around.registered
  | negate inner =>
    obtain ⟨plain, inside, _⟩ := negate_parts.mp compiled
    exact compile_registered inner served around known inside
  | join op parts =>
    obtain ⟨ps, inside, _⟩ := join_parts.mp compiled
    exact compileAll_registered parts served around known inside
  | through head inner =>
    obtain ⟨hop, crossed, way⟩ := through_parts.mp compiled
    rw [trace_through inner crossed] at known
    have here := known _ (List.mem_cons_self ..)
    rw [served] at crossed
    rcases way with ⟨one, inside⟩ | ⟨_, rfl, _⟩
    · rw [one] at known
      exact compile_registered inner served (around.enter_one crossed here)
        (fun b member => known b (List.mem_cons_of_mem _ member)) inside
    · exact around.registered

theorem compileAll_registered (parts : List Route) {scope : Scope} {selects : List String} {q joined : CompiledQuery}
    {ps : List Predicate} (served : c.adapter = root.adapter)
    (around : Surroundings all c.resolver base root scope selects q)
    (known : ∀ b ∈ traceAll c root scope selects parts q, all b)
    (compiled : compileAll c scope parts q = .ok (ps, joined)) : Registered all joined.joins := by
  cases parts with
  | nil =>
    obtain ⟨_, rfl⟩ := nil_parts.mp compiled
    exact around.registered
  | cons part rest =>
    obtain ⟨p, mid, others, here, later, _⟩ := cons_parts.mp compiled
    rw [traceAll_cons rest here] at known
    have first := compile_registered part served around (fun b member => known b (List.mem_append_left _ member)) here
    exact compileAll_registered rest served (around.grown (joined_kind here) first)
      (fun b member => known b (List.mem_append_right _ member)) later
end

mutual
theorem trace_traced (route : Route) {scope : Scope} {selects : List String} {q : CompiledQuery}
    (served : c.adapter = root.adapter) (around : Surroundings all c.resolver base root scope selects q)
    (known : ∀ b ∈ route.trace c root scope selects q, all b) :
    ∀ b ∈ route.trace c root scope selects q, b.root = root ∧ b.Traced all c.resolver base := by
  cases route with
  | test l => simp [trace]
  | negate inner => exact trace_traced inner served around known
  | join op parts => exact traceAll_traced parts served around known
  | through head inner =>
    cases found : c.resolver.cross? c.adapter scope.queryable head with
    | none => simp [trace, found]
    | some hop =>
      rw [trace_through inner found] at known ⊢
      have here := known _ (List.mem_cons_self ..)
      have crossed := found
      rw [served] at crossed
      intro b member
      rcases List.mem_cons.mp member with rfl | deeper
      · exact ⟨rfl, around.bound_traced crossed⟩
      · cases cardinality : hop.link.cardinality with
        | one =>
          rw [cardinality] at known deeper
          exact trace_traced inner served (around.enter_one crossed here)
            (fun b member => known b (List.mem_cons_of_mem _ member)) b deeper
        | many =>
          rw [cardinality] at known deeper
          exact trace_traced inner served (around.enter_many crossed here)
            (fun b member => known b (List.mem_cons_of_mem _ member)) b deeper

theorem traceAll_traced (parts : List Route) {scope : Scope} {selects : List String} {q : CompiledQuery}
    (served : c.adapter = root.adapter) (around : Surroundings all c.resolver base root scope selects q)
    (known : ∀ b ∈ traceAll c root scope selects parts q, all b) :
    ∀ b ∈ traceAll c root scope selects parts q, b.root = root ∧ b.Traced all c.resolver base := by
  cases parts with
  | nil => simp [traceAll]
  | cons part rest =>
    cases compiled : part.compile c scope q with
    | error fault =>
      rw [traceAll, compiled, List.append_nil] at known ⊢
      exact trace_traced part served around known
    | ok outcome =>
      obtain ⟨p, mid⟩ := outcome
      rw [traceAll_cons rest compiled] at known ⊢
      have early : ∀ b ∈ part.trace c root scope selects q, all b := fun b member =>
        known b (List.mem_append_left _ member)
      have first := compile_registered part served around early compiled
      intro b member
      rcases List.mem_append.mp member with here | later
      · exact trace_traced part served around early b here
      · exact traceAll_traced rest served (around.grown (joined_kind compiled) first)
          (fun b member => known b (List.mem_append_right _ member)) b later
end

end Route
end FilterQuery
