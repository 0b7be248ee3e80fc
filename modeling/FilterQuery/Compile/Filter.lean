import FilterQuery.Compile.Options
import FilterQuery.Compile.Resolver
import FilterQuery.Compile.Route

namespace FilterQuery

structure FilterContext where
  resolver : Resolver
  adapter : Adapter
  options : CompileOptions

namespace FilterContext

def mode (c : FilterContext) : ToManyMode := c.options.mode c.resolver.settings

def requireFeature (c : FilterContext) (ty : SemanticType) (op : Operator) : Except FilterError Unit :=
  match c.options.capability, c.adapter.requiredFeature ty op with
  | some capability, some feature => capability.require feature
  | _, _ => .ok ()

-- Every fault is told by the path from the root.
def typed (c : FilterContext) (scope : Scope) (path : FieldPath) (f : Field) (ty : SemanticType) (l : Leaf) :
    Except FilterError Predicate := do
  if !c.adapter.implements ty l.operator then
    throw (.unsupportedOperator path.dotted l.operator.tag (.notAvailable ty c.adapter))
  c.requireFeature ty l.operator
  let operand ← Operand.coerce path.dotted l.operator ty f.enumMembers l.value
  match c.adapter.predicate? f l.operator operand ⟨some scope.binding, c.options.unit⟩ with
  | some p => pure p
  | none => throw (.unsupportedOperator path.dotted l.operator.tag .noPredicate)

def test (c : FilterContext) (scope : Scope) (l : Leaf) : Except FilterError Predicate := do
  let path := scope.path.append l.field
  match l.field.head? with
  | none => throw (.malformedFilter (.operatorWithoutField l.operator))
  | some name =>
    let f ← c.resolver.field c.adapter scope.queryable name path
    match f.type? with
    | none => throw (.unsupportedOperator path.dotted l.operator.tag .onAssociation)
    | some ty => c.typed scope path f ty l

end FilterContext

namespace Route

mutual
-- The predicate, and the query with the joins that it needs.
def compile (c : FilterContext) (scope : Scope) : Route → CompiledQuery →
    Except FilterError (Predicate × CompiledQuery)
  | test l, q => do
    let p ← c.test scope l
    pure (p, q)
  | negate inner, q => do
    let (p, joined) ← inner.compile c scope q
    pure (p.negate, joined)
  | join op parts, q => do
    let (ps, joined) ← compileAll c scope parts q
    pure (Predicate.join q.kind op ps, joined)
  | through head inner, q => do
    let path := scope.path.child head
    let f ← c.resolver.field c.adapter scope.queryable head path
    let hop ← c.resolver.hop f path
    let binding := q.bindingFor path
    let next : Scope := ⟨hop.related, path, binding⟩
    match hop.link.cardinality with
    | .one => inner.compile c next (q.bindToOne scope.binding binding hop.link hop.related)
    | .many => do
      let (p, below) ← inner.compile c next (q.openScope hop.related binding)
      match below.closeScope? scope.binding binding hop.link p c.mode with
      | some closed => pure (closed, q)
      | none => throw (.malformedFilter (.notThrough path))

def compileAll (c : FilterContext) (scope : Scope) : List Route → CompiledQuery →
    Except FilterError (List Predicate × CompiledQuery)
  | [], q => pure ([], q)
  | part :: rest, q => do
    let (p, joined) ← part.compile c scope q
    let (ps, further) ← compileAll c scope rest joined
    pure (p :: ps, further)
end

end Route

namespace Resolver

-- Narrows the query by the filter. A filter that is empty leaves it as it is.
def applyFilter (r : Resolver) (query : CompiledQuery) (q : Queryable) (filter : FilterNode)
    (options : CompileOptions) : Except FilterError CompiledQuery := do
  filter.validate
  options.access.check filter.referencedPaths
  r.checkDepths filter.referencedPaths
  if filter.isEmpty then return query
  let adapter ← r.adapterFor q
  let route := Route.ofNode r.settings.reorder filter
  let (p, joined) ← route.compile ⟨r, adapter, options⟩ (.root q query.rootBinding) query
  match joined.andPredicate? p with
  | some narrowed => pure narrowed
  | none => throw (.adapterUnavailable q.id)

-- Starts from every row of the definition.
def compileFilter (r : Resolver) (q : Queryable) (filter : FilterNode) (options : CompileOptions) :
    Except FilterError CompiledQuery := do
  let _ ← r.adapterFor q
  r.applyFilter (.forQueryable q) q filter options

end Resolver
end FilterQuery
