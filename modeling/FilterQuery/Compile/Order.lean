import FilterQuery.Compile.Options
import FilterQuery.Compile.Resolver
import FilterQuery.Order

namespace FilterQuery

structure OrderContext where
  resolver : Resolver
  adapter : Adapter
  options : CompileOptions
  term : OrderTerm

namespace OrderContext

-- Faults are told by the whole path of the term.
def field (c : OrderContext) (q : Queryable) (name : String) : Except FilterError Field :=
  c.resolver.field c.adapter q name c.term.path

def sortable (c : OrderContext) (q : Queryable) (name : String) : Except FilterError Field := do
  let f ← c.field q name
  match f.type? with
  | none => throw (.notOrderable c.term.path .association)
  | some ty => if ty.isOrderable then pure f else throw (.notOrderable c.term.path (.unordered ty))

-- The names left after a to-many association was crossed: nothing but a field.
def aggregate (c : OrderContext) (scope : Scope) (path : FieldPath) (hop : Hop) (rest : List String)
    (query : CompiledQuery) : Except FilterError CompiledQuery :=
  if !c.options.ordersThrough path then .error (.notOrderable c.term.path (.toMany path))
  else match rest with
    | [name] => do
      let f ← c.sortable hop.related name
      pure (query.pushAggregateOrder scope.binding (query.bindingFor path) hop.link hop.related f.column
        c.term.direction c.term.nulls)
    | _ => .error (.notOrderable c.term.path (.pastToMany path))

def walk (c : OrderContext) (scope : Scope) (query : CompiledQuery) :
    List String → Except FilterError CompiledQuery
  | [] => .error (.malformedFilter .orderWithoutField)
  | [name] => do
    let f ← c.sortable scope.queryable name
    pure (query.pushOrder scope.binding f.column c.term.direction c.term.nulls)
  | name :: rest => do
    let path := scope.path.child name
    let f ← c.field scope.queryable name
    let hop ← c.resolver.hop f c.term.path
    match hop.link.cardinality with
    | .many => c.aggregate scope path hop rest query
    | .one =>
      let binding := query.bindingFor path
      c.walk ⟨hop.related, path, binding⟩ (query.bindToOne scope.binding binding hop.link hop.related) rest

end OrderContext

namespace Resolver

def orderBy (r : Resolver) (adapter : Adapter) (q : Queryable) (options : CompileOptions)
    (query : CompiledQuery) : List OrderTerm → Except FilterError CompiledQuery
  | [] => .ok query
  | term :: rest => do
    r.checkDepth term.path
    let sorted ← OrderContext.walk ⟨r, adapter, options, term⟩ (.root q query.rootBinding) query term.path.segments
    r.orderBy adapter q options sorted rest

-- Sorts by the terms after whatever the query sorts by already.
def applyOrder (r : Resolver) (query : CompiledQuery) (q : Queryable) (terms : List OrderTerm)
    (options : CompileOptions) : Except FilterError CompiledQuery :=
  if terms.isEmpty then .ok query
  else do
    options.access.check (terms.map OrderTerm.path)
    let adapter ← r.adapterFor q
    r.orderBy adapter q options query terms

end Resolver
end FilterQuery
