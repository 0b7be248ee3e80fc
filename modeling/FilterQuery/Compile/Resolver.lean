import FilterQuery.Adapter.Set
import FilterQuery.Compile.Catalog
import FilterQuery.Schema.Registry
import FilterQuery.Settings.Basic

namespace FilterQuery

-- Filters and orders resolve their paths here, so that a path always leads to the same place.
structure Resolver where
  adapters : AdapterSet
  registry : Registry
  catalog : Catalog
  settings : CompilerSettings

-- One association crossed.
structure Hop where
  link : Link
  related : Queryable

-- Where relative paths start: a definition, the path to it from the root and what it is bound to.
structure Scope where
  queryable : Queryable
  path : FieldPath
  binding : String

def Scope.root (q : Queryable) (binding : String) : Scope := ⟨q, .empty, binding⟩

namespace Resolver

def ofAdapters (adapters : AdapterSet) (settings : CompilerSettings) : Resolver :=
  ⟨adapters, .empty, .empty, settings⟩

def adapterFor (r : Resolver) (q : Queryable) : Except FilterError Adapter := r.adapters.forQueryable q

-- The path is the one to blame.
def field (r : Resolver) (a : Adapter) (q : Queryable) (name : String) (path : FieldPath) :
    Except FilterError Field :=
  match (r.catalog.fields a q).find? (·.name == name) with
  | some f => .ok f
  | none => .error (.unknownField q.id path.dotted)

def hop (r : Resolver) (f : Field) (path : FieldPath) : Except FilterError Hop :=
  match f.link? with
  | none => .error (.unknownField f.name path.dotted)
  | some link =>
    match r.registry.get? link.target with
    | some related => .ok ⟨link, related⟩
    | none => .error (.unknownField link.target path.dotted)

def checkDepth (r : Resolver) (path : FieldPath) : Except FilterError Unit :=
  let hops := path.length - 1
  if r.settings.maxDepth < hops then .error (.malformedFilter (.tooDeep path hops r.settings.maxDepth))
  else .ok ()

def checkDepths (r : Resolver) : List FieldPath → Except FilterError Unit
  | [] => .ok ()
  | path :: rest => do
    r.checkDepth path
    r.checkDepths rest

-- The catalog after one path was followed as far as it leads.
def follow (r : Resolver) (a : Adapter) (q : Queryable) : List String → Resolver
  | [] => r
  | name :: rest =>
    let seen := { r with catalog := r.catalog.consult a q }
    match seen.field a q name .empty with
    | .error _ => seen
    | .ok f =>
      match seen.hop f .empty with
      | .error _ => seen
      | .ok hop => seen.follow a hop.related rest

end Resolver
end FilterQuery
