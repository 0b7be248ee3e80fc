import FilterQuery.Capability.Cache
import FilterQuery.Compile.Filter
import FilterQuery.Compile.Order
import FilterQuery.Complexity.Analyzer
import FilterQuery.Filter.Payload

namespace FilterQuery

-- Definitions, compilers, the capabilities of the backends and the admission checks, under one set of settings.
structure Engine where
  settings : Settings
  resolver : Resolver
  capabilities : CapabilityCache
  analyzer : Analyzer

-- A filter as it was sent or as it was stored.
inductive FilterSource where
  | payload (json : Json)
  | tree (node : FilterNode)

def FilterSource.node : FilterSource → Except FilterError FilterNode
  | payload json => FilterNode.ofPayload json
  | tree node => .ok node

structure QueryRequest where
  root : String
  filter : FilterSource
  order : Option Json
  options : CompileOptions
  limit : Option Nat
  offset : Option Nat

namespace Engine

def new (settings : Settings) (adapters : AdapterSet) : Engine :=
  ⟨settings, .ofAdapters adapters settings.compiler, .empty, .new settings.complexity⟩

def updateRegistry (e : Engine) (f : Registry → Registry) : Engine :=
  { e with resolver := { e.resolver with registry := f e.resolver.registry } }

-- A new definition makes the fields derived from the old one stale.
def register (e : Engine) (q : Queryable) : Engine :=
  let known := e.updateRegistry (·.register q)
  { known with resolver := { known.resolver with catalog := known.resolver.catalog.invalidate q.id } }

def queryable (e : Engine) (id : String) : Except FilterError Queryable := e.resolver.registry.find id

-- The engine after its catalog was consulted along the paths.
def follow (e : Engine) (q : Queryable) (paths : List FieldPath) : Engine :=
  match e.resolver.adapterFor q with
  | .error _ => e
  | .ok a => { e with resolver := paths.foldl (fun r path => r.follow a q path.segments) e.resolver }

def compile (e : Engine) (q : Queryable) (filter : FilterNode) (options : CompileOptions) :
    Except FilterError CompiledQuery × Engine :=
  (e.resolver.compileFilter q filter options, e.follow q filter.referencedPaths)

def apply (e : Engine) (query : CompiledQuery) (q : Queryable) (filter : FilterNode) (options : CompileOptions) :
    Except FilterError CompiledQuery × Engine :=
  (e.resolver.applyFilter query q filter options, e.follow q filter.referencedPaths)

def order (e : Engine) (query : CompiledQuery) (q : Queryable) (terms : List OrderTerm) (options : CompileOptions) :
    Except FilterError CompiledQuery × Engine :=
  (e.resolver.applyOrder query q terms options, e.follow q (terms.map OrderTerm.path))

def compileSource (e : Engine) (q : Queryable) (filter : FilterSource) (options : CompileOptions) :
    Except FilterError CompiledQuery × Engine :=
  match filter.node with
  | .error fault => (.error fault, e)
  | .ok node => e.compile q node options

-- The definition is looked up before the filter is read.
def compileId (e : Engine) (id : String) (filter : FilterSource) (options : CompileOptions) :
    Except FilterError CompiledQuery × Engine :=
  match e.queryable id with
  | .error fault => (.error fault, e)
  | .ok q => e.compileSource q filter options

def applySource (e : Engine) (query : CompiledQuery) (q : Queryable) (filter : FilterSource)
    (options : CompileOptions) : Except FilterError CompiledQuery × Engine :=
  match filter.node with
  | .error fault => (.error fault, e)
  | .ok node => e.apply query q node options

def orderPayload (e : Engine) (query : CompiledQuery) (q : Queryable) (payload : Json) (options : CompileOptions) :
    Except FilterError CompiledQuery × Engine :=
  match OrderTerm.ofPayload payload with
  | .error fault => (.error fault, e)
  | .ok terms => e.order query q terms options

def orderRequest (e : Engine) (query : CompiledQuery) (r : QueryRequest) :
    Except FilterError CompiledQuery × Engine :=
  match r.order, e.queryable r.root with
  | none, _ => (.ok query, e)
  | some _, .error fault => (.error fault, e)
  | some order, .ok q => e.orderPayload query q order r.options

-- Filter, then order, then limits; the first fault is the answer.
def request (e : Engine) (r : QueryRequest) : Except FilterError CompiledQuery × Engine :=
  match e.compileId r.root r.filter r.options with
  | (.error fault, next) => (.error fault, next)
  | (.ok query, next) =>
    let (ordered, last) := next.orderRequest query r
    (ordered.map fun sorted => (sorted.setLimit r.limit).setOffset r.offset, last)

def detect (e : Engine) (h : Handle) : Capability × Engine × List Call :=
  let (capability, capabilities, calls) := e.capabilities.detect h
  (capability, { e with capabilities }, calls)

-- The options held to what the backend offers; without one they stay as they are.
def optionsFor (e : Engine) (handle : Option Handle) (options : CompileOptions) :
    CompileOptions × Engine × List Call :=
  match handle with
  | none => (options, e, [])
  | some h =>
    let (capability, detected, calls) := e.detect h
    ({ options with capability := some capability }, detected, calls)

def check (e : Engine) (now : Nat) (q : CompiledQuery) (h : Handle) : Analyzed Check := e.analyzer.check now q h

def checkUnder (e : Engine) (now : Nat) (q : CompiledQuery) (load : Load) (handle : Option Handle) :
    Analyzed Check :=
  e.analyzer.checkUnder now q load handle

end Engine
end FilterQuery
