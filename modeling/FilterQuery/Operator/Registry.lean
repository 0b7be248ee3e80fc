import FilterQuery.Capability.Basic

namespace FilterQuery

-- Registering again replaces the requirement and keeps the place.
structure Registration where
  operator : Operator
  requires : Option Feature
  deriving DecidableEq, Repr

structure Slot where
  adapter : Adapter
  type : SemanticType
  entries : List Registration
  deriving DecidableEq, Repr

structure OperatorSpec where
  operator : Operator
  types : List SemanticType
  arity : Arity
  adapters : List Adapter

structure OperatorRegistry where
  slots : List Slot

namespace OperatorRegistry

def empty : OperatorRegistry := ⟨[]⟩

def put (r : Registration) : List Registration → List Registration
  | [] => [r]
  | e :: rest => if e.operator = r.operator then r :: rest else e :: put r rest

def putSlot (adapter : Adapter) (ty : SemanticType) (r : Registration) : List Slot → List Slot
  | [] => [⟨adapter, ty, [r]⟩]
  | s :: rest =>
    if s.adapter = adapter ∧ s.type = ty then { s with entries := put r s.entries } :: rest
    else s :: putSlot adapter ty r rest

def register (g : OperatorRegistry) (adapter : Adapter) (ty : SemanticType) (op : Operator)
    (requires : Option Feature) : OperatorRegistry :=
  ⟨putSlot adapter ty ⟨op, requires⟩ g.slots⟩

def entries (g : OperatorRegistry) (adapter : Adapter) (ty : SemanticType) : List Registration :=
  match g.slots.find? fun s => s.adapter = adapter ∧ s.type = ty with
  | some s => s.entries
  | none => []

def operatorsFor (g : OperatorRegistry) (ty : SemanticType) (adapter : Adapter) : List Operator :=
  (g.entries adapter ty).map (·.operator)

def available (c : Capability) (r : Registration) : Bool :=
  match r.requires with
  | some feature => c.supports feature
  | none => true

def availableFor (g : OperatorRegistry) (ty : SemanticType) (c : Capability) : List Operator :=
  ((g.entries c.adapter ty).filter (available c)).map (·.operator)

-- None when the operator is not registered, else what it requires.
def requirement (g : OperatorRegistry) (adapter : Adapter) (ty : SemanticType) (op : Operator) :
    Option (Option Feature) :=
  ((g.entries adapter ty).find? (·.operator == op)).map (·.requires)

def isRegistered (g : OperatorRegistry) (adapter : Adapter) (ty : SemanticType) (op : Operator) : Bool :=
  (g.requirement adapter ty op).isSome

-- Pairs of adapter and type under which the operator stands, in catalogue order.
def places (g : OperatorRegistry) (op : Operator) : List (Adapter × SemanticType) :=
  Adapter.all.flatMap fun a => (SemanticType.catalogue.filter fun ty => g.isRegistered a ty op).map fun ty => (a, ty)

def spec (g : OperatorRegistry) (op : Operator) : Option OperatorSpec :=
  match g.places op with
  | [] => none
  | (a, ty) :: rest =>
    let all := (a, ty) :: rest
    some {
      operator := op
      types := SemanticType.catalogue.filter fun t => all.any (·.2 == t)
      arity := op.arity ty
      adapters := Adapter.all.filter fun b => all.any (·.1 == b) }

def specs (g : OperatorRegistry) : List OperatorSpec := Operator.all.filterMap g.spec

def adapters (g : OperatorRegistry) : List Adapter :=
  Adapter.all.filter fun a => g.slots.any (·.adapter == a)

def isEmpty (g : OperatorRegistry) : Bool := g.slots.isEmpty

end OperatorRegistry
end FilterQuery
