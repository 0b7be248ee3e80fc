import FilterQuery.Adapter.Basic
import FilterQuery.Operator.Registry

namespace FilterQuery

-- In the order they were registered.
structure AdapterSet where
  adapters : List Adapter

namespace AdapterSet

def empty : AdapterSet := ⟨[]⟩

-- Registering again moves the adapter to the end.
def register (s : AdapterSet) (a : Adapter) : AdapterSet := ⟨s.adapters.filter (· != a) ++ [a]⟩

def ofList (adapters : List Adapter) : AdapterSet := adapters.foldl register empty

def standard : AdapterSet := ofList Adapter.all

def forQueryable (s : AdapterSet) (q : Queryable) : Except FilterError Adapter :=
  match s.adapters.find? (·.handles q) with
  | some a => .ok a
  | none => .error (.adapterUnavailable q.id)

def registerType (g : OperatorRegistry) (a : Adapter) (ty : SemanticType) : OperatorRegistry :=
  (a.operatorsFor ty).foldl (fun g op => g.register a ty op (a.requiredFeature ty op)) g

def registerAdapter (g : OperatorRegistry) (a : Adapter) : OperatorRegistry :=
  SemanticType.catalogue.foldl (fun g ty => registerType g a ty) g

def operatorRegistry (s : AdapterSet) : OperatorRegistry := s.adapters.foldl registerAdapter .empty

end AdapterSet
end FilterQuery
