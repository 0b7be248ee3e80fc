import FilterQuery.Error
import FilterQuery.Schema.Queryable
import FilterQuery.Table
import FilterQuery.Text.NameSet

namespace FilterQuery

-- The definitions by id, and which of them implement which interface.
structure Registry where
  definitions : Table String Queryable
  interfaces : Table String NameSet

namespace Registry

def empty : Registry := ⟨.empty, .empty⟩

def register (r : Registry) (q : Queryable) : Registry :=
  { r with definitions := r.definitions.insert q.id q }

-- The implementor need not be registered.
def registerImplementor (r : Registry) (interface id : String) : Registry :=
  let members := (r.interfaces.get? interface).getD .empty
  { r with interfaces := r.interfaces.insert interface (members.insert id) }

-- Takes the id out of every interface as well.
def unregister (r : Registry) (id : String) : Registry :=
  ⟨r.definitions.erase id, r.interfaces.map (·.erase id)⟩

def get? (r : Registry) (id : String) : Option Queryable := r.definitions.get? id

def find (r : Registry) (id : String) : Except FilterError Queryable :=
  match r.get? id with
  | some q => .ok q
  | none => .error (.notRegistered id)

def contains (r : Registry) (id : String) : Bool := r.definitions.contains id

def implementors (r : Registry) (interface : String) : List String :=
  match r.interfaces.get? interface with
  | some members => members.names
  | none => []

-- Sorted.
def ids (r : Registry) : List String := (NameSet.ofList r.definitions.keys).names

def size (r : Registry) : Nat := r.definitions.size

def isEmpty (r : Registry) : Bool := r.size == 0

end Registry
end FilterQuery
