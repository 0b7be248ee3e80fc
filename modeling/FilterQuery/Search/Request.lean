import FilterQuery.Search.Clause

namespace FilterQuery

structure SearchRequest where
  index : String
  filters : List Clause
  sort : List Json
  from? : Option Nat
  size? : Option Nat

namespace SearchRequest

def new (index : String) : SearchRequest := ⟨index, [], [], none, none⟩

def andFilter (r : SearchRequest) (c : Clause) : SearchRequest := { r with filters := r.filters ++ c.conjuncts }

def filterClause (r : SearchRequest) : Clause := Clause.all r.filters

def leafCount (r : SearchRequest) : Nat := Clause.listLeafCount r.filters

-- A sort entry is one member: the field and how to sort by it.
def sortsNested : Json → Bool
  | .obj ((_, spec) :: _) => (spec.get? "nested").isSome
  | _ => false

def nestedCount (r : SearchRequest) : Nat :=
  Clause.listNestedCount r.filters + (r.sort.filter sortsNested).length

def countMember (key : String) : Option Nat → List (String × Json)
  | some n => [(key, .int n)]
  | none => []

def body (r : SearchRequest) : Json :=
  .obj (("query", r.filterClause.toJson) ::
    (if r.sort.isEmpty then [] else [("sort", .arr r.sort)]) ++
    countMember "from" r.from? ++ countMember "size" r.size?)

def text (r : SearchRequest) : String := r.index ++ " " ++ r.body.text

def beq (a b : SearchRequest) : Bool :=
  a.index == b.index && a.filters == b.filters && a.sort == b.sort && a.from? == b.from? && a.size? == b.size?

instance : BEq SearchRequest := ⟨beq⟩

end SearchRequest
end FilterQuery
