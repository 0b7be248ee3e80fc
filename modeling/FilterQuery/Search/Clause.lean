import FilterQuery.Json.Printer

namespace FilterQuery

-- The builders fold constants as those of SQL predicates do, with two truth values in place of three.
inductive Clause where
  | constant (value : Bool)
  | query (body : Json)
  | and (members : List Clause)
  | or (members : List Clause)
  | not (clause : Clause)
  | nested (path : String) (clause : Clause)

instance : Inhabited Clause := ⟨.constant true⟩

namespace Clause

def leaf (kind : String) (body : Json) : Clause := query (.single kind body)

def fieldQuery (kind field : String) (body : Json) : Clause := leaf kind (.single field body)

def existing (field : String) : Clause := leaf "exists" (.single "field" (.str field))

def isConstant (value : Bool) : Clause → Bool
  | constant b => b == value
  | _ => false

def andParts : Clause → List Clause
  | constant true => []
  | and members => members
  | c => [c]

def orParts : Clause → List Clause
  | constant false => []
  | or members => members
  | c => [c]

def conjunction : List Clause → Clause
  | [] => constant true
  | [c] => c
  | members => and members

def disjunction : List Clause → Clause
  | [] => constant false
  | [c] => c
  | members => or members

def all (members : List Clause) : Clause :=
  if members.any (isConstant false) then constant false else conjunction (members.flatMap andParts)

-- An empty disjunction places no constraint.
def any (members : List Clause) : Clause :=
  if members.isEmpty || members.any (isConstant true) then constant true
  else disjunction (members.flatMap orParts)

def negate : Clause → Clause
  | not c => c
  | constant b => constant (!b)
  | c => not c

mutual
def conjuncts : Clause → List Clause
  | constant true => []
  | and members => listConjuncts members
  | c => [c]

def listConjuncts : List Clause → List Clause
  | [] => []
  | c :: rest => c.conjuncts ++ listConjuncts rest
end

mutual
def leafCount : Clause → Nat
  | constant _ => 0
  | query _ => 1
  | and members => listLeafCount members
  | or members => listLeafCount members
  | not c => c.leafCount
  | nested _ c => c.leafCount

def listLeafCount : List Clause → Nat
  | [] => 0
  | c :: rest => c.leafCount + listLeafCount rest
end

mutual
def nestedCount : Clause → Nat
  | constant _ => 0
  | query _ => 0
  | and members => listNestedCount members
  | or members => listNestedCount members
  | not c => c.nestedCount
  | nested _ c => 1 + c.nestedCount

def listNestedCount : List Clause → Nat
  | [] => 0
  | c :: rest => c.nestedCount + listNestedCount rest
end

mutual
def toJson : Clause → Json
  | constant true => .single "match_all" (.obj [])
  | constant false => .single "match_none" (.obj [])
  | query body => body
  | and members => .single "bool" (.single "filter" (.arr (listToJson members)))
  | or members =>
    .single "bool" (.obj [("should", .arr (listToJson members)), ("minimum_should_match", .int 1)])
  | not c => .single "bool" (.single "must_not" (.arr [c.toJson]))
  | nested path c => .single "nested" (.obj [("path", .str path), ("query", c.toJson)])

def listToJson : List Clause → List Json
  | [] => []
  | c :: rest => c.toJson :: listToJson rest
end

mutual
def beq : Clause → Clause → Bool
  | constant a, constant b => a == b
  | query a, query b => a == b
  | and a, and b => beqList a b
  | or a, or b => beqList a b
  | not a, not b => beq a b
  | nested p a, nested q b => p == q && beq a b
  | _, _ => false

def beqList : List Clause → List Clause → Bool
  | [], [] => true
  | a :: as, b :: bs => beq a b && beqList as bs
  | _, _ => false
end

instance : BEq Clause := ⟨beq⟩

end Clause
end FilterQuery
