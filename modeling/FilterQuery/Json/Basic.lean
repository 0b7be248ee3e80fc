import FilterQuery.Number.Style
import FilterQuery.Number.Word

namespace FilterQuery

inductive JsonNumber where
  | int (value : Int)
  | double (value : Float)

-- Objects keep the order of their members; equality does not look at that order.
inductive Json where
  | null
  | bool (value : Bool)
  | num (value : JsonNumber)
  | str (value : String)
  | arr (items : List Json)
  | obj (members : List (String × Json))

instance : Inhabited Json := ⟨.null⟩

namespace JsonNumber

def toFloat : JsonNumber → Float
  | int i => Binary64.ofInt i
  | double x => x

def toInt64? : JsonNumber → Option Int64
  | int i => if leastInt64 ≤ i ∧ i ≤ greatestInt64 then some (Int64.ofInt i) else none
  | double _ => none

-- An integer and a double are different numbers even when they are equal in size.
def beq : JsonNumber → JsonNumber → Bool
  | int a, int b => a == b
  | double x, double y => x == y
  | _, _ => false

instance : BEq JsonNumber := ⟨beq⟩

end JsonNumber

namespace Json

-- The first member of that name, as readers of an object see it.
def lookup (key : String) : List (String × Json) → Option Json
  | [] => none
  | (k, v) :: rest => if k = key then some v else lookup key rest

-- A member of the same name keeps its place and takes the new value.
def insert (key : String) (value : Json) : List (String × Json) → List (String × Json)
  | [] => [(key, value)]
  | (k, v) :: rest => if k = key then (k, value) :: rest else (k, v) :: insert key value rest

def get? (key : String) : Json → Option Json
  | obj members => lookup key members
  | _ => none

def members? : Json → Option (List (String × Json))
  | obj members => some members
  | _ => none

def items? : Json → Option (List Json)
  | arr items => some items
  | _ => none

def text? : Json → Option String
  | str s => some s
  | _ => none

def number? : Json → Option Float
  | num n => some n.toFloat
  | _ => none

def kind : Json → String
  | null => "null"
  | bool _ => "boolean"
  | num _ => "number"
  | str _ => "string"
  | arr _ => "array"
  | obj _ => "object"

def double (x : Float) : Json := if x.isFinite then num (.double x) else null

def int (i : Int) : Json := num (.int i)

def single (key : String) (value : Json) : Json := obj [(key, value)]

mutual
def beq : Json → Json → Bool
  | null, null => true
  | bool a, bool b => a == b
  | num a, num b => a == b
  | str a, str b => a == b
  | arr a, arr b => beqItems a b
  | obj a, obj b => a.length == b.length && beqMembers a b
  | _, _ => false

def beqItems : List Json → List Json → Bool
  | [], [] => true
  | a :: as, b :: bs => beq a b && beqItems as bs
  | _, _ => false

-- Each member on the left has an equal one of its name on the right.
def beqMembers : List (String × Json) → List (String × Json) → Bool
  | [], _ => true
  | (k, v) :: rest, other =>
    (match lookup k other with
      | some w => beq v w
      | none => false) && beqMembers rest other
end

instance : BEq Json := ⟨beq⟩

end Json
end FilterQuery
