import FilterQuery.Error

namespace FilterQuery

-- A childless AND or OR constrains nothing.
inductive Combinator where
  | and
  | or
  | not
  deriving DecidableEq, Repr

structure Leaf where
  field : FieldPath
  operator : Operator
  value : Json

inductive FilterNode where
  | combine (op : Combinator) (children : List FilterNode)
  | leaf (leaf : Leaf)

instance : Inhabited FilterNode := ⟨.combine .and []⟩

def Combinator.name : Combinator → String
  | and => "and"
  | or => "or"
  | not => "not"

namespace FilterNode

def empty : FilterNode := combine .and []

mutual
-- A negation counts as a constraint even of nothing.
def isEmpty : FilterNode → Bool
  | leaf _ => false
  | combine .not _ => false
  | combine .and children => allEmpty children
  | combine .or children => allEmpty children

def allEmpty : List FilterNode → Bool
  | [] => true
  | n :: rest => n.isEmpty && allEmpty rest
end

mutual
def leaves : FilterNode → List Leaf
  | leaf l => [l]
  | combine _ children => listLeaves children

def listLeaves : List FilterNode → List Leaf
  | [] => []
  | n :: rest => n.leaves ++ listLeaves rest
end

def addNew [DecidableEq α] (seen : List α) (x : α) : List α := if x ∈ seen then seen else seen ++ [x]

-- Each path once, in the order of its first leaf.
def referencedPaths (node : FilterNode) : List FieldPath :=
  (node.leaves.map Leaf.field).foldl addNew []

mutual
def depth : FilterNode → Nat
  | leaf _ => 1
  | combine _ children => 1 + listDepth children

def listDepth : List FilterNode → Nat
  | [] => 0
  | n :: rest => max n.depth (listDepth rest)
end

def validateLeaf (l : Leaf) : Except FilterError Unit :=
  if l.field.isEmpty then .error (.malformedFilter (.operatorWithoutField l.operator)) else .ok ()

mutual
def validate : FilterNode → Except FilterError Unit
  | leaf l => validateLeaf l
  | combine .not children =>
    if children.length = 1 then validateAll children
    else .error (.malformedFilter (.negationChildren children.length))
  | combine .and children => validateAll children
  | combine .or children => validateAll children

def validateAll : List FilterNode → Except FilterError Unit
  | [] => .ok ()
  | n :: rest => do
    n.validate
    validateAll rest
end

end FilterNode
end FilterQuery
