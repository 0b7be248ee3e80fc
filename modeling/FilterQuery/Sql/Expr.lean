import FilterQuery.Order
import FilterQuery.Value.Basic

namespace FilterQuery

inductive BinOp where
  | eq
  | ne
  | gt
  | gte
  | lt
  | lte
  | like
  | notLike
  | ilike
  | notIlike
  | custom (symbol : String)
  deriving DecidableEq, Repr

inductive JoinKind where
  | inner
  | left
  deriving DecidableEq, Repr

-- Fixed text with holes between its pieces.
structure Template where
  lead : String
  rest : List String
  deriving DecidableEq, Repr

mutual
inductive Expr where
  | column (table : Option String) (name : String)
  | value (value : Value)
  | binary (left : Expr) (op : BinOp) (right : Expr)
  | inList (expr : Expr) (list : List Expr) (negated : Bool)
  | isNull (expr : Expr) (negated : Bool)
  | and (members : List Expr)
  | or (members : List Expr)
  | not (expr : Expr)
  -- True when the inner predicate is false or unknown.
  | notTrue (expr : Expr)
  | func (name : String) (args : List Expr)
  | template (text : Template) (args : List Expr)
  | existsIn (query : Select) (negated : Bool)
  | scalar (query : Select)
  | constant (value : Bool)

structure Join where
  kind : JoinKind
  table : String
  binding : String
  condition : Expr

structure SortKey where
  expr : Expr
  direction : Direction
  nulls : Nulls

-- No columns stand for every column of the binding; the conditions are AND-ed.
structure Select where
  table : String
  binding : String
  columns : List Expr
  joins : List Join
  conditions : List Expr
  orders : List SortKey
  limit : Option Nat
  offset : Option Nat
end

instance : Inhabited Expr := ⟨.constant true⟩

namespace BinOp

def symbol : BinOp → String
  | eq => "="
  | ne => "<>"
  | gt => ">"
  | gte => ">="
  | lt => "<"
  | lte => "<="
  | like => "LIKE"
  | notLike => "NOT LIKE"
  | ilike => "ILIKE"
  | notIlike => "NOT ILIKE"
  | custom s => s

def ofSymbol : String → BinOp
  | "=" => eq
  | "<>" => ne
  | ">" => gt
  | ">=" => gte
  | "<" => lt
  | "<=" => lte
  | "LIKE" => like
  | "NOT LIKE" => notLike
  | "ILIKE" => ilike
  | "NOT ILIKE" => notIlike
  | s => custom s

-- The operator that is true, false and unknown where this one is false, true and unknown.
def complement? : BinOp → Option BinOp
  | eq => some ne
  | ne => some eq
  | like => some notLike
  | notLike => some like
  | ilike => some notIlike
  | notIlike => some ilike
  | _ => none

end BinOp

namespace Template

def hole : List Char := ['\x7b', '\x7d']

-- The pieces of a text whose holes are written as an empty pair of braces.
def split : List Char → List (List Char)
  | [] => [[]]
  | [c] => [[c]]
  | c :: d :: rest =>
    if c = '\x7b' ∧ d = '\x7d' then [] :: split rest
    else match split (d :: rest) with
      | [] => [[c]]
      | piece :: pieces => (c :: piece) :: pieces

def ofText (text : String) : Template :=
  match (split text.toList).map String.ofList with
  | [] => ⟨"", []⟩
  | lead :: rest => ⟨lead, rest⟩

def holes (t : Template) : Nat := t.rest.length

end Template

namespace Expr

def isConstant (value : Bool) : Expr → Bool
  | constant b => b == value
  | _ => false

def andParts : Expr → List Expr
  | constant true => []
  | and members => members
  | e => [e]

def orParts : Expr → List Expr
  | constant false => []
  | or members => members
  | e => [e]

def conjunction : List Expr → Expr
  | [] => constant true
  | [e] => e
  | members => and members

def disjunction : List Expr → Expr
  | [] => constant false
  | [e] => e
  | members => or members

def all (members : List Expr) : Expr :=
  if members.any (isConstant false) then constant false else conjunction (members.flatMap andParts)

-- An empty disjunction places no constraint.
def any (members : List Expr) : Expr :=
  if members.isEmpty || members.any (isConstant true) then constant true
  else disjunction (members.flatMap orParts)

-- Rewrites only where three-valued logic allows it.
def negate : Expr → Expr
  | not e => e
  | constant b => constant (!b)
  | isNull e negated => isNull e (!negated)
  | inList e list negated => inList e list (!negated)
  | existsIn query negated => existsIn query (!negated)
  | binary left op right =>
    match op.complement? with
    | some complement => binary left complement right
    | none => not (binary left op right)
  | e => not e

-- True on the rows where the predicate is not: two-valued predicates are negated, others wrapped.
def violation : Expr → Expr
  | constant b => (constant b).negate
  | isNull e negated => (isNull e negated).negate
  | existsIn query negated => (existsIn query negated).negate
  | notTrue e => (notTrue e).negate
  | e => notTrue e

mutual
-- The members of nested conjunctions, constants that hold left out.
def conjuncts : Expr → List Expr
  | constant true => []
  | and members => listConjuncts members
  | e => [e]

def listConjuncts : List Expr → List Expr
  | [] => []
  | e :: rest => e.conjuncts ++ listConjuncts rest
end

mutual
-- Leaf predicates, those of subqueries included.
def predicateCount : Expr → Nat
  | and members => listPredicateCount members
  | or members => listPredicateCount members
  | not e => e.predicateCount
  | notTrue e => e.predicateCount
  | existsIn query _ => selectPredicateCount query
  | scalar query => selectPredicateCount query
  | constant _ => 0
  | column _ _ => 0
  | value _ => 0
  | binary .. => 1
  | inList .. => 1
  | isNull .. => 1
  | func .. => 1
  | template .. => 1

def listPredicateCount : List Expr → Nat
  | [] => 0
  | e :: rest => e.predicateCount + listPredicateCount rest

def selectPredicateCount : Select → Nat
  | ⟨_, _, _, _, conditions, _, _, _⟩ => listPredicateCount conditions
end

mutual
-- Correlated subqueries together with the joins inside them.
def subqueryCount : Expr → Nat
  | and members => listSubqueryCount members
  | or members => listSubqueryCount members
  | not e => e.subqueryCount
  | notTrue e => e.subqueryCount
  | existsIn query _ => 1 + selectJoinCount query
  | scalar query => 1 + selectJoinCount query
  | binary left _ right => left.subqueryCount + right.subqueryCount
  | func _ args => listSubqueryCount args
  | template _ args => listSubqueryCount args
  | constant _ => 0
  | column _ _ => 0
  | value _ => 0
  | inList .. => 0
  | isNull .. => 0

def listSubqueryCount : List Expr → Nat
  | [] => 0
  | e :: rest => e.subqueryCount + listSubqueryCount rest

def selectJoinCount : Select → Nat
  | ⟨_, _, _, joins, conditions, orders, _, _⟩ =>
    joins.length + listSubqueryCount conditions + ordersSubqueryCount orders

def ordersSubqueryCount : List SortKey → Nat
  | [] => 0
  | ⟨e, _, _⟩ :: rest => e.subqueryCount + ordersSubqueryCount rest
end

mutual
def beq : Expr → Expr → Bool
  | column t c, column t' c' => t == t' && c == c'
  | value v, value v' => v == v'
  | binary l op r, binary l' op' r' => beq l l' && op == op' && beq r r'
  | inList e xs n, inList e' xs' n' => beq e e' && beqList xs xs' && n == n'
  | isNull e n, isNull e' n' => beq e e' && n == n'
  | and xs, and xs' => beqList xs xs'
  | or xs, or xs' => beqList xs xs'
  | not e, not e' => beq e e'
  | notTrue e, notTrue e' => beq e e'
  | func f xs, func f' xs' => f == f' && beqList xs xs'
  | template t xs, template t' xs' => t == t' && beqList xs xs'
  | existsIn q n, existsIn q' n' => beqSelect q q' && n == n'
  | scalar q, scalar q' => beqSelect q q'
  | constant b, constant b' => b == b'
  | _, _ => false

def beqList : List Expr → List Expr → Bool
  | [], [] => true
  | e :: es, e' :: es' => beq e e' && beqList es es'
  | _, _ => false

def beqSelect : Select → Select → Bool
  | ⟨t, a, cs, js, ws, os, l, o⟩, ⟨t', a', cs', js', ws', os', l', o'⟩ =>
    t == t' && a == a' && beqList cs cs' && beqJoins js js' && beqList ws ws' && beqOrders os os' &&
      l == l' && o == o'

def beqJoins : List Join → List Join → Bool
  | [], [] => true
  | ⟨k, t, a, e⟩ :: js, ⟨k', t', a', e'⟩ :: js' => k == k' && t == t' && a == a' && beq e e' && beqJoins js js'
  | _, _ => false

def beqOrders : List SortKey → List SortKey → Bool
  | [], [] => true
  | ⟨e, d, n⟩ :: os, ⟨e', d', n'⟩ :: os' => beq e e' && d == d' && n == n' && beqOrders os os'
  | _, _ => false
end

instance : BEq Expr := ⟨beq⟩

end Expr

namespace Select

instance : BEq Select := ⟨Expr.beqSelect⟩

def new (table : String) : Select := ⟨table, table, [], [], [], [], none, none⟩

def andWhere (s : Select) (e : Expr) : Select := { s with conditions := s.conditions ++ e.conjuncts }

def hasJoin (s : Select) (binding : String) : Bool := s.joins.any (·.binding == binding)

-- A binding is joined once.
def join (s : Select) (j : Join) : Select := if s.hasJoin j.binding then s else { s with joins := s.joins ++ [j] }

def orderBy (s : Select) (key : SortKey) : Select := { s with orders := s.orders ++ [key] }

def whereExpr (s : Select) : Expr := Expr.all s.conditions

def predicateCount (s : Select) : Nat := Expr.selectPredicateCount s

def joinCount (s : Select) : Nat := Expr.selectJoinCount s

end Select
end FilterQuery
