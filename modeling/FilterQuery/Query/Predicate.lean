import FilterQuery.Search.Clause
import FilterQuery.Sql.Expr

namespace FilterQuery

inductive QueryKind where
  | sql
  | search
  deriving DecidableEq, Repr

def QueryKind.name : QueryKind → String
  | sql => "Sql"
  | search => "Search"

inductive Connective where
  | and
  | or
  deriving DecidableEq, Repr

inductive Predicate where
  | sql (expr : Expr)
  | search (clause : Clause)

namespace Predicate

def kind : Predicate → QueryKind
  | sql _ => .sql
  | search _ => .search

def constant (kind : QueryKind) (value : Bool) : Predicate :=
  match kind with
  | .sql => sql (.constant value)
  | .search => search (.constant value)

def isConstant (value : Bool) : Predicate → Bool
  | sql e => e.isConstant value
  | search c => c.isConstant value

def expr? : Predicate → Option Expr
  | sql e => some e
  | search _ => none

def clause? : Predicate → Option Clause
  | search c => some c
  | sql _ => none

-- Members of the other kind are passed over.
def all (kind : QueryKind) (members : List Predicate) : Predicate :=
  match kind with
  | .sql => sql (Expr.all (members.filterMap expr?))
  | .search => search (Clause.all (members.filterMap clause?))

def any (kind : QueryKind) (members : List Predicate) : Predicate :=
  match kind with
  | .sql => sql (Expr.any (members.filterMap expr?))
  | .search => search (Clause.any (members.filterMap clause?))

def join (kind : QueryKind) : Connective → List Predicate → Predicate
  | .and => all kind
  | .or => any kind

def negate : Predicate → Predicate
  | sql e => sql e.negate
  | search c => search c.negate

def leafCount : Predicate → Nat
  | sql e => e.predicateCount
  | search c => c.leafCount

def beq : Predicate → Predicate → Bool
  | sql a, sql b => a == b
  | search a, search b => a == b
  | _, _ => false

instance : BEq Predicate := ⟨beq⟩

end Predicate
end FilterQuery
