import FilterQuery.Operand
import FilterQuery.Sql.Expr

namespace FilterQuery

-- An empty list is settled here, so that no membership test is without members.
def comparison (col : Expr) (param : Value → Expr) : Operator → Operand → Option Expr
  | .eq, .scalar .null => some (.isNull col false)
  | .neq, .scalar .null => some (.isNull col true)
  | .eq, .scalar v => some (.binary col .eq (param v))
  | .neq, .scalar v => some (.binary col .ne (param v))
  | .gt, .scalar v => some (.binary col .gt (param v))
  | .gte, .scalar v => some (.binary col .gte (param v))
  | .lt, .scalar v => some (.binary col .lt (param v))
  | .lte, .scalar v => some (.binary col .lte (param v))
  | .isIn, .list [] => some (.constant false)
  | .notIn, .list [] => some (.constant true)
  | .isIn, .list (v :: vs) => some (.inList col ((v :: vs).map param) false)
  | .notIn, .list (v :: vs) => some (.inList col ((v :: vs).map param) true)
  | .isNull, .flag b => some (.isNull col (!b))
  | _, _ => none

-- A list operand as one JSON array.
def jsonArray (values : List Value) : Value := .json (.arr (Value.listToJson values))

def jsonKeyChars (key : List Char) : List Char :=
  key.flatMap fun c => if c = '\\' ∨ c = '"' then ['\\', c] else [c]

-- The path of one top-level member.
def jsonPath (key : String) : String := String.ofList ("$.\"".toList ++ jsonKeyChars key.toList ++ ['"'])

end FilterQuery
