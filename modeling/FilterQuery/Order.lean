import FilterQuery.Error
import FilterQuery.Text.Blank

namespace FilterQuery

inductive Direction where
  | asc
  | desc
  deriving DecidableEq, Repr

inductive Nulls where
  | first
  | last
  | default
  deriving DecidableEq, Repr

def Direction.keyword : Direction → String
  | asc => "ASC"
  | desc => "DESC"

def Nulls.name : Nulls → String
  | first => "first"
  | last => "last"
  | default => "default"

structure OrderTerm where
  path : FieldPath
  direction : Direction
  nulls : Nulls
  deriving DecidableEq, Repr

-- Blanks around the token, colons before it and the case of its letters do not matter.
def readDirection? (token : String) : Option (Direction × Nulls) :=
  match String.ofList (lowerAscii ((trim token.toList).dropWhile (· == ':'))) with
  | "asc" => some (.asc, .default)
  | "desc" => some (.desc, .default)
  | "asc_nulls_first" => some (.asc, .first)
  | "asc_nulls_last" => some (.asc, .last)
  | "desc_nulls_first" => some (.desc, .first)
  | "desc_nulls_last" => some (.desc, .last)
  | _ => none

namespace OrderTerm

def ofToken (path : FieldPath) (token : String) : Except FilterError (List OrderTerm) :=
  match readDirection? token with
  | some (direction, nulls) => .ok [⟨path, direction, nulls⟩]
  | none => .error (.malformedFilter (.unknownDirection token path))

mutual
def ofJson (path : FieldPath) : Json → Except FilterError (List OrderTerm)
  | .str token => ofToken path token
  | .obj inner => ofMembers path inner
  | other => .error (.malformedFilter (.notDirection path other.kind))

def ofMembers (path : FieldPath) : List (String × Json) → Except FilterError (List OrderTerm)
  | [] => .ok []
  | (key, value) :: rest => do
    let terms ← ofJson (path.child key) value
    let later ← ofMembers path rest
    pure (terms ++ later)
end

def ofItems : List Json → Except FilterError (List OrderTerm)
  | [] => .ok []
  | .obj members :: rest => do
    let terms ← ofMembers .empty members
    let later ← ofItems rest
    pure (terms ++ later)
  | other :: _ => .error (.malformedFilter (.notOrderTerm other.kind))

def ofPayload : Json → Except FilterError (List OrderTerm)
  | .null => .ok []
  | .arr items => ofItems items
  | .obj members => ofMembers .empty members
  | other => .error (.malformedFilter (.notOrderList other.kind))

end OrderTerm
end FilterQuery
