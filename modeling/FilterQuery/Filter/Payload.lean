import FilterQuery.Filter.Basic

namespace FilterQuery

-- What a key stands for; every other key with a leading underscore is meant as an operator.
inductive PayloadKey where
  | list (op : Combinator)
  | negation
  | operator
  | field
  deriving DecidableEq, Repr

def PayloadKey.of (key : String) : PayloadKey :=
  if key = "_and" then list .and
  else if key = "_or" then list .or
  else if key = "_not" then negation
  else if key.toList.head? = some '_' then operator
  else field

namespace FilterNode

-- A lone part stands for itself.
def joinParts : List FilterNode → FilterNode
  | [part] => part
  | parts => combine .and parts

def ofOperator (path : FieldPath) (tag : String) (value : Json) : Except FilterError FilterNode :=
  if path.isEmpty then .error (.malformedFilter (.operatorAtRoot tag))
  else match Operator.ofTag? tag with
    | some op => .ok (leaf ⟨path, op, value⟩)
    | none => .error (.unsupportedOperator path.dotted tag .unknownOperator)

-- A number, string or flag can only be the operand of an operator.
def ofAtom (path : FieldPath) (key : String) (value : Json) : Except FilterError FilterNode :=
  match PayloadKey.of key with
  | .list _ => .error (.malformedFilter (.notFilterList key value.kind))
  | .negation => .error (.malformedFilter (.notNestedFilter key value.kind))
  | .operator => ofOperator path key value
  | .field => .error (.malformedFilter (.notOperators (path.child key) value.kind))

mutual
def ofMember (path : FieldPath) (key : String) : Json → Except FilterError FilterNode
  | .obj inner =>
    match PayloadKey.of key with
    | .list op => do
      let parts ← ofMembers path inner
      pure (combine op [joinParts parts])
    | .negation => do
      let parts ← ofMembers path inner
      pure (combine .not [joinParts parts])
    | .operator => ofOperator path key (.obj inner)
    | .field => do
      let parts ← ofMembers (path.child key) inner
      pure (joinParts parts)
  | .arr items =>
    match PayloadKey.of key with
    | .list op => do
      let children ← ofItems path key items
      pure (combine op children)
    | _ => ofAtom path key (.arr items)
  | .null =>
    match PayloadKey.of key with
    | .list op => .ok (combine op [])
    | .negation => .ok (combine .not [empty])
    | .operator => ofOperator path key .null
    | .field => .ok empty
  | .bool b => ofAtom path key (.bool b)
  | .num n => ofAtom path key (.num n)
  | .str s => ofAtom path key (.str s)

def ofMembers (path : FieldPath) : List (String × Json) → Except FilterError (List FilterNode)
  | [] => .ok []
  | (key, value) :: rest => do
    let part ← ofMember path key value
    let parts ← ofMembers path rest
    pure (part :: parts)

def ofItems (path : FieldPath) (key : String) : List Json → Except FilterError (List FilterNode)
  | [] => .ok []
  | item :: rest => do
    let child ← ofItem path key item
    let children ← ofItems path key rest
    pure (child :: children)

def ofItem (path : FieldPath) (key : String) : Json → Except FilterError FilterNode
  | .obj inner => do
    let parts ← ofMembers path inner
    pure (joinParts parts)
  | .null => .ok empty
  | other => .error (.malformedFilter (.notNestedFilter key other.kind))
end

def ofPayload : Json → Except FilterError FilterNode
  | .null => .ok empty
  | .obj members => do
    let parts ← ofMembers .empty members
    pure (joinParts parts)
  | other => .error (.malformedFilter (.notFilter other.kind))

end FilterNode
end FilterQuery
