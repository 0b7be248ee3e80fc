import FilterQuery.Filter.Basic

namespace FilterQuery.FilterNode

def pathSerial (p : FieldPath) : Json := .arr (p.segments.map .str)

def leafSerial (l : Leaf) : Json :=
  .obj [("field", pathSerial l.field), ("operator", .str l.operator.word), ("value", l.value)]

mutual
def serial : FilterNode → Json
  | leaf l => .single "Leaf" (leafSerial l)
  | combine op children =>
    .single "Combinator" (.obj [("op", .str op.name), ("children", .arr (listSerial children))])

def listSerial : List FilterNode → List Json
  | [] => []
  | n :: rest => n.serial :: listSerial rest
end

def combinatorOfName? : String → Option Combinator
  | "and" => some .and
  | "or" => some .or
  | "not" => some .not
  | _ => none

def leafOfMembers? (members : List (String × Json)) : Option Leaf := do
  let segments ← (← (← Json.lookup "field" members).items?).mapM Json.text?
  let operator ← Operator.ofWord? (← (← Json.lookup "operator" members).text?)
  let value ← Json.lookup "value" members
  some ⟨⟨segments⟩, operator, value⟩

mutual
-- Reads what serial writes; the members of a node may stand in any order.
def ofSerial? : Json → Option FilterNode
  | .obj [("Leaf", .obj members)] => (leafOfMembers? members).map leaf
  | .obj [("Combinator", .obj [("op", .str op), ("children", .arr children)])] => do
    let op ← combinatorOfName? op
    let children ← listOfSerial? children
    some (combine op children)
  | .obj [("Combinator", .obj [("children", .arr children), ("op", .str op)])] => do
    let op ← combinatorOfName? op
    let children ← listOfSerial? children
    some (combine op children)
  | _ => none

def listOfSerial? : List Json → Option (List FilterNode)
  | [] => some []
  | j :: rest => do
    let node ← ofSerial? j
    let nodes ← listOfSerial? rest
    some (node :: nodes)
end

end FilterQuery.FilterNode
