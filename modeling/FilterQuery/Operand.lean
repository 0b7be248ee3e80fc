import FilterQuery.Text.Blank
import FilterQuery.Value.Coerce

namespace FilterQuery

-- Read from raw JSON by the arity of the operator and the type of the field.
inductive Operand where
  | flag (value : Bool)
  | scalar (value : Value)
  | list (values : List Value)
  | pattern (text : String)
  | document (value : Json)
  | keys (names : List String)
  | near (center : GeoPoint) (distance : Float) (unit : Option DistanceUnit)
  | bounds (southWest northEast : GeoPoint)

namespace Operand

def shape : Operand → String
  | flag _ => "flag"
  | scalar _ => "scalar"
  | list _ => "list"
  | pattern _ => "pattern"
  | document _ => "document"
  | keys _ => "keys"
  | near _ _ _ => "near"
  | bounds _ _ => "bounds"

def isNullScalar : Operand → Bool
  | scalar .null => true
  | _ => false

def list? : Operand → Option (List Value)
  | list values => some values
  | _ => none

def pattern? : Operand → Option String
  | pattern text => some text
  | _ => none

def keys? : Operand → Option (List String)
  | keys [] => none
  | keys names => some names
  | _ => none

def ofFlag : Json → Except OperandFault Operand
  | .bool b => .ok (flag b)
  | other => .error (.notBoolean other.kind)

def ofScalar (op : Operator) (ty : SemanticType) (members : Option (List String)) :
    Json → Except OperandFault Operand
  | .null => if op = .eq ∨ op = .neq then .ok (scalar .null) else .error .nullScalar
  | raw =>
    match coerceValue ty members raw with
    | .ok value => .ok (scalar value)
    | .error fault => .error (.value fault)

def itemsFrom (ty : SemanticType) (members : Option (List String)) (index : Nat) :
    List Json → Except OperandFault (List Value)
  | [] => .ok []
  | .null :: _ => .error (.nullItem index)
  | item :: rest =>
    match coerceValue ty members item with
    | .error fault => .error (.item index fault)
    | .ok value => do
      let values ← itemsFrom ty members (index + 1) rest
      pure (value :: values)

-- A list for an array field holds elements.
def itemType : SemanticType → SemanticType
  | .array element => element.scalar
  | ty => ty

def ofList (ty : SemanticType) (members : Option (List String)) : Json → Except OperandFault Operand
  | .arr items => do
    let values ← itemsFrom (itemType ty) members 0 items
    pure (list values)
  | other => .error (.notList other.kind)

def ofPattern (op : Operator) : Json → Except OperandFault Operand
  | .str s =>
    if op = .search ∧ (trim s.toList).isEmpty then .error .emptySearch else .ok (pattern s)
  | other => .error (.notString other.kind)

def ofDocument : Json → Except OperandFault Operand
  | .obj members => .ok (document (.obj members))
  | .arr items => .ok (document (.arr items))
  | other => .error (.notDocument other.kind)

def keysFrom : List Json → Except OperandFault (List String)
  | [] => .ok []
  | .str s :: rest => do
    let names ← keysFrom rest
    pure (s :: names)
  | _ :: _ => .error .keyNotString

def ofKeys (op : Operator) : Json → Except OperandFault Operand
  | .str s => .ok (keys [s])
  | .arr items =>
    if op = .hasKey then .error (.notKey (Json.arr items).kind)
    else match keysFrom items with
      | .error fault => .error fault
      | .ok [] => .error .noKeys
      | .ok names => .ok (keys names)
  | other => .error (.notKey other.kind)

def pointMember (members : List (String × Json)) (member : String) : Except OperandFault GeoPoint :=
  match Json.lookup member members with
  | none => .error (.missing member)
  | some raw =>
    match readPoint raw with
    | .ok p => .ok p
    | .error fault => .error (.point fault)

def distanceMember (members : List (String × Json)) : Except OperandFault Float :=
  match (Json.lookup "distance" members).bind Json.number? with
  | none => .error .distanceNotNumber
  | some d => if d.isFinite && !(d < 0.0) then .ok d else .error .distanceNegative

def unitMember (members : List (String × Json)) : Except OperandFault (Option DistanceUnit) :=
  match Json.lookup "unit" members with
  | none => .ok none
  | some .null => .ok none
  | some raw =>
    match DistanceUnit.ofJson? raw with
    | some unit => .ok (some unit)
    | none => .error (.unknownUnit raw)

def ofRadius : Json → Except OperandFault Operand
  | .obj members => do
    let center ← pointMember members "point"
    let distance ← distanceMember members
    let unit ← unitMember members
    pure (near center distance unit)
  | _ => .error .notRadius

-- A box may cross the date line but not stand upside down.
def ofBox : Json → Except OperandFault Operand
  | .obj members => do
    let southWest ← pointMember members "south_west"
    let northEast ← pointMember members "north_east"
    if northEast.lat < southWest.lat then throw .cornersSwapped else pure (bounds southWest northEast)
  | _ => .error .notBox

def ofArity (arity : Arity) (op : Operator) (ty : SemanticType) (members : Option (List String)) (raw : Json) :
    Except OperandFault Operand :=
  match arity with
  | .flag => ofFlag raw
  | .scalar => ofScalar op ty members raw
  | .list => ofList ty members raw
  | .pattern => ofPattern op raw
  | .document => ofDocument raw
  | .keys => ofKeys op raw
  | .radius => ofRadius raw
  | .box => ofBox raw

def coerce (field : String) (op : Operator) (ty : SemanticType) (members : Option (List String)) (raw : Json) :
    Except FilterError Operand :=
  match ofArity (op.arity ty) op ty members raw with
  | .ok operand => .ok operand
  | .error fault => .error (.invalidValue field op fault)

end Operand
end FilterQuery
