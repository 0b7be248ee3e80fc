import FilterQuery.Error
import FilterQuery.Value.Basic

namespace FilterQuery

def readCoordinate (members : List (String × Json)) (member : String) : Except PointFault Float :=
  match (Json.lookup member members).bind Json.number? with
  | some x => .ok x
  | none => .error (.notNumber member)

def readPoint : Json → Except PointFault GeoPoint
  | .obj members => do
    let lat ← readCoordinate members "lat"
    let lng ← readCoordinate members "lng"
    let point : GeoPoint := ⟨lat, lng⟩
    if point.isValid then pure point else throw (.outside point)
  | _ => .error .notObject

def pointJson (latKey lngKey : String) (p : GeoPoint) : Json :=
  .obj [(latKey, .double p.lat), (lngKey, .double p.lng)]

def readable (ty : SemanticType) (text : String) (value : Option Value) : Except ValueFault Value :=
  match value with
  | some v => .ok v
  | none => .error (.unreadable text ty)

def coerceMember (members : Option (List String)) (s : String) : Except ValueFault Value :=
  match members with
  | some ms => if ms.contains s then .ok (.string s) else .error (.notMember s ms)
  | none => .ok (.string s)

-- Every type but arrays.
def coerceScalar (ty : SemanticType) (members : Option (List String)) (raw : Json) : Except ValueFault Value :=
  match ty, raw with
  | .string, .str s => .ok (.string s)
  | .integer, .num n =>
    match n.toInt64? with
    | some i => .ok (.int i)
    | none => .error (.mismatch ty raw.kind)
  | .integer, .str s => readable ty s ((readInt64? s).map .int)
  | .float, .num n => .ok (.float n.toFloat)
  | .float, .str s => readable ty s ((readFloat? s).map .float)
  | .decimal, .num n => readable ty (Json.numberText n) ((FixedPoint.ofText? (Json.numberText n)).map .decimal)
  | .decimal, .str s => readable ty s ((FixedPoint.ofText? s).map .decimal)
  | .boolean, .bool b => .ok (.bool b)
  | .date, .str s => readable ty s ((Date.ofText? s).map .date)
  | .dateTime, .str s => readable ty s ((Timestamp.ofText? s).map .dateTime)
  | .time, .str s => readable ty s ((Time.ofText? s).map .time)
  | .uuid, .str s => readable ty s ((Uuid.ofText? s).map .uuid)
  | .enum, .str s => coerceMember members s
  | .json, j => .ok (.json j)
  | .coordinates, j =>
    match readPoint j with
    | .ok p => .ok (.json (pointJson "lat" "lng" p))
    | .error fault => .error (.point fault)
  | _, _ => .error (.mismatch ty raw.kind)

def coerceAll (ty : SemanticType) (members : Option (List String)) : List Json → Except ValueFault (List Value)
  | [] => .ok []
  | item :: rest => do
    let value ← coerceScalar ty members item
    let values ← coerceAll ty members rest
    pure (value :: values)

def coerceValue (ty : SemanticType) (members : Option (List String)) (raw : Json) : Except ValueFault Value :=
  match ty, raw with
  | .array element, .arr items => do
    let values ← coerceAll element.scalar members items
    pure (.array values)
  | _, _ => coerceScalar ty members raw

end FilterQuery
