import FilterQuery.Adapter.Comparison
import FilterQuery.Adapter.NativeType
import FilterQuery.Adapter.Options
import FilterQuery.Adapter.TextMatch
import FilterQuery.Capability.Feature

namespace FilterQuery.Postgres

-- Arrays and documents are native. CockroachDB reads the same names.
def scalarType? : String → Option SemanticType
  | "text" | "varchar" | "character varying" | "char" | "character" | "bpchar" | "citext" | "name" | "string" =>
    some .string
  | "int2" | "int4" | "int8" | "smallint" | "integer" | "bigint" | "int" | "serial" | "bigserial" | "smallserial" =>
    some .integer
  | "float4" | "float8" | "real" | "double precision" | "float" => some .float
  | "numeric" | "decimal" | "money" => some .decimal
  | "bool" | "boolean" => some .boolean
  | "date" => some .date
  | "timestamp" | "timestamptz" | "timestamp with time zone" | "timestamp without time zone" => some .dateTime
  | "time" | "timetz" | "time with time zone" | "time without time zone" => some .time
  | "uuid" => some .uuid
  | "json" | "jsonb" => some .json
  | "geography" | "geometry" | "point" => some .coordinates
  | _ => none

-- A name with a leading underscore is the internal name of an array type.
def semanticType (native : String) : Option SemanticType :=
  match NativeType.element? (NativeType.base native), NativeType.base native with
  | none, '_' :: element => NativeType.arrayOf (scalarType? (String.ofList element))
  | _, base => NativeType.typeOf scalarType? base

def geoFeature? (ty : SemanticType) (op : Operator) : Option Feature :=
  if ty = .coordinates ∧ (op = .near ∨ op = .withinBox) then some .spatial else none

def isCastChar (c : Char) : Bool :=
  c.isAlphanum || c == '_' || c == '.' || c == ' ' || c == '[' || c == ']'

-- A type name that may stand in a cast as it is.
def castTarget? (native : String) : Option String :=
  let cs := trim native.toList
  if !cs.isEmpty && cs.all isCastChar then some (String.ofList cs) else none

def cast (ty : String) (v : Value) : Expr := .template ⟨"", ["::" ++ ty]⟩ [.value v]

def castParam (ty : Option String) (v : Value) : Expr :=
  match ty with
  | some ty => cast ty v
  | none => .value v

def arrayType : ElementType → String
  | .string | .enum => "text[]"
  | .integer => "int8[]"
  | .float => "float8[]"
  | .decimal => "numeric[]"
  | .boolean => "bool[]"
  | .date => "date[]"
  | .dateTime => "timestamptz[]"
  | .uuid => "uuid[]"

def textLeaf (col : Expr) (op : Operator) (operand : Operand) : Option Expr :=
  if isTextMatch op then operand.pattern?.bind fun p => textMatch col op p .native
  else match op with
    | .regex => operand.pattern?.map fun p => .binary col (.custom "~") (.value (.string p))
    | .iregex => operand.pattern?.map fun p => .binary col (.custom "~*") (.value (.string p))
    | .similar => operand.pattern?.map fun p => .binary col (.custom "SIMILAR TO") (.value (.string p))
    | .search => operand.pattern?.map fun p =>
      .template ⟨"to_tsvector(", [") @@ plainto_tsquery(", ")"]⟩ [col, .value (.string p)]
    | _ => comparison col .value op operand

def keysParam (keys : List String) : Expr := cast "text[]" (.array (keys.map .string))

def jsonLeaf (col : Expr) : Operator → Operand → Option Expr
  | .contains, .document doc => some (.binary col (.custom "@>") (cast "jsonb" (.json doc)))
  | .containedIn, .document doc => some (.binary col (.custom "<@") (cast "jsonb" (.json doc)))
  | .hasKey, operand =>
    (operand.keys?.bind List.head?).map fun key => .binary col (.custom "?") (.value (.string key))
  | .hasKeysAny, operand => operand.keys?.map fun keys => .binary col (.custom "?|") (keysParam keys)
  | .hasKeysAll, operand => operand.keys?.map fun keys => .binary col (.custom "?&") (keysParam keys)
  | op, operand => comparison col (cast "jsonb") op operand

def arrayLeaf (col : Expr) (ty : String) (op : Operator) (operand : Operand) : Option Expr :=
  let against (symbol : String) :=
    operand.list?.map fun values => .binary col (.custom symbol) (cast ty (.array values))
  match op with
  | .contains => against "@>"
  | .containedIn => against "<@"
  | .overlaps => against "&&"
  | _ => comparison col (cast ty) op operand

def floatParam (x : Float) : Expr := .value (.float x)

def geoLeaf (col : Expr) (op : Operator) (operand : Operand) (options : ApplyOptions) : Option Expr :=
  match op with
  | .near => (options.near? operand).map fun (center, meters) =>
    .template ⟨"ST_DWithin(", ["::geography, ST_SetSRID(ST_MakePoint(", ", ", "), 4326)::geography, ", ")"]⟩
      [col, floatParam center.lng, floatParam center.lat, floatParam meters]
  | .withinBox => operand.bounds?.map fun (southWest, northEast) =>
    .template ⟨"ST_Intersects(", ["::geometry, ST_MakeEnvelope(", ", ", ", ", ", ", ", 4326))"]⟩
      [col, floatParam southWest.lng, floatParam southWest.lat, floatParam northEast.lng, floatParam northEast.lat]
  | _ => comparison col .value op operand

-- A text column restricted to members compares as text; a native enum needs its own type.
def enumCast (f : Field) : Option String :=
  match f.nativeType with
  | some native => if semanticType native = some .string then none else castTarget? native
  | none => none

def arrayCast (f : Field) (element : ElementType) : String :=
  (f.nativeType.bind castTarget?).getD (arrayType element)

def leaf (f : Field) (ty : SemanticType) (op : Operator) (operand : Operand) (options : ApplyOptions) :
    Option Expr :=
  let col := options.column f
  match ty with
  | .json => jsonLeaf col op operand
  | .coordinates => geoLeaf col op operand options
  | .array element => arrayLeaf col (arrayCast f element) op operand
  | .string => textLeaf col op operand
  | .enum => comparison col (castParam (enumCast f)) op operand
  | _ => comparison col .value op operand

end FilterQuery.Postgres
