import FilterQuery.Adapter.Comparison
import FilterQuery.Adapter.NativeType
import FilterQuery.Adapter.Options
import FilterQuery.Adapter.TextMatch
import FilterQuery.Capability.Feature

namespace FilterQuery.Sqlite

-- Documents and arrays are texts to the JSON functions.
def scalarType? : String → Option SemanticType
  | "text" | "varchar" | "char" | "clob" | "nvarchar" | "nchar" | "string" => some .string
  | "integer" | "int" | "bigint" | "smallint" | "tinyint" => some .integer
  | "real" | "float" | "double" | "double precision" => some .float
  | "numeric" | "decimal" => some .decimal
  | "boolean" | "bool" => some .boolean
  | "date" => some .date
  | "datetime" | "timestamp" => some .dateTime
  | "time" => some .time
  | "uuid" => some .uuid
  | "json" | "jsonb" => some .json
  | _ => none

def semanticType (native : String) : Option SemanticType :=
  NativeType.typeOf scalarType? (NativeType.base native)

def implements (ty : SemanticType) (op : Operator) : Bool :=
  ty.candidates.contains op &&
    match ty with
    | .string => op != .similar && op != .search
    | .json => op != .contains && op != .containedIn
    | .coordinates => op == .isNull
    | _ => true

def requiredFeature? : SemanticType → Operator → Option Feature
  | _, .isNull => none
  | .string, .regex => some .regex
  | .string, .iregex => some .regex
  | .json, _ => some .json
  | .array _, _ => some .json
  | _, _ => none

def jsonValue (v : Value) : Expr := .func "json" [.value (.json v.toJson)]

def textLeaf (col : Expr) (op : Operator) (operand : Operand) : Option Expr :=
  if isTextMatch op then operand.pattern?.bind fun p => textMatch col op p .glob
  else match op with
    | .regex => operand.pattern?.map fun p => .binary col (.custom "REGEXP") (.value (.string p))
    | .iregex => operand.pattern?.map fun p => .binary col (.custom "REGEXP") (.value (.string ("(?i)" ++ p)))
    | _ => comparison col .value op operand

def hasKey (col : Expr) (key : String) : Expr :=
  .template ⟨"json_type(", [", ", ") IS NOT NULL"]⟩ [col, .value (.string (jsonPath key))]

def jsonLeaf (col : Expr) (op : Operator) (operand : Operand) : Option Expr :=
  match op with
  | .hasKey => (operand.keys?.bind List.head?).map (hasKey col)
  | .hasKeysAny => operand.keys?.map fun keys => Expr.any (keys.map (hasKey col))
  | .hasKeysAll => operand.keys?.map fun keys => Expr.all (keys.map (hasKey col))
  | .isNull => comparison col .value op operand
  | _ => comparison (.func "json" [col]) jsonValue op operand

-- No element of the first array is missing from the second.
def everyElement (first second : Expr) : Expr :=
  .template ⟨"NOT EXISTS (SELECT 1 FROM json_each(",
    [") AS c WHERE c.value NOT IN (SELECT value FROM json_each(", ")))"]⟩ [first, second]

def someElement (first second : Expr) : Expr :=
  .template ⟨"EXISTS (SELECT 1 FROM json_each(",
    [") AS c WHERE c.value IN (SELECT value FROM json_each(", ")))"]⟩ [first, second]

def arrayLeaf (col : Expr) (op : Operator) (operand : Operand) : Option Expr :=
  let candidate := operand.list?.map fun values => .value (jsonArray values)
  match op with
  | .contains => candidate.map fun c => everyElement c col
  | .containedIn => candidate.map (everyElement col)
  | .overlaps => candidate.map (someElement col)
  | .isNull => comparison col .value op operand
  | _ => comparison (.func "json" [col]) jsonValue op operand

def leaf (f : Field) (ty : SemanticType) (op : Operator) (operand : Operand) (options : ApplyOptions) :
    Option Expr :=
  let col := options.column f
  match ty with
  | .string => textLeaf col op operand
  | .json => jsonLeaf col op operand
  | .array _ => arrayLeaf col op operand
  | _ => comparison col .value op operand

end FilterQuery.Sqlite
