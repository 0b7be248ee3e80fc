import FilterQuery.Adapter.Comparison
import FilterQuery.Adapter.NativeType
import FilterQuery.Adapter.Options
import FilterQuery.Adapter.TextMatch
import FilterQuery.Capability.Feature

namespace FilterQuery.MsSql

-- No arrays and no regular expressions; documents live in text columns.
def scalarType? : String → Option SemanticType
  | "nvarchar" | "varchar" | "nchar" | "char" | "ntext" | "text" | "sysname" => some .string
  | "bit" => some .boolean
  | "tinyint" | "smallint" | "int" | "bigint" => some .integer
  | "float" | "real" => some .float
  | "decimal" | "numeric" | "money" | "smallmoney" => some .decimal
  | "date" => some .date
  | "datetime" | "datetime2" | "datetimeoffset" | "smalldatetime" => some .dateTime
  | "time" => some .time
  | "uniqueidentifier" => some .uuid
  | "json" => some .json
  | "geography" | "geometry" => some .coordinates
  | _ => none

def semanticType (native : String) : Option SemanticType := scalarType? (String.ofList (NativeType.base native))

def implements (ty : SemanticType) (op : Operator) : Bool :=
  ty.candidates.contains op &&
    match ty with
    | .string => op != .regex && op != .iregex && op != .similar
    | .json => op != .contains && op != .containedIn
    | .array _ => op == .isNull
    | _ => true

def requiredFeature? : SemanticType → Operator → Option Feature
  | _, .isNull => none
  | .string, .search => some .fullText
  | .json, _ => some .json
  | .coordinates, _ => some .spatial
  | _, _ => none

def textLeaf (col : Expr) (op : Operator) (operand : Operand) : Option Expr :=
  if isTextMatch op then operand.pattern?.bind fun p => textMatch col op p (.lowered true)
  else match op with
    | .search => operand.pattern?.map fun p => .template ⟨"CONTAINS(", [", ", ")"]⟩ [col, .value (.string p)]
    | _ => comparison col .value op operand

def hasKey (col : Expr) (key : String) : Expr :=
  .template ⟨"JSON_PATH_EXISTS(", [", ", ") = 1"]⟩ [col, .value (.string (jsonPath key))]

-- Documents compare by their text.
def documentText (v : Value) : Expr := .value (.string v.toJson.text)

def jsonLeaf (col : Expr) (op : Operator) (operand : Operand) : Option Expr :=
  match op with
  | .hasKey => (operand.keys?.bind List.head?).map (hasKey col)
  | .hasKeysAny => operand.keys?.map fun keys => Expr.any (keys.map (hasKey col))
  | .hasKeysAll => operand.keys?.map fun keys => Expr.all (keys.map (hasKey col))
  | _ => comparison col documentText op operand

def geoLeaf (col : Expr) (op : Operator) (operand : Operand) (options : ApplyOptions) : Option Expr :=
  match op with
  | .near => (options.near? operand).map fun (center, meters) =>
    .template ⟨"", [".STDistance(geography::Point(", ", ", ", 4326)) <= ", ""]⟩
      [col, .value (.float center.lat), .value (.float center.lng), .value (.float meters)]
  | .withinBox => operand.bounds?.map fun (southWest, northEast) =>
    .template ⟨"", [".STIntersects(geography::STGeomFromText(", ", 4326)) = 1"]⟩
      [col, .value (.string (boxWkt southWest northEast))]
  | _ => comparison col .value op operand

def leaf (f : Field) (ty : SemanticType) (op : Operator) (operand : Operand) (options : ApplyOptions) :
    Option Expr :=
  let col := options.column f
  match ty with
  | .string => textLeaf col op operand
  | .json => jsonLeaf col op operand
  | .coordinates => geoLeaf col op operand options
  | _ => comparison col .value op operand

end FilterQuery.MsSql
