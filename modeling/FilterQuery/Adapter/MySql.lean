import FilterQuery.Adapter.Comparison
import FilterQuery.Adapter.NativeType
import FilterQuery.Adapter.Options
import FilterQuery.Adapter.TextMatch
import FilterQuery.Capability.Feature

namespace FilterQuery.MySql

-- Arrays live in JSON columns and go through the JSON functions; enum members come with the type.
def scalarType? : String → Option SemanticType
  | "varchar" | "char" | "text" | "tinytext" | "mediumtext" | "longtext" => some .string
  | "tinyint" | "smallint" | "mediumint" | "int" | "integer" | "bigint" => some .integer
  | "float" | "double" | "real" | "double precision" => some .float
  | "decimal" | "numeric" | "dec" => some .decimal
  | "bool" | "boolean" => some .boolean
  | "date" => some .date
  | "datetime" | "timestamp" => some .dateTime
  | "time" => some .time
  | "uuid" => some .uuid
  | "json" => some .json
  | "point" | "geometry" => some .coordinates
  | _ => none

def unsigned : List Char := " unsigned".toList

def dropUnsigned : Nat → List Char → List Char
  | 0, cs => cs
  | fuel + 1, cs =>
    match NativeType.stripSuffix? unsigned cs with
    | some rest => dropUnsigned fuel rest
    | none => cs

-- One bit is a truth value, and the spelled-out types are read before their arguments are cut.
def semanticType (native : String) : Option SemanticType :=
  let lowered := NativeType.normal native
  if lowered = "tinyint(1)".toList ∨ lowered = "bit(1)".toList then some .boolean
  else if "enum(".toList.isPrefixOf lowered ∨ "set(".toList.isPrefixOf lowered then some .enum
  else
    let base := NativeType.base (String.ofList lowered)
    NativeType.typeOf scalarType? (dropUnsigned base.length base)

mutual
-- Members between quotes; a doubled quote is one quote of the member.
def members : List Char → List (List Char)
  | [] => []
  | c :: rest => if c = '\'' then memberRest [] rest else members rest

def memberRest (seen : List Char) : List Char → List (List Char)
  | [] => [seen]
  | [c] => if c = '\'' then [seen] else [seen ++ [c]]
  | c :: d :: rest =>
    if c = '\'' then
      if d = '\'' then memberRest (seen ++ ['\'']) rest else seen :: members (d :: rest)
    else memberRest (seen ++ [c]) (d :: rest)
end

def enumMembers? (native : String) : Option (List String) :=
  let inside := (native.toList.dropWhile (· != '(')).drop 1
  if inside.contains ')' then
    match members (NativeType.beforeLast ')' inside) with
    | [] => none
    | found => some (found.map String.ofList)
  else none

def requiredFeature? : SemanticType → Operator → Option Feature
  | _, .isNull => none
  | .string, .regex => some .regex
  | .string, .iregex => some .regex
  | .string, .search => some .fullText
  | .json, _ => some .json
  | .array _, .overlaps => some .jsonArrayOverlap
  | .array _, _ => some .json
  | .coordinates, _ => some .spatial
  | _, _ => none

def jsonParam (v : Value) : Expr := .template ⟨"CAST(", [" AS JSON)"]⟩ [.value (.json v.toJson)]

def regexpLike (flags : String) (col : Expr) (p : String) : Expr :=
  .template ⟨"REGEXP_LIKE(", [", ", ", '" ++ flags ++ "')"]⟩ [col, .value (.string p)]

def textLeaf (col : Expr) (op : Operator) (operand : Operand) : Option Expr :=
  if isTextMatch op then operand.pattern?.bind fun p => textMatch col op p (.lowered false)
  else match op with
    | .regex => operand.pattern?.map (regexpLike "c" col)
    | .iregex => operand.pattern?.map (regexpLike "i" col)
    | .search => operand.pattern?.map fun p =>
      .template ⟨"MATCH(", [") AGAINST (", " IN NATURAL LANGUAGE MODE)"]⟩ [col, .value (.string p)]
    | _ => comparison col .value op operand

def jsonContains (container contained : Expr) : Expr :=
  .template ⟨"JSON_CONTAINS(", [", ", ")"]⟩ [container, contained]

-- One hole for the column, then one for each key.
def containsPath (mode : String) (col : Expr) (keys : List String) : Expr :=
  let between := List.replicate (keys.length - 1) ", "
  .template ⟨"JSON_CONTAINS_PATH(", (", '" ++ mode ++ "', ") :: between ++ [")"]⟩
    (col :: keys.map fun k => .value (.string (jsonPath k)))

def jsonLeaf (col : Expr) : Operator → Operand → Option Expr
  | .contains, .document doc => some (jsonContains col (jsonParam (.json doc)))
  | .containedIn, .document doc => some (jsonContains (jsonParam (.json doc)) col)
  | .hasKey, operand => operand.keys?.map (containsPath "one" col)
  | .hasKeysAny, operand => operand.keys?.map (containsPath "one" col)
  | .hasKeysAll, operand => operand.keys?.map (containsPath "all" col)
  | op, operand => comparison col jsonParam op operand

def arrayLeaf (col : Expr) (op : Operator) (operand : Operand) : Option Expr :=
  let candidate := operand.list?.map fun values => jsonParam (jsonArray values)
  match op with
  | .contains => candidate.map (jsonContains col)
  | .containedIn => candidate.map fun c => jsonContains c col
  | .overlaps => candidate.map fun c => .template ⟨"JSON_OVERLAPS(", [", ", ")"]⟩ [col, c]
  | _ => comparison col jsonParam op operand

def geoLeaf (col : Expr) (op : Operator) (operand : Operand) (options : ApplyOptions) : Option Expr :=
  match op with
  | .near => (options.near? operand).map fun (center, meters) =>
    .template ⟨"ST_Distance_Sphere(", [", ST_GeomFromText(", ", 4326, 'axis-order=long-lat')) <= ", ""]⟩
      [col, .value (.string center.wkt), .value (.float meters)]
  | .withinBox => operand.bounds?.map fun (southWest, northEast) =>
    .template ⟨"MBRContains(ST_GeomFromText(", [", 4326, 'axis-order=long-lat'), ", ")"]⟩
      [.value (.string (boxWkt southWest northEast)), col]
  | _ => comparison col .value op operand

def leaf (f : Field) (ty : SemanticType) (op : Operator) (operand : Operand) (options : ApplyOptions) :
    Option Expr :=
  let col := options.column f
  match ty with
  | .string => textLeaf col op operand
  | .json => jsonLeaf col op operand
  | .array _ => arrayLeaf col op operand
  | .coordinates => geoLeaf col op operand options
  | _ => comparison col .value op operand

end FilterQuery.MySql
