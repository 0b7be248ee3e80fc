import FilterQuery.Adapter.NativeType
import FilterQuery.Adapter.Options
import FilterQuery.Query.Compiled

namespace FilterQuery.SearchEngine

def scalarType? : String → Option SemanticType
  | "text" | "keyword" | "match_only_text" | "wildcard" | "constant_keyword" | "search_as_you_type" => some .string
  | "long" | "integer" | "short" | "byte" | "unsigned_long" => some .integer
  | "double" | "float" | "half_float" | "scaled_float" => some .float
  | "boolean" => some .boolean
  | "date" | "date_nanos" => some .dateTime
  | "object" | "flattened" | "flat_object" => some .json
  | "geo_point" => some .coordinates
  | _ => none

def semanticType (native : String) : Option SemanticType :=
  let name := NativeType.normal native
  match NativeType.stripSuffix? NativeType.arrayMark name with
  | some element => NativeType.arrayOf (scalarType? (String.ofList element))
  | none => scalarType? (String.ofList name)

def implements (ty : SemanticType) (op : Operator) : Bool :=
  ty.candidates.contains op &&
    match ty with
    | .string => op != .similar
    | .json => op == .isNull || op == .hasKey || op == .hasKeysAny || op == .hasKeysAll
    | .array _ => op == .isNull || op == .contains || op == .overlaps
    | _ => true

def wildcardEscapeChar (c : Char) : List Char := if c = '\\' ∨ c = '*' ∨ c = '?' then ['\\', c] else [c]

def wildcardEscape (cs : List Char) : List Char := cs.flatMap wildcardEscapeChar

def likeToWildcard (cs : List Char) : List Char :=
  cs.flatMap fun c => if c = '%' then ['*'] else if c = '_' then ['?'] else wildcardEscapeChar c

def term (field : String) (v : Value) : Clause := .fieldQuery "term" field v.toJson

def terms (field : String) (vs : List Value) : Clause := .fieldQuery "terms" field (.arr (Value.listToJson vs))

def range (bound field : String) (v : Value) : Clause := .fieldQuery "range" field (.single bound v.toJson)

def wildcard (field : String) (pattern : List Char) (ignoreCase : Bool) : Clause :=
  .fieldQuery "wildcard" field
    (.obj [("value", .str (String.ofList pattern)), ("case_insensitive", .bool ignoreCase)])

def member (field key : String) : Clause := .existing (field ++ "." ++ key)

def like (field : String) (ignoreCase : Bool) (operand : Operand) : Option Clause :=
  operand.pattern?.map fun p => wildcard field (likeToWildcard p.toList) ignoreCase

-- The pattern under the given name, as one query.
def patternQuery (kind field name : String) (extra : List (String × Json)) (operand : Operand) : Option Clause :=
  operand.pattern?.map fun p => .fieldQuery kind field (.obj ((name, .str p) :: extra))

def textClause (field : String) (op : Operator) (operand : Operand) : Option Clause :=
  match op with
  | .like => like field false operand
  | .nlike => (like field false operand).map Clause.negate
  | .ilike => like field true operand
  | .nilike => (like field true operand).map Clause.negate
  | .startsWith => patternQuery "prefix" field "value" [] operand
  | .endsWith => operand.pattern?.map fun p => wildcard field ('*' :: wildcardEscape p.toList) false
  | .includes => operand.pattern?.map fun p => wildcard field ('*' :: wildcardEscape p.toList ++ ['*']) false
  | .regex => patternQuery "regexp" field "value" [] operand
  | .iregex => patternQuery "regexp" field "value" [("case_insensitive", .bool true)] operand
  | .search => patternQuery "match" field "query" [] operand
  | _ => none

def geoClause (field : String) (op : Operator) (operand : Operand) (options : ApplyOptions) : Option Clause :=
  match op with
  | .near => (options.near? operand).map fun (center, meters) =>
    .leaf "geo_distance" (.obj (Json.insert field (pointJson "lat" "lon" center)
      [("distance", .str (floatText meters ++ "m"))]))
  | .withinBox => operand.bounds?.map fun (southWest, northEast) =>
    .fieldQuery "geo_bounding_box" field (.obj [
      ("top_left", pointJson "lat" "lon" ⟨northEast.lat, southWest.lng⟩),
      ("bottom_right", pointJson "lat" "lon" ⟨southWest.lat, northEast.lng⟩)])
  | _ => none

def clause (field : String) (options : ApplyOptions) : Operator → Operand → Option Clause
  | .eq, .scalar .null => some (Clause.existing field).negate
  | .neq, .scalar .null => some (.existing field)
  | .eq, .scalar v => some (term field v)
  | .neq, .scalar v => some (term field v).negate
  | .gt, .scalar v => some (range "gt" field v)
  | .gte, .scalar v => some (range "gte" field v)
  | .lt, .scalar v => some (range "lt" field v)
  | .lte, .scalar v => some (range "lte" field v)
  | .isIn, .list [] => some (.constant false)
  | .notIn, .list [] => some (.constant true)
  | .isIn, .list (v :: vs) => some (terms field (v :: vs))
  | .notIn, .list (v :: vs) => some (terms field (v :: vs)).negate
  | .isNull, .flag true => some (Clause.existing field).negate
  | .isNull, .flag false => some (.existing field)
  | .hasKey, operand => (operand.keys?.bind List.head?).map (member field)
  | .hasKeysAny, operand => operand.keys?.map fun keys => Clause.any (keys.map (member field))
  | .hasKeysAll, operand => operand.keys?.map fun keys => Clause.all (keys.map (member field))
  | .contains, .list vs => some (Clause.all (vs.map (term field)))
  | .overlaps, .list [] => some (.constant false)
  | .overlaps, .list (v :: vs) => some (terms field (v :: vs))
  | .near, operand => geoClause field .near operand options
  | .withinBox, operand => geoClause field .withinBox operand options
  | op, operand => textClause field op operand

def leaf (f : Field) (op : Operator) (operand : Operand) (options : ApplyOptions) : Option Clause :=
  clause (searchField options.bindingText f.column) options op operand

end FilterQuery.SearchEngine
