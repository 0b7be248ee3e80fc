import FilterQuery.Schema.SemanticType

namespace FilterQuery

inductive Operator where
  | eq
  | neq
  | gt
  | gte
  | lt
  | lte
  | isIn
  | notIn
  | isNull
  | like
  | nlike
  | ilike
  | nilike
  | startsWith
  | endsWith
  | includes
  | regex
  | iregex
  | similar
  | search
  | contains
  | containedIn
  | overlaps
  | hasKey
  | hasKeysAny
  | hasKeysAll
  | near
  | withinBox
  deriving DecidableEq, Repr

inductive Arity where
  | flag
  | scalar
  | list
  | pattern
  | document
  | keys
  | radius
  | box
  deriving DecidableEq, Repr

-- Rough expense of a test on one row, cheapest first.
inductive CostClass where
  | trivial
  | range
  | pattern
  | expensive
  deriving DecidableEq, Repr

def CostClass.rank : CostClass → Nat
  | trivial => 0
  | range => 1
  | pattern => 2
  | expensive => 3

def Arity.name : Arity → String
  | flag => "flag"
  | scalar => "scalar"
  | list => "list"
  | pattern => "pattern"
  | document => "document"
  | keys => "keys"
  | radius => "radius"
  | box => "box"

namespace Operator

def all : List Operator :=
  [eq, neq, gt, gte, lt, lte, isIn, notIn, isNull, like, nlike, ilike, nilike, startsWith, endsWith, includes,
    regex, iregex, similar, search, contains, containedIn, overlaps, hasKey, hasKeysAny, hasKeysAll, near, withinBox]

def word : Operator → String
  | eq => "eq"
  | neq => "neq"
  | gt => "gt"
  | gte => "gte"
  | lt => "lt"
  | lte => "lte"
  | isIn => "in"
  | notIn => "nin"
  | isNull => "is_null"
  | like => "like"
  | nlike => "nlike"
  | ilike => "ilike"
  | nilike => "nilike"
  | startsWith => "starts_with"
  | endsWith => "ends_with"
  | includes => "includes"
  | regex => "regex"
  | iregex => "iregex"
  | similar => "similar"
  | search => "search"
  | contains => "contains"
  | containedIn => "contained_in"
  | overlaps => "overlaps"
  | hasKey => "has_key"
  | hasKeysAny => "has_keys_any"
  | hasKeysAll => "has_keys_all"
  | near => "near"
  | withinBox => "within_box"

def tag (op : Operator) : String := "_" ++ op.word

def ofTag? (tag : String) : Option Operator := all.find? (·.tag == tag)

def ofWord? (word : String) : Option Operator := all.find? (·.word == word)

def arity (op : Operator) (ty : SemanticType) : Arity :=
  match op with
  | isNull => .flag
  | isIn | notIn => .list
  | like | nlike | ilike | nilike | startsWith | endsWith | includes | regex | iregex | similar | search => .pattern
  | contains | containedIn | overlaps => if ty = .json then .document else .list
  | hasKey | hasKeysAny | hasKeysAll => .keys
  | near => .radius
  | withinBox => .box
  | eq | neq | gt | gte | lt | lte => .scalar

def costClass : Operator → CostClass
  | eq | neq | isNull => .trivial
  | gt | gte | lt | lte | isIn | notIn | hasKey | hasKeysAny | hasKeysAll => .range
  | like | nlike | ilike | nilike | startsWith | endsWith | includes | contains | containedIn | overlaps => .pattern
  | regex | iregex | similar | search | near | withinBox => .expensive

def isNegative : Operator → Bool
  | neq | notIn | nlike | nilike => true
  | _ => false

end Operator

namespace SemanticType
open Operator

-- Every operator that makes sense for the type, in the order they are offered.
def candidates : SemanticType → List Operator
  | string => [eq, neq, gt, gte, lt, lte, isIn, notIn, isNull, like, nlike, ilike, nilike, startsWith, endsWith,
      includes, regex, iregex, similar, Operator.search]
  | integer | float | decimal | date | dateTime | time => [eq, neq, gt, gte, lt, lte, isIn, notIn, isNull]
  | boolean => [eq, neq, isNull]
  | uuid | enum => [eq, neq, isIn, notIn, isNull]
  | json => [eq, neq, isNull, contains, containedIn, hasKey, hasKeysAny, hasKeysAll]
  | coordinates => [isNull, near, withinBox]
  | array .boolean => [eq, neq, isNull]
  | array _ => [eq, neq, isNull, contains, containedIn, overlaps]

end SemanticType
end FilterQuery
