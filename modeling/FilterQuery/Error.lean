import FilterQuery.Capability.Feature
import FilterQuery.Capability.Version
import FilterQuery.Json.Printer
import FilterQuery.Operator.Basic
import FilterQuery.Schema.Path
import FilterQuery.Value.Geo

namespace FilterQuery

-- Each cause of a refusal is a constructor; the wording is in the message functions alone.
inductive PointFault where
  | notObject
  | notNumber (member : String)
  | outside (point : GeoPoint)

inductive ValueFault where
  | mismatch (expected : SemanticType) (got : String)
  | unreadable (text : String) (expected : SemanticType)
  | notMember (text : String) (members : List String)
  | point (fault : PointFault)

inductive OperandFault where
  | notBoolean (got : String)
  | nullScalar
  | notList (got : String)
  | nullItem (index : Nat)
  | item (index : Nat) (fault : ValueFault)
  | value (fault : ValueFault)
  | emptySearch
  | notString (got : String)
  | notDocument (got : String)
  | keyNotString
  | notKey (got : String)
  | noKeys
  | notRadius
  | notBox
  | missing (member : String)
  | point (fault : PointFault)
  | distanceNotNumber
  | distanceNegative
  | unknownUnit (unit : Json)
  | cornersSwapped

inductive UnsupportedReason where
  | unknownOperator
  | onAssociation
  | notAvailable (ty : SemanticType) (adapter : Adapter)
  | noPredicate

inductive OrderFault where
  | toMany (path : FieldPath)
  | pastToMany (path : FieldPath)
  | association
  | unordered (ty : SemanticType)

inductive MalformedFault where
  | notFilter (got : String)
  | notFilterList (key got : String)
  | notNestedFilter (key got : String)
  | notOperators (path : FieldPath) (got : String)
  | operatorAtRoot (tag : String)
  | operatorWithoutField (op : Operator)
  | negationChildren (count : Nat)
  | tooDeep (path : FieldPath) (hops most : Nat)
  | notThrough (path : FieldPath)
  | notOrderList (got : String)
  | notOrderTerm (got : String)
  | unknownDirection (token : String) (path : FieldPath)
  | notDirection (path : FieldPath) (got : String)
  | orderWithoutField

inductive FilterError where
  | unknownField (queryable field : String)
  | unsupportedOperator (field operator : String) (reason : UnsupportedReason)
  | invalidValue (field : String) (operator : Operator) (fault : OperandFault)
  | unauthorizedField (fields : List String)
  | notOrderable (path : FieldPath) (fault : OrderFault)
  | adapterUnavailable (queryable : String)
  | capabilityMissing (feature : Feature) (adapter : Adapter) (version : Option Version)
  | malformedFilter (fault : MalformedFault)
  | notRegistered (id : String)
  | config

def PointFault.message : PointFault → String
  | notObject => "point must be an object with lat and lng"
  | notNumber member => "point." ++ member ++ " must be a number"
  | outside p => "point (" ++ floatText p.lat ++ ", " ++ floatText p.lng ++ ") is outside WGS84 bounds"

-- How a type names what its text should have been.
def SemanticType.noun : SemanticType → String
  | .integer => "an integer"
  | .float => "a number"
  | .decimal => "a decimal"
  | .date => "a date (YYYY-MM-DD)"
  | .dateTime => "an RFC 3339 timestamp"
  | .time => "a time (HH:MM[:SS])"
  | .uuid => "a UUID"
  | ty => ty.name

def ValueFault.message : ValueFault → String
  | mismatch expected got => "expected " ++ expected.name ++ ", got " ++ got
  | unreadable text expected => "'" ++ text ++ "' is not " ++ expected.noun
  | notMember text members => "'" ++ text ++ "' is not one of " ++ ", ".intercalate members
  | point fault => fault.message

def OperandFault.message : OperandFault → String
  | notBoolean got => "expected a boolean, got " ++ got
  | nullScalar => "null is only allowed with _eq and _neq"
  | notList got => "expected a list, got " ++ got
  | nullItem index => "list item " ++ toString index ++ " is null"
  | item index fault => "list item " ++ toString index ++ ": " ++ fault.message
  | value fault => fault.message
  | emptySearch => "search query must not be empty"
  | notString got => "expected a string, got " ++ got
  | notDocument got => "expected a JSON object or array, got " ++ got
  | keyNotString => "keys must be strings"
  | notKey got => "expected a key, got " ++ got
  | noKeys => "at least one key is required"
  | notRadius => "expected \x7bpoint, distance\x7d"
  | notBox => "expected \x7bsouth_west, north_east\x7d"
  | missing member => "missing " ++ member
  | point fault => fault.message
  | distanceNotNumber => "distance must be a number"
  | distanceNegative => "distance must be a non-negative number"
  | unknownUnit unit => "unknown distance unit " ++ unit.text
  | cornersSwapped => "south_west must be south of north_east"

def UnsupportedReason.message : UnsupportedReason → String
  | unknownOperator => "unknown operator"
  | onAssociation => "associations take a nested filter, not an operator"
  | notAvailable ty adapter => "not available for " ++ ty.name ++ " fields on " ++ adapter.name
  | noPredicate => "no predicate for this operand"

def OrderFault.message : OrderFault → String
  | toMany path => "'" ++ path.dotted ++ "' is a to-many association"
  | pastToMany path => "ordering through '" ++ path.dotted ++ "' must end at one of its fields"
  | association => "associations cannot be ordered, order by one of their fields"
  | unordered ty => ty.name ++ " fields have no ordering"

def MalformedFault.message : MalformedFault → String
  | notFilter got => "filter must be an object, got " ++ got
  | notFilterList key got => key ++ " expects a list of filters, got " ++ got
  | notNestedFilter key got => key ++ " expects a filter object, got " ++ got
  | notOperators path got => "field '" ++ path.dotted ++ "' expects an object of operators, got " ++ got
  | operatorAtRoot tag => "operator " ++ tag ++ " must be nested under a field"
  | operatorWithoutField op => "operator " ++ op.tag ++ " has no field"
  | negationChildren count => "_not takes exactly one child, got " ++ toString count
  | tooDeep path hops most =>
    "'" ++ path.dotted ++ "' crosses " ++ toString hops ++ " associations, at most " ++ toString most ++ " allowed"
  | notThrough path => "cannot filter through '" ++ path.dotted ++ "'"
  | notOrderList got => "order must be a list, got " ++ got
  | notOrderTerm got => "order term must be an object, got " ++ got
  | unknownDirection token path => "invalid order direction '" ++ token ++ "' for " ++ path.dotted
  | notDirection path got =>
    "order for " ++ path.dotted ++ " must be a direction or a nested object, got " ++ got
  | orderWithoutField => "order term has no field"

namespace FilterError

def code : FilterError → String
  | unknownField .. => "unknown_field"
  | unsupportedOperator .. => "unsupported_operator"
  | invalidValue .. => "invalid_value"
  | unauthorizedField .. => "unauthorized_field"
  | notOrderable .. => "not_orderable"
  | adapterUnavailable .. => "adapter_unavailable"
  | capabilityMissing .. => "capability_missing"
  | malformedFilter .. => "malformed_filter"
  | notRegistered .. => "registry"
  | config => "config"

def message : FilterError → String
  | unknownField queryable field => "Unknown field '" ++ field ++ "' on " ++ queryable
  | unsupportedOperator field operator reason =>
    "Operator " ++ operator ++ " is not supported for field '" ++ field ++ "': " ++ reason.message
  | invalidValue field operator fault =>
    "Invalid value for " ++ field ++ " " ++ operator.tag ++ ": " ++ fault.message
  | unauthorizedField fields => "Unauthorized filter field(s): " ++ ", ".intercalate fields
  | notOrderable path fault => "Cannot order by '" ++ path.dotted ++ "': " ++ fault.message
  | adapterUnavailable queryable => "No adapter handles queryable " ++ queryable
  | capabilityMissing feature adapter version =>
    feature.name ++ " is required but not available on " ++ adapter.name ++
      (match version with
        | some v => " " ++ v.text
        | none => "") ++ ": " ++ remediationHint adapter feature
  | malformedFilter fault => "Malformed filter: " ++ fault.message
  | notRegistered id => "Registry error: queryable " ++ id ++ " is not registered"
  | config => "Configuration error: invalid settings"

end FilterError
end FilterQuery
