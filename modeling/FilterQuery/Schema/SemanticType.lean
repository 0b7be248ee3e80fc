import FilterQuery.Json.Basic

namespace FilterQuery

inductive ElementType where
  | string
  | integer
  | float
  | decimal
  | boolean
  | date
  | dateTime
  | uuid
  | enum
  deriving DecidableEq, Repr

-- What a field holds, whatever its backend calls the column type.
inductive SemanticType where
  | string
  | integer
  | float
  | decimal
  | boolean
  | date
  | dateTime
  | time
  | uuid
  | enum
  | json
  | coordinates
  | array (element : ElementType)
  deriving DecidableEq, Repr

namespace ElementType

def all : List ElementType := [string, integer, float, decimal, boolean, date, dateTime, uuid, enum]

def scalar : ElementType → SemanticType
  | string => .string
  | integer => .integer
  | float => .float
  | decimal => .decimal
  | boolean => .boolean
  | date => .date
  | dateTime => .dateTime
  | uuid => .uuid
  | enum => .enum

def ofScalar? (ty : SemanticType) : Option ElementType := all.find? (·.scalar == ty)

end ElementType

namespace SemanticType

def scalars : List SemanticType :=
  [string, integer, float, decimal, boolean, date, dateTime, time, uuid, enum, json, coordinates]

def catalogue : List SemanticType := scalars ++ ElementType.all.map array

def isOrderable : SemanticType → Bool
  | json | coordinates | array _ => false
  | _ => true

def isNumeric : SemanticType → Bool
  | integer | float | decimal => true
  | _ => false

def isTemporal : SemanticType → Bool
  | date | dateTime | time => true
  | _ => false

def isArray : SemanticType → Bool
  | array _ => true
  | _ => false

def scalarName : SemanticType → String
  | string => "string"
  | integer => "integer"
  | float => "float"
  | decimal => "decimal"
  | boolean => "boolean"
  | date => "date"
  | dateTime => "datetime"
  | time => "time"
  | uuid => "uuid"
  | enum => "enum"
  | json => "json"
  | coordinates => "coordinates"
  | array _ => "array"

def name : SemanticType → String
  | array element => "array<" ++ element.scalar.scalarName ++ ">"
  | ty => ty.scalarName

def ofName? (name : String) : Option SemanticType := catalogue.find? (·.name == name)

def serialWord : SemanticType → String
  | dateTime => "date_time"
  | ty => ty.scalarName

def serial : SemanticType → Json
  | array element => .single "array" (.str (serialWord element.scalar))
  | ty => .str (serialWord ty)

end SemanticType
end FilterQuery
