import FilterQuery.Calendar.Timestamp
import FilterQuery.Json.Printer
import FilterQuery.Number.FixedPoint
import FilterQuery.Text.Split
import FilterQuery.Text.Uuid

namespace FilterQuery

-- Written in three ways: for people, as a JSON document, and tagged with its kind.
inductive Value where
  | null
  | bool (value : Bool)
  | int (value : Int64)
  | float (value : Float)
  | decimal (value : FixedPoint)
  | string (value : String)
  | date (value : Date)
  | dateTime (value : Timestamp)
  | time (value : Time)
  | uuid (value : Uuid)
  | json (value : Json)
  | array (items : List Value)

instance : Inhabited Value := ⟨.null⟩

namespace Value

def isNull : Value → Bool
  | null => true
  | _ => false

def kind : Value → String
  | null => "null"
  | bool _ => "boolean"
  | int _ => "integer"
  | float _ => "float"
  | decimal _ => "decimal"
  | string _ => "string"
  | date _ => "date"
  | dateTime _ => "datetime"
  | time _ => "time"
  | uuid _ => "uuid"
  | json _ => "json"
  | array _ => "array"

mutual
def toJson : Value → Json
  | null => .null
  | bool b => .bool b
  | int i => .int i.toInt
  | float x => .double x
  | decimal d => .str d.text
  | string s => .str s
  | date d => .str d.text
  | dateTime t => .str t.text
  | time t => .str t.text
  | uuid u => .str u.text
  | json j => j
  | array items => .arr (listToJson items)

def listToJson : List Value → List Json
  | [] => []
  | v :: rest => v.toJson :: listToJson rest
end

mutual
def serial : Value → Json
  | null => .str "Null"
  | bool b => .single "Bool" (.bool b)
  | int i => .single "Int" (.int i.toInt)
  | float x => .single "Float" (.double x)
  | decimal d => .single "Decimal" (.str d.text)
  | string s => .single "String" (.str s)
  | date d => .single "Date" (.str d.text)
  | dateTime t => .single "DateTime" (.str t.serialText)
  | time t => .single "Time" (.str t.text)
  | uuid u => .single "Uuid" (.str u.text)
  | json j => .single "Json" j
  | array items => .single "Array" (.arr (listSerial items))

def listSerial : List Value → List Json
  | [] => []
  | v :: rest => v.serial :: listSerial rest
end

def quote (s : String) : String := "'" ++ s ++ "'"

def doubleQuotes (s : String) : String := String.ofList (replaceChar '\'' ['\'', '\''] s.toList)

mutual
def text : Value → String
  | null => "NULL"
  | bool b => if b then "true" else "false"
  | int i => toString i.toInt
  | float x => floatText x
  | decimal d => d.text
  | string s => quote (doubleQuotes s)
  | date d => quote d.text
  | dateTime t => quote t.text
  | time t => quote t.text
  | uuid u => quote u.text
  | json j => quote j.text
  | array items => "[" ++ listText items ++ "]"

def listText : List Value → String
  | [] => ""
  | [v] => v.text
  | v :: rest => v.text ++ ", " ++ listText rest
end

mutual
def beq : Value → Value → Bool
  | null, null => true
  | bool a, bool b => a == b
  | int a, int b => a == b
  | float a, float b => a == b
  | decimal a, decimal b => a.sameValue b
  | string a, string b => a == b
  | date a, date b => a == b
  | dateTime a, dateTime b => a == b
  | time a, time b => a == b
  | uuid a, uuid b => a == b
  | json a, json b => a == b
  | array a, array b => beqList a b
  | _, _ => false

def beqList : List Value → List Value → Bool
  | [], [] => true
  | a :: as, b :: bs => beq a b && beqList as bs
  | _, _ => false
end

instance : BEq Value := ⟨beq⟩

end Value
end FilterQuery
