import FilterQuery.Sql.Dialect
import FilterQuery.Sql.Expr

namespace FilterQuery

namespace Expr

def isOr : Expr → Bool
  | or _ => true
  | _ => false

def isAnd : Expr → Bool
  | and _ => true
  | _ => false

-- Operands of a comparison or test that need parentheses.
def isWeak : Expr → Bool
  | and _ | or _ | binary .. | constant _ => true
  | _ => false

end Expr

namespace Render

def grouped (group : Bool) (pieces : List Piece) : List Piece :=
  if group then .text "(" :: pieces ++ [.text ")"] else pieces

def name (d : Dialect) (ident : String) : Piece := .text (d.quoteName ident)

def columnName (d : Dialect) (table : Option String) (column : String) : List Piece :=
  match table with
  | some t => [name d t, .text ".", name d column]
  | none => [name d column]

def joinWord : JoinKind → String
  | .inner => "INNER JOIN"
  | .left => "LEFT JOIN"

def asBinding (d : Dialect) (binding : String) : List Piece := Piece.keyword "AS" ++ [.space, name d binding]

def fromPieces (d : Dialect) (table binding : String) : List Piece :=
  Piece.keyword "FROM" ++ [.space, name d table] ++ (if binding = table then [] else asBinding d binding)

-- A key of zeros and ones put in front, zero first.
def nullsIndicator (nulls : Nulls) (key : List Piece) : List Piece :=
  let test := match nulls with
    | .first => " IS NULL THEN 0 ELSE 1 END"
    | _ => " IS NULL THEN 1 ELSE 0 END"
  .text "CASE WHEN " :: key ++ [.text test, .text ", "]

def nullsWord : Nulls → List Piece
  | .first => Piece.keyword "NULLS FIRST"
  | .last => Piece.keyword "NULLS LAST"
  | .default => []

def sortKey (d : Dialect) (key : List Piece) (direction : Direction) (nulls : Nulls) : List Piece :=
  if nulls ≠ .default ∧ !d.placesNulls then
    nullsIndicator nulls key ++ key ++ Piece.keyword direction.keyword
  else key ++ Piece.keyword direction.keyword ++ nullsWord nulls

def notTrue (d : Dialect) (inner : List Piece) : List Piece :=
  if d.testsTruth then .text "(" :: inner ++ [.text ") IS NOT TRUE"]
  else .text "CASE WHEN " :: inner ++ [.text " THEN 1 ELSE 0 END = 0"]

mutual
def expr (d : Dialect) : Expr → List Piece
  | .column table column => columnName d table column
  | .value v => [.value v]
  | .binary left op right =>
    grouped left.isWeak (expr d left) ++ Piece.keyword op.symbol ++ [.space] ++ grouped right.isWeak (expr d right)
  | .inList e list negated =>
    grouped e.isWeak (expr d e) ++ Piece.keyword (if negated then "NOT IN" else "IN") ++
      .text " (" :: members d ", " (fun _ => false) list ++ [.text ")"]
  | .isNull e negated =>
    grouped e.isWeak (expr d e) ++ Piece.keyword (if negated then "IS NOT NULL" else "IS NULL")
  | .and parts => members d " AND " Expr.isOr parts
  | .or parts => members d " OR " Expr.isAnd parts
  | .not e => .text "NOT (" :: expr d e ++ [.text ")"]
  | .notTrue e => notTrue d (expr d e)
  | .func f args => .text f :: .text "(" :: members d ", " (fun _ => false) args ++ [.text ")"]
  | .template text args => .text text.lead :: filled d text.rest args
  | .existsIn query negated =>
    .text (if negated then "NOT EXISTS (" else "EXISTS (") :: select d query ++ [.text ")"]
  | .scalar query => .text "(" :: select d query ++ [.text ")"]
  | .constant true => [.text "1 = 1"]
  | .constant false => [.text "1 = 0"]

def members (d : Dialect) (separator : String) (group : Expr → Bool) : List Expr → List Piece
  | [] => []
  | [e] => grouped (group e) (expr d e)
  | e :: rest => grouped (group e) (expr d e) ++ .text separator :: members d separator group rest

-- Holes beyond the arguments stay empty, arguments beyond the holes are not written.
def filled (d : Dialect) : List String → List Expr → List Piece
  | [], _ => []
  | texts, [] => texts.map .text
  | text :: texts, e :: rest => expr d e ++ .text text :: filled d texts rest

def select (d : Dialect) : Select → List Piece
  | ⟨table, binding, columns, joins, conditions, orders, limit, offset⟩ =>
    .text "SELECT" :: .space ::
      (if columns.isEmpty then [name d binding, .text ".*"] else members d ", " (fun _ => false) columns) ++
      fromPieces d table binding ++ joinPieces d joins ++
      (if conditions.isEmpty then []
        else Piece.keyword "WHERE" ++ .space ::
          members d " AND " (fun e => 1 < conditions.length && e.isOr) conditions) ++
      (if orders.isEmpty then [] else Piece.keyword "ORDER BY" ++ .space :: orderPieces d orders) ++
      d.pagination (!orders.isEmpty) limit offset

def joinPieces (d : Dialect) : List Join → List Piece
  | [] => []
  | ⟨kind, table, binding, condition⟩ :: rest =>
    Piece.keyword (joinWord kind) ++ [.space, name d table] ++ asBinding d binding ++ Piece.keyword "ON" ++
      .space :: expr d condition ++ joinPieces d rest

def orderPieces (d : Dialect) : List SortKey → List Piece
  | [] => []
  | [⟨key, direction, nulls⟩] => sortKey d (expr d key) direction nulls
  | ⟨key, direction, nulls⟩ :: rest =>
    sortKey d (expr d key) direction nulls ++ .text ", " :: orderPieces d rest
end

end Render

-- The statement and its parameters, in the order of their placeholders.
def Select.build (d : Dialect) (s : Select) : Writer := Writer.empty.putAll d.placeholder (Render.select d s)

end FilterQuery
