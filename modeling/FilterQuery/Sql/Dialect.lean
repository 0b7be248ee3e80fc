import FilterQuery.Schema.Adapter
import FilterQuery.Sql.Writer

namespace FilterQuery

inductive Dialect where
  | postgres
  | cockroachDb
  | mySql
  | sqlite
  | msSql
  deriving DecidableEq, Repr

-- None for the search engine, which has no SQL.
def Adapter.dialect? : Adapter → Option Dialect
  | postgres => some .postgres
  | cockroachDb => some .cockroachDb
  | mySql => some .mySql
  | sqlite => some .sqlite
  | msSql => some .msSql
  | search => none

-- Counts beyond the signed range mean the same as its end.
def rowCount (n : Nat) : Value := .int (Int64.ofNat (min n greatestInt64.toNat))

namespace Dialect

def all : List Dialect := [postgres, cockroachDb, mySql, sqlite, msSql]

def adapter : Dialect → Adapter
  | postgres => .postgres
  | cockroachDb => .cockroachDb
  | mySql => .mySql
  | sqlite => .sqlite
  | msSql => .msSql

def openQuote : Dialect → Char
  | mySql => '\x60'
  | msSql => '['
  | _ => '"'

def closeQuote : Dialect → Char
  | mySql => '\x60'
  | msSql => ']'
  | _ => '"'

-- A closing quote inside the name is written twice.
def quoteName (d : Dialect) (name : String) : String :=
  String.ofList (d.openQuote :: replaceChar d.closeQuote [d.closeQuote, d.closeQuote] name.toList ++ [d.closeQuote])

def placeholder (d : Dialect) (index : Nat) : String :=
  match d with
  | postgres | cockroachDb => "$" ++ toString index
  | mySql | sqlite => "?"
  | msSql => "@P" ++ toString index

def placesNulls : Dialect → Bool
  | postgres | cockroachDb => true
  | mySql | sqlite | msSql => false

def testsTruth : Dialect → Bool
  | msSql => false
  | _ => true

def limitPieces (limit offset : Option Nat) : List Piece :=
  (match limit with
    | some n => Piece.bound "LIMIT" (rowCount n)
    | none => []) ++
  match offset with
  | some n => Piece.bound "OFFSET" (rowCount n)
  | none => []

-- MySQL takes an offset only after a limit, and documents this one for all remaining rows.
def mySqlPagination : Option Nat → Option Nat → List Piece
  | none, some n => Piece.bound "LIMIT 18446744073709551615 OFFSET" (rowCount n)
  | limit, offset => limitPieces limit offset

-- SQLite reads a negative limit as none.
def sqlitePagination : Option Nat → Option Nat → List Piece
  | none, some n => Piece.keyword "LIMIT" ++ [.space, .text "-1"] ++ Piece.bound "OFFSET" (rowCount n)
  | limit, offset => limitPieces limit offset

-- SQL Server pages through an ordering only, so one that orders nothing stands in for a missing one.
def msSqlPagination (ordered : Bool) (limit offset : Option Nat) : List Piece :=
  if limit.isNone && offset.isNone then []
  else
    (if ordered then [] else Piece.keyword "ORDER BY (SELECT NULL)") ++
    Piece.bound "OFFSET" (rowCount (offset.getD 0)) ++ Piece.keyword "ROWS" ++
    match limit with
    | some n => Piece.bound "FETCH NEXT" (rowCount n) ++ Piece.keyword "ROWS ONLY"
    | none => []

def pagination (d : Dialect) (ordered : Bool) (limit offset : Option Nat) : List Piece :=
  match d with
  | postgres | cockroachDb => limitPieces limit offset
  | mySql => mySqlPagination limit offset
  | sqlite => sqlitePagination limit offset
  | msSql => msSqlPagination ordered limit offset

end Dialect
end FilterQuery
