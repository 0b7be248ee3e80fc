namespace FilterQuery

inductive Adapter where
  | postgres
  | cockroachDb
  | mySql
  | sqlite
  | msSql
  | search
  deriving DecidableEq, Repr

namespace Adapter

def all : List Adapter := [postgres, cockroachDb, mySql, sqlite, msSql, search]

def name : Adapter → String
  | postgres => "postgres"
  | cockroachDb => "cockroachdb"
  | mySql => "mysql"
  | sqlite => "sqlite"
  | msSql => "mssql"
  | search => "search"

def serialName : Adapter → String
  | postgres => "postgres"
  | cockroachDb => "cockroach_db"
  | mySql => "my_sql"
  | sqlite => "sqlite"
  | msSql => "ms_sql"
  | search => "search"

def isSql (a : Adapter) : Bool := a != search

def ofName? (name : String) : Option Adapter := all.find? (·.name == name)

end Adapter
end FilterQuery
