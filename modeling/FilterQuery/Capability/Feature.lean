import FilterQuery.Schema.Adapter

namespace FilterQuery

inductive Feature where
  | json
  | jsonArrayOverlap
  | fullText
  | regex
  | spatial
  | arrays
  | nullsOrdering
  | explainJson
  deriving DecidableEq, Repr

namespace Feature

def all : List Feature := [json, jsonArrayOverlap, fullText, regex, spatial, arrays, nullsOrdering, explainJson]

def name : Feature → String
  | json => "json"
  | jsonArrayOverlap => "json_array_overlap"
  | fullText => "full_text"
  | regex => "regex"
  | spatial => "spatial"
  | arrays => "arrays"
  | nullsOrdering => "nulls_ordering"
  | explainJson => "explain_json"

def ofName? (name : String) : Option Feature := all.find? (·.name == name)

end Feature

def remediationHint : Adapter → Feature → String
  | .postgres, .spatial => "install the postgis extension"
  | .postgres, _ => "upgrade PostgreSQL to a supported release"
  | .cockroachDb, .fullText => "upgrade CockroachDB to 23.1 or later"
  | .cockroachDb, _ => "upgrade CockroachDB to a supported release"
  | .mySql, .jsonArrayOverlap => "upgrade MySQL to 8.0.17 or later"
  | .mySql, _ => "upgrade MySQL to 8.0 or later"
  | .sqlite, .json => "build SQLite with the JSON1 extension"
  | .sqlite, .regex => "register a REGEXP function on the connection"
  | .sqlite, _ => "upgrade SQLite to 3.30 or later"
  | .msSql, .fullText => "create a full-text catalog and index"
  | .msSql, _ => "upgrade SQL Server to 2016 or later"
  | .search, _ => "upgrade the search cluster"

end FilterQuery
