import FilterQuery.Complexity.Analysis
import FilterQuery.Handle
import FilterQuery.Number.Reader
import FilterQuery.Settings.Basic
import FilterQuery.Text.Split

namespace FilterQuery

-- How one node of a plan reads its rows.
inductive PlanAccess where
  | sequential (table : Option String)
  | indexed
  | other
  deriving DecidableEq, Repr

structure PlanSummary where
  cost : Float
  rows : Float
  nodes : List PlanAccess

namespace PlanAccess

def isSequential : PlanAccess → Bool
  | sequential _ => true
  | _ => false

def table? : PlanAccess → Option String
  | sequential table => table
  | _ => none

end PlanAccess

def textMember? (key : String) (j : Json) : Option String := (j.get? key).bind Json.text?

-- Some backends quote their numbers.
def Json.estimate? : Json → Option Float
  | num n => some n.toFloat
  | str s => readFloat? s
  | _ => none

def estimateMember? (key : String) (j : Json) : Option Float := (j.get? key).bind Json.estimate?

namespace PostgresPlan

def access (node : Json) : PlanAccess :=
  let kind := (textMember? "Node Type" node).getD ""
  if kind = "Seq Scan" then .sequential (textMember? "Relation Name" node)
  else if isInfix "Index".toList kind.toList then .indexed
  else .other

mutual
-- A node and everything below its member Plans, depth first.
def nodes : Json → List Json
  | .obj members => .obj members :: below members
  | leaf => [leaf]

def below : List (String × Json) → List Json
  | [] => []
  | (key, value) :: rest => if key = "Plans" then children value else below rest

def children : Json → List Json
  | .arr items => nodesOf items
  | _ => []

def nodesOf : List Json → List Json
  | [] => []
  | item :: rest => nodes item ++ nodesOf rest
end

def root? (plan : Json) : Option Json :=
  match plan with
  | .arr items => items.head?.bind (·.get? "Plan")
  | other => other.get? "Plan"

def summary (plan : Json) : Except ProbeError PlanSummary :=
  match root? plan with
  | none => .error (.parse "explain output has no Plan node")
  | some root =>
    .ok ⟨(estimateMember? "Total Cost" root).getD 0.0, (estimateMember? "Plan Rows" root).getD 0.0,
      (nodes root).map access⟩

end PostgresPlan

namespace MySqlPlan

def indexAccesses : List String := ["index", "range", "ref", "eq_ref", "const", "ref_or_null", "index_merge"]

def access (table : Json) : PlanAccess :=
  match textMember? "access_type" table with
  | none => .other
  | some kind =>
    if kind = "ALL" then .sequential (textMember? "table_name" table)
    else if indexAccesses.contains kind then .indexed
    else .other

mutual
-- An object's own table comes first, then those of its other members. Below a table only the
-- subqueries that are attached to it or feed it are looked at.
def tables : Json → List Json
  | .obj members => own members ++ besides members
  | .arr items => tablesOf items
  | _ => []

def own : List (String × Json) → List Json
  | [] => []
  | (key, value) :: rest => if key = "table" then table value else own rest

def table : Json → List Json
  | .obj members =>
    .obj members :: named "attached_subqueries" members ++ named "materialized_from_subquery" members
  | _ => []

def named (name : String) : List (String × Json) → List Json
  | [] => []
  | (key, value) :: rest => if key = name then tables value else named name rest

def besides : List (String × Json) → List Json
  | [] => []
  | (key, value) :: rest => if key = "table" then besides rest else tables value ++ besides rest

def tablesOf : List Json → List Json
  | [] => []
  | item :: rest => tables item ++ tablesOf rest
end

-- A row count that is no number does not count.
def greatest (most : Float) (table : Json) : Float :=
  match estimateMember? "rows_examined_per_scan" table with
  | some rows => if most < rows then rows else most
  | none => most

def summary (plan : Json) : Except ProbeError PlanSummary :=
  match plan.get? "query_block" with
  | none => .error (.parse "explain output has no query_block")
  | some block =>
    let found := tables block
    let cost := (block.get? "cost_info").bind (estimateMember? "query_cost")
    .ok ⟨cost.getD 0.0, found.foldl greatest 0.0, found.map access⟩

end MySqlPlan

namespace PlanSummary

def ofExplain (adapter : Adapter) (plan : Json) : Except ProbeError PlanSummary :=
  match adapter with
  | .postgres => PostgresPlan.summary plan
  | .mySql => MySqlPlan.summary plan
  | other => .error (.unsupported other "explain plan parsing")

def nodeCount (s : PlanSummary) : Nat := s.nodes.length

def sequentialScans (s : PlanSummary) : Nat := s.nodes.countP PlanAccess.isSequential

def indexScans (s : PlanSummary) : Nat := s.nodes.countP (· == .indexed)

def scannedTables (s : PlanSummary) : List String := s.nodes.filterMap PlanAccess.table?

-- No part of a score is above its cap, and neither is a part that is no number.
def capped (cap x : Float) : Float := if x < cap then x else cap

def leastDivisor : Float := Float.ofBits 0x3cb0000000000000

def share (estimate divisor cap : Float) : Float :=
  capped cap (estimate / if leastDivisor < divisor then divisor else leastDivisor)

def score (settings : ComplexitySettings) (s : PlanSummary) : Float :=
  clampBetween 0.0 100.0
    (share s.cost settings.costDivisor 100.0 + share s.rows settings.rowsDivisor 50.0
      + Float.ofNat s.sequentialScans * 15.0 + Float.ofNat s.nodeCount * 2.0)

def suggestions (settings : ComplexitySettings) (s : PlanSummary) : List Suggestion :=
  s.scannedTables.map .indexColumns ++ if settings.rowsDivisor * 50.0 ≤ s.rows then [.fewerRows] else []

def analysis (settings : ComplexitySettings) (s : PlanSummary) : Analysis :=
  { Analysis.new s.cost s.rows (s.score settings) .explain with suggestions := s.suggestions settings }

end PlanSummary
end FilterQuery
