import FilterQuery.Complexity.Load

namespace FilterQuery

inductive Method where
  | explain
  | heuristic
  deriving DecidableEq, Repr

inductive Suggestion where
  | limitOrdered
  | limit
  | keysetPagination
  | fewerAssociations (count : Nat)
  | indexColumns (table : String)
  | fewerRows

structure Analysis where
  -- Planner units, or heuristic points.
  cost : Float
  rows : Float
  -- From 0 to 100.
  score : Float
  method : Method
  suggestions : List Suggestion

inductive Verdict where
  | accept
  | warn
  | reject
  deriving DecidableEq, Repr

structure Check where
  verdict : Verdict
  analysis : Analysis
  -- What the score was held against, and the load that limit comes from.
  limit : Float
  load : Load

def Method.name : Method → String
  | explain => "explain"
  | heuristic => "heuristic"

def Suggestion.text : Suggestion → String
  | limitOrdered => "ordered query without a limit: add a limit"
  | limit => "add a limit"
  | keysetPagination => "large offset: prefer keyset pagination"
  | fewerAssociations count => toString count ++ " joins or subqueries: filter on fewer associations"
  | indexColumns table => "sequential scan on '" ++ table ++ "': index the filtered columns"
  | fewerRows => "large row estimate: narrow the filter or add a limit"

def Verdict.name : Verdict → String
  | accept => "accept"
  | warn => "warn"
  | reject => "reject"

def Analysis.new (cost rows score : Float) (method : Method) : Analysis :=
  ⟨cost, rows, clampBetween 0.0 100.0 score, method, []⟩

namespace Check

def isAccepted (c : Check) : Bool := c.verdict != .reject

def code? (c : Check) : Option String := if c.isAccepted then none else some "too_complex"

end Check
end FilterQuery
