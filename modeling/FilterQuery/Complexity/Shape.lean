import FilterQuery.Complexity.Analysis
import FilterQuery.Query.Compiled

namespace FilterQuery

-- What a query is judged by where there is no planner to ask.
structure QueryShape where
  predicates : Nat
  joins : Nat
  limit : Option Nat
  offset : Option Nat
  ordered : Bool

namespace QueryShape

def of (q : CompiledQuery) : QueryShape := ⟨q.predicateCount, q.joinCount, q.limit, q.offset, q.hasOrder⟩

def hasLargeOffset (threshold : Nat) (s : QueryShape) : Bool :=
  match s.offset with
  | some n => threshold ≤ n
  | none => false

-- In whatever numbers the counts are read into.
def points [Add α] [Mul α] (count : Nat → α) (threshold : Nat) (s : QueryShape) : α :=
  let counted := count s.predicates * count 2 + count s.joins * count 10
  match s.limit with
  | some _ => counted
  | none =>
    let unlimited := counted + count 20
    let sorted := if s.ordered then unlimited + count 20 else unlimited
    if s.hasLargeOffset threshold then sorted + count 30 else sorted

def limitAdvice (s : QueryShape) : List Suggestion :=
  match s.limit with
  | some _ => []
  | none => [if s.ordered then .limitOrdered else .limit]

def suggestions (threshold : Nat) (s : QueryShape) : List Suggestion :=
  s.limitAdvice
    ++ (if s.hasLargeOffset threshold then [.keysetPagination] else [])
    ++ (if 3 < s.joins then [.fewerAssociations s.joins] else [])

def analysis (settings : ComplexitySettings) (s : QueryShape) : Analysis :=
  let points := s.points Float.ofNat settings.largeOffset
  { Analysis.new points 0.0 points .heuristic with suggestions := s.suggestions settings.largeOffset }

end QueryShape

def CompiledQuery.heuristic (q : CompiledQuery) (settings : ComplexitySettings) : Analysis :=
  (QueryShape.of q).analysis settings

end FilterQuery
