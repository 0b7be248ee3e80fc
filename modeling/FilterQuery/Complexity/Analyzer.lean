import FilterQuery.Complexity.Admission
import FilterQuery.Complexity.Cache
import FilterQuery.Complexity.Key
import FilterQuery.Complexity.Plan
import FilterQuery.Complexity.Shape

namespace FilterQuery

-- A cache, a planner or a load reading that fails is done without.
structure Analyzer where
  settings : ComplexitySettings
  cache : Option AnalysisCache

-- What one step gives, what it asked the backend for, and the checks it reports.
structure Analyzed (α : Type) where
  value : α
  analyzer : Analyzer
  calls : List Call
  reported : List Check

def Adapter.hasPlanner : Adapter → Bool
  | postgres | mySql => true
  | _ => false

namespace Analyzer

def new (settings : ComplexitySettings) : Analyzer :=
  ⟨settings, if settings.cacheEnabled then some (.memory (.ofSettings settings)) else none⟩

def explained (a : Analyzer) (adapter : Adapter) (h : Handle) : Except ProbeError Analysis := do
  let plan ← h.explain
  let summary ← PlanSummary.ofExplain adapter plan
  pure (summary.analysis a.settings)

-- The backend that would explain the query.
def planner? (q : CompiledQuery) (handle : Option Handle) : Option Handle :=
  match handle with
  | some h => if q.adapter.hasPlanner && h.adapter == q.adapter then some h else none
  | none => none

def compute (a : Analyzer) (q : CompiledQuery) (handle : Option Handle) : Analysis × List Call :=
  match planner? q handle with
  | none => (q.heuristic a.settings, [])
  | some h =>
    match a.explained q.adapter h with
    | .ok analysis => (analysis, [.explain])
    | .error _ => (q.heuristic a.settings, [.explain])

def lookup (a : Analyzer) (now : Nat) (key : String) : Option Analysis × Analyzer :=
  match a.cache with
  | none => (none, a)
  | some cache =>
    match cache.get now key with
    | .ok (found, counted) => (found, { a with cache := some counted })
    | .error _ => (none, a)

def remember (a : Analyzer) (now : Nat) (key : String) (analysis : Analysis) : Analyzer :=
  match a.cache with
  | none => a
  | some cache =>
    match cache.put now key analysis with
    | .ok stored => { a with cache := some stored }
    | .error _ => a

def analyze (a : Analyzer) (now : Nat) (q : CompiledQuery) (handle : Option Handle) : Analyzed Analysis :=
  let key := cacheKey q.adapter q.render
  match a.lookup now key with
  | (some analysis, counted) => ⟨analysis, counted, [], []⟩
  | (none, counted) =>
    let (analysis, calls) := counted.compute q handle
    ⟨analysis, counted.remember now key analysis, calls, []⟩

-- Everything passes while checks are off.
def unchecked (a : Analyzer) (q : CompiledQuery) : Analyzed Check :=
  ⟨⟨.accept, q.heuristic a.settings, a.settings.baseLimit, .idle⟩, a, [], []⟩

def checkUnder (a : Analyzer) (now : Nat) (q : CompiledQuery) (load : Load) (handle : Option Handle) :
    Analyzed Check :=
  if a.settings.enabled then
    let step := a.analyze now q handle
    let check := a.settings.decide step.value load
    ⟨check, step.analyzer, step.calls, [check]⟩
  else a.unchecked q

-- A backend that does not tell its load counts as idle.
def loadOf (h : Handle) : Load :=
  match h.load with
  | .ok load => load
  | .error _ => .idle

def check (a : Analyzer) (now : Nat) (q : CompiledQuery) (h : Handle) : Analyzed Check :=
  if a.settings.enabled then
    let step := a.checkUnder now q (loadOf h) (some h)
    { step with calls := .load :: step.calls }
  else a.unchecked q

def clear (a : Analyzer) : Option (Except CacheError Analyzer) :=
  a.cache.map fun cache =>
    match cache.clear with
    | .ok cleared => .ok { a with cache := some cleared }
    | .error e => .error e

end Analyzer
end FilterQuery
