import FilterQuery.Capability.Basic
import FilterQuery.Handle
import FilterQuery.Text.Blank
import FilterQuery.Text.Split

namespace FilterQuery.Capability

-- Inferred from the version; direct probes overrule it, and what cannot be found out counts as missing.
def inferredMySql (v : Version) : Feature → Bool
  | .json => v.atLeast 5 7 8
  | .jsonArrayOverlap => v.atLeast 8 0 17
  | .fullText => true
  | .regex => v.atLeast 8 0 4
  | .spatial => v.atLeast 5 7 6
  | .explainJson => v.atLeast 5 6 5
  | _ => false

def inferredMariaDb (v : Version) : Feature → Bool
  | .json => v.atLeast 10 2 7
  | .jsonArrayOverlap => v.atLeast 10 9 0
  | .fullText => true
  | .spatial => v.atLeast 10 2 38
  | .explainJson => v.atLeast 10 1 0
  | _ => false

def inferredPostgres (v : Version) (extensions : NameSet) : Feature → Bool
  | .json => v.atLeast 9 4 0
  | .jsonArrayOverlap => v.atLeast 9 4 0
  | .fullText => true
  | .regex => true
  | .arrays => true
  | .nullsOrdering => v.atLeast 8 3 0
  | .explainJson => v.atLeast 9 0 0
  | .spatial => extensions.contains "postgis"

def inferredCockroachDb (v : Version) : Feature → Bool
  | .json => v.atLeast 2 0 0
  | .jsonArrayOverlap => v.atLeast 2 0 0
  | .fullText => v.atLeast 23 1 0
  | .regex => true
  | .arrays => true
  | .nullsOrdering => v.atLeast 20 1 0
  | .spatial => v.atLeast 20 2 0
  | .explainJson => false

def inferredSqlite (v : Version) : Feature → Bool
  | .json => v.atLeast 3 38 0
  | .nullsOrdering => v.atLeast 3 30 0
  | _ => false

-- Version 13 is SQL Server 2016.
def inferredMsSql (v : Version) : Feature → Bool
  | .json => v.atLeast 13 0 0
  | .spatial => v.atLeast 10 0 0
  | _ => false

def inferred (adapter : Adapter) (v : Version) (mariaDb : Bool) (extensions : NameSet) (f : Feature) : Bool :=
  match adapter with
  | .postgres => inferredPostgres v extensions f
  | .cockroachDb => inferredCockroachDb v f
  | .mySql => if mariaDb then inferredMariaDb v f else inferredMySql v f
  | .sqlite => inferredSqlite v f
  | .msSql => inferredMsSql v f
  | .search => f != .explainJson

def isMariaDb (raw : String) : Bool := isInfix "mariadb".toList (lowerAscii raw.toList)

-- A text without a version says nothing.
def ofReport (adapter : Adapter) (raw : String) (extensions : List String) (probed : Feature → Option Bool) :
    Capability :=
  match Version.ofText? raw with
  | none => conservative adapter
  | some v =>
    let names := NameSet.ofList (extensions.map lowerText)
    ⟨adapter, some v, names, fun f => some ((probed f).getD (inferred adapter v (isMariaDb raw) names f))⟩

def probedFeatures : List Feature := [.json, .regex, .spatial]

-- A probe that fails rules the feature out.
def probeResult (h : Handle) (f : Feature) : Option Bool :=
  if probedFeatures.contains f then
    match h.probe f with
    | .ok result => result
    | .error _ => some false
  else none

def reported (answer : Except ProbeError (List String)) : List String :=
  match answer with
  | .ok names => names
  | .error _ => []

def detect (h : Handle) : Capability :=
  match h.version with
  | .error _ => conservative h.adapter
  | .ok raw => ofReport h.adapter raw (reported h.extensions) (probeResult h)

end FilterQuery.Capability
