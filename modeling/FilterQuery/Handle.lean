import FilterQuery.Capability.Feature
import FilterQuery.Complexity.Load
import FilterQuery.Json.Basic

namespace FilterQuery

-- Every answer of a backend may be a failure, and a caller that gets one has to do without.
inductive ProbeError where
  | parse (reason : String)
  | unsupported (adapter : Adapter) (operation : String)

def ProbeError.code : ProbeError → String
  | parse _ => "parse"
  | unsupported _ _ => "unsupported"

def ProbeError.message : ProbeError → String
  | parse reason => "Parse error: " ++ reason
  | unsupported adapter operation => operation ++ " is not supported by " ++ adapter.name

structure Handle where
  adapter : Adapter
  key : String
  version : Except ProbeError String
  extensions : Except ProbeError (List String)
  -- None when the backend has no probe for the feature.
  probe : Feature → Except ProbeError (Option Bool)
  explain : Except ProbeError Json
  load : Except ProbeError Load

inductive Call where
  | version
  | explain
  | load
  deriving DecidableEq, Repr

-- How often a backend was asked.
structure Usage where
  versions : Nat
  explains : Nat
  loads : Nat

namespace Usage

def none : Usage := ⟨0, 0, 0⟩

def add (u : Usage) : Call → Usage
  | .version => { u with versions := u.versions + 1 }
  | .explain => { u with explains := u.explains + 1 }
  | .load => { u with loads := u.loads + 1 }

end Usage
end FilterQuery
