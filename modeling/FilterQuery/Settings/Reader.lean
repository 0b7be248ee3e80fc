import FilterQuery.Error
import FilterQuery.Settings.Basic
import FilterQuery.Toml.Reader

namespace FilterQuery

namespace Toml

-- A section is a table, or the list of its values in the order of their names.
def setting? (names : List String) (name : String) : Toml → Option Toml
  | table _ members => lookup name members
  | list items => items[names.idxOf name]?
  | tables rows => rows[names.idxOf name]?
  | _ => none

def isSection (names : List String) : Toml → Bool
  | table _ members => membersReadable (members.filter fun (name, _) => !names.contains name)
  | list _ | tables _ | moment _ => true
  | _ => false

def flag? : Toml → Option Bool
  | bool b => some b
  | _ => none

def natural? (greatest : Nat) : Toml → Option Nat
  | int i => if 0 ≤ i ∧ i ≤ greatest then some i.toNat else none
  | _ => none

def number? : Toml → Option Float
  | float x => some x
  | int i => if leastInt64 ≤ i ∧ i ≤ greatestWord64 then some (Binary64.ofInt i) else none
  | _ => none

def isVoid : Toml → Bool
  | table _ [] => true
  | list [] => true
  | _ => false

-- By name, or as the one key of a table with nothing in it.
def mode? : Toml → Option ToManyMode
  | str name => ToManyMode.ofName? name
  | table _ [(name, content)] => if isVoid content then ToManyMode.ofName? name else none
  | _ => none

def orDefault (read : Toml → Option α) (default : α) : Option Toml → Option α
  | none => some default
  | some t => read t

end Toml

def CompilerSettings.names : List String := ["to_many_filter_mode", "max_association_depth", "reorder_predicates"]

def CompilerSettings.ofToml? (t : Toml) : Option CompilerSettings := do
  let d := CompilerSettings.standard
  let setting name := t.setting? names name
  let toMany ← Toml.orDefault Toml.mode? d.toMany (setting "to_many_filter_mode")
  let maxDepth ← Toml.orDefault (Toml.natural? greatestWord64) d.maxDepth (setting "max_association_depth")
  let reorder ← Toml.orDefault Toml.flag? d.reorder (setting "reorder_predicates")
  if t.isSection names then pure ⟨toMany, maxDepth, reorder⟩ else none

def ComplexitySettings.names : List String :=
  ["enabled", "base_limit", "warn_ratio", "load_weight", "cost_divisor", "rows_divisor", "large_offset_threshold",
    "cache_enabled", "cache_ttl_secs", "cache_max_entries"]

def ComplexitySettings.ofToml? (t : Toml) : Option ComplexitySettings := do
  let d := ComplexitySettings.standard
  let setting name := t.setting? names name
  let enabled ← Toml.orDefault Toml.flag? d.enabled (setting "enabled")
  let baseLimit ← Toml.orDefault Toml.number? d.baseLimit (setting "base_limit")
  let warnRatio ← Toml.orDefault Toml.number? d.warnRatio (setting "warn_ratio")
  let loadWeight ← Toml.orDefault Toml.number? d.loadWeight (setting "load_weight")
  let costDivisor ← Toml.orDefault Toml.number? d.costDivisor (setting "cost_divisor")
  let rowsDivisor ← Toml.orDefault Toml.number? d.rowsDivisor (setting "rows_divisor")
  let largeOffset ← Toml.orDefault (Toml.natural? greatestWord64) d.largeOffset (setting "large_offset_threshold")
  let cacheEnabled ← Toml.orDefault Toml.flag? d.cacheEnabled (setting "cache_enabled")
  let ttl ← Toml.orDefault (Toml.natural? greatestWord64) d.cacheTtlSecs (setting "cache_ttl_secs")
  let most ← Toml.orDefault (Toml.natural? greatestWord64) d.cacheMaxEntries (setting "cache_max_entries")
  if t.isSection names then
    pure ⟨enabled, baseLimit, warnRatio, loadWeight, costDivisor, rowsDivisor, largeOffset, cacheEnabled, ttl, most⟩
  else none

def RegistrySettings.names : List String := ["lock_timeout_ms", "max_retries", "backoff_ms"]

def RegistrySettings.ofToml? (t : Toml) : Option RegistrySettings := do
  let d := RegistrySettings.standard
  let setting name := t.setting? names name
  let lockTimeout ← Toml.orDefault (Toml.natural? greatestWord64) d.lockTimeoutMs (setting "lock_timeout_ms")
  let retries ← Toml.orDefault (Toml.natural? greatestWord32) d.maxRetries (setting "max_retries")
  let backoff ← Toml.orDefault (Toml.natural? greatestWord64) d.backoffMs (setting "backoff_ms")
  if t.isSection names then pure ⟨lockTimeout, retries, backoff⟩ else none

def Settings.names : List String := ["compiler", "complexity", "registry"]

def Settings.ofToml? (t : Toml) : Option Settings := do
  let d := Settings.standard
  let setting name := t.setting? names name
  let compiler ← Toml.orDefault CompilerSettings.ofToml? d.compiler (setting "compiler")
  let complexity ← Toml.orDefault ComplexitySettings.ofToml? d.complexity (setting "complexity")
  let registry ← Toml.orDefault RegistrySettings.ofToml? d.registry (setting "registry")
  if t.isSection names then pure ⟨compiler, complexity, registry⟩ else none

mutual
-- A JSON document as the table it stands for.
def Toml.ofJson : Json → Toml
  | .bool b => .bool b
  | .num (.int i) => .int i
  | .num (.double x) => .float x
  | .str s => .str s
  | .arr items => .list (ofItems items)
  | .obj members => .table .header (ofMembers members)
  | .null => .table .header []

def Toml.ofItems : List Json → List Toml
  | [] => []
  | j :: rest => ofJson j :: ofItems rest

def Toml.ofMembers : List (String × Json) → TomlMembers
  | [] => []
  | (key, j) :: rest => (key, ofJson j) :: ofMembers rest
end

def Settings.ofJson? (j : Json) : Option Settings := ofToml? (.ofJson j)

def ComplexitySettings.ofJson? (j : Json) : Option ComplexitySettings := ofToml? (.ofJson j)

def Settings.ofText (source : String) : Except FilterError Settings :=
  match (Toml.ofText? source).bind Settings.ofToml? with
  | some settings => .ok settings
  | none => .error .config

end FilterQuery
