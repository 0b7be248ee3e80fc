namespace FilterQuery

-- What is asked of the rows of a to-many association: that one satisfies the filter, or that all do.
inductive ToManyMode where
  | anyMatch
  | allMatch
  deriving DecidableEq, Repr

structure CompilerSettings where
  toMany : ToManyMode
  maxDepth : Nat
  reorder : Bool

structure ComplexitySettings where
  enabled : Bool
  baseLimit : Float
  warnRatio : Float
  loadWeight : Float
  costDivisor : Float
  rowsDivisor : Float
  largeOffset : Nat
  cacheEnabled : Bool
  cacheTtlSecs : Nat
  cacheMaxEntries : Nat

structure RegistrySettings where
  lockTimeoutMs : Nat
  maxRetries : Nat
  backoffMs : Nat

structure Settings where
  compiler : CompilerSettings
  complexity : ComplexitySettings
  registry : RegistrySettings

namespace ToManyMode

def name : ToManyMode → String
  | anyMatch => "exists"
  | allMatch => "all_match"

def ofName? : String → Option ToManyMode
  | "exists" => some anyMatch
  | "all_match" => some allMatch
  | _ => none

end ToManyMode

def CompilerSettings.standard : CompilerSettings := ⟨.anyMatch, 3, false⟩

def ComplexitySettings.standard : ComplexitySettings :=
  ⟨true, 75.0, 0.7, 0.7, 100.0, 1000.0, 1000, true, 300, 10000⟩

def ComplexitySettings.cacheTtlMs (s : ComplexitySettings) : Nat := 1000 * s.cacheTtlSecs

def RegistrySettings.standard : RegistrySettings := ⟨50, 5, 10⟩

-- Doubles with each attempt up to the tenth, never above a second.
def RegistrySettings.backoff (s : RegistrySettings) (attempt : Nat) : Nat :=
  min (s.backoffMs * Nat.pow 2 (min attempt 10)) 1000

def Settings.standard : Settings := ⟨.standard, .standard, .standard⟩

end FilterQuery
