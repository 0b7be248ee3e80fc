import FilterQuery.Complexity.Analysis
import FilterQuery.Settings.Basic
import FilterQuery.Table

namespace FilterQuery

-- In milliseconds of one clock.
structure StoredAnalysis where
  analysis : Analysis
  storedAt : Nat

-- Which of the expired keys makes room for a new one.
structure Recycling where
  pick : (keys : List String) → keys ≠ [] → String
  pick_mem : ∀ keys h, pick keys h ∈ keys

def Recycling.first : Recycling := ⟨fun keys h => keys.head h, fun _ h => List.head_mem h⟩

structure MemoryCache where
  ttl : Nat
  maxEntries : Nat
  recycling : Recycling
  entries : Table String StoredAnalysis
  hits : Nat
  misses : Nat

inductive CacheError where
  | backend (reason : String)

def CacheError.message : CacheError → String
  | backend reason => "Cache backend error: " ++ reason

namespace MemoryCache

def new (ttl maxEntries : Nat) : MemoryCache := ⟨ttl, maxEntries, .first, .empty, 0, 0⟩

def ofSettings (s : ComplexitySettings) : MemoryCache := new s.cacheTtlMs s.cacheMaxEntries

def isExpired (c : MemoryCache) (now : Nat) (e : StoredAnalysis) : Bool := c.ttl ≤ now - e.storedAt

def fresh? (c : MemoryCache) (now : Nat) (key : String) : Option Analysis :=
  match c.entries.get? key with
  | some e => if c.isExpired now e then none else some e.analysis
  | none => none

def get (c : MemoryCache) (now : Nat) (key : String) : Option Analysis × MemoryCache :=
  match c.fresh? now key with
  | some analysis => (some analysis, { c with hits := c.hits + 1 })
  | none => (none, { c with misses := c.misses + 1 })

def expiredKeys (c : MemoryCache) (now : Nat) : List String :=
  (c.entries.entries.filter fun (_, e) => c.isExpired now e).map (·.1)

def store (c : MemoryCache) (now : Nat) (key : String) (analysis : Analysis) : MemoryCache :=
  { c with entries := c.entries.insert key ⟨analysis, now⟩ }

-- A full cache with nothing expired does not take a new key.
def put (c : MemoryCache) (now : Nat) (key : String) (analysis : Analysis) : MemoryCache :=
  if c.entries.contains key || c.entries.size < c.maxEntries then c.store now key analysis
  else if h : c.expiredKeys now ≠ [] then
    let roomier := { c with entries := c.entries.erase (c.recycling.pick (c.expiredKeys now) h) }
    roomier.store now key analysis
  else c

def clear (c : MemoryCache) : MemoryCache := { c with entries := .empty }

def size (c : MemoryCache) : Nat := c.entries.size

end MemoryCache

-- A cache that is always there, or one whose every call fails.
inductive AnalysisCache where
  | memory (cache : MemoryCache)
  | failing (error : CacheError)

namespace AnalysisCache

def get (c : AnalysisCache) (now : Nat) (key : String) : Except CacheError (Option Analysis × AnalysisCache) :=
  match c with
  | memory m =>
    let (found, counted) := m.get now key
    .ok (found, memory counted)
  | failing e => .error e

def put (c : AnalysisCache) (now : Nat) (key : String) (analysis : Analysis) : Except CacheError AnalysisCache :=
  match c with
  | memory m => .ok (memory (m.put now key analysis))
  | failing e => .error e

def clear : AnalysisCache → Except CacheError AnalysisCache
  | memory m => .ok (memory m.clear)
  | failing e => .error e

end AnalysisCache
end FilterQuery
