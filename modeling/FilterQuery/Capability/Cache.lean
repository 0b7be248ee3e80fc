import FilterQuery.Capability.Detect
import FilterQuery.Table

namespace FilterQuery

-- By connection, found out on first use and kept.
structure CapabilityCache where
  entries : Table String Capability

namespace CapabilityCache

def empty : CapabilityCache := ⟨.empty⟩

def get? (c : CapabilityCache) (key : String) : Option Capability := c.entries.get? key

def insert (c : CapabilityCache) (key : String) (capability : Capability) : CapabilityCache :=
  ⟨c.entries.insert key capability⟩

def erase (c : CapabilityCache) (key : String) : CapabilityCache := ⟨c.entries.erase key⟩

def size (c : CapabilityCache) : Nat := c.entries.size

def isEmpty (c : CapabilityCache) : Bool := c.entries.isEmpty

-- The capability, the cache that has it and what was asked of the backend.
def detect (c : CapabilityCache) (h : Handle) : Capability × CapabilityCache × List Call :=
  match c.get? h.key with
  | some capability => (capability, c, [])
  | none =>
    let capability := Capability.detect h
    (capability, c.insert h.key capability, [.version])

end CapabilityCache
end FilterQuery
