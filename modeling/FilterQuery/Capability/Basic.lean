import FilterQuery.Error
import FilterQuery.Text.NameSet

namespace FilterQuery

-- What one backend is known to offer, with a flag for each probed feature.
structure Capability where
  adapter : Adapter
  version : Option Version
  extensions : NameSet
  flag : Feature → Option Bool

namespace Capability

def new (adapter : Adapter) (version : Option Version) : Capability := ⟨adapter, version, .empty, fun _ => none⟩

-- Nothing optional is assumed.
def conservative (adapter : Adapter) : Capability := ⟨adapter, none, .empty, fun _ => some false⟩

def withFeature (c : Capability) (feature : Feature) (enabled : Bool) : Capability :=
  { c with flag := fun f => if f = feature then some enabled else c.flag f }

def withFeatures (c : Capability) (given : Feature → Option Bool) : Capability :=
  { c with flag := fun f => (given f).or (c.flag f) }

def withExtension (c : Capability) (extension : String) : Capability :=
  { c with extensions := c.extensions.insert extension }

def hasExtension (c : Capability) (extension : String) : Bool := c.extensions.contains extension

def supports (c : Capability) (feature : Feature) : Bool := (c.flag feature).getD false

def require (c : Capability) (feature : Feature) : Except FilterError Unit :=
  if c.supports feature then .ok () else .error (.capabilityMissing feature c.adapter c.version)

def flags (c : Capability) : List (Feature × Bool) :=
  Feature.all.filterMap fun f => (c.flag f).map fun enabled => (f, enabled)

def enabled (c : Capability) : List Feature := Feature.all.filter c.supports

end Capability
end FilterQuery
