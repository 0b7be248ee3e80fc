import FilterQuery.Number.Style

namespace FilterQuery

-- What compares with neither bound stays what it is.
def clampBetween [LT α] [DecidableLT α] (least greatest x : α) : α :=
  if x < least then least else if greatest < x then greatest else x

structure Load where
  active : Nat
  hitRatio : Option Float
  factor : Float

namespace Load

def ofConnections (active capacity : Nat) : Load :=
  let factor := if capacity = 0 then 0.0 else Float.ofNat active / Float.ofNat capacity
  ⟨active, none, clampBetween 0.0 1.0 factor⟩

def idle : Load := ofConnections 0 0

def withHitRatio (load : Load) (ratio : Option Float) : Load :=
  { load with hitRatio := ratio.map (clampBetween 0.0 1.0) }

end Load
end FilterQuery
