import FilterQuery.Json.Basic

namespace FilterQuery

-- On the WGS84 ellipsoid.
structure GeoPoint where
  lat : Float
  lng : Float

namespace GeoPoint

def isValid (p : GeoPoint) : Bool :=
  (-90.0 : Float) ≤ p.lat && p.lat ≤ (90.0 : Float) && (-180.0 : Float) ≤ p.lng && p.lng ≤ (180.0 : Float)

-- Longitude comes first.
def wkt (p : GeoPoint) : String := "POINT(" ++ floatText p.lng ++ " " ++ floatText p.lat ++ ")"

end GeoPoint

inductive DistanceUnit where
  | meters
  | kilometers
  | miles
  | feet
  deriving DecidableEq, Repr

namespace DistanceUnit

def toMeters (unit : DistanceUnit) (distance : Float) : Float :=
  match unit with
  | meters => distance
  | kilometers => distance * 1000.0
  | miles => distance * 1609.34
  | feet => distance * 0.3048

def suffix : DistanceUnit → String
  | meters => "m"
  | kilometers => "km"
  | miles => "mi"
  | feet => "ft"

def ofName? : String → Option DistanceUnit
  | "meters" | "m" => some meters
  | "kilometers" | "km" => some kilometers
  | "miles" | "mi" => some miles
  | "feet" | "ft" => some feet
  | _ => none

-- A name, or an object whose only member has that name and the value null.
def ofJson? : Json → Option DistanceUnit
  | .str name => ofName? name
  | .obj [(name, .null)] => ofName? name
  | _ => none

end DistanceUnit
end FilterQuery
