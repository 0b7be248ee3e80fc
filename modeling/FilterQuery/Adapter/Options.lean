import FilterQuery.Operand
import FilterQuery.Schema.Field
import FilterQuery.Sql.Expr

namespace FilterQuery

-- Where the field is bound, and what a distance without a unit is measured in.
structure ApplyOptions where
  binding : Option String
  unit : Option DistanceUnit

namespace ApplyOptions

def empty : ApplyOptions := ⟨none, none⟩

def bindingText (o : ApplyOptions) : String := o.binding.getD ""

def bindTo (o : ApplyOptions) (binding : String) : ApplyOptions := { o with binding := some binding }

def column (o : ApplyOptions) (f : Field) : Expr :=
  .column (if o.bindingText.isEmpty then none else some o.bindingText) f.column

-- The operand's own unit comes first, then the default of the call, then meters.
def near? (o : ApplyOptions) : Operand → Option (GeoPoint × Float)
  | .near center distance unit => some (center, ((unit <|> o.unit).getD .meters).toMeters distance)
  | _ => none

end ApplyOptions

def Operand.bounds? : Operand → Option (GeoPoint × GeoPoint)
  | bounds southWest northEast => some (southWest, northEast)
  | _ => none

-- The corners of a box, counter-clockwise from the south west and back to it.
def boxWkt (southWest northEast : GeoPoint) : String :=
  let corner (lng lat : Float) := floatText lng ++ " " ++ floatText lat
  let first := corner southWest.lng southWest.lat
  "POLYGON((" ++ ", ".intercalate [first, corner northEast.lng southWest.lat,
    corner northEast.lng northEast.lat, corner southWest.lng northEast.lat, first] ++ "))"

end FilterQuery
