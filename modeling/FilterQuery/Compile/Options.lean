import FilterQuery.Access
import FilterQuery.Capability.Basic
import FilterQuery.Settings.Basic

namespace FilterQuery

-- What a caller settles for one compilation.
structure CompileOptions where
  access : FieldAccess
  -- Without capabilities no operator is held back.
  capability : Option Capability
  toMany : Option ToManyMode
  unit : Option DistanceUnit
  -- Dotted paths of the to-many associations that may be sorted through.
  orderThrough : List String

namespace CompileOptions

def standard : CompileOptions := ⟨.all, none, none, none, []⟩

def mode (o : CompileOptions) (settings : CompilerSettings) : ToManyMode := o.toMany.getD settings.toMany

def ordersThrough (o : CompileOptions) (path : FieldPath) : Bool := o.orderThrough.contains path.dotted

end CompileOptions
end FilterQuery
