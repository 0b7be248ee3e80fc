import FilterQuery.Error

namespace FilterQuery

-- An allowed path opens everything below it.
inductive FieldAccess where
  | all
  | none
  | only (paths : List String)

namespace FieldAccess

def allows (access : FieldAccess) (path : FieldPath) : Bool :=
  match access with
  | all => true
  | none => false
  | only paths => path.leadingParts.any fun p => paths.contains p.dotted

def noteDenied (access : FieldAccess) (denied : List String) (path : FieldPath) : List String :=
  if access.allows path || denied.contains path.dotted then denied else denied ++ [path.dotted]

-- Each refused path once, in the order given.
def denied (access : FieldAccess) (paths : List FieldPath) : List String :=
  paths.foldl access.noteDenied []

def check (access : FieldAccess) (paths : List FieldPath) : Except FilterError Unit :=
  match access.denied paths with
  | [] => .ok ()
  | fields => .error (.unauthorizedField fields)

end FieldAccess
end FilterQuery
