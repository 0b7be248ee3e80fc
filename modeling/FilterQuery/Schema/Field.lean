import FilterQuery.Schema.Path
import FilterQuery.Schema.SemanticType

namespace FilterQuery

inductive Cardinality where
  | one
  | many
  deriving DecidableEq, Repr

-- related.relatedKey = owner.ownerKey
structure Link where
  target : String
  cardinality : Cardinality
  ownerKey : String
  relatedKey : String
  deriving DecidableEq, Repr

inductive FieldKind where
  | scalar (ty : SemanticType)
  | association (link : Link)
  deriving DecidableEq, Repr

structure Field where
  name : String
  column : String
  kind : FieldKind
  nullable : Bool
  enumMembers : Option (List String)
  nativeType : Option String
  deriving DecidableEq, Repr

namespace Field

def scalar (name : String) (ty : SemanticType) : Field := ⟨name, name, .scalar ty, true, none, none⟩

def association (name : String) (link : Link) : Field := ⟨name, name, .association link, true, none, none⟩

def type? (f : Field) : Option SemanticType :=
  match f.kind with
  | .scalar ty => some ty
  | .association _ => none

def link? (f : Field) : Option Link :=
  match f.kind with
  | .scalar _ => none
  | .association link => some link

end Field
end FilterQuery
