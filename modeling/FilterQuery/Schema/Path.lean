import FilterQuery.Text.Split

namespace FilterQuery

-- The names of the associations crossed and, last, of the field.
structure FieldPath where
  segments : List String
  deriving DecidableEq, Repr

namespace FieldPath

def empty : FieldPath := ⟨[]⟩

-- The empty text has one segment, the empty one.
def ofDotted (dotted : String) : FieldPath := ⟨(splitAtChar '.' dotted.toList).map String.ofList⟩

def length (p : FieldPath) : Nat := p.segments.length

def isEmpty (p : FieldPath) : Bool := p.segments.isEmpty

def head? (p : FieldPath) : Option String := p.segments.head?

def tail (p : FieldPath) : FieldPath := ⟨p.segments.tail⟩

def isNested (p : FieldPath) : Bool := 1 < p.segments.length

-- The association that a path starts at; none when it names a field right here.
def firstHop? (p : FieldPath) : Option String :=
  match p.segments with
  | head :: _ :: _ => some head
  | _ => none

def child (p : FieldPath) (segment : String) : FieldPath := ⟨p.segments ++ [segment]⟩

def append (p q : FieldPath) : FieldPath := ⟨p.segments ++ q.segments⟩

-- The non-empty leading parts, shortest first.
def leadingParts (p : FieldPath) : List FieldPath :=
  (List.range p.segments.length).map fun n => ⟨p.segments.take (n + 1)⟩

def joined (separator : String) (p : FieldPath) : String := separator.intercalate p.segments

def dotted (p : FieldPath) : String := p.joined "."

end FieldPath
end FilterQuery
