import FilterQuery.Number.Reader

namespace FilterQuery

-- At most 28 places over a magnitude of 96 bits. A text keeps its trailing zeros.
def greatestMagnitude : Nat := 79228162514264337593543950335
def greatestScale : Nat := 28

-- The sign is kept apart, since a number that was rounded to zero keeps its own.
structure FixedPoint where
  negative : Bool
  magnitude : Nat
  scale : Nat
  fits : magnitude ≤ greatestMagnitude
  places : scale ≤ greatestScale
  deriving DecidableEq

namespace FixedPoint

def ofParts? (negative : Bool) (magnitude scale : Nat) : Option FixedPoint :=
  if h : magnitude ≤ greatestMagnitude ∧ scale ≤ greatestScale then some ⟨negative, magnitude, scale, h.1, h.2⟩
  else none

def mantissa (d : FixedPoint) : Int := if d.negative then -(d.magnitude : Int) else d.magnitude

-- Equality of values: trailing zeros and the sign of zero do not count.
def sameValue (a b : FixedPoint) : Bool :=
  a.mantissa * Nat.pow 10 b.scale == b.mantissa * Nat.pow 10 a.scale

def chars (d : FixedPoint) : List Char :=
  let digits := Nat.toDigits 10 d.magnitude
  let filled := List.replicate (d.scale + 1 - digits.length) '0' ++ digits
  let whole := filled.length - d.scale
  let written := if d.scale = 0 then filled else filled.take whole ++ '.' :: filled.drop whole
  if d.negative then '-' :: written else written

def text (d : FixedPoint) : String := String.ofList d.chars

-- Progress of a reading: the point seen or not, and whether a digit has been. A magnitude that has
-- grown wide looks past the separators behind its last place.
structure Reading where
  magnitude : Nat
  scale : Nat
  point : Bool
  started : Bool
  wide : Bool

-- From here on one more digit may leave a word of 64 bits.
def leastWide : Nat := 1844674407370954906

namespace Reading

def start : Reading := ⟨0, 0, false, false, false⟩

def isFull (r : Reading) : Bool := r.point && greatestScale ≤ r.scale

def digit (r : Reading) (magnitude : Nat) : Reading :=
  let scale := if r.point then r.scale + 1 else r.scale
  let full := r.point && greatestScale ≤ scale
  { r with magnitude, scale, started := true, wide := r.wide || (!full && leastWide ≤ magnitude) }

def isFiller (c : Char) : Bool := isDigit c || c == '_'

-- The first character that no longer fits decides the rounding, a separator like a zero. After it
-- there may be only more of the same.
def round? (r : Reading) (c : Char) (rest : List Char) : Option (Nat × Nat) :=
  if !(c :: rest).all isFiller then none
  else if c = '_' ∨ digitValue c < 5 then some (r.magnitude, r.scale)
  else if r.magnitude + 1 ≤ greatestMagnitude then some (r.magnitude + 1, r.scale)
  else if r.scale = 0 then none
  else some ((r.magnitude + 5) / 10, r.scale - 1)

-- A separator may stand anywhere after the first digit.
def run : List Char → Reading → Option (Nat × Nat)
  | [], r => if r.started then some (r.magnitude, r.scale) else none
  | c :: rest, r =>
    if r.isFull && !(r.wide && c == '_') then r.round? c rest
    else if isDigit c then
      let next := 10 * r.magnitude + digitValue c
      if next ≤ greatestMagnitude then run rest (r.digit next)
      else if r.point then r.round? c rest
      else none
    else if c = '.' ∧ !r.point then run rest { r with point := true }
    else if c = '_' ∧ r.started then run rest r
    else none

end Reading

-- A plain zero has no sign.
def readPlain? (cs : List Char) : Option FixedPoint := do
  let (negative, digits) := splitSign cs
  let (magnitude, scale) ← Reading.run digits .start
  ofParts? (negative && magnitude != 0) magnitude scale

def isExponentMark (c : Char) : Bool := c == 'e' || c == 'E'

-- The last of the dropped places decides; a half goes up.
def dropPlaces (magnitude : Nat) : Nat → Nat
  | 0 => magnitude
  | count + 1 => (magnitude + 5 * Nat.pow 10 count) / Nat.pow 10 (count + 1)

def scaleDown? (d : FixedPoint) (power : Nat) : Option FixedPoint :=
  if greatestScale < power then none
  else
    let dropped := d.scale + power - greatestScale
    ofParts? d.negative (dropPlaces d.magnitude dropped) (d.scale + power - dropped)

def scaleUp? (d : FixedPoint) (power : Nat) : Option FixedPoint :=
  if power ≤ d.scale then ofParts? d.negative d.magnitude (d.scale - power)
  else if greatestScale < power then none
  else ofParts? d.negative (d.magnitude * Nat.pow 10 (power - d.scale)) 0

-- The mark is required here; without it the plain reading has already failed.
def readScientific? (cs : List Char) : Option FixedPoint := do
  let base ← readPlain? (cs.takeWhile fun c => !isExponentMark c)
  match cs.dropWhile (fun c => !isExponentMark c) with
  | [] => none
  | _ :: '-' :: power => (readWord32? power).bind base.scaleDown?
  | _ :: power => (readWord32? power).bind base.scaleUp?

def ofText? (s : String) : Option FixedPoint :=
  readPlain? s.toList <|> readScientific? s.toList

end FixedPoint
end FilterQuery
