import FilterQuery.Number.Shortest

namespace FilterQuery

-- Where positional writing ends, whether a whole number keeps a point, and the words for what is not finite.
structure NumberStyle where
  tie : Tie
  positional : Int → Bool
  wholePoint : Bool
  nan : String
  infinity : String
  negativeInfinity : String

namespace NumberStyle

-- Every finite number is written out in full.
def plain : NumberStyle := ⟨.up, fun _ => true, false, "NaN", "inf", "-inf"⟩

-- JSON has no word for what is not finite.
def json : NumberStyle := ⟨.toEven, fun top => -5 ≤ top && top < 16, true, "null", "null", "null"⟩

def zeros (n : Nat) : List Char := List.replicate n '0'

def dropTrailingZeros (digits : List Char) : List Char :=
  (digits.reverse.dropWhile (· == '0')).reverse

-- Digits d1 d2 … stand for d1.d2… times ten to the power of top.
def writePositional (style : NumberStyle) (digits : List Char) (top : Int) : List Char :=
  if top < 0 then '0' :: '.' :: zeros (-top - 1).toNat ++ digits
  else
    let whole := top.toNat + 1
    if digits.length ≤ whole then
      digits ++ zeros (whole - digits.length) ++ (if style.wholePoint then ['.', '0'] else [])
    else digits.take whole ++ '.' :: digits.drop whole

def writeExponent (digits : List Char) (top : Int) : List Char :=
  let fraction := match digits with
    | [] => []
    | [d] => [d]
    | d :: rest => d :: '.' :: rest
  let sign := if top < 0 then '-' else '+'
  fraction ++ 'e' :: sign :: Nat.toDigits 10 top.natAbs

def magnitude (style : NumberStyle) (m : Nat) (q : Int) : List Char :=
  if m = 0 then writePositional style ['0'] 0
  else
    let d := shortest style.tie m q
    let written := Nat.toDigits 10 d.digits
    let top := d.exponent + written.length - 1
    let kept := dropTrailingZeros written
    if style.positional top then writePositional style kept top else writeExponent kept top

def write (style : NumberStyle) (x : Float) : String :=
  match Binary64.ofFloat x with
  | .nan => style.nan
  | .infinite false => style.infinity
  | .infinite true => style.negativeInfinity
  | .finite false m q => String.ofList (style.magnitude m q)
  | .finite true m q => String.ofList ('-' :: style.magnitude m q)

end NumberStyle

-- The text of a double outside JSON.
def floatText (x : Float) : String := NumberStyle.plain.write x

end FilterQuery
