import FilterQuery.Number.Binary64
import FilterQuery.Number.Word

namespace FilterQuery

def isDigit (c : Char) : Bool := '0' ≤ c && c ≤ '9'

def digitValue (c : Char) : Nat := c.toNat - '0'.toNat

def digitsValue (cs : List Char) : Nat := cs.foldl (fun n c => 10 * n + digitValue c) 0

-- A non-empty run of decimal digits and nothing else.
def readDigits? (cs : List Char) : Option Nat :=
  if cs.isEmpty || !cs.all isDigit then none else some (digitsValue cs)

-- A minus sign belongs to signed ranges only, so an unsigned range refuses even -0.
def readIntIn? (least greatest : Int) (cs : List Char) : Option Int := do
  let value ← match cs with
    | '+' :: rest => (readDigits? rest).map Int.ofNat
    | '-' :: rest => if least < 0 then (readDigits? rest).map fun n => -(n : Int) else none
    | _ => (readDigits? cs).map Int.ofNat
  if least ≤ value ∧ value ≤ greatest then some value else none

def readInt64? (s : String) : Option Int64 :=
  (readIntIn? leastInt64 greatestInt64 s.toList).map Int64.ofInt

def readWord32? (cs : List Char) : Option Nat :=
  (readIntIn? 0 greatestWord32 cs).map Int.toNat

def splitSign : List Char → Bool × List Char
  | '-' :: rest => (true, rest)
  | '+' :: rest => (false, rest)
  | cs => (false, cs)

-- The exponent part: nothing, or e with an optionally signed run of digits.
def readExponent? : List Char → Option Int
  | [] => some 0
  | c :: rest =>
    if c == 'e' || c == 'E' then
      let (negative, digits) := splitSign rest
      (readDigits? digits).map fun n => if negative then -(n : Int) else n
    else none

def readMagnitude? (negative : Bool) (cs : List Char) : Option Float := do
  let whole := cs.takeWhile isDigit
  let afterWhole := cs.dropWhile isDigit
  let (fraction, tail) := match afterWhole with
    | '.' :: rest => (rest.takeWhile isDigit, rest.dropWhile isDigit)
    | _ => ([], afterWhole)
  if whole.isEmpty && fraction.isEmpty then none
  else
    let exponent ← readExponent? tail
    some (Binary64.ofDecimal negative (digitsValue (whole ++ fraction)) (exponent - fraction.length))

def readFloat? (s : String) : Option Float :=
  let (negative, cs) := splitSign s.toList
  match String.ofList (cs.map Char.toLower) with
  | "nan" => some (0.0 / 0.0)
  | "inf" | "infinity" => some (Float.ofBits (Binary64.infinityBits negative).toUInt64)
  | _ => readMagnitude? negative cs

end FilterQuery
