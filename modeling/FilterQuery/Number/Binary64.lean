namespace FilterQuery

-- A finite double is a natural number times a power of two.
inductive Binary64 where
  | nan
  | infinite (negative : Bool)
  | finite (negative : Bool) (mantissa : Nat) (exponent : Int)
  deriving DecidableEq, Repr

namespace Binary64

def leastExponent : Int := -1074
def greatestExponent : Int := 971
def hiddenBit : Nat := 4503599627370496

-- The weight of the sign in the bits, above 52 of the fraction and 11 of the exponent.
def signWeight : Nat := 2048 * hiddenBit

def ofFloat (x : Float) : Binary64 :=
  let bits := x.toBits.toNat
  let negative := bits / signWeight == 1
  let field : Nat := bits / hiddenBit % 2048
  let fraction := bits % hiddenBit
  if field = 2047 then
    if fraction = 0 then infinite negative else nan
  else if field = 0 then finite negative fraction leastExponent
  else finite negative (hiddenBit + fraction) ((field : Int) - 1075)

-- The quotient rounded to an integer, a half going to the even neighbour.
def roundEven (numerator denominator : Nat) : Nat :=
  let quotient := numerator / denominator
  let twice := 2 * (numerator % denominator)
  if twice < denominator then quotient
  else if denominator < twice then quotient + 1
  else quotient + quotient % 2

def signBit (negative : Bool) : Nat := if negative then signWeight else 0

def infinityBits (negative : Bool) : Nat := signBit negative + 2047 * hiddenBit

-- Largest binary exponent that leaves a quotient of 53 bits, never below the subnormal one.
def scaleFor (numerator denominator : Nat) : Int :=
  let guess : Int := (numerator.log2 : Int) - denominator.log2 - 52
  let scaled (e : Int) := numerator * Nat.pow 2 (-e).toNat / (denominator * Nat.pow 2 e.toNat)
  let fitted := if scaled guess < hiddenBit then guess - 1 else guess
  max fitted leastExponent

def nearestBits (negative : Bool) (numerator denominator : Nat) : Nat :=
  if numerator = 0 then signBit negative
  else
    let e := scaleFor numerator denominator
    let rounded := roundEven (numerator * Nat.pow 2 (-e).toNat) (denominator * Nat.pow 2 e.toNat)
    let (m, e) := if rounded = 2 * hiddenBit then (hiddenBit, e + 1) else (rounded, e)
    if greatestExponent < e then infinityBits negative
    else if m < hiddenBit then signBit negative + m
    else signBit negative + (e + 1075).toNat * hiddenBit + (m - hiddenBit)

def nearest (negative : Bool) (numerator denominator : Nat) : Float :=
  Float.ofBits (nearestBits negative numerator denominator).toUInt64

-- Beyond these powers of ten every numeral is infinite or zero, whatever its digits.
def ofDecimal (negative : Bool) (digits : Nat) (exponent : Int) : Float :=
  let magnitude := exponent + (Nat.toDigits 10 digits).length
  if digits = 0 then nearest negative 0 1
  else if 400 < magnitude then Float.ofBits (infinityBits negative).toUInt64
  else if magnitude < -400 then nearest negative 0 1
  else nearest negative (digits * Nat.pow 10 exponent.toNat) (Nat.pow 10 (-exponent).toNat)

def ofInt (i : Int) : Float := nearest (i < 0) i.natAbs 1

end Binary64
end FilterQuery
