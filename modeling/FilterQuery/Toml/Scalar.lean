import FilterQuery.Calendar.Time
import FilterQuery.Text.Hex
import FilterQuery.Toml.Basic

namespace FilterQuery.Toml

def digitOf? (base : Nat) (c : Char) : Option Nat := (hexDigit? c).filter (· < base)

-- Every underscore has a digit after it, and before it a digit or the sign in front of all.
def isGrouped (digit : Char → Bool) : Bool → List Char → Bool
  | _, [] => true
  | joins, '_' :: rest => joins && (rest.head?.any digit) && isGrouped digit false rest
  | _, c :: rest => isGrouped digit (digit c) rest

def isGroupedNumeral (digit : Char → Bool) : List Char → Bool
  | c :: rest => c != '_' && isGrouped digit true rest
  | [] => false

def dropUnderscores (cs : List Char) : List Char := cs.filter (· != '_')

def readDigitsIn? (base : Nat) (cs : List Char) : Option Nat :=
  cs.foldlM (fun n c => (digitOf? base c).map fun d => base * n + d) 0

-- Integers that no word of 128 bits holds have no value.
def ofWord (i : Option Int) : Toml :=
  match i with
  | some i => if leastInt128 ≤ i ∧ i ≤ greatestWord128 then int i else numeral
  | none => numeral

-- The digits after the mark of a base; none at all is a numeral without a value.
def readBased? (base : Nat) (cs : List Char) : Option Toml :=
  if cs.isEmpty then some numeral
  else if isGroupedNumeral (fun c => (digitOf? base c).isSome) cs then
    (readDigitsIn? base (dropUnderscores cs)).map fun n => ofWord (some (n : Int))
  else none

def hasLeadingZero : List Char → Bool
  | '0' :: _ :: _ => true
  | _ => false

def isExponent (c : Char) : Bool := c == 'e' || c == 'E'

def isGroupChar (c : Char) : Bool := isDigit c || c == '_'

def hasDigit (cs : List Char) : Bool := cs.any isDigit

def afterSign : List Char → List Char
  | '+' :: rest => rest
  | '-' :: rest => rest
  | cs => cs

-- What follows the whole part and the fraction: nothing, or an exponent to the end.
def isPower : List Char → Bool
  | [] => true
  | c :: rest => isExponent c && hasDigit rest && (afterSign rest).all isGroupChar

def isFraction : List Char → Bool
  | '.' :: rest => hasDigit (rest.takeWhile isGroupChar) && isPower (rest.dropWhile isGroupChar)
  | cs => isPower cs

-- The shape of a double without its sign: digits on both sides of a point, no leading zeros.
def isDoubleShape (cs : List Char) : Bool :=
  let whole := cs.takeWhile isGroupChar
  hasDigit whole && (whole.head? != some '0' || whole.countP isDigit = 1) && isFraction (cs.dropWhile isGroupChar)

def twoDigits? : List Char → Option (Nat × List Char)
  | a :: b :: rest => if isDigit a && isDigit b then some (digitsValue [a, b], rest) else none
  | _ => none

def fourDigits? (cs : List Char) : Option (Nat × List Char) := do
  let (century, rest) ← twoDigits? cs
  let (year, rest) ← twoDigits? rest
  pure (100 * century + year, rest)

def readDay? (cs : List Char) : Option (List Char) := do
  let (year, cs) ← fourDigits? cs
  let (month, cs) ← twoDigits? (← expectChar? '-' cs)
  let (day, cs) ← twoDigits? (← expectChar? '-' cs)
  let _ ← Date.ofParts? year month day
  pure cs

-- Seconds may be left out, and their fraction with them.
def readSeconds? : List Char → Option (Nat × Nat × List Char)
  | ':' :: rest => do
    let (second, cs) ← twoDigits? rest
    let (nanos, cs) ← Time.readFraction? cs
    pure (second, nanos, cs)
  | cs => some (0, 0, cs)

def readClock? (cs : List Char) : Option (List Char) := do
  let (hour, cs) ← twoDigits? cs
  let (minute, cs) ← twoDigits? (← expectChar? ':' cs)
  let (second, nanos, cs) ← readSeconds? cs
  let _ ← Time.ofParts? hour minute second nanos
  pure cs

def readOffset? : List Char → Option Unit
  | [] => some ()
  | ['Z'] | ['z'] => some ()
  | sign :: rest => do
    if sign != '+' && sign != '-' then none
    else
      let (hour, cs) ← twoDigits? rest
      let (minute, cs) ← twoDigits? (← expectChar? ':' cs)
      if hour < 24 ∧ minute < 60 ∧ cs.isEmpty then pure () else none

def isDaySeparator (c : Char) : Bool := c == 'T' || c == 't' || c == ' '

-- An offset needs a day and a time before it.
def isMoment (cs : List Char) : Bool :=
  match readDay? cs with
  | some [] => true
  | some (c :: rest) => isDaySeparator c && ((readClock? rest).bind readOffset?).isSome
  | none => readClock? cs == some []

def signedInfinity (negative : Bool) : Toml := float (Float.ofBits (Binary64.infinityBits negative).toUInt64)

-- A double beyond the greatest has no value.
def ofDouble (x : Option Float) : Toml :=
  match x with
  | some x => if x.isFinite then float x else numeral
  | none => numeral

-- After the first digits: nothing, the rest of a moment, of a double or of a grouped integer.
def readNumber? (cs : List Char) : Option Toml :=
  let (negative, digits) := splitSign cs
  let rest := digits.dropWhile isDigit
  let ungrouped := dropUnderscores cs
  match rest.head? with
  | none =>
    if hasLeadingZero digits then none else some (ofWord (readIntIn? leastInt128 greatestWord128 cs))
  | some c =>
    if c = '-' ∨ c = ':' then (if isMoment cs then some (moment (String.ofList cs)) else none)
    else if rest.any fun c => c == '.' || isExponent c then
      if isDoubleShape digits && isGroupedNumeral isDigit cs then
        some (ofDouble (readMagnitude? negative (afterSign ungrouped)))
      else none
    else if c = '_' ∧ !hasLeadingZero digits ∧ isGroupedNumeral (fun c => (hexDigit? c).isSome) cs then
      some (ofWord (readIntIn? leastInt128 greatestWord128 ungrouped))
    else none

def readSigned? (cs : List Char) : Option Toml :=
  let (negative, digits) := splitSign cs
  match digits with
  | ['i', 'n', 'f'] => some (signedInfinity negative)
  | ['n', 'a', 'n'] => some (float (0.0 / 0.0))
  | c :: _ => if isGroupChar c then readNumber? cs else none
  | [] => none

-- The mark of a base stands without a sign.
def ofToken? (cs : List Char) : Option Toml :=
  match cs with
  | ['t', 'r', 'u', 'e'] => some (bool true)
  | ['f', 'a', 'l', 's', 'e'] => some (bool false)
  | '0' :: 'x' :: digits => readBased? 16 digits
  | '0' :: 'o' :: digits => readBased? 8 digits
  | '0' :: 'b' :: digits => readBased? 2 digits
  | _ => readSigned? cs

end FilterQuery.Toml
