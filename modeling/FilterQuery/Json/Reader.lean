import FilterQuery.Json.Basic
import FilterQuery.Number.Reader
import FilterQuery.Text.Hex

namespace FilterQuery.Json

def isBlank (c : Char) : Bool := c == ' ' || c == '\n' || c == '\r' || c == '\t'

def skipBlanks (cs : List Char) : List Char := cs.dropWhile isBlank

def readUnit? : List Char → Option (Nat × List Char)
  | a :: b :: c :: d :: rest => do
    let a ← hexDigit? a
    let b ← hexDigit? b
    let c ← hexDigit? c
    let d ← hexDigit? d
    some (((a * 16 + b) * 16 + c) * 16 + d, rest)
  | _ => none

-- A high surrogate needs its low one; alone neither names a character.
def readEscapedUnit? (cs : List Char) : Option (Char × List Char) := do
  let (high, rest) ← readUnit? cs
  if 0xD800 ≤ high ∧ high < 0xDC00 then
    match rest with
    | '\\' :: 'u' :: tail =>
      let (low, tail) ← readUnit? tail
      if 0xDC00 ≤ low ∧ low < 0xE000 then
        some (Char.ofNat (0x10000 + (high - 0xD800) * 0x400 + (low - 0xDC00)), tail)
      else none
    | _ => none
  else if 0xDC00 ≤ high ∧ high < 0xE000 then none
  else some (Char.ofNat high, rest)

def simpleEscape? : Char → Option Char
  | '"' => some '"'
  | '\\' => some '\\'
  | '/' => some '/'
  | 'b' => some (Char.ofNat 8)
  | 'f' => some (Char.ofNat 12)
  | 'n' => some '\n'
  | 'r' => some '\r'
  | 't' => some '\t'
  | _ => none

-- The characters of a string up to its closing quote, newest first.
def readString? : Nat → List Char → List Char → Option (String × List Char)
  | 0, _, _ => none
  | _, [], _ => none
  | fuel + 1, c :: rest, seen =>
    if c = '"' then some (String.ofList seen.reverse, rest)
    else if c.toNat < 32 then none
    else if c = '\\' then
      match rest with
      | 'u' :: tail => do
        let (decoded, tail) ← readEscapedUnit? tail
        readString? fuel tail (decoded :: seen)
      | e :: tail => do
        let decoded ← simpleEscape? e
        readString? fuel tail (decoded :: seen)
      | [] => none
    else readString? fuel rest (c :: seen)

-- The significand as far as 64 bits hold it, with the power of ten it stands for.
structure Significand where
  value : Nat
  exponent : Int
  full : Bool

def Significand.whole (s : Significand) (c : Char) : Significand :=
  let next := 10 * s.value + digitValue c
  if s.full || greatestWord64 < next then ⟨s.value, s.exponent + 1, true⟩ else ⟨next, s.exponent, false⟩

-- Digits past the last that fits are dropped.
def Significand.fraction (s : Significand) (c : Char) : Significand :=
  let next := 10 * s.value + digitValue c
  if s.full || greatestWord64 < next then { s with full := true } else ⟨next, s.exponent - 1, false⟩

-- A decimal is scaled in double arithmetic, by at most two powers of ten.
def scaleDouble (significand : Nat) (exponent : Int) : Float :=
  let x := Float.ofNat significand
  let power (k : Nat) := Binary64.ofDecimal false 1 k
  if significand = 0 then 0.0
  else if 0 ≤ exponent then x * power exponent.toNat
  else if -308 ≤ exponent then x / power (-exponent).toNat
  else if exponent < -700 then 0.0
  else x / power 308 / power (-exponent - 308).toNat

def signed (negative : Bool) (x : Float) : Float := if negative then -x else x

def readFraction? (s : Significand) : List Char → Option (Significand × List Char)
  | '.' :: rest =>
    let digits := rest.takeWhile isDigit
    if digits.isEmpty then none
    else some (digits.foldl Significand.fraction { s with full := false }, rest.dropWhile isDigit)
  | cs => some (s, cs)

def readPower? : List Char → Option (Int × List Char)
  | c :: rest =>
    if c == 'e' || c == 'E' then
      let (negative, tail) := splitSign rest
      let digits := tail.takeWhile isDigit
      if digits.isEmpty then none
      else
        let n : Int := digitsValue digits
        some (if negative then -n else n, tail.dropWhile isDigit)
    else some (0, c :: rest)
  | [] => some (0, [])

-- Integers that fit 64 bits, signed or unsigned, stay integers; minus zero does not.
def readNumber? (cs : List Char) : Option (JsonNumber × List Char) := do
  let (negative, cs) := match cs with
    | '-' :: rest => (true, rest)
    | _ => (false, cs)
  let digits := cs.takeWhile isDigit
  let tail := cs.dropWhile isDigit
  match digits with
  | [] => none
  | '0' :: _ :: _ => none
  | _ =>
    let n := digitsValue digits
    let whole := digits.foldl Significand.whole ⟨0, 0, false⟩
    let (s, afterFraction) ← readFraction? whole tail
    let (power, rest) ← readPower? afterFraction
    if rest.length = tail.length ∧ (if negative then 0 < n ∧ n ≤ leastInt64.natAbs else n ≤ greatestWord64) then
      some (.int (if negative then -(n : Int) else n), rest)
    else
      let x := scaleDouble s.value (s.exponent + power)
      if x.isFinite then some (.double (signed negative x), rest) else none

def expect (word : List Char) (value : Json) (cs : List Char) : Option (Json × List Char) :=
  if word.isPrefixOf cs then some (value, cs.drop word.length) else none

mutual
-- The fuel is the length of what is left to read.
def readValue? : Nat → List Char → Option (Json × List Char)
  | 0, _ => none
  | fuel + 1, cs =>
    match skipBlanks cs with
    | '"' :: rest => (readString? (rest.length + 1) rest []).map fun (s, tail) => (.str s, tail)
    | '[' :: rest =>
      match skipBlanks rest with
      | ']' :: tail => some (.arr [], tail)
      | inner => readItems? fuel inner []
    | '\x7b' :: rest =>
      match skipBlanks rest with
      | '\x7d' :: tail => some (.obj [], tail)
      | inner => readMembers? fuel inner []
    | 'n' :: rest => expect "ull".toList .null rest
    | 't' :: rest => expect "rue".toList (.bool true) rest
    | 'f' :: rest => expect "alse".toList (.bool false) rest
    | other => (readNumber? other).map fun (n, tail) => (.num n, tail)

def readItems? : Nat → List Char → List Json → Option (Json × List Char)
  | 0, _, _ => none
  | fuel + 1, cs, seen => do
    let (item, rest) ← readValue? fuel cs
    match skipBlanks rest with
    | ',' :: tail => readItems? fuel tail (item :: seen)
    | ']' :: tail => some (.arr (item :: seen).reverse, tail)
    | _ => none

def readMembers? : Nat → List Char → List (String × Json) → Option (Json × List Char)
  | 0, _, _ => none
  | fuel + 1, cs, seen =>
    match skipBlanks cs with
    | '"' :: rest => do
      let (key, rest) ← readString? (rest.length + 1) rest []
      match skipBlanks rest with
      | ':' :: rest =>
        let (value, rest) ← readValue? fuel rest
        match skipBlanks rest with
        | ',' :: tail => readMembers? fuel tail ((key, value) :: seen)
        | '\x7d' :: tail => some (.obj ((key, value) :: seen).reverse, tail)
        | _ => none
      | _ => none
    | _ => none
end

def ofText? (s : String) : Option Json := do
  let cs := s.toList
  let (value, rest) ← readValue? (cs.length + 1) cs
  if (skipBlanks rest).isEmpty then some value else none

end FilterQuery.Json
