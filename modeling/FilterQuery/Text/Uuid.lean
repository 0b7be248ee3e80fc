import FilterQuery.Text.Blank
import FilterQuery.Text.Hex

namespace FilterQuery

-- Sixteen bytes, written as thirty-two hexadecimal digits.
structure Uuid where
  digits : List Nat
  count : digits.length = 32
  bounded : ∀ d ∈ digits, d < 16
  deriving DecidableEq

namespace Uuid

def ofDigits? (digits : List Nat) : Option Uuid :=
  if h : digits.length = 32 ∧ ∀ d ∈ digits, d < 16 then some ⟨digits, h.1, h.2⟩ else none

def readSimple? (cs : List Char) : Option Uuid := (cs.mapM hexDigit?).bind ofDigits?

def isHyphenPlace (i : Nat) : Bool := i == 8 || i == 13 || i == 18 || i == 23

-- Hyphens in their four places and nowhere else.
def readHyphenated? (cs : List Char) : Option Uuid :=
  if cs.length = 36 ∧ cs.zipIdx.all (fun (c, i) => (c == '-') == isHyphenPlace i) then
    readSimple? (cs.filter (· != '-'))
  else none

def urn : List Char := "urn:uuid:".toList

def ofText? (s : String) : Option Uuid :=
  let cs := s.toList
  match cs.length with
  | 32 => readSimple? cs
  | 36 => readHyphenated? cs
  | 38 => if cs.head? = some '\x7b' ∧ cs.getLast? = some '\x7d' then readHyphenated? (cs.drop 1).dropLast else none
  | 45 => if lowerAscii (cs.take 9) = urn then readHyphenated? (cs.drop 9) else none
  | _ => none

def hyphenate (i : Nat) : List Char → List Char
  | [] => []
  | c :: rest => (if i = 8 ∨ i = 12 ∨ i = 16 ∨ i = 20 then ['-', c] else [c]) ++ hyphenate (i + 1) rest

def text (u : Uuid) : String := String.ofList (hyphenate 0 (u.digits.map Nat.digitChar))

end Uuid
end FilterQuery
