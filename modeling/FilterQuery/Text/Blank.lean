namespace FilterQuery

-- The White_Space property of Unicode.
def isBlank (c : Char) : Bool :=
  let n := c.toNat
  (9 ≤ n && n ≤ 13) || n == 0x20 || n == 0x85 || n == 0xA0 || n == 0x1680 ||
    (0x2000 ≤ n && n ≤ 0x200A) || n == 0x2028 || n == 0x2029 || n == 0x202F || n == 0x205F || n == 0x3000

def trimStart (cs : List Char) : List Char := cs.dropWhile isBlank

def trimEnd (cs : List Char) : List Char := (cs.reverse.dropWhile isBlank).reverse

def trim (cs : List Char) : List Char := trimEnd (trimStart cs)

-- Letters outside ASCII keep their case.
def lowerAscii (cs : List Char) : List Char := cs.map Char.toLower

def lowerText (s : String) : String := String.ofList (lowerAscii s.toList)

-- Decimal digits, filled up with zeros on the left.
def padLeft (width n : Nat) : List Char :=
  let digits := Nat.toDigits 10 n
  List.replicate (width - digits.length) '0' ++ digits

end FilterQuery
