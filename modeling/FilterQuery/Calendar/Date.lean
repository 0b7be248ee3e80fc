import FilterQuery.Number.Reader
import FilterQuery.Text.Blank

namespace FilterQuery

-- The proleptic Gregorian calendar.
def isLeapYear (year : Int) : Bool :=
  year % 4 == 0 && (year % 100 != 0 || year % 400 == 0)

def daysInMonth (year : Int) (month : Nat) : Nat :=
  if month = 2 then (if isLeapYear year then 29 else 28)
  else if month = 4 ∨ month = 6 ∨ month = 9 ∨ month = 11 then 30
  else 31

def leastYear : Int := -262143
def greatestYear : Int := 262142

def IsDate (year : Int) (month day : Nat) : Prop :=
  leastYear ≤ year ∧ year ≤ greatestYear ∧ 1 ≤ month ∧ month ≤ 12 ∧ 1 ≤ day ∧ day ≤ daysInMonth year month

instance (year : Int) (month day : Nat) : Decidable (IsDate year month day) :=
  inferInstanceAs (Decidable (_ ∧ _ ∧ _ ∧ _ ∧ _ ∧ _))

structure Date where
  year : Int
  month : Nat
  day : Nat
  valid : IsDate year month day
  deriving DecidableEq

namespace Date

def ofParts? (year : Int) (month day : Nat) : Option Date :=
  if valid : IsDate year month day then some ⟨year, month, day, valid⟩ else none

def next? (d : Date) : Option Date :=
  if d.day < daysInMonth d.year d.month then ofParts? d.year d.month (d.day + 1)
  else if d.month < 12 then ofParts? d.year (d.month + 1) 1
  else ofParts? (d.year + 1) 1 1

def previous? (d : Date) : Option Date :=
  if 1 < d.day then ofParts? d.year d.month (d.day - 1)
  else if 1 < d.month then ofParts? d.year (d.month - 1) (daysInMonth d.year (d.month - 1))
  else ofParts? (d.year - 1) 12 31

def yearText (year : Int) : List Char :=
  if 0 ≤ year ∧ year ≤ 9999 then padLeft 4 year.toNat
  else (if year < 0 then '-' else '+') :: padLeft 4 year.natAbs

def chars (d : Date) : List Char :=
  yearText d.year ++ '-' :: padLeft 2 d.month ++ '-' :: padLeft 2 d.day

def text (d : Date) : String := String.ofList d.chars

end Date

-- A number of at most so many digits, after any blanks.
def readField? (most : Nat) (cs : List Char) : Option (Nat × List Char) :=
  let cs := trimStart cs
  let digits := (cs.take most).takeWhile isDigit
  if digits.isEmpty then none else some (digitsValue digits, cs.drop digits.length)

def readYear? (cs : List Char) : Option (Int × List Char) :=
  match trimStart cs with
  | '-' :: rest => (readSigned rest).map fun (n, tail) => (-(n : Int), tail)
  | '+' :: rest => (readSigned rest).map fun (n, tail) => ((n : Int), tail)
  | other => (readField? 4 other).map fun (n, tail) => ((n : Int), tail)
where
  readSigned (cs : List Char) : Option (Nat × List Char) :=
    let digits := cs.takeWhile isDigit
    if digits.isEmpty then none else some (digitsValue digits, cs.dropWhile isDigit)

def expectChar? (c : Char) : List Char → Option (List Char)
  | d :: rest => if d = c then some rest else none
  | [] => none

def Date.read? (cs : List Char) : Option (Date × List Char) := do
  let (year, cs) ← readYear? cs
  let cs ← expectChar? '-' cs
  let (month, cs) ← readField? 2 cs
  let cs ← expectChar? '-' cs
  let (day, cs) ← readField? 2 cs
  let date ← Date.ofParts? year month day
  some (date, cs)

def Date.ofText? (s : String) : Option Date :=
  match Date.read? s.toList with
  | some (date, []) => some date
  | _ => none

end FilterQuery
