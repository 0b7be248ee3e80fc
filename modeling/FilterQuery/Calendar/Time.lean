import FilterQuery.Calendar.Date

namespace FilterQuery

def secondsPerDay : Nat := 86400
def nanosPerSecond : Nat := 1000000000

-- Second sixty of a minute is its last second with a nanosecond count of one second or more.
structure Time where
  seconds : Nat
  nanos : Nat
  inDay : seconds < secondsPerDay
  bounded : nanos < 2 * nanosPerSecond
  deriving DecidableEq

namespace Time

def ofSeconds? (seconds nanos : Nat) : Option Time :=
  if h : seconds < secondsPerDay ∧ nanos < 2 * nanosPerSecond then some ⟨seconds, nanos, h.1, h.2⟩ else none

def ofParts? (hour minute second nanos : Nat) : Option Time :=
  if hour < 24 ∧ minute < 60 ∧ second ≤ 60 ∧ nanos < nanosPerSecond then
    if second = 60 then ofSeconds? (hour * 3600 + minute * 60 + 59) (nanosPerSecond + nanos)
    else ofSeconds? (hour * 3600 + minute * 60 + second) nanos
  else none

-- No digits, or three, six or nine of them.
def fractionText (nanos : Nat) : List Char :=
  if nanos = 0 then []
  else if nanos % 1000000 = 0 then '.' :: padLeft 3 (nanos / 1000000)
  else if nanos % 1000 = 0 then '.' :: padLeft 6 (nanos / 1000)
  else '.' :: padLeft 9 nanos

def chars (t : Time) : List Char :=
  let second := t.seconds % 60 + t.nanos / nanosPerSecond
  padLeft 2 (t.seconds / 3600) ++ ':' :: padLeft 2 (t.seconds / 60 % 60) ++ ':' :: padLeft 2 second ++
    fractionText (t.nanos % nanosPerSecond)

def text (t : Time) : String := String.ofList t.chars

-- Digits beyond the ninth are cut off.
def readFraction? : List Char → Option (Nat × List Char)
  | '.' :: rest =>
    let digits := rest.takeWhile isDigit
    let kept := digits.take 9
    if digits.isEmpty then none
    else some (digitsValue kept * Nat.pow 10 (9 - kept.length), rest.dropWhile isDigit)
  | cs => some (0, cs)

def readMinutes? (cs : List Char) : Option (Nat × Nat × List Char) := do
  let (hour, cs) ← readField? 2 cs
  let cs ← expectChar? ':' cs
  let (minute, cs) ← readField? 2 cs
  some (hour, minute, cs)

def read? (cs : List Char) : Option (Time × List Char) := do
  let (hour, minute, cs) ← readMinutes? cs
  let cs ← expectChar? ':' cs
  let (second, cs) ← readField? 2 cs
  let (nanos, cs) ← readFraction? cs
  let time ← ofParts? hour minute second nanos
  some (time, cs)

-- Seconds may be left out.
def ofText? (s : String) : Option Time :=
  match read? s.toList with
  | some (time, []) => some time
  | _ =>
    match readMinutes? s.toList with
    | some (hour, minute, []) => ofParts? hour minute 0 0
    | _ => none

end Time
end FilterQuery
