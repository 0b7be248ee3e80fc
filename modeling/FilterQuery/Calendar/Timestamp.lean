import FilterQuery.Calendar.Time

namespace FilterQuery

-- In UTC, whatever offset the text had; a text without one is taken as UTC.
structure Timestamp where
  date : Date
  time : Time
  deriving DecidableEq

namespace Timestamp

def chars (t : Timestamp) : List Char := t.date.chars ++ 'T' :: t.time.chars

def text (t : Timestamp) : String := String.ofList (t.chars ++ "+00:00".toList)

def serialText (t : Timestamp) : String := String.ofList (t.chars ++ ['Z'])

def readExactly? (count : Nat) (cs : List Char) : Option (Nat × List Char) :=
  let digits := cs.take count
  if digits.length = count ∧ digits.all isDigit then some (digitsValue digits, cs.drop count) else none

-- The offset in minutes east of UTC, less than a day either way.
def readOffset? : List Char → Option (Int × List Char)
  | [] => none
  | c :: rest =>
    if c = 'Z' ∨ c = 'z' then some (0, rest)
    else if c = '+' ∨ c = '-' ∨ c = '\u2212' then do
      let (hours, cs) ← readExactly? 2 rest
      let cs ← expectChar? ':' cs
      let (minutes, cs) ← readExactly? 2 cs
      let total : Int := hours * 60 + minutes
      if minutes < 60 ∧ total < 24 * 60 then some (if c = '+' then total else -total, cs) else none
    else none

def isSeparator (c : Char) : Bool := c == 'T' || c == 't' || c == ' '

-- A local time less its offset; a leap second stays one.
def ofLocal? (date : Date) (time : Time) (offset : Int) : Option Timestamp := do
  let shifted : Int := time.seconds - offset * 60
  let day ←
    if shifted < 0 then date.previous?
    else if (secondsPerDay : Int) ≤ shifted then date.next?
    else some date
  let clock ← Time.ofSeconds? (shifted % secondsPerDay).toNat time.nanos
  some ⟨day, clock⟩

def readStrict? (cs : List Char) : Option Timestamp := do
  let (year, cs) ← readExactly? 4 cs
  let cs ← expectChar? '-' cs
  let (month, cs) ← readExactly? 2 cs
  let cs ← expectChar? '-' cs
  let (day, cs) ← readExactly? 2 cs
  match cs with
  | [] => none
  | separator :: cs =>
    if isSeparator separator then
      let (hour, cs) ← readExactly? 2 cs
      let cs ← expectChar? ':' cs
      let (minute, cs) ← readExactly? 2 cs
      let cs ← expectChar? ':' cs
      let (second, cs) ← readExactly? 2 cs
      let (nanos, cs) ← Time.readFraction? cs
      let (offset, cs) ← readOffset? cs
      let date ← Date.ofParts? year month day
      let time ← Time.ofParts? hour minute second nanos
      if cs.isEmpty then ofLocal? date time offset else none
    else none

def readNaive? (separator : List Char → Option (List Char)) (cs : List Char) : Option Timestamp := do
  let (date, cs) ← Date.read? cs
  let cs ← separator cs
  let (time, cs) ← Time.read? cs
  if cs.isEmpty then some ⟨date, time⟩ else none

-- A letter T, or any blanks, even none.
def ofText? (s : String) : Option Timestamp :=
  let cs := s.toList
  readStrict? cs <|> readNaive? (expectChar? 'T') cs <|> readNaive? (fun rest => some (trimStart rest)) cs

end Timestamp
end FilterQuery
