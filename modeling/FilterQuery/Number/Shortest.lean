import FilterQuery.Number.Binary64

namespace FilterQuery

structure Decimal10 where
  digits : Nat
  exponent : Int
  deriving DecidableEq, Repr

inductive Tie where
  | toEven
  | up
  deriving DecidableEq, Repr

namespace Shortest

-- The reals that round to m * 2^q, in quarters of the last place: ends count iff m is even.
structure Interval where
  low : Nat
  value : Nat
  high : Nat
  closed : Bool
  exponent : Int

def interval (m : Nat) (q : Int) : Interval :=
  let narrow := m = Binary64.hiddenBit ∧ Binary64.leastExponent < q
  ⟨4 * m - (if narrow then 1 else 2), 4 * m, 4 * m + 2, m % 2 == 0, q - 2⟩

-- All sides of one comparison over a common denominator.
structure Scaled where
  low : Nat
  value : Nat
  high : Nat
  closed : Bool
  step : Nat

def Interval.scaled (i : Interval) (k : Int) : Scaled :=
  let up := Nat.pow 2 i.exponent.toNat * Nat.pow 10 (-k).toNat
  ⟨i.low * up, i.value * up, i.high * up, i.closed, Nat.pow 10 k.toNat * Nat.pow 2 (-i.exponent).toNat⟩

def Scaled.holds (s : Scaled) (d : Nat) : Bool :=
  let x := d * s.step
  if s.closed then s.low ≤ x && x ≤ s.high else s.low < x && x < s.high

def Scaled.pick (tie : Tie) (s : Scaled) : Option Nat :=
  let below := s.value / s.step
  let above := below + 1
  match s.holds below, s.holds above with
  | false, false => none
  | true, false => some below
  | false, true => some above
  | true, true =>
    let twice := 2 * (s.value % s.step)
    if twice < s.step then some below
    else if s.step < twice then some above
    else match tie with
      | .up => some above
      | .toEven => some (if below % 2 = 0 then below else above)

-- The power of ten of the leading digit: 10^k ≤ value < 10^(k+1).
def leading (i : Interval) : Int :=
  let numerator := i.value * Nat.pow 2 i.exponent.toNat
  let denominator := Nat.pow 2 (-i.exponent).toNat
  if denominator ≤ numerator then
    ((Nat.toDigits 10 (numerator / denominator)).length : Int) - 1
  else
    let k := (Nat.toDigits 10 ((denominator - 1) / numerator)).length
    if denominator ≤ numerator * Nat.pow 10 (k - 1) then -((k : Int) - 1) else -(k : Int)

-- The grids of one to seventeen digits are tried in turn, each with the two neighbours of the value on it.
def digitsFrom (tie : Tie) (i : Interval) (top : Int) : Nat → Nat → Decimal10
  | 0, count => ⟨(i.scaled (top - count + 1)).value / (i.scaled (top - count + 1)).step, top - count + 1⟩
  | left + 1, count =>
    let k := top - count + 1
    match (i.scaled k).pick tie with
    | some d => ⟨d, k⟩
    | none => digitsFrom tie i top left (count + 1)

end Shortest

-- The digits of a positive m * 2^q.
def shortest (tie : Tie) (m : Nat) (q : Int) : Decimal10 :=
  let i := Shortest.interval m q
  Shortest.digitsFrom tie i (Shortest.leading i) 17 1

end FilterQuery
